import Plainsong.Abc.Score.State
/- Voices laid over each other: measures of one part are put behind those of
   another, with a step back in time between them. -/
namespace Plainsong.Abc.Score

open Grammar (Fault)

def greatest (xs : List Int) : Int := xs.foldl max 0

def raiseAttr (es : List Nat) (key : String) (by_ : Int) : ScoreM Unit := do
  for e in es do
    setAttr e key (toString ((← attrInt e key) + by_))

def noteTime (n : Nat) : ScoreM Int := do
  if (← child? n "grace").isSome || (← child? n "chord").isSome then return 0
  match ← child? n "duration" with
  | some d => textInt d
  | none => throw .noProperty

def measureTime (m : Nat) : ScoreM Int := do
  let notes ← (← findAll m ["note"]).mapM noteTime
  let backs ← (← findAll m ["backup", "duration"]).mapM textInt
  return notes.foldl (· + ·) 0 - backs.foldl (· + ·) 0

/-- What a measure brings into another. -/
structure Bringing where
  elements : List Nat := []
  real : Nat := 0
  repeatBar : Option Nat := none

/-- Sorts the elements of a measure: attributes count on a grand staff only, and
    rests only if asked for. -/
def bring (withRests isGrand : Bool) (b : Bringing) (e : Nat) : ScoreM Bringing := do
  let t := (← get).tree
  let tag := (t.get e).tag
  if tag == "attributes" && !isGrand || tag == "print" then return b
  let counts := tag == "attributes" || (tag == "note" && (withRests || (t.child? e "rest").isNone))
  let isRepeat := tag == "barline" && (t.child? e "repeat").isSome
  return {
    elements := b.elements ++ [e]
    real := if counts then b.real + 1 else b.real
    repeatBar := if isRepeat then some e else b.repeatBar }

/-- How measures are merged. -/
structure Merging where
  slurOffset : Int
  voiceOffset : Int
  withRests : Bool
  isGrand : Bool := false
  isOverlay : Bool := false

def mergeMeasure (into from_ : Nat) (o : Merging) : ScoreM Unit := do
  raiseAttr (← findAll from_ ["note", "notations", "slur"]) "number" o.slurOffset
  for v in ← findAll from_ ["note", "voice"] do
    setText v (toString (o.voiceOffset + (← textInt v)))
  let verses ← (← findAll into ["note", "lyric"]).mapM fun l => attrInt l "number"
  raiseAttr (← findAll from_ ["note", "lyric"]) "number" (greatest verses)
  let time ← measureTime into
  let b ← (← element from_).children.toList.foldlM (bring o.withRests o.isGrand) {}
  if 0 < b.real then
    if 0 < time then
      let back ← addNew into "backup" [] 3
      let _ ← addText back "duration" (toString time) 4
    for e in b.elements do
      addElem into e 3
  else if o.isOverlay then
    if let some e := b.repeatBar then addElem into e 3

def dropAttributes (part : Nat) : ScoreM Unit := do
  let measures ← findAll part ["measure"]
  let pairs ← measures.mapM fun m => do return (← findAll m ["attributes"]).map fun e => (m, e)
  for (m, e) in pairs.flatten do
    for c in (← element e).children do
      let tag := (← element c).tag
      if tag ≠ "clef" && tag ≠ "staff-details" then removeElem e c
    if (← element e).children.isEmpty then removeElem m e

def mergePart (withRests isGrand : Bool) (into from_ : Nat) : ScoreM Unit := do
  if isGrand then dropAttributes from_
  let have_ := (← element into).children.size
  let want := (← element from_).children.size
  for i in List.range (want - have_) do
    let m ← elem "measure" [("number", toString (have_ + 1 + i))]
    addElem into m 2
  let slurs ← (← findAll into ["measure", "note", "notations", "slur"]).mapM fun e => attrInt e "number"
  let voices ← (← findAll into ["measure", "note", "voice"]).mapM textInt
  let o : Merging := { slurOffset := greatest slurs, voiceOffset := greatest voices, withRests, isGrand }
  for (m, i) in (← findAll from_ ["measure"]).zipIdx do
    match (← element into).children[i]? with
    | some target => mergeMeasure target m o
    | none => throw .outOfRange

/-- Merges parts as a layout says: each entry lists voices whose parts become
    one. Voices that do not exist are reported. -/
def mergeParts (parts : List (String × Nat)) (plan : List (List String)) (withRests isGrand : Bool) :
    ScoreM (List (String × Nat)) := do
  if plan.isEmpty then return parts
  let mut out : List (String × Nat) := []
  for voices in plan do
    for v in voices do
      if !parts.any (·.1 == v) then warn ("score partname " ++ v ++ " does not exist")
    match voices.filterMap fun v => parts.find? (·.1 == v) with
    | [] => pure ()
    | (voice, part) :: others =>
      for (_, other) in others do
        mergePart withRests isGrand part other
      out := out ++ [(voice, part)]
  return out

def mergeOverlay (part measure : Nat) (overlay : Int) (withRests : Bool) : ScoreM Unit := do
  match (← element part).children.back? with
  | some last => mergeMeasure last measure { slurOffset := 0, voiceOffset := overlay, withRests, isOverlay := true }
  | none => throw .outOfRange

end Plainsong.Abc.Score
