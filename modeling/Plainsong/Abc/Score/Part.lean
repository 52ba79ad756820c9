import Plainsong.Abc.Score.Measure
import Plainsong.Abc.Score.Merge
/- Parts: the measures of a voice, and the list of parts at the start of a
   score with the instruments they use. -/
namespace Plainsong.Abc.Score

open Grammar (Fault)

def partMeasures (part : Nat) (level : Int) (withRests : Bool) : List (List Node) → Nat → Bool → ScoreM Unit
  | [], _, _ => pure ()
  | nodes :: rest, number, overlay => do
    modify fun s => { s with overlay := if overlay then s.overlay + 1 else 0 }
    let (m, next) ← measure number nodes level []
    if overlay then mergeOverlay part m (← get).overlay withRests
    else addElem part m level
    partMeasures part level withRests rest (number + 1) next

def writePart (measures : List (List Node)) (id : String) (level : Int) (start : Table String String)
    (staffCount : Int) (withRests : Bool) : ScoreM Nat := do
  modify fun s => { s with
    slurs := [], glissandi := 0, slides := 0, unitNow := s.unit, volta := "", openDashes := [], lineBreak := false
    program := {}, isCue := false, octaveShift := 0, isPercussion := false, clef := "", noStems := false
    tuning := guitar }
  let p ← elem "part" [("id", id)]
  modify fun s => { s with overlay := 0 }
  let start := if (← staff) = 1 then start.put "gstaff" (if staffCount = 0 then "" else toString staffCount) else start
  let start := if Text.has ((start.find? "V").getD "") "perc" then start.erase "K" else start
  match measures with
  | [] => throw .outOfRange
  | first :: rest =>
    let (m, overlay) ← measure 1 first (level + 1) start
    addElem p m (level + 1)
    partMeasures p (level + 1) withRests rest 2 overlay
    return p

/-! ## Instruments -/

def instrumentOrder (a b : Instrument) : Bool :=
  let key (i : Instrument) := [i.part, i.voice, i.channel, i.program, i.volume, i.pan]
  compareOfLessAndEq (key a) (key b) != .gt

/-- What the instruments of a part come down to: one identifier for each pair of
    channel and program, the others with the one that replaces them, and whether
    there is percussion. -/
structure Reduction where
  kept : Table (String × String) String := []
  replaced : Table String String := []
  hasPercussion : Bool := false

def reduceInstrument (part : String) (r : Reduction) (i : Instrument) : Reduction :=
  if i.part ≠ part then r
  else if i.channel = "10" then { r with hasPercussion := true }
  else
    let id := "I" ++ i.part ++ "-" ++ i.voice
    match r.kept.find? (i.channel, i.program) with
    | some other => { r with replaced := r.replaced.put id other }
    | none => { r with kept := r.kept.put (i.channel, i.program) id }

/-- Removes instruments that sound alike from a part; with one instrument left
    the notes need not name it. -/
def reduceInstruments (name : String) (part : Nat) : ScoreM Unit := do
  let all := ((← get).instruments.map (·.2)).mergeSort instrumentOrder
  let r := all.foldl (reduceInstrument name) {}
  modify fun s => { s with instruments := r.replaced.foldl (fun t (id, _) => t.erase id) s.instruments }
  if r.kept.length < 2 && !r.hasPercussion then
    for n in ← findAll part ["measure", "note"] do
      if let some i ← child? n "instrument" then removeElem n i
  else
    for e in ← findAll part ["measure", "note", "instrument"] do
      if let some id := (← element e).attr? "id" then
        if let some other := r.replaced.find? id then setAttr e "id" other

def instrumentElements (names : Table String (String × String)) (id : String) (i : Instrument) (level : Int) :
    ScoreM (Nat × Nat) := do
  let isDrum := i.channel = "10"
  let program := if isDrum then "0" else i.program
  let sound := if isDrum then i.program else ""
  let si ← elem "score-instrument" [("id", id)]
  let name := ((names.find? i.voice).map (·.1)).getD ""
  let _ ← addText si "instrument-name" (if name.isEmpty then "dummy" else name) (level + 2)
  let mi ← elem "midi-instrument" [("id", id)]
  if !i.channel.isEmpty then
    let _ ← addText mi "midi-channel" i.channel (level + 2)
  if !program.isEmpty then
    let _ ← addText mi "midi-program" (toString ((← readInt program) + 1)) (level + 2)
  if !sound.isEmpty then
    let _ ← addText mi "midi-unpitched" (toString ((← readInt sound) + 1)) (level + 2)
  if !i.volume.isEmpty then
    let _ ← addText mi "volume" (Decimal.fixed 2 (Decimal.ofInt (← readInt i.volume) / 1.27)) (level + 2)
  if !i.pan.isEmpty then
    let _ ← addText mi "pan" (Decimal.fixed 2 (Decimal.ofInt (← readInt i.pan) / 127.0 * 180.0 - 90.0)) (level + 2)
  return (si, mi)

/-! ## The list of parts -/

def scorePart (names : Table String (String × String)) (voice : String) (level : Int) : ScoreM Nat := do
  let (name, short) := (names.find? voice).getD ("", "")
  let e ← elem "score-part" [("id", "P" ++ voice)]
  let _ ← addText e "part-name" name (level + 1)
  if !short.isEmpty then
    let _ ← addText e "part-abbreviation" short (level + 1)
  let used := (← get).instruments.mergeSort fun a b => decide (a.1 ≤ b.1)
  let pairs ← (used.filter fun (_, i) => i.part == voice).mapM fun (id, i) => instrumentElements names id i level
  for (si, _) in pairs do
    addElem e si (level + 1)
  for (_, mi) in pairs do
    addElem e mi (level + 1)
  return e

def startGroup (list : Nat) (symbol : String) (number : Int) (level : Int) : ScoreM Unit := do
  let g ← addNew list "part-group" [("number", toString number), ("type", "start")] level
  let _ ← addText g "group-symbol" symbol (level + 1)
  let _ ← addText g "group-barline" "yes" (level + 1)

def partEntries (list : Nat) (voices : List String) (names : Table String (String × String)) (level : Int) :
    List String → Int → ScoreM Unit
  | [], _ => pure ()
  | g :: rest, depth => do
    if g = "[" then
      startGroup list "bracket" (depth + 1) level
      partEntries list voices names level rest (depth + 1)
    else if g = "\x7b" then
      startGroup list "brace" (depth + 1) level
      partEntries list voices names level rest (depth + 1)
    else if Text.has "\x7d]" g then
      let _ ← addNew list "part-group" [("number", toString depth), ("type", "stop")] level
      partEntries list voices names level rest (depth - 1)
    else
      if voices.contains g then addElem list (← scorePart names g level) level
      partEntries list voices names level rest depth

def partList (voices : List String) (names : Table String (String × String)) (level : Int) : ScoreM Nat := do
  let list ← elem "part-list" []
  let groups := (← get).layout.groups
  partEntries list voices names (level + 1) (if groups.isEmpty then voices else groups) 0
  return list

end Plainsong.Abc.Score
