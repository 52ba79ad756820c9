import Plainsong.Abc.Score.Notations
/- Notes and rests: how long they last, how they look, and what belongs to
   them. -/
namespace Plainsong.Abc.Score

open Grammar (Fault)

/-! ## Lengths -/

/-- Counts a note of a tuplet; grace notes and notes that join a chord do not
    count. A tremolo of two notes ends with the first note behind it. -/
def countTuplet (n : Node) : ScoreM Unit := do
  let s ← get
  if 0 ≤ s.tupletLeft && !n.isGrace && !n.has "chord" then
    let left := s.tupletLeft - 1
    modify fun s => { s with tupletLeft := left, inTremolo := s.inTremolo && !(left = -1 && s.tremolo ≤ 0) }

/-- How long a note lasts. -/
structure Length where
  written : Int × Int
  ticks : Int
  /-- The part of four whole notes that the note's type is, and the dots on it. -/
  part : Int
  dots : Nat
  fillsMeasure : Bool

def limitDenominator (num den : Int) : ScoreM (Int × Int) := do
  if 64 < den then
    let rounded := (Decimal.roundFloat? (64.0 * Decimal.ofInt num / Decimal.ofInt den)).getD 0
    let (num, den) ← lowest (max rounded 1) 64
    warn ("duration too small: rounded to " ++ toString num ++ "/" ++ toString den)
    return (num, den)
  else return (num, den)

/-- The length of a note or rest. Within a tremolo of two notes the written
    length is doubled; rests of a measure last as long as the meter says. -/
def lengthOf (n : Node) : ScoreM Length := do
  let s ← get
  match n.duration? with
  | none => throw .noProperty
  | some (num, den) =>
    let num := if s.inTremolo then num + num else num
    let den := if den = 0 then 1 else den
    let written := (num, den)
    let (num, den) ← lowest (num * s.unitNow.1) (den * s.unitNow.2)
    let (num, den) ← limitDenominator num den
    let isRest := n.name == "rest"
    let (num, den) :=
      if isRest && (n.texts.contains "Z" || n.texts.contains "X") then s.measureLength else (num, den)
    let fillsMeasure := isRest && (num, den) == s.measureLength
    let ticks ← quotient (4 * divisions * num) den
    let (num, den) ← lowest num (den * 4)
    let (dots, part) :=
      if num = 3 && !fillsMeasure then (1, den.fdiv 2)
      else if num = 7 && !fillsMeasure then (2, den.fdiv 4)
      else (0, den)
    return { written, ticks, part, dots, fillsMeasure }

def typeOf (l : Length) (part : Int) : ScoreM (Int × String) := do
  match noteTypes.find? part with
  | some name => return (part, name)
  | none =>
    warn ("illegal duration " ++ toString l.written.1 ++ "/" ++ toString l.written.2)
    match (noteTypes.filter fun (k, _) => decide (part < k)).head? with
    | some (k, name) => return (k, name)
    | none => throw .refusedValue

/-! ## Tuplets -/

/-- Names the note type that an irregular tuplet counts in, for all notes of the
    tuplet, once its last note has been written. -/
def nameNormalType (ticks : Int) (level : Int) : ScoreM Unit := do
  let s ← get
  if ticks ≠ 0 then
    let lengths := (s.tuplet.map (·.1)).filter fun d => decide (0 < d)
    let normal ← quotient (lengths.foldl (· + ·) 0) s.tupletCount
    let part ← quotient (16 * divisions) normal
    match noteTypes.find? part with
    | some name =>
      modify fun s => { s with irregular := lengths.any fun d => d ≠ normal, normalType := name }
    | none => modify fun s => { s with irregular := false }
  let s ← get
  if s.irregular then
    for (_, e) in s.tuplet do
      let _ ← addText e "normal-type" s.normalType (level + 1)
  modify fun s => { s with tuplet := [] }

/-- Writes the change of time that a tuplet makes, and returns the bracket that
    starts or stops at the note. `ticks` is 0 for notes that take no time. -/
def addTuplet (note : Nat) (ticks : Int) (level : Int) : ScoreM String := do
  let s ← get
  if s.tupletLeft < 0 then return ""
  let e ← elem "time-modification" []
  let _ ← addText e "actual-notes" (toString s.tupletCount) (level + 1)
  let _ ← addText e "normal-notes" (toString s.tupletInto) (level + 1)
  addElem note e level
  let starts := 0 < s.tupletLeft && s.tuplet.isEmpty
  modify fun s => { s with tuplet := s.tuplet ++ [(ticks, e)] }
  if s.tupletLeft = 0 then
    nameNormalType ticks level
    return if ticks ≠ 0 then "stop" else ""
  return if starts then "start" else ""

/-! ## Decorations -/

/-- The decorations of a note: those that waited for it and its own. On a
    tablature that allots strings itself, a note without one gets the mark for
    it. -/
def decorationsOf (n : Node) : ScoreM (List String) := do
  let s ← get
  let own ← ((n.one? "deco").map Node.texts).getD [] |>.mapM meaning
  let all := s.nextDecorations ++ own
  modify fun s => { s with nextDecorations := [] }
  if s.tabPart = s.part && s.forceStrings && n.name ≠ "rest" && !all.any (Text.has "0123456789" ·) then
    return all ++ ["0"]
  return all

/-! ## Notes -/

def writtenPitch (n : Node) : ScoreM (String × String × Int) :=
  match (n.one? "pitch").map (·.leaves) with
  | some [a, s, o] => pure (a.asText, s.asText, o.asInt)
  | some [s, o] => pure ("", s.asText, o.asInt)
  | _ => throw .noProperty

def addInstrument (note : Nat) (sound : String) (level : Int) : ScoreM Unit := do
  let s ← get
  let isDrum := !sound.isEmpty
  let id := "I" ++ s.part ++ "-" ++ (if isDrum then "X" ++ sound else s.voice)
  let _ ← addNew note "instrument" [("id", id)] level
  if !s.instruments.holds id then
    let i : Instrument :=
      { part := s.part, voice := s.voice
        channel := if isDrum then "10" else s.program.channel
        program := if isDrum then sound else s.program.program
        volume := s.program.volume, pan := s.program.pan }
    modify fun s => { s with instruments := s.instruments.put id i }

def headFill : Matcher := Matcher.of "[+-]$"

def addHead (note : Nat) (head : String) (level : Int) : ScoreM Unit := do
  let e ← addText note "notehead" (headFill.replace head fun _ _ => "") level
  match head.toList.getLast? with
  | some '+' => setAttr e "filled" "yes"
  | some '-' => setAttr e "filled" "no"
  | _ => pure ()

def addMarks (note : Nat) (n : Node) (level : Int) : ScoreM Unit := do
  if n.isGrace then
    let g ← elem "grace" []
    if (← get).acciaccatura then
      setAttr g "slash" "yes"
      modify fun s => { s with acciaccatura := false }
    addElem note g level
  if (← get).isCue then
    let _ ← addNew note "cue" [] level
  if n.has "chord" then
    let _ ← addNew note "chord" [] level

def addStem (note : Nat) (n : Node) (decorations : List String) (level : Int) : ScoreM Bool := do
  if !n.has "chord" then modify fun s => { s with chordStemless := false }
  let s ← get
  if decorations.contains "stemless" || (s.noStems && n.name ≠ "rest") || s.chordStemless then
    let _ ← addText note "stem" "none" level
    if n.has "pitches" then modify fun s => { s with chordStemless := true }
    return false
  return true

def note (n : Node) (level : Int) : ScoreM Nat := do
  countTuplet n
  let l ← lengthOf n
  let inner := level + 1
  let e ← elem "note" []
  addMarks e n inner
  let joins := n.has "chord"
  let part := if n.isGrace && l.part ≤ 16 then 32 else l.part
  let (part, typeName) ← typeOf l part
  let isRest := n.name == "rest"
  let (accidental, key, pitch) ← (
    if isRest then do
      if n.texts.contains "x" || n.texts.contains "X" then setAttr e "print-object" "no"
      let r ← elem "rest" []
      if l.fillsMeasure then setAttr r "measure" "yes"
      addElem e r inner
      return ("", none, ({ element := r } : Written))
    else do
      let (accidental, letter, octave) ← writtenPitch n
      let w ← pitch accidental letter octave inner
      addElem e w.element inner
      return (if w.sound.isEmpty then accidental else "", some (letter, octave), w))
  let ticks := if n.isGrace then 0 else l.ticks
  let s ← get
  let ticks ← if 0 ≤ s.tupletLeft then quotient (ticks * s.tupletInto) s.tupletCount else pure ticks
  if ticks ≠ 0 then
    let _ ← addText e "duration" (toString ticks) inner
    if !joins then modify fun s => { s with time := (s.time.2, s.time.2 + ticks) }
  let stopsTie := match key.bind fun k => s.ties.find? k with
    | some tie => tie.overlay == s.overlay
    | none => false
  if stopsTie then
    let _ ← addNew e "tie" [("type", "stop")] inner
  if n.has "tie" then
    let _ ← addNew e "tie" [("type", "start")] inner
  if (s.program ≠ {} || !pitch.sound.isEmpty) && !isRest then addInstrument e pitch.sound inner
  let _ ← addText e "voice" "1" inner
  if !l.fillsMeasure then
    let _ ← addText e "type" typeName inner
  for _ in List.range l.dots do
    let _ ← addNew e "dot" [] inner
  let decorations ← decorationsOf n
  let isCourtesy := decorations.contains "courtesy"
  let showsAccidental := !accidental.isEmpty && !stopsTie
  if showsAccidental then
    let a ← elemWithText "accidental" ((accidentalNames.find? accidental).getD "")
    if isCourtesy then setAttr a "parentheses" "yes"
    addElem e a inner
  let decorations := if showsAccidental then decorations.erase "courtesy" else decorations
  let bracket ← addTuplet e (if n.isGrace || joins then 0 else l.ticks) inner
  let hasStem ← addStem e n decorations inner
  let decorations := if hasStem then decorations else decorations.erase "stemless"
  if !pitch.head.isEmpty then addHead e pitch.head inner
  let staff ← staff
  if staff ≠ 0 then
    let _ ← addText e "staff" (toString staff) inner
  if hasStem then beam n e part inner
  notations { node := n, key, alter := pitch.alter, decorations, bracket, stopsTie, element := e } inner
  if n.items.isEmpty then modify fun s => { s with lastLyric := [] }
  else addVerses e inner n.items 0
  return e

end Plainsong.Abc.Score
