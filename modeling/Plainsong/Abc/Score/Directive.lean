import Plainsong.Abc.Score.Clef
import Plainsong.Decimal.Read
/- Directives: layouts, page formats, staff changes, instruments and maps of
   percussion notes. -/
namespace Plainsong.Abc.Score

open Grammar (Fault)

/-! ## Pages -/

def pageNumber : Matcher := Matcher.of "[^.\\d]*([\\d.]+)\\s*(cm|in|pt)?"

def setPage (field : String) (index : Nat) : ScoreM Unit := do
  modify fun s => { s with usesPage := true }
  match pageNumber.texts? field with
  | none => warn ("error in page format: " ++ field)
  | some g =>
    let unit : Float := match g.getD 2 "" with
      | "cm" => 10.0
      | "in" => 25.4
      | "pt" => 25.4 / 72.0
      | _ => 1.0
    match Decimal.read? (g.getD 1 "") with
    | none => throw .refusedValue
    | some x => modify fun s => { s with converter.page := s.converter.page.set index (x * unit) }

/-! ## Staves -/

def staffChange : Matcher := Matcher.of "staff *([+-]?)(\\d)"

def scoreStaff (n : Int) : ScoreM Int := do
  let s ← get
  let staves := s.layout.staves
  let voice := ((Strings.place? staves.length (n - 1)).bind fun i => staves[i]?).bind (·.head?)
  if voice.isNone then warn ("abc staff " ++ toString n ++ " does not exist")
  match s.converter.firstStaffNumber with
  | none => throw .noProperty
  | some numbers => return (voice.bind fun v => numbers.find? v).getD 0

def changeStaff (field : String) : ScoreM Unit := do
  match staffChange.texts? field with
  | none => warn ("not a valid staff redirection: " ++ field)
  | some g =>
    let sign := g.getD 1 ""
    let n ← readInt (g.getD 2 "")
    let here ← staff
    let n ← (
      if sign.isEmpty then scoreStaff n
      else return if sign = "-" && here - n ≠ 0 then here - n else here + n)
    let s ← get
    let count := (s.layout.staffCount.find? s.voice).getD 0
    if here ≠ 0 && 0 < n && n ≤ count then
      modify fun s => { s with layout.staffNumber := s.layout.staffNumber.put s.voice n }
    else warn ("could not relocate to staff: " ++ g.getD 0 "")

/-! ## Percussion maps -/

def matchDrum : List String → Nat → List (String × String) → List (String × String)
  | [], _, found => found
  | part :: rest, i, found =>
    let left := found.filter fun (name, _) => match (name.splitOn "-")[i]? with
      | some p => Text.has p part
      | none => false
    if left.length ≤ 1 then left else matchDrum rest (i + 1) left

def drumSound (name : String) : ScoreM String := do
  match matchDrum (name.splitOn "-") 0 drumSounds with
  | (_, number) :: _ => return number
  | [] =>
    warn ("drum sound: " ++ name ++ " not found")
    return "38"

def headDash : Matcher := Matcher.of "(.)-([^x])"

def readDrum (field : String) : ScoreM Unit := do
  let (result, reading) := read .percussion field (← get).converter.reading
  modify fun s => { s with converter.reading := reading }
  match ← liftExcept result with
  | [_, .list [.leaf accidental, .leaf letter, .leaf octave], place, sound, .leaf head] =>
    let accidental := accidental.asText
    let letter := letter.asText
    let octave := octave.asInt
    let (step, stepOctave) := match place with
      | .list [.leaf s, .leaf o] => (s.asText, o.asInt)
      | _ => (letter, octave)
    let number ← match sound with
      | .leaf (.text "*") => do pure (toString (← liftExcept (soundOf accidental letter octave)))
      | .list [.leaf a, .leaf l, .leaf o] => do pure (toString (← liftExcept (soundOf a.asText l.asText o.asInt)))
      | .leaf (.int n) => pure (toString n)
      | .leaf l => drumSound (Text.lower l.asText)
      | _ => throw .noProperty
    let head := headDash.replace head.asText fun text m =>
      (m.group? text 1).getD "" ++ " " ++ (m.group? text 2).getD ""
    modify fun s => { s with
      drums := s.drums.put (s.part, accidental ++ letter, octave)
        { step, octave := stepOctave, sound := number, head }
      hasDrumMaps := true }
  | _ => throw .refusedValue

/-! ## Instruments -/

def programSign : Matcher := Matcher.of "program *(\\d*) +(\\d+)"
def channelSign : Matcher := Matcher.of "channel *(\\d+)"
def drumSign : Matcher := Matcher.of "drummap\\s+([_=^]*)([A-Ga-g])([,']*)\\s+(\\d+)"
def controlSign : Matcher := Matcher.of "control *(\\d+) +(\\d+)"
def transposeSign : Matcher := Matcher.of "transpose[^-\\d]*(-?\\d+)"

def addChange (measure : Nat) (tag value label : String) (level : Int) : ScoreM Unit := do
  let s ← get
  let words ← elemWithText "words" (label ++ value)
  let sound ← elem "sound" []
  let instrument ← elem "midi-instrument" [("id", "I" ++ s.part ++ "-" ++ s.voice)]
  let direction ← addDirection measure [(words, [])] level (← staff) "above" false
  addElem direction sound (level + 1)
  addElem sound instrument (level + 2)
  let _ ← addText instrument tag value (level + 3)

/-- Sets channel, program, volume and panning; a change of an instrument that is
    already in use is written into the measure, if there is one. -/
def setProgram (measure : Option Nat) (new : Program) (level : Int) : ScoreM Unit := do
  let s ← get
  let old := s.program
  let either (a b : String) := if a.isEmpty then b else a
  let channel := either new.channel old.channel
  let program := either new.program old.program
  if s.instruments.holds ("I" ++ s.part ++ "-" ++ s.voice) then
    if let some m := measure then
      if !channel.isEmpty && channel ≠ old.channel then addChange m "midi-channel" channel "chan: " level
      if !program.isEmpty && program ≠ old.program then
        addChange m "midi-program" (toString ((← readInt program) + 1)) "prog: " level
  modify fun s => { s with program :=
    { channel, program, volume := either new.volume old.volume, pan := either new.pan old.pan } }

def soundDirective (measure : Option Nat) (field : String) (level : Int) : ScoreM Pending := do
  let program := programSign.texts? field
  let channel := channelSign.texts? field
  let control := controlSign.texts? field
  if program.isSome || channel.isSome || control.isSome then
    let p : Program := match program with
      | some g => { channel := g.getD 1 "", program := g.getD 2 "" }
      | none => {}
    let p := match channel with
      | some g => { p with channel := g.getD 1 "" }
      | none => p
    let p := match control with
      | some g => match g.getD 1 "" with
        | "7" => { p with volume := g.getD 2 "" }
        | "10" => { p with pan := g.getD 2 "" }
        | _ => p
      | none => p
    setProgram measure p level
  if let some g := drumSign.texts? field then
    let accidental := g.getD 1 ""
    let n : Int := (g.getD 3 "").length
    let octave := if Text.has field "," then -n else n
    let drum : Drum := { step := g.getD 2 "", octave, sound := g.getD 4 "", head := plainHead accidental }
    modify fun s => { s with drums := s.drums.put (s.part, accidental ++ g.getD 2 "", octave) drum }
  match transposeSign.texts? field with
  | none => return []
  | some g =>
    let e ← elem "transpose" []
    let _ ← addText e "chromatic" (g.getD 1 "") (level + 2)
    return [(9, e)]

/-! ## All directives -/

def pageWords : List String :=
  ["scale", "pageheight", "pagewidth", "leftmargin", "rightmargin", "topmargin", "botmargin"]

def directive (measure : Option Nat) (field : String) (level : Int) : ScoreM Pending := do
  if field.startsWith "score" || field.startsWith "staves" then
    modify fun s => { s with layoutDefs := s.layoutDefs ++ [field] }
    return []
  if field.startsWith "staffwidth" then
    warn ("skipped I-field: " ++ field)
    return []
  if field.startsWith "staff" then
    changeStaff field
    return []
  if let some i := pageWords.findIdx? fun w => field.startsWith w then
    setPage field i
    return []
  if field.startsWith "MIDI" || field.startsWith "midi" then soundDirective measure field level
  else
    if field.startsWith "percmap" then readDrum field
    else warn ("skipped I-field: " ++ field)
    return []

end Plainsong.Abc.Score
