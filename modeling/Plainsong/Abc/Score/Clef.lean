import Plainsong.Abc.Score.Pitch
/- Clefs with all that is given beside them: the middle line, transposition,
   cue notes, the lines of the staff, and the strings of tablatures. -/
namespace Plainsong.Abc.Score

open Grammar (Fault)

/-- Attributes of a measure that wait to be written: their place in the order of
    attributes, and their element. -/
abbrev Pending := List (Nat × Nat)

namespace Clef

def percussionWord : Matcher := Matcher.of "perc|map"
def percussionSwitch : Matcher := Matcher.of "(perc|map)\\s*=\\s*(\\S*)"
def name : Matcher := Matcher.of "alto1|alto2|alto4|alto|tenor|bass3|bass|treble|perc|none|tab"
def middle : Matcher := Matcher.of "(?:^m=| m=|middle=)([A-Ga-g])([,']*)"
def octave : Matcher := Matcher.of "octave=([-+]?\\d)"
def transposition : Matcher := Matcher.of "(?:^t=| t=|transpose=)(-?[\\d]+)"
def octaveSign : Matcher := Matcher.of "([+-^_])(8|15)"
def cue : Matcher := Matcher.of "cue=(on|off)"
def strings : Matcher := Matcher.of "strings=(\\S+)"
def staffLines : Matcher := Matcher.of "stafflines=\\s*(\\d)"
def capo : Matcher := Matcher.of "capo=(\\d+)"

end Clef

def switchPercussion (field : String) : ScoreM String := do
  if Clef.percussionWord.occursIn field then
    let on := match Clef.percussionSwitch.texts? field with
      | some g => ["on", "true", "perc"].contains (g.getD 2 "")
      | none => true
    modify fun s => { s with isPercussion := on }
    return Clef.percussionSwitch.replace field fun _ _ => ""
  return field

def stringSound (capo : Int) (s : String) : ScoreM Int := do
  match s.toList with
  | [step, octave] =>
    let o ← readInt octave.toString
    let k ← liftExcept (stepSemitones step.toString)
    return o * 12 + k + 12 + capo
  | _ => throw .refusedValue

def highFirst (a b : Int × Int) : Bool := b.1 < a.1 || (b.1 == a.1 && decide (b.2 ≤ a.2))

def setStrings (field : String) : ScoreM Unit := do
  modify fun s => { s with tabPart := s.part }
  if let some g := Clef.capo.texts? field then
    let n ← readInt (g.getD 1 "")
    modify fun s => { s with capo := n }
  if let some g := Clef.strings.texts? field then
    modify fun s => { s with tuning := (g.getD 1 "").splitOn "," }
  let s ← get
  let sounds ← s.tuning.mapM (stringSound s.capo)
  let count := sounds.length
  let numbered := sounds.zipIdx.map fun (x, i) => (x, (count : Int) - i)
  modify fun s => { s with
    stringOrder := numbered.mergeSort highFirst
    stringSounds := sounds.reverse
    strings := s.strings.turnTo count (.part s.part)
    noStems := Text.has field "nostems"
    diatonicFrets := Text.has field "diafret" }

def clefElement (sign line : String) (field : String) (staff : Int) (level : Int) : ScoreM Nat := do
  let c ← elem "clef" []
  if staff ≠ 0 then setAttr c "number" (toString staff)
  let _ ← addText c "sign" sign (level + 2)
  if !line.isEmpty then
    let _ ← addText c "line" line (level + 2)
  if let some g := Clef.octaveSign.texts? field then
    let direction := g.getD 1 ""
    let n : Int := if direction = "-" || direction = "_" then -1 else 1
    let n := if g.getD 2 "" = "15" then n * 2 else n
    let _ ← addText c "clef-octave-change" (toString n) (level + 2)
    if direction = "+" || direction = "-" then modify fun s => { s with octaveShift := s.octaveShift + n }
  return c

def staffDetails (isTab : Bool) (lines : String) (staff : Int) (level : Int) : ScoreM Nat := do
  let e ← elem "staff-details" []
  if staff ≠ 0 then setAttr e "number" (toString staff)
  let _ ← addText e "staff-lines" lines (level + 2)
  let s ← get
  if isTab then
    for (t, i) in s.tuning.zipIdx do
      let x ← elem "staff-tuning" [("line", toString (i + 1))]
      let _ ← addText x "tuning-step" (Text.first 1 t) (level + 3)
      let _ ← addText x "tuning-octave" (Text.first 1 (Text.behind 1 t)) (level + 3)
      addElem e x (level + 2)
  if s.capo ≠ 0 then
    let _ ← addText e "capo" (toString s.capo) (level + 2)
  return e

def wantedClef (field : String) : String × Int :=
  let clef := ((Clef.name.texts? field).map fun g => g.getD 0 "").getD ""
  match Clef.middle.texts? field with
  | none => (clef, 0)
  | some g =>
    let letter := g.getD 1 ""
    let marks := g.getD 2 ""
    let upper := Text.upper letter
    let n : Int := marks.length
    let octave := letterOctave letter + (if Text.has marks "'" then n else -n)
    let shift := (if upper = "A" || upper = "F" || upper = "D" then 3 else 4) - octave
    if clef = "perc" || clef = "none" then (clef, shift)
    else ((clefOfMiddle.find? upper).getD "", shift)

def clefField (field : String) (level : Int) : ScoreM Pending := do
  let field ← switchPercussion field
  let staff ← staff
  let (clef, shift) := wantedClef field
  let mut pending : Pending := []
  if !clef.isEmpty then
    modify fun s => { s with octaveShift := shift, clef := if clef = "none" then s.clef else clef }
    let (sign, line) := (clefs.find? clef).getD ("", "")
    if sign.isEmpty then return []
    pending := pending ++ [(7, ← clefElement sign line field staff level)]
  if let some g := Clef.octave.texts? field then
    let n ← readInt (g.getD 1 "")
    modify fun s => { s with octaveShift := shift + n }
  if let some g := Clef.transposition.texts? field then
    let e ← elem "transpose" []
    let _ ← addText e "chromatic" (g.getD 1 "") (level + 3)
    pending := pending ++ [(9, e)]
  if let some g := Clef.cue.texts? field then
    modify fun s => { s with isCue := g.getD 1 "" == "on" }
  let isTab := clef == "tab"
  if isTab then setStrings field
  let lines ←
    if isTab then do pure (toString (← get).tuning.length)
    else pure (((Clef.staffLines.texts? field).map fun g => g.getD 1 "").getD "")
  if !lines.isEmpty then
    pending := pending ++ [(8, ← staffDetails isTab lines staff level)]
  return pending

end Plainsong.Abc.Score
