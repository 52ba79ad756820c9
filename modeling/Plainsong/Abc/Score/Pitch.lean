import Plainsong.Abc.Score.State
/- The pitch of a note: its step, alteration and octave, or its place on the
   staff for percussion. -/
namespace Plainsong.Abc

open Grammar (Fault)

def steps : List String := ["C", "D", "E", "F", "G", "A", "B"]

def stepSemitones (step : String) : Except Fault Int :=
  match step.toList with
  | [c] => match semitones? c with
    | some n => .ok n
    | none => .error .refusedValue
  | _ => .error .refusedValue

/-- Where a step stands on a staff with this clef, written as if the clef were
    the treble clef: in bass clefs twelve steps lower. -/
def stepInClef (step : String) (octave : Int) (clef : String) : Except Fault (String × Int) :=
  if clef.startsWith "bass" then
    match steps.idxOf? step with
    | none => .error .refusedValue
    | some i =>
      let n : Int := 14 + i - 12
      .ok (steps.getD (n.fmod 7).toNat "", octave + n.fdiv 7 - 2)
  else .ok (step, octave)

def letterOctave (letter : String) : Int := if Text.upper letter = letter then 4 else 5

def soundOf (accidental letter : String) (octave : Int) : Except Fault Int := do
  let k ← stepSemitones (Text.upper letter)
  let shift : Int := if accidental = "^" then 1 else if accidental = "_" then -1 else 0
  return (letterOctave letter + octave) * 12 + k + shift + 12

/-- A pitch that has been written: its element, the alteration, and for
    percussion the number of its sound and its head. -/
structure Written where
  element : Nat
  alter : String := ""
  sound : String := ""
  head : String := ""

namespace Score

def plainHead : String → String
  | "^" => "x"
  | "_" => "circle-x"
  | _ => "normal"

def octaveMarks (octave : Int) : String :=
  if octave < 0 then Text.times (-octave).toNat "," else Text.times octave.toNat "'"

def drumPitch (accidental letter : String) (octave : Int) (level : Int) : ScoreM Written := do
  let s ← get
  let name := accidental ++ letter
  let shifted := octave + s.octaveShift
  let found := (s.drums.find? (s.part, name, shifted)).orElse fun _ => s.drums.find? ("", name, shifted)
  let (step, octaveNumber, drum) ← (match found with
    | some d => do
      let (step, n) ← liftExcept (stepInClef (Text.upper d.step) (letterOctave d.step + d.octave) s.clef)
      return (step, n, d)
    | none => do
      let sound ← liftExcept (soundOf accidental letter shifted)
      if s.hasDrumMaps then
        warn ("no I:percmap for: " ++ name ++ octaveMarks octave ++ " in part " ++ s.part ++ ", voice " ++ s.voice)
      let d : Drum := { step := letter, octave := shifted, sound := toString sound, head := plainHead accidental }
      modify fun s => { s with drums := s.drums.put (s.part, name, shifted) d }
      return (letter, letterOctave letter + shifted, d))
  let e ← elem "unpitched" []
  let _ ← addText e "display-step" (Text.upper step) (level + 1)
  let _ ← addText e "display-octave" (toString octaveNumber) (level + 1)
  return { element := e, sound := drum.sound, head := drum.head }

/-- The alteration of a note: that of the note it is tied to, or its own, or
    that of the last such note in the measure, or that of the key. An
    accidental of its own holds for the rest of the measure. -/
def alteration (accidental letter : String) (octave octaveNumber : Int) : ScoreM String := do
  let s ← get
  let upper := Text.upper letter
  match s.ties.find? (letter, octave) with
  | some tie => return if tie.overlay = s.overlay then tie.alter else ""
  | none =>
    if !accidental.isEmpty then
      let alter := (alterations.find? accidental).getD ""
      modify fun s => { s with measureAlters := s.measureAlters.put (upper, octaveNumber) alter }
      return alter
    else
      match s.measureAlters.find? (upper, octaveNumber) with
      | some alter => return alter
      | none => return (s.keyAlters.find? upper).getD ""

def pitch (accidental letter : String) (octave : Int) (level : Int) : ScoreM Written := do
  if (← get).isPercussion then drumPitch accidental letter octave level
  else
    let octaveNumber := letterOctave letter + octave + (← get).octaveShift
    let e ← elem "pitch" []
    let _ ← addText e "step" (Text.upper letter) (level + 1)
    let alter ← alteration accidental letter octave octaveNumber
    if !alter.isEmpty then
      let _ ← addText e "alter" alter (level + 1)
    let _ ← addText e "octave" (toString octaveNumber) (level + 1)
    return { element := e, alter }

end Score

end Plainsong.Abc
