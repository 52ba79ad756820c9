import Plainsong.Abc.Tunes
import Plainsong.Chant.Lyric
/- A score as a tune in ABC, and through it as a MusicXML document. -/
namespace Plainsong.Chant

/-- What a tune is made of. -/
structure Tune where
  tempo : Float
  lyrics : String
  music : String
  code : String

namespace Tune

/-- Lyrics and music as they grow; the lyrics stand with the last letter first. -/
structure Draft where
  lyrics : List Char := []
  music : String := ""

def say (d : Draft) (text : String) : Draft := { d with lyrics := text.toList.reverse ++ d.lyrics }

/-- Adds a sign of a neume: the syllable stands under the first note or
    accidental, a line under each further note, and the text of a bar takes the
    place of the end of the lyrics. -/
def addSign (text : String) (d : Draft) (place : Nat) (last : Option Sign) (s : Sign) : Except Datum.Fault Draft := do
  let d := { d with music := d.music ++ (← s.abcText) }
  if s.kind.sounds || s.kind = .accidental then
    if place = 0 then return say d (if text.isEmpty then "_" else text)
    else if (last.map (·.kind)) = some .accidental then return d
    else return say d "_"
  else if s.kind = .bar && place = 0 then
    match d.lyrics with
    | _ :: '_' :: rest => return say { d with lyrics := if text.isEmpty then '_' :: rest else rest } text
    | _ :: rest@(_ :: _) => return say { d with lyrics := rest } text
    | _ => throw .outOfRange
  else return d

def addSigns (text : String) : Nat → Option Sign → List Sign → Draft → Except Datum.Fault Draft
  | _, _, [], d => return d
  | place, last, s :: rest, d => do addSigns text (place + 1) (some s) rest (← addSign text d place last s)

def addSyllables (score : Score) : List Syllable → Draft → Except Datum.Fault Draft
  | [], d => return d
  | y :: rest, d => do
    let text := if rest.isEmpty then y.abc else y.abc ++ "-"
    addSyllables score rest (← addSigns text 0 none (score.signsOf y.neume) d)

def addWords (score : Score) : List Nat → Draft → Except Datum.Fault Draft
  | [], d => return d
  | w :: rest, d => do
    let d ← addSyllables score ((score.word w).syllables.map score.syllable) d
    addWords score rest { say d " " with music := d.music ++ " " }

def texts (s : Score) : Except Datum.Fault (String × String) := do
  let d ← addWords s s.text {}
  return (String.ofList d.lyrics.reverse, Text.exceptLast 3 d.music ++ "|]")

def halfTempo : Datum → Except Datum.Fault Float
  | .float x => .ok (x / 2)
  | d =>
    match d.whole? with
    | some n =>
      let x := Decimal.halfOfInt n
      if x.isInf then .error .tooLarge else .ok x
    | none => .error .wrongKind

def ofScore (s : Score) (title tempo : Datum) : Except Datum.Fault Tune := do
  let (lyrics, music) ← texts s
  let tempo ← halfTempo tempo
  let code := "\n".intercalate [
    "",
    "X: 1",
    "T: " ++ title.written,
    "L: 1/8",
    "M: none",
    "K: clef=treble",
    "K: transpose=" ++ toString s.shift,
    "U: P = !uppermordent!",
    music,
    "w: " ++ lyrics,
    ""]
  return { tempo, lyrics, music, code }

def document (t : Tune) : Except Grammar.Fault String :=
  (Abc.Converter.convert {} {} t.code).1.map (·.document)

end Tune

end Plainsong.Chant
