import Plainsong.Chant.Word
/- What can be said of a whole score: its text, its code, its range and its
   transposition. -/
namespace Plainsong.Chant

namespace Score

def allSyllables (s : Score) : List Syllable :=
  s.text.flatMap fun w => (s.word w).syllables.map s.syllable

def signsOf (s : Score) (n : Nat) : List Sign := (s.neume n).signs.map s.sign

def music (s : Score) : List (List Sign) := s.allSyllables.map fun y => s.signsOf y.neume

def notes (s : Score) : List Sign := s.music.flatten.filter fun g => g.kind.sounds

def wordText (s : Score) (w : Nat) : String := String.join ((s.word w).syllables.map fun k => (s.syllable k).text)

def lyrics (s : Score) : String := " ".intercalate (s.text.map s.wordText)

def neumeCode (signs : List Sign) : String := String.join (signs.map (·.code))

def breakLines : List Char → List Char
  | ':' :: ':' :: rest => ':' :: ':' :: '\n' :: breakLines rest
  | c :: rest => if c = ':' || c = ';' then c :: '\n' :: breakLines rest else c :: breakLines rest
  | [] => []

def code (s : Score) : String :=
  String.ofList (breakLines (" ".intercalate (s.music.map neumeCode)).toList)

def rangeOf (pitches : List Int) : Int × Int :=
  pitches.foldl (fun (low, high) p =>
    (if low = 0 || p < low then p else low, if high < p then p else high)) (0, 0)

def range (s : Score) : Int × Int :=
  let (low, high) := rangeOf (s.notes.filterMap (·.pitch))
  match s.transposition with
  | some t => (low + t, high + t)
  | none => (low, high)

/-- The transposition: the one asked for, or else the one that brings the middle
    of the range to F sharp. -/
def shift (s : Score) : Int :=
  match s.transposition with
  | some t => t
  | none => 66 - Int.tdiv (s.range.1 + s.range.2) 2

end Score

/-! ## Lists -/

namespace Score

def listText (items : List String) : String := "[" ++ ", ".intercalate items ++ "]"

def musicText (s : Score) : String := listText (s.music.map fun signs => listText (signs.map (·.shown)))

def syllablesText (s : Score) : String :=
  listText (s.allSyllables.map fun y =>
    "(" ++ Text.quoted y.text ++ ", " ++ Text.quoted (listText ((s.signsOf y.neume).map (·.shown))) ++ ")")

def wordsText (s : Score) : String := listText (s.text.map s.wordText)

end Score

end Plainsong.Chant
