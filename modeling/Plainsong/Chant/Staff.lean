import Plainsong.Chant.Score
/- Places on the staff: a letter stands for a place, and the clef says which note
   stands there. The names of the notes in the formats that are written. -/
namespace Plainsong.Chant

def degrees : List (String × Int) :=
  [("la", 0), ("si", 2), ("do", 3), ("re", 5), ("mi", 7), ("fa", 8), ("sol", 10)]

def lowA : Int := 57

def clefOffset? : String → Option Nat
  | "c4" => some 0
  | "c3" => some 2
  | "c2" => some 4
  | "c1" => some 6
  | "f4" => some 3
  | "f3" => some 5
  | "f2" => some 0
  | "f1" => some 2
  | _ => none

def clefFlat? : String → Option String
  | "c4" => some "bi"
  | "c3" => some "g"
  | "c2" => some "el"
  | "c1" => some "cj"
  | "f4" => some "fm"
  | "f3" => some "dk"
  | "f2" => some "bi"
  | "f1" => some "g"
  | _ => none

def staffLetters : List Char := "abcdefghijklm".toList

def placeNote (clef : String) (offset place : Nat) : String × Int :=
  let i := offset + place
  let (name, height) := degrees.getD (i % 7) ("", 0)
  (name, lowA + height + 12 * ((i / 7 : Nat) : Int) - (if clef = "f3" then 12 else 0))

def letterNote? (clef : String) (letter : Char) : Option (String × Int) := do
  let offset ← clefOffset? clef
  let place ← staffLetters.findIdx? (· == letter)
  return placeNote clef offset place

/-! ## Names -/

def itemAt? {α : Type} (items : List α) (i : Int) : Option α :=
  let j := if i < 0 then i + items.length else i
  if j < 0 then none else items[j.toNat]?

def inOctave (pitch : Int) : Int := Int.fmod pitch 12

def frenchNames : List String := ["Do", "Do#", "Ré", "Mib", "Mi", "Fa", "Fa#", "Sol", "Sol#", "La", "Sib", "Si"]

def frenchName (pitch : Int) : String :=
  (itemAt? frenchNames (inOctave pitch)).getD "" ++ toString (Int.tdiv pitch 12 - 2)

def lilyNames : List String := ["c", "cis", "d", "ees", "e", "f", "fis", "g", "gis", "a", "bes", "b"]

def lilyOctaves : List String := [", , ", ", ", "", "'", "''", "'''", "''''"]

def lilyName? (pitch : Int) : Option String := do
  let name ← itemAt? lilyNames (inOctave pitch)
  let octave ← itemAt? lilyOctaves (Int.tdiv pitch 12 - 2)
  return name ++ octave ++ "8"

def abcNames : List String :=
  ["A,", "_BB,",
   "C", "_D", "D", "_E", "E", "F", "_G", "G", "_A", "A", "_B", "B",
   "c", "_d", "d", "_e", "e", "f", "_g", "g", "_a", "a", "_b", "b",
   "c'", "_d'", "d'", "_e'", "e'", "f'", "_g'", "g'", "_a'", "a'"]

def abcName? (pitch : Int) : Option String := itemAt? abcNames (pitch - 58)

end Plainsong.Chant
