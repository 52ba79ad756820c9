import Plainsong.Datum
import Plainsong.Grammar.Value
import Plainsong.Table
/- A score of chant: words made of syllables, each syllable with a neume, and each
   neume a row of signs. Signs, neumes, syllables and words are kept by number.
   Every sign knows the one before it in its neume, every syllable the one before
   it and every word the one before it: what a sign does not have itself it takes
   from the sign before it. -/
namespace Plainsong.Chant

/-- Why a score cannot be read or a call on it fails. -/
inductive Fault where
  | value (f : Datum.Fault)
  | malformed (message : String)
  | conversion (f : Grammar.Fault)

/-- Kinds of signs. -/
inductive Kind where
  | note
  /-- a virga, oriscus or stropha: the note before it once more -/
  | special
  /-- an episema, a dot, an ictus, a quilisma or a liquescence -/
  | rhythm
  | bar
  | accidental
  | cut
  | custos
  | lineEnd
  | caesura
  | clef
  deriving Repr, DecidableEq, Inhabited

def Kind.name : Kind → String
  | note => "Note"
  | special => "NoteSpeciale"
  | rhythm => "SigneRythmique"
  | bar => "Barre"
  | accidental => "Alteration"
  | cut => "Coupure"
  | custos => "Custo"
  | lineEnd => "Fin"
  | caesura => "Cesure"
  | clef => "Clef"

def Kind.sounds : Kind → Bool
  | note => true
  | special => true
  | _ => false

/-- The accidentals in force, as a sign holds them: a table of the score, or a
    loose value put in its place. -/
inductive Accidentals where
  | table (number : Nat)
  | loose (value : Datum)
  deriving Inhabited

structure Sign where
  kind : Kind
  code : String
  neume : Nat
  before : Option Nat
  behind : Option Nat := none
  accidentals : Option Accidentals := none
  /-- the Lilypond and ABC texts the sign was given -/
  lily : String := ""
  abc : String := ""
  pitch : Option Int := none
  duration : Option Datum := none
  nuances : Option (List String) := none
  /-- whether the note opens an element of its neume -/
  opensElement : Option Bool := none
  extra : Table String Datum := []
  deriving Inhabited

structure Neume where
  syllable : Nat
  signs : List Nat := []
  elementClosed : Bool := true
  hasNote : Bool := false
  /-- the accidentals of the syllable before it in the word -/
  accidentals : Option Accidentals := none
  deriving Inhabited

structure Syllable where
  word : Nat
  text : String
  neume : Nat := 0
  before : Option Nat
  /-- the text as it is put under the notes in Lilypond -/
  lilyText : String := ""
  deriving Inhabited

structure Word where
  before : Option Nat
  syllables : List Nat := []
  clef : Option Nat := none
  deriving Inhabited

structure Score where
  title : String
  /-- the transposition asked for, in semitones -/
  transposition : Option Int := none
  signs : Array Sign := #[]
  neumes : Array Neume := #[]
  syllables : Array Syllable := #[]
  words : Array Word := #[]
  tables : Array (Table String Int) := #[]
  text : List Nat := []
  /-- what was said while reading: remarks, and warnings -/
  remarks : String := ""
  warnings : String := ""
  deriving Inhabited

abbrev Act (α : Type) := ExceptT Fault (StateM Score) α

namespace Score

def sign (s : Score) (i : Nat) : Sign := s.signs.getD i default

def neume (s : Score) (n : Nat) : Neume := s.neumes.getD n default

def syllable (s : Score) (n : Nat) : Syllable := s.syllables.getD n default

def word (s : Score) (n : Nat) : Word := s.words.getD n default

def table (s : Score) (n : Nat) : Table String Int := s.tables.getD n []

def chainFrom (s : Score) : Nat → Option Nat → List Nat
  | 0, _ => []
  | _ + 1, none => []
  | n + 1, some i => i :: s.chainFrom n (s.sign i).before

def chain (s : Score) (i : Option Nat) : List Nat := s.chainFrom (s.signs.size + 1) i

def inherited {α : Type} (s : Score) (i : Option Nat) (f : Sign → Option α) : Option α :=
  (s.chain i).findSome? fun j => f (s.sign j)

def nearestNote? (s : Score) (i : Option Nat) : Option Nat :=
  (s.chain i).find? fun j => (s.sign j).kind.sounds

def wordsBackFrom (s : Score) : Nat → Option Nat → List Nat
  | 0, _ => []
  | _ + 1, none => []
  | n + 1, some w => w :: s.wordsBackFrom n (s.word w).before

def clefOf? (s : Score) (w : Nat) : Option Sign :=
  ((s.wordsBackFrom (s.words.size + 1) (some w)).findSome? fun v => (s.word v).clef).map s.sign

end Score

/-! ## Acts -/

namespace Act

def fail {α : Type} (f : Datum.Fault) : Act α := throw (.value f)

def need {α : Type} (f : Datum.Fault) : Option α → Act α
  | some a => return a
  | none => fail f

def ofValue {α : Type} : Except Datum.Fault α → Act α
  | .ok a => return a
  | .error f => fail f

def orIfMissing {α : Type} (act other : Act α) : Act α :=
  tryCatch act fun f =>
    match f with
    | .value .noProperty => other
    | f => throw f

def sign (i : Nat) : Act Sign := return (← get).sign i

def neume (n : Nat) : Act Neume := return (← get).neume n

def changeSign (i : Nat) (f : Sign → Sign) : Act Unit :=
  modify fun s => { s with signs := s.signs.modify i f }

def changeNeume (n : Nat) (f : Neume → Neume) : Act Unit :=
  modify fun s => { s with neumes := s.neumes.modify n f }

def changeSyllable (n : Nat) (f : Syllable → Syllable) : Act Unit :=
  modify fun s => { s with syllables := s.syllables.modify n f }

def changeWord (n : Nat) (f : Word → Word) : Act Unit :=
  modify fun s => { s with words := s.words.modify n f }

def remark (text : String) : Act Unit := modify fun s => { s with remarks := s.remarks ++ text }

def warn (text : String) : Act Unit := modify fun s => { s with warnings := s.warnings ++ text }

def newTable : Act Accidentals :=
  modifyGet fun s =>
    let letters := "abcdefghijklmnop".toList.map fun c => (String.singleton c, (0 : Int))
    (.table s.tables.size, { s with tables := s.tables.push letters })

def setBefore (i : Nat) (before : Option Nat) : Act Unit := do
  changeSign i ({ · with before })
  match before with
  | some j => changeSign j ({ · with behind := some i })
  | none => return

end Act

end Plainsong.Chant
