import Plainsong.Grammar.Element
import Std.Data.HashMap
/- The store that grammars and parse results live in, and the computations over
   it. A computation either returns or fails, and what it did before failing
   stays done: parsing tries alternatives, and actions of abandoned attempts
   have had their effects. -/
namespace Plainsong.Grammar

/-- A named value of a parse result and the position of the token it names. -/
structure Occurrence (ν : Type) where
  value : Value ν
  offset : Int

/-- A parse result: its tokens in order, and lists of named values. Two results
    may share such a list; `names` gives the number of the list for each name. -/
structure Record (ν : Type) where
  items : Array (Value ν)
  names : List (String × Nat) := []
  /-- The name under which the result itself was matched. -/
  name : Option String := none
  /-- The result that last took this one as a named value. -/
  parent : Option Nat := none
  /-- Names that report all of their matches. -/
  cumulative : List String := []

instance {ν : Type} : Inhabited (Record ν) := ⟨⟨#[], [], none, none, []⟩⟩

abbrev Memory := Std.HashMap (Nat × Nat × Bool × Bool) (Except Fault (Nat × Nat))

/-- The store. `σ` is what a host keeps there. -/
structure State (ν κ σ : Type) where
  elements : Array (Element ν κ) := #[]
  records : Array (Record ν) := #[]
  occurrences : Array (List (Occurrence ν)) := #[]
  handlers : Array (Handler ν κ) := #[]
  onceCells : Array OnceCell := #[]
  indents : Array (List Int) := #[]
  blanks : String := " \n\t\r"
  keywordChars : String := defaultKeywordChars
  inline : Inline := .literal
  remember : Bool := false
  memory : Memory := {}
  output : String := ""
  host : σ

abbrev GrammarM (ν κ σ : Type) := EStateM Fault (State ν κ σ)

/-- What happens at an element, told to whoever listens. -/
inductive Event where
  | start (text : Chars) (loc : Nat) (element : Nat)
  | success (text : Chars) (start stop : Nat) (element : Nat) (results : Nat)
  | failure (text : Chars) (loc : Nat) (element : Nat) (fault : Fault)

/-- A match on which an action is run: from `loc` to `stop`, with its tokens. -/
structure Match where
  text : Chars
  loc : Nat
  stop : Nat
  tokens : Nat

/-- What a host adds to the library: its actions and listeners. -/
structure Host (ν κ σ : Type) where
  /-- The number of arguments an action takes; `none` for any number. -/
  arity : κ → Option Nat
  /-- Whether an action is always given the tokens alone. -/
  tokensOnly : κ → Bool
  perform : κ → Match → GrammarM ν κ σ (Value ν)
  notify : κ → Event → GrammarM ν κ σ Unit
  /-- The text of a host's value, as shown among other tokens. -/
  describe : ν → String

section
variable {ν κ σ : Type}

def element (id : Nat) : GrammarM ν κ σ (Element ν κ) := do
  match (← get).elements[id]? with
  | some e => return e
  | none => throw .noProperty

def addElement (e : Element ν κ) : GrammarM ν κ σ Nat := do
  let id := (← get).elements.size
  modify fun s => { s with elements := s.elements.push e }
  return id

def changeElement (id : Nat) (f : Element ν κ → Element ν κ) : GrammarM ν κ σ Unit :=
  modify fun s => { s with elements := s.elements.modify id f }

def addHandler (a : Action ν κ) : GrammarM ν κ σ Nat := do
  let id := (← get).handlers.size
  modify fun s => { s with handlers := s.handlers.push { action := a } }
  return id

def emit (s : String) : GrammarM ν κ σ Unit :=
  modify fun st => { st with output := st.output ++ s }

def attempt {α : Type} (x : GrammarM ν κ σ α) : GrammarM ν κ σ (Except Fault α) := fun s =>
  match x s with
  | .ok a s => .ok (.ok a) s
  | .error e s => .ok (.error e) s

end

end Plainsong.Grammar
