import Plainsong.Grammar.Position
/- The values that grammars work on, and the ways in which work on them fails.
   Tokens are texts, numbers, lists and so on; parse results and grammar
   elements are referred to by their number in the store that holds them, for
   both are shared and changed in place. The type `ν` is what a host adds. -/
namespace Plainsong.Grammar

/-- A token or an argument. -/
inductive Value (ν : Type) where
  | none
  | bool (b : Bool)
  | int (n : Int)
  | float (x : Float)
  | text (s : String)
  | list (xs : List (Value ν))
  | tuple (xs : List (Value ν))
  | results (id : Nat)
  | element (id : Nat)
  | host (a : ν)

instance {ν : Type} : Inhabited (Value ν) := ⟨.none⟩

/-- A place where a text does not match, and what was expected there. -/
structure Failure where
  text : Chars
  loc : Nat
  message : String
  /-- The element that failed, if it is known. -/
  element : Option Nat

namespace Failure

def line (f : Failure) : String := lineAt f.text f.loc
def lineNumber (f : Failure) : Nat := Grammar.lineNumber f.text f.loc
def column (f : Failure) : Nat := Grammar.column f.text f.loc

def describe (f : Failure) : String :=
  f.message ++ " (at char " ++ toString f.loc ++ "), (line:" ++ toString f.lineNumber
    ++ ", col:" ++ toString f.column ++ ")"

end Failure

/-- Why an operation on grammars or values failed. -/
inductive Fault where
  /-- The text does not match here; an alternative may be tried. -/
  | mismatch (f : Failure)
  /-- The text does not match, and no alternative is to be tried. -/
  | fatal (f : Failure)
  /-- As `fatal`, raised behind an error stop. -/
  | stopped (f : Failure)
  /-- An element contains itself before anything is matched. -/
  | recursive (trace : String)
  | outOfRange
  /-- An operand or argument of a kind the operation does not take. -/
  | wrongKind
  /-- A property or method that the value does not have. -/
  | noProperty
  | unknownName
  /-- An argument of the right kind with a value that is refused. -/
  | refusedValue
  | badPattern
  | emptyQuote
  | unassigned
  | missingFile
  | dividedByZero
  /-- The recursion is deeper than the library follows. -/
  | tooDeep

namespace Fault

def failure? : Fault → Option Failure
  | .mismatch f => some f
  | .fatal f => some f
  | .stopped f => some f
  | _ => none

end Fault

end Plainsong.Grammar
