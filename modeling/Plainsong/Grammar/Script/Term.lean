import Plainsong.Grammar.Library
/- The language of grammar scripts. A script is a list of steps over a table of
   named values and a list of parse results; terms say how grammars are made. -/
namespace Plainsong.Grammar.Script

/-- How a value is made. Names are words in small letters, joined by dashes. Calls take positional arguments, then named ones,
    given by their names and their terms. -/
inductive Term where
  | none
  | bool (b : Bool)
  | int (n : Int)
  | float (x : Float)
  | text (s : String)
  | list (xs : List Term)
  | tuple (xs : List Term)
  | call (name : String) (args : List Term) (names : List String) (named : List Term)
  | ready (name : String)
  /-- A maker of the library, not called yet. -/
  | maker (name : String)
  | stored (name : String)
  | result (i : Int)
  | ask (name : String) (target : Term) (args : List Term) (names : List String) (named : List Term)
  | operator (sign : String) (args : List Term)
  | item (i : Term) (of : Term)
  | pattern (source : String)
  | side (name : String)
  | anyValue
  | action (name : String)
  | actionOf (name : String) (args : List Term)

/-- A question about a parse result, with arguments. The answer stands under the
    label. -/
structure Query where
  label : String
  name : String
  args : List Term

/-- A step of a script. -/
inductive Step where
  | define (name : String) (e : Term) (shown : Bool)
  | describe (e : Term)
  | parse (e : Term) (s : Term) (all : Option Term) (views : Option (List Query)) (marks : Option (List String))
  | parseFile (e : Term) (s : Term) (file : Option String) (all : Option Term)
  | scan (e : Term) (s : Term) (names : List String) (named : List Term)
  | search (e : Term) (s : Term) (names : List String) (named : List Term)
  | transform (e : Term) (s : Term)
  | compare (e o : Term)
  /-- As `compare`, asked of the first value. -/
  | compareWith (e o : Term)
  | validate (e : Term)
  | packrat
  | verbose
  | setting (owner : String) (name : String) (args : List Term)
  | constant (name : String)
  | call (name : String) (args : List Term)
  | make (args : List Term) (names : List String) (named : List Term)
  | views (of : Int) (views : List Query)
  | operations (of : Int) (ops : List Query)

/-- What a step reports. -/
inductive View where
  | none
  | bool (b : Bool)
  | int (n : Int)
  | float (x : Float)
  | text (s : String)
  | list (xs : List View)
  | named (items : List View) (names : List (String × View))
  | expression (s : String)
  | fields (fs : List (String × View))
  /-- A fault, with what else is to be said about it. -/
  | fault (f : Fault) (more : List (String × View))

/-- The report of a step, and what was printed meanwhile. -/
structure Report where
  view : View
  output : String

/-! ## Actions of scripts -/

/-- Actions that scripts bring along. -/
inductive Deed where
  | int | join | nothing | drop | place | everything | const | negate | first | nested | twice | print
  | fail | fatal | bad | value | same | zero
  | length | sorted | list | tuple | anyTrue | least | greatest | total
  /-- Listeners: print the failure, or stop parsing. -/
  | report | stop
  | uncallable
  deriving DecidableEq

/-- What scripts add to the values of grammars. -/
inductive Item where
  | deed (d : Deed)
  | library (a : Action Item Deed)
  | maker (name : String)
  | pattern (source : String) (m : Matcher)
  | side (left : Bool)
  | anyValue

abbrev ScriptValue := Value Item

/-- What a session holds. -/
structure Session where
  names : List (String × ScriptValue) := []
  results : Array Nat := #[]
  library : Option Library := none
  files : List (String × String) := []

abbrev ScriptM := GrammarM Item Deed Session

end Plainsong.Grammar.Script
