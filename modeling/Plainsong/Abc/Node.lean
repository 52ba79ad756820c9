import Plainsong.Text.Quoted
/- The tree that a tune is read into. A node has a name, plain leaves, and
   child nodes filed under their names; nodes for which the order of all that
   was read matters keep that order too. -/
namespace Plainsong.Abc

/-- A plain item of a node: a text, a number or a mark. -/
inductive Leaf where
  | text (s : String)
  | int (n : Int)
  | bool (b : Bool)
deriving DecidableEq, Repr, Inhabited

namespace Leaf

def asText : Leaf → String
  | .text s => s
  | _ => ""

def asInt : Leaf → Int
  | .int n => n
  | .bool b => if b then 1 else 0
  | .text _ => 0

def inList : Leaf → String
  | .text s => Text.quoted s
  | .int n => toString n
  | .bool b => if b then "True" else "False"

def shown : Leaf → String
  | .text s => s
  | l => l.inList

end Leaf

/-- A node. `leaves` holds the plain items; `isPair` says that they are a
    number and a denominator. `children` files the nodes by name. A node that
    `keepsOrder` has all of its items in `items`; others gather there what is
    later attached to them, such as syllables to notes. -/
structure Node where
  name : String
  leaves : List Leaf := []
  isPair : Bool := false
  children : List (String × List Node) := []
  items : List (Node ⊕ Leaf) := []
  keepsOrder : Bool := false
  isGrace : Bool := false
deriving Inhabited

abbrev Token := Node ⊕ Leaf

namespace Node

def file (n : Node) : List (String × List Node) → List (String × List Node)
  | [] => [(n.name, [n])]
  | (k, ns) :: rest => if k = n.name then (k, ns ++ [n]) :: rest else (k, ns) :: file n rest

def ofTokens (name : String) (tokens : List Token) (keepsOrder : Bool) : Node where
  name
  leaves := tokens.filterMap fun
    | .inr l => some l
    | .inl _ => none
  children := tokens.foldl (fun acc t => match t with
    | .inl n => n.file acc
    | .inr _ => acc) []
  items := if keepsOrder then tokens else []
  keepsOrder

def get (n : Node) (key : String) : List Node := (n.children.lookup key).getD []

def one? (n : Node) (key : String) : Option Node := (n.get key).head?

def has (n : Node) (key : String) : Bool := n.children.any (·.1 == key)

def put (n : Node) (key : String) (ns : List Node) : Node :=
  if n.has key then
    { n with children := n.children.map fun (k, old) => (k, if k = key then ns else old) }
  else { n with children := n.children ++ [(key, ns)] }

def texts (n : Node) : List String := n.leaves.map Leaf.asText

def text? (n : Node) : Option String := n.leaves.head?.map Leaf.asText

def text (n : Node) : String := n.text?.getD ""

def duration (num den : Int) : Node := { name := "dur", leaves := [.int num, .int den] }

def duration? (n : Node) : Option (Int × Int) :=
  match (n.one? "dur").map (·.leaves) with
  | some [a, b] => some (a.asInt, b.asInt)
  | _ => none

def withDuration (n : Node) (num den : Int) : Node :=
  n.put "dur" [{ duration num den with isPair := true }]

def isTimed (n : Node) : Bool := n.name = "note" || n.name = "chord" || n.name = "rest"

mutual

/-- A node in one line, as messages show it: what it has, by name in
    alphabetical order; deeper than `depth` nothing is shown. -/
def shownAt : Nat → Node → String
  | 0, _ => ""
  | depth + 1, n =>
    let parts : List (String × List String) :=
      n.children.map fun (k, ns) => (k, ns.map (shownAt depth))
    let leaves :=
      if n.isPair then ["(" ++ ", ".intercalate (n.leaves.map Leaf.inList) ++ ")"]
      else n.leaves.map Leaf.shown
    let items :=
      if n.items.isEmpty then []
      else if n.keepsOrder then
        ["([" ++ ", ".intercalate (n.items.map (itemAt depth)) ++ "], \x7b\x7d)"]
      else n.items.map fun
        | .inl m => shownAt depth m
        | .inr l => l.shown
    let all := parts ++ [("t", leaves), ("objs", items)] ++ (if n.isGrace then [("grace", ["1"])] else [])
    let sorted := all.mergeSort fun a b => decide (a.1 ≤ b.1)
    "(" ++ n.name ++ " " ++ ",".intercalate (sorted.flatMap (·.2)) ++ ")"

def itemAt : Nat → Node ⊕ Leaf → String
  | 0, _ => ""
  | depth + 1, .inl n => shownAt depth n
  | _, .inr l => l.inList

end

def shown (n : Node) : String := n.shownAt 200

end Node

end Plainsong.Abc
