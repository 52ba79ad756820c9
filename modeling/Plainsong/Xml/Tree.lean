/- Documents of nested elements while they are built. Elements live in a store
   and are known by their number, for a document is changed all over while it
   grows, and an element may come to stand in two places. -/
namespace Plainsong.Xml

/-- An element: its tag, its attributes in the order in which they were set, the
    text before its first child, the text behind it, and its children. -/
structure Element where
  tag : String
  attributes : List (String × String) := []
  text : Option String := none
  tail : Option String := none
  children : Array Nat := #[]
deriving Inhabited, Repr

/-- The store of elements. -/
structure Tree where
  elements : Array Element := #[]
deriving Inhabited, Repr

namespace Element

def attr? (e : Element) (key : String) : Option String := e.attributes.lookup key

def setAttr (e : Element) (key value : String) : Element :=
  if e.attributes.any (·.1 == key) then
    { e with attributes := e.attributes.map fun (k, v) => (k, if k = key then value else v) }
  else { e with attributes := e.attributes ++ [(key, value)] }

end Element

namespace Tree

def get (t : Tree) (id : Nat) : Element := t.elements.getD id { tag := "" }

def add (t : Tree) (e : Element) : Nat × Tree := (t.elements.size, { elements := t.elements.push e })

def change (t : Tree) (id : Nat) (f : Element → Element) : Tree :=
  { elements := t.elements.modify id f }

def indent (level : Int) : String := "\n" ++ String.ofList (List.replicate (2 * level).toNat ' ')

def append (t : Tree) (parent child : Nat) (level : Int) : Tree :=
  let t := match (t.get parent).children.back? with
    | some last => t.change last fun e => { e with tail := some (e.tail.getD "" ++ "  ") }
    | none => t.change parent fun e => { e with text := some (indent level) }
  let t := t.change parent fun e => { e with children := e.children.push child }
  t.change child fun e => { e with tail := some (indent (level - 1)) }

def remove (t : Tree) (parent child : Nat) : Tree :=
  t.change parent fun e => { e with children := (e.children.toList.erase child).toArray }

def childrenTagged (t : Tree) (id : Nat) (tag : String) : List Nat :=
  (t.get id).children.toList.filter fun c => (t.get c).tag == tag

def child? (t : Tree) (id : Nat) (tag : String) : Option Nat :=
  (t.get id).children.toList.find? fun c => (t.get c).tag == tag

def findAll (t : Tree) (id : Nat) : List String → List Nat
  | [] => [id]
  | tag :: path => (t.childrenTagged id tag).flatMap fun c => findAll t c path

def textAt? (t : Tree) (id : Nat) (path : List String) : Option String :=
  (t.findAll id path).head?.map fun e => ((t.get e).text).getD ""

def withTagAt (t : Tree) (tag : String) : Nat → Nat → List Nat
  | 0, _ => []
  | depth + 1, id =>
    let below := (t.get id).children.toList.flatMap (withTagAt t tag depth)
    if (t.get id).tag == tag then id :: below else below

def withTag (t : Tree) (id : Nat) (tag : String) : List Nat := t.withTagAt tag t.elements.size id

end Tree

end Plainsong.Xml
