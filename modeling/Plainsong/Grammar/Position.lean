import Plainsong.Pattern.Basic
/- Lines and columns of a place in a text. Places before the start count from
   the end of the text, as indices do everywhere in this library. -/
namespace Plainsong.Grammar

def clip (size : Nat) (i : Int) : Nat :=
  if i < 0 then (i + size).toNat else min i.toNat size

def index? (size : Nat) (i : Int) : Option Nat :=
  if 0 ≤ i then (if i.toNat < size then some i.toNat else none)
  else if 0 ≤ i + size then some (i + size).toNat else none

def lastLineFeed (text : Chars) : Nat → Option Nat
  | 0 => none
  | n + 1 => if text[n]? = some '\n' then some n else lastLineFeed text n

def nextLineFeed (text : Chars) : Nat → Nat → Option Nat
  | _, 0 => none
  | i, n + 1 => if text[i]? = some '\n' then some i else nextLineFeed text (i + 1) n

/-- The column of a place, the first being 1; a line feed is in column 1.
    A place before the whole text has no column. -/
def column? (text : Chars) (loc : Int) : Option Int :=
  let plain : Int :=
    loc - (match lastLineFeed text (clip text.size loc) with | some i => (i : Int) | none => -1)
  if loc < text.size then
    (index? text.size loc).map fun i => if text[i]? = some '\n' then 1 else plain
  else some plain

def column (text : Chars) (loc : Nat) : Nat :=
  ((column? text loc).getD 0).toNat

def lineNumber (text : Chars) (loc : Int) : Nat :=
  (text.extract 0 (clip text.size loc)).foldl (fun n c => if c = '\n' then n + 1 else n) 1

def lineAt (text : Chars) (loc : Int) : String :=
  let at' := clip text.size loc
  let first := match lastLineFeed text at' with | some i => i + 1 | none => 0
  let stop := match (if loc ≤ text.size then nextLineFeed text at' (text.size - at') else none) with
    | some i => i
    | none => text.size
  String.ofList (text.extract first stop).toList

end Plainsong.Grammar
