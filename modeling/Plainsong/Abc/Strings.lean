import Plainsong.Grammar.Value
/- Which strings of an instrument are free. For each string the times at which
   it sounds are kept, and the place from which to look on. -/
namespace Plainsong.Abc

open Grammar (Fault)

/-- A stretch of time in which a string sounds. -/
structure Span where
  start : Int
  stop : Int
deriving DecidableEq, Repr, Inhabited

/-- A staff, by its number or by the part it belongs to. -/
inductive StaffName where
  | number (n : Int)
  | part (id : String)
deriving DecidableEq, Repr, Inhabited

/-- The strings of a staff. -/
structure Strings where
  /-- For each string the times at which it sounds. -/
  busy : List (List Span) := []
  /-- For each string the place from which to look on. -/
  cursor : List Nat := []
  staff : StaffName := .number (-1)
deriving DecidableEq, Repr, Inhabited

namespace Strings

def place? (length : Nat) (i : Int) : Option Nat :=
  if 0 ≤ i then (if i.toNat < length then some i.toNat else none)
  else if (-i).toNat ≤ length then some (length - (-i).toNat) else none

def rewind (s : Strings) : Strings := { s with cursor := s.busy.map fun _ => 0 }

def turnTo (s : Strings) (count : Int) (staff : StaffName) : Strings :=
  if staff = s.staff then s
  else rewind { s with staff, busy := List.replicate count.toNat [] }

/-- Looks for a place for a span among the spans from the `i`-th on: the place
    where the search ended, and the spans with the new one if it fits. -/
def fit (new : Span) : List Span → Nat → Nat × Option (List Span)
  | [], i => (i, some [new])
  | x :: rest, i =>
    if x.stop ≤ new.start then
      let (j, found) := fit new rest (i + 1)
      (j, found.map (x :: ·))
    else if x.start ≤ new.start || x.start < new.stop then (i, none)
    else (i, some (new :: x :: rest))

def take (s : Strings) (string : Int) (new : Span) : Except Fault (Bool × Strings) :=
  match place? s.busy.length string, place? s.cursor.length string with
  | some k, some c =>
    let xs := s.busy.getD k []
    let from_ := s.cursor.getD c 0
    let (j, found) := fit new (xs.drop from_) (min from_ xs.length)
    let moved := { s with cursor := s.cursor.set c j }
    match found with
    | some ys => .ok (true, { moved with busy := s.busy.set k (xs.take from_ ++ ys) })
    | none => .ok (false, moved)
  | _, _ => .error .outOfRange

def squeeze (new : Span) : List Span → List Span
  | [] => [new]
  | x :: rest => if x.stop ≤ new.start then x :: squeeze new rest else new :: x :: rest

def force (s : Strings) (string : Int) (new : Span) : Except Fault Strings :=
  match place? s.busy.length string with
  | some k => .ok { s with busy := s.busy.set k (squeeze new (s.busy.getD k [])) }
  | none => .error .outOfRange

end Strings

end Plainsong.Abc
