import Plainsong.Abc.Node
import Plainsong.Grammar.Value
/- What is settled within one measure or one group of grace notes once it has
   been read: broken rhythm is turned into durations, and chords are spread
   into notes that sound together. -/
namespace Plainsong.Abc

open Grammar (Fault)

def commonDivisorAt : Nat → Int → Int → Int
  | 0, a, _ => a
  | fuel + 1, a, b => if b = 0 then a else commonDivisorAt fuel b (a.fmod b)

def commonDivisor (a b : Int) : Int := commonDivisorAt (b.natAbs + 1) a b

def simplify (a b : Int) : Except Fault (Int × Int) :=
  let d := commonDivisor a b
  if d = 0 then .error .dividedByZero else .ok (a.fdiv d, b.fdiv d)

/-! ## Broken rhythm -/

def brokenFactors? : String → Option ((Int × Int) × (Int × Int))
  | ">" => some ((3, 2), (1, 2))
  | "<" => some ((1, 2), (3, 2))
  | ">>" => some ((7, 4), (1, 4))
  | "<<" => some ((1, 4), (7, 4))
  | _ => none

def Node.stretch (n : Node) (by_ : Int × Int) : Except Fault Node :=
  match n.duration? with
  | none => .error .noProperty
  | some (num, den) => do
    let (num, den) ← simplify (by_.1 * num) (by_.2 * den)
    return n.withDuration num den

/-- A measure on the way: the nodes so far, the place of the last timed node
    that no sign preceded, and the sign that waits for a node behind it. -/
structure Breaking where
  out : Array Node := #[]
  previous : Option Nat := none
  sign : String := ""
  warnings : List String := []
  fault : Option Fault := none

namespace Breaking

def settle (b : Breaking) (x : Node) : Breaking :=
  let plain (b : Breaking) : Breaking := { b with out := b.out.push x, sign := "" }
  match b.previous.bind fun i => (b.out[i]?).map fun p => (i, p) with
  | none => plain { b with warnings := b.warnings ++ ["error in broken rhythm: " ++ x.shown] }
  | some (i, p) =>
    match brokenFactors? b.sign with
    | none => plain b
    | some (before, behind) =>
      match p.stretch before, x.stretch behind with
      | .ok p, .ok x => { b with out := (b.out.set! i p).push x, sign := "" }
      | .error f, _ => { b with fault := some f }
      | _, .error f => { b with fault := some f }

def step (b : Breaking) (x : Node) : Breaking :=
  if b.fault.isSome then b
  else if x.isTimed then
    if b.sign ≠ "" then b.settle x
    else { b with out := b.out.push x, previous := some b.out.size }
  else if x.name = "broken" then { b with sign := x.text }
  else { b with out := b.out.push x }

end Breaking

/-- The nodes of a measure without its broken rhythm signs; each sign has been
    worked into the durations of two nodes. -/
def breakRhythm (xs : List Node) : Breaking := xs.foldl Breaking.step {}

/-! ## Chords -/

def semitones? : Char → Option Int
  | 'C' => some 0
  | 'D' => some 2
  | 'E' => some 4
  | 'F' => some 5
  | 'G' => some 7
  | 'A' => some 9
  | 'B' => some 11
  | _ => none

def Node.height (n : Node) : Except Fault Int :=
  match n.one? "pitch" with
  | none => .ok 130
  | some p =>
    let (accidental, step, octave) := match p.leaves with
      | [a, s, o] => (a.asText, s.asText, o.asInt)
      | [s, o] => ("", s.asText, o.asInt)
      | _ => ("", "", 0)
    let upper := step.toUpper
    match upper.toList with
    | [c] => match semitones? c with
      | some k =>
        let octave := (if upper = step then 4 else 5) + octave
        let shift : Int := if accidental = "^" then 1 else if accidental = "_" then -1 else 0
        .ok (octave * 12 + k + shift + 12)
      | none => .error .refusedValue
    | _ => .error .refusedValue

def fromHighToLow (xs : List Node) : Except Fault (List Node) := do
  let keyed ← xs.mapM fun n => do return (← n.height, n)
  return (keyed.mergeSort fun a b => decide (b.1 ≤ a.1)).map (·.2)

/-- The notes of a chord, from the `k`-th on: each lasts its own time multiplied
    by that of the chord, and all but the first are marked as joining it. -/
def spreadNotes (chord : Node) (num den : Int) : List Node → Nat → Except Fault (List Node)
  | [], _ => .ok []
  | n :: rest, k => do
    let drop := n.name = "dur" || n.name = "tie" || n.name = "slurs" || n.name = "rest"
    if n.name = "note" then
      let n ← n.stretch (num, den)
      let n := match chord.one? "tie" with
        | some t => n.put "tie" [t]
        | none => n
      let n :=
        if 0 < k then n.put "chord" [{ name := "chord", leaves := [.int 1] }]
        else
          let n := match chord.one? "slurs" with
            | some s => n.put "slurs" [s]
            | none => n
          let pitches := (chord.get "note").filterMap (·.one? "pitch")
          n.put "pitches" [Node.ofTokens "pitches" (pitches.map Sum.inl) false]
      return n :: (← spreadNotes chord num den rest (k + 1))
    else
      let rest ← spreadNotes chord num den rest k
      return if drop then rest else n :: rest

def spreadChord (highFirst : Bool) (chord : Node) : Except Fault (List Node) := do
  match chord.get "rest", chord.has "note" with
  | rest :: _, false => return [rest]
  | _, _ =>
    match chord.duration? with
    | none => .error .noProperty
    | some (num, den) =>
      if !chord.has "note" then .error .noProperty
      else
        let nodes := chord.items.filterMap fun
          | .inl n => some n
          | .inr _ => none
        let nodes ← if highFirst then fromHighToLow nodes else pure nodes
        spreadNotes chord num den nodes 0

def spreadChords (highFirst : Bool) : List Node → Except Fault (List Node)
  | [] => .ok []
  | x :: rest => do
    let here ← if x.name = "chord" then spreadChord highFirst x else pure [x]
    return here ++ (← spreadChords highFirst rest)

def markGrace (xs : List Node) : List Node :=
  xs.map fun n => if n.name = "note" then { n with isGrace := true } else n

end Plainsong.Abc
