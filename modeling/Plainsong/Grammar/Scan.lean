import Plainsong.Grammar.Parse
/- Whole texts: parsing from the start, finding all matches, and replacing
   matched text by the tokens that actions make of it. -/
namespace Plainsong.Grammar

variable {ν κ σ : Type}

def prepare (id : Nat) (s : String) : GrammarM ν κ σ Chars := do
  if !(← element id).streamlined then streamline id
  for e in (← element id).ignored do
    streamline e
  let s := if (← element id).keepTabs then s else Text.expandTabs s
  return s.toList.toArray

def resetMemory : GrammarM ν κ σ Unit := modify fun s => { s with memory := {} }

def parseText (H : Host ν κ σ) (id : Nat) (s : String) (all : Bool) : GrammarM ν κ σ Nat := do
  resetMemory
  let text ← prepare id s
  let (stop, tokens) ← parse H text id 0 true true
  if all then
    let stop ← (← element id).skip (parse H text) text stop
    let rest ← plus (← empty) (← textEnd)
    let _ ← parse H text rest stop true true
  return tokens

/-- A match found in a text. -/
structure Hit where
  tokens : Nat
  start : Nat
  stop : Nat

def scanFrom (H : Host ν κ σ) (text : Chars) (id : Nat) (limit : Option Int) (overlap : Bool) :
    Nat → Nat → List Hit → GrammarM ν κ σ (List Hit)
  | 0, _, hits => pure hits.reverse
  | fuel + 1, loc, hits => do
    let full := match limit with
      | some n => decide (n ≤ hits.length)
      | none => false
    if text.size < loc || full then return hits.reverse
    let start ← (← element id).skip (parse H text) text loc
    match ← attempt (parse H text id start true false) with
    | .error (.mismatch _) => scanFrom H text id limit overlap fuel (start + 1) hits
    | .error f => throw f
    | .ok (stop, tokens) =>
      if loc < stop then
        let hits := ⟨tokens, start, stop⟩ :: hits
        if overlap then
          let next ← (← element id).skip (parse H text) text loc
          scanFrom H text id limit overlap fuel (if loc < next then stop else loc + 1) hits
        else scanFrom H text id limit overlap fuel stop hits
      else scanFrom H text id limit overlap fuel (start + 1) hits

def scan (H : Host ν κ σ) (id : Nat) (s : String) (limit : Option Int) (overlap : Bool) :
    GrammarM ν κ σ (List Hit) := do
  let text ← prepare id s
  resetMemory
  scanFrom H text id limit overlap (text.size + 2) 0 []

def search (H : Host ν κ σ) (id : Nat) (s : String) (limit : Option Int) : GrammarM ν κ σ Nat := do
  let hits ← scan H id s limit false
  Results.ofItems (hits.map fun h => .results h.tokens).toArray

def isNothing : Value ν → Bool
  | .none => true
  | .bool b => !b
  | .int n => n == 0
  | .float x => x == 0.0
  | .text s => s.isEmpty
  | .list xs => xs.isEmpty
  | .tuple xs => xs.isEmpty
  | _ => false

def transform (H : Host ν κ σ) (id : Nat) (s : String) : GrammarM ν κ σ String := do
  changeElement id fun e => { e with keepTabs := true }
  let hits ← scan H id s none false
  let text := s.toList.toArray
  let mut out : Array (Value ν) := #[]
  let mut last := 0
  for h in hits do
    out := out.push (.text (sliceText text last h.start))
    out := out ++ (← Results.asList h.tokens).toArray
    last := h.stop
  out := out.push (.text (sliceText text last text.size))
  let pieces ← (flatten (out.toList.filter fun v => !isNothing v)).mapM (showValue H)
  return String.join pieces

end Plainsong.Grammar
