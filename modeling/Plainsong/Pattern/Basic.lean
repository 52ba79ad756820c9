import Plainsong.Text.Blank
import Plainsong.Text.Letter
import Plainsong.Text.Case
/- Regular patterns over texts and their backtracking match. A pattern is
   matched at a position against an array of characters; alternatives are
   tried from left to right, greedy repetitions from the longest down, and the
   first way to complete the match wins. Every function is total: a repetition
   runs at most once for each character that is left. -/
namespace Plainsong

abbrev Chars := Array Char

namespace Pattern

/-- Shorthand classes of characters. -/
inductive Shorthand where
  | digit | space | word
  deriving Repr, DecidableEq

def Shorthand.test : Shorthand → Char → Bool
  | .digit, c => Text.isDecimal c
  | .space, c => Text.isBlank c
  | .word, c => Text.isWordChar c

/-- A member of a character class. -/
inductive Member where
  | range (lo hi : Char)
  | short (s : Shorthand) (negated : Bool)
  deriving Repr, DecidableEq

def Member.test : Member → Char → Bool
  | .range lo hi, c => lo ≤ c && c ≤ hi
  | .short s negated, c => s.test c != negated

/-- A class of characters; when case is ignored a character belongs if any of
    its case forms does. -/
structure CharClass where
  members : List Member
  negated : Bool
  caseless : Bool
  deriving Repr, DecidableEq

def CharClass.test (k : CharClass) (c : Char) : Bool :=
  let holds (c : Char) := k.members.any (·.test c)
  let found := holds c || (k.caseless &&
    ((match Text.lowerChar c with | [d] => holds d | _ => false)
      || (match Text.upperChar c with | [d] => holds d | _ => false)))
  found != k.negated

def CharClass.single (c : Char) (caseless : Bool) : CharClass :=
  { members := [.range c c], negated := false, caseless }

def CharClass.dot (lineFeed : Bool) : CharClass :=
  { members := if lineFeed then [] else [.range '\n' '\n'], negated := true, caseless := false }

def Member.consRange (lo hi : Char) : List Member → List Member
  | .range lo' hi' :: ms =>
    if hi.toNat + 1 = lo'.toNat then .range lo hi' :: ms else .range lo hi :: .range lo' hi' :: ms
  | ms => .range lo hi :: ms

def CharClass.ofChars (s : List Char) : CharClass :=
  { members := s.foldr (fun c ms => Member.consRange c c ms) [], negated := false, caseless := false }

/-- How often a repetition may run. -/
structure Bounds where
  least : Nat
  most : Option Nat
  deriving Repr, DecidableEq

def Bounds.allows (b : Bounds) (n : Nat) : Bool :=
  match b.most with
  | some m => n < m
  | none => true

/-- Places between characters. -/
inductive Anchor where
  | textStart | lineStart | textEnd | lastLineEnd | lineEnd | boundary | noBoundary
  deriving Repr, DecidableEq

end Pattern

/-- A regular pattern. -/
inductive Pattern where
  | empty
  | one (k : Pattern.CharClass)
  | seq (a b : Pattern)
  | alt (a b : Pattern)
  | group (index : Nat) (p : Pattern)
  /-- A repetition of a single class of characters. -/
  | span (k : Pattern.CharClass) (b : Pattern.Bounds) (greedy : Bool)
  | loop (p : Pattern) (b : Pattern.Bounds) (greedy : Bool)
  | anchor (a : Pattern.Anchor)
  | ahead (p : Pattern) (negated : Bool)
  | behind (p : Pattern) (width : Nat) (negated : Bool)
  | again (index : Nat) (caseless : Bool)
  deriving Repr, DecidableEq

namespace Pattern

abbrev Captures := Array (Option (Nat × Nat))

def Anchor.holds (text : Chars) (i : Nat) : Anchor → Bool
  | .textStart => i == 0
  | .lineStart => i == 0 || text[i - 1]? == some '\n'
  | .textEnd => i == text.size
  | .lastLineEnd => i == text.size || (i + 1 == text.size && text[i]? == some '\n')
  | .lineEnd => i == text.size || text[i]? == some '\n'
  | .boundary => atBoundary
  | .noBoundary => !atBoundary
where
  atBoundary : Bool :=
    let before := i != 0 && (text[i - 1]?.map Text.isWordChar).getD false
    let after := (text[i]?.map Text.isWordChar).getD false
    before != after

def spanLength (k : CharClass) (text : Chars) : Nat → Nat → Nat
  | _, 0 => 0
  | i, n + 1 =>
    match text[i]? with
    | some c => if k.test c then spanLength k text (i + 1) n + 1 else 0
    | none => 0

def firstDown {α : Type} (f : Nat → Option α) (lo : Nat) : Nat → Option α
  | 0 => f lo
  | n + 1 =>
    match f (lo + n + 1) with
    | some r => some r
    | none => firstDown f lo n

def firstUp {α : Type} (f : Nat → Option α) (lo : Nat) : Nat → Option α
  | 0 => f lo
  | n + 1 =>
    match f lo with
    | some r => some r
    | none => firstUp f (lo + 1) n

abbrev Step (α : Type) := Nat → Captures → (Nat → Captures → Option α) → Option α

/-- Runs a repetition: `count` turns are done, the last one began at `last`.
    Beyond the least number a turn is tried only if the one before moved on. -/
def turns {α : Type} (body : Step α) (b : Bounds) (greedy : Bool) :
    Nat → Nat → Option Nat → Step α
  | 0, _, _ => fun _ _ _ => none
  | fuel + 1, count, last => fun i caps k =>
    let again (_ : Unit) : Option α :=
      body i caps fun j caps => turns body b greedy fuel (count + 1) (some i) j caps k
    if count < b.least then again ()
    else if b.allows count && last != some i then
      if greedy then
        match again () with
        | some r => some r
        | none => k i caps
      else
        match k i caps with
        | some r => some r
        | none => again ()
    else k i caps

def repeats (text : Chars) (caseless : Bool) (i : Nat) : Nat → Nat → Bool
  | _, 0 => true
  | p, n + 1 =>
    match text[i]?, text[p]? with
    | some a, some b =>
      (a == b || (caseless && Text.lowerChar a == Text.lowerChar b))
        && repeats text caseless (i + 1) (p + 1) n
    | _, _ => false

def run {α : Type} (text : Chars) : Pattern → Step α
  | .empty, i, caps, k => k i caps
  | .one c, i, caps, k =>
    match text[i]? with
    | some x => if c.test x then k (i + 1) caps else none
    | none => none
  | .seq a b, i, caps, k => run text a i caps fun j caps => run text b j caps k
  | .alt a b, i, caps, k =>
    match run text a i caps k with
    | some r => some r
    | none => run text b i caps k
  | .group n p, i, caps, k =>
    run text p i caps fun j caps => k j (caps.setIfInBounds n (some (i, j)))
  | .span c b greedy, i, caps, k =>
    let left := text.size - i
    let n := spanLength c text i (match b.most with | some m => min m left | none => left)
    if n < b.least then none
    else if greedy then firstDown (fun j => k j caps) (i + b.least) (n - b.least)
    else firstUp (fun j => k j caps) (i + b.least) (n - b.least)
  | .loop p b greedy, i, caps, k =>
    turns (fun j caps k => run text p j caps k) b greedy (b.least + (text.size - i) + 2) 0 none i caps k
  | .anchor a, i, caps, k => if a.holds text i then k i caps else none
  | .ahead p negated, i, caps, k =>
    look negated (run text p i caps (fun _ caps => some caps : Nat → Captures → Option Captures)) i caps k
  | .behind p width negated, i, caps, k =>
    if i < width then (if negated then k i caps else none)
    else look negated
      (run text p (i - width) caps
        (fun j caps => if j = i then some caps else none : Nat → Captures → Option Captures))
      i caps k
  | .again n caseless, i, caps, k =>
    match caps[n]? with
    | some (some (a, b)) =>
      if repeats text caseless a i (b - a) then k (i + (b - a)) caps else none
    | _ => none
where
  look (negated : Bool) (found : Option Captures) (i : Nat) (caps : Captures)
      (k : Nat → Captures → Option α) : Option α :=
    match found with
    | some caps' => if negated then none else k i caps'
    | none => if negated then k i caps else none

def width? : Pattern → Option Nat
  | .empty => some 0
  | .one _ => some 1
  | .seq a b => do return (← a.width?) + (← b.width?)
  | .alt a b => do
    let m ← a.width?
    let n ← b.width?
    if m = n then some m else none
  | .group _ p => p.width?
  | .span _ b _ => if b.most = some b.least then some b.least else none
  | .loop p b _ => do
    let n ← p.width?
    if b.most = some b.least then some (n * b.least) else none
  | .anchor _ => some 0
  | .ahead _ _ => some 0
  | .behind _ _ _ => some 0
  | .again _ _ => none

end Pattern

/-- A compiled pattern: the pattern, its number of groups (the whole match
    being group 0) and the names of the groups in order of appearance. -/
structure Matcher where
  pattern : Pattern
  groups : Nat
  names : List (String × Nat)

/-- A match: where each group stands, group 0 being the whole. -/
structure Found where
  start : Nat
  stop : Nat
  groups : Pattern.Captures

namespace Found

def whole (f : Found) (text : Chars) : String :=
  String.ofList (text.extract f.start f.stop).toList

def group? (f : Found) (text : Chars) (n : Nat) : Option String :=
  if n = 0 then some (f.whole text)
  else match f.groups[n]? with
    | some (some (a, b)) => some (String.ofList (text.extract a b).toList)
    | _ => none

end Found

namespace Matcher

def matchAt (m : Matcher) (text : Chars) (i : Nat) (advance : Bool) : Option Found :=
  if text.size < i then none
  else m.pattern.run text i (Array.replicate m.groups none) fun j caps =>
    if advance && j == i then none else some { start := i, stop := j, groups := caps }

def atPos (m : Matcher) (text : Chars) (i : Nat) : Option Found := m.matchAt text i false

def searchFrom (m : Matcher) (text : Chars) (advance : Bool) : Nat → Nat → Option Found
  | i, 0 => m.matchAt text i advance
  | i, n + 1 =>
    match m.matchAt text i advance with
    | some f => some f
    | none => searchFrom m text false (i + 1) n

def search (m : Matcher) (text : Chars) : Option Found :=
  m.searchFrom text false 0 text.size

/-- The texts of the groups of the first match, group 0 being the whole; a group
    that took no part is empty. -/
def texts? (m : Matcher) (s : String) : Option (Array String) :=
  let text := s.toList.toArray
  (m.search text).map fun f => (Array.range m.groups).map fun n => (f.group? text n).getD ""

def occursIn (m : Matcher) (s : String) : Bool := (m.search s.toList.toArray).isSome

def textsAtStart? (m : Matcher) (s : String) : Option (Array String) :=
  let text := s.toList.toArray
  (m.atPos text 0).map fun f => (Array.range m.groups).map fun n => (f.group? text n).getD ""

/-- All matches from left to right, none overlapping. A match may be empty,
    but not twice in a row at one place. -/
def allFrom (m : Matcher) (text : Chars) : Nat → Nat → Bool → List Found
  | 0, _, _ => []
  | fuel + 1, i, advance =>
    match m.searchFrom text advance i (text.size - i) with
    | none => []
    | some f => f :: allFrom m text fuel f.stop (f.stop == f.start)

def all (m : Matcher) (text : Chars) : List Found :=
  m.allFrom text (2 * text.size + 2) 0 false

def replace (m : Matcher) (s : String) (f : Chars → Found → String) : String :=
  let text := s.toList.toArray
  let (out, last) := (m.all text).foldl
    (fun (acc : List String × Nat) found =>
      (f text found :: String.ofList (text.extract acc.2 found.start).toList :: acc.1, found.stop))
    ([], 0)
  String.join (String.ofList (text.extract last text.size).toList :: out).reverse

def split (m : Matcher) (s : String) : List String :=
  let text := s.toList.toArray
  let (out, last) := (m.all text).foldl
    (fun (acc : List String × Nat) found =>
      let groups := ((List.range m.groups).drop 1).map fun n => (found.group? text n).getD ""
      (groups.reverse ++ String.ofList (text.extract acc.2 found.start).toList :: acc.1, found.stop))
    ([], 0)
  (String.ofList (text.extract last text.size).toList :: out).reverse

end Matcher

end Plainsong
