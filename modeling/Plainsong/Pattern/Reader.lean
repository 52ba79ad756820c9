import Plainsong.Pattern.Basic
/- Reading patterns from their text: classes, groups (plain, named, without
   capture), repetitions (greedy and lazy), anchors, looking ahead and behind,
   references to groups, and the flags for case, lines and the dot. -/
namespace Plainsong

namespace Pattern

/-- How the text of a pattern is to be read. -/
structure Flags where
  caseless : Bool := false
  multiline : Bool := false
  dotAll : Bool := false
  deriving Repr, DecidableEq, Inhabited

def Flags.ofNat (n : Nat) : Flags :=
  { caseless := n / 2 % 2 == 1, multiline := n / 8 % 2 == 1, dotAll := n / 16 % 2 == 1 }

/-- What the reader has seen: the number of groups so far and their names. -/
structure Groups where
  count : Nat := 1
  names : List (String × Nat) := []
  deriving Inhabited

def repeated (p : Pattern) (b : Bounds) (greedy : Bool) : Pattern :=
  match p with
  | .one k => .span k b greedy
  | _ => .loop p b greedy

def hexValue? (c : Char) : Option Nat :=
  if c.isDigit then some (c.toNat - '0'.toNat)
  else if 'a' ≤ c ∧ c ≤ 'f' then some (c.toNat - 'a'.toNat + 10)
  else if 'A' ≤ c ∧ c ≤ 'F' then some (c.toNat - 'A'.toNat + 10)
  else none

def takeHex : Nat → Nat → List Char → Option (Nat × List Char)
  | 0, v, r => some (v, r)
  | n + 1, v, c :: r => do takeHex n (v * 16 + (← hexValue? c)) r
  | _ + 1, _, [] => none

def octalDigits : Nat → List Char → List Char
  | 0, _ => []
  | n + 1, c :: r => if '0' ≤ c ∧ c ≤ '7' then c :: octalDigits n r else []
  | _ + 1, [] => []

def octalValue (ds : List Char) : Nat := ds.foldl (fun n c => n * 8 + (c.toNat - '0'.toNat)) 0

def charEscape? : List Char → Option (Char × List Char)
  | 'n' :: r => some ('\n', r)
  | 't' :: r => some ('\t', r)
  | 'r' :: r => some ('\r', r)
  | 'f' :: r => some (Char.ofNat 12, r)
  | 'v' :: r => some (Char.ofNat 11, r)
  | 'a' :: r => some (Char.ofNat 7, r)
  | 'x' :: r => (takeHex 2 0 r).map fun (v, r) => (Char.ofNat v, r)
  | 'u' :: r => (takeHex 4 0 r).map fun (v, r) => (Char.ofNat v, r)
  | 'U' :: r => (takeHex 8 0 r).map fun (v, r) => (Char.ofNat v, r)
  | '0' :: r =>
    let ds := octalDigits 2 r
    some (Char.ofNat (octalValue ds), r.drop ds.length)
  | c :: r => if c.isAlphanum then none else some (c, r)
  | [] => none

def classEscape? : Char → Option Member
  | 'd' => some (.short .digit false)
  | 'D' => some (.short .digit true)
  | 's' => some (.short .space false)
  | 'S' => some (.short .space true)
  | 'w' => some (.short .word false)
  | 'W' => some (.short .word true)
  | _ => none

def classAtom? : List Char → Option ((Char ⊕ Member) × List Char)
  | '\\' :: c :: r =>
    match classEscape? c with
    | some m => some (.inr m, r)
    | none =>
      if c = 'b' then some (.inl (Char.ofNat 8), r)
      else if '1' ≤ c ∧ c ≤ '7' then
        let ds := octalDigits 3 (c :: r)
        if ds.length = 3 then some (.inl (Char.ofNat (octalValue ds)), (c :: r).drop 3) else none
      else (charEscape? (c :: r)).map fun (c, r) => (.inl c, r)
  | ['\\'] => none
  | c :: r => some (.inl c, r)
  | [] => none

/-- The members of a class up to its closing bracket; at the first place the
    bracket is a member itself. -/
def classMembers : Nat → Bool → List Char → Option (List Member × List Char)
  | 0, _, _ => none
  | _ + 1, _, [] => none
  | fuel + 1, first, c :: r => do
    if c = ']' && !first then return ([], r)
    let (a, r) ← classAtom? (c :: r)
    match a, r with
    | .inl lo, '-' :: d :: r' =>
      if d = ']' then
        let (ms, r) ← classMembers fuel false r
        return (Member.consRange lo lo ms, r)
      else
        let (b, r'') ← classAtom? (d :: r')
        match b with
        | .inl hi =>
          if hi < lo then none
          else
            let (ms, r) ← classMembers fuel false r''
            return (Member.consRange lo hi ms, r)
        | .inr _ => none
    | .inl x, r =>
      let (ms, r) ← classMembers fuel false r
      return (Member.consRange x x ms, r)
    | .inr m, '-' :: d :: r' =>
      if d = ']' then
        let (ms, r) ← classMembers fuel false ('-' :: d :: r')
        return (m :: ms, r)
      else none
    | .inr m, r =>
      let (ms, r) ← classMembers fuel false r
      return (m :: ms, r)

def natOfDigits (ds : List Char) : Nat :=
  ds.foldl (fun n c => n * 10 + (c.toNat - '0'.toNat)) 0

def braceBounds? (s : List Char) : Option (Bounds × List Char) :=
  let lo := s.takeWhile Char.isDigit
  match s.dropWhile Char.isDigit with
  | '\x7d' :: r => if lo.isEmpty then none else some (⟨natOfDigits lo, some (natOfDigits lo)⟩, r)
  | ',' :: t =>
    let hi := t.takeWhile Char.isDigit
    match t.dropWhile Char.isDigit with
    | '\x7d' :: r =>
      some (⟨natOfDigits lo, if hi.isEmpty then none else some (natOfDigits hi)⟩, r)
    | _ => none
  | _ => none

def bounds? : List Char → Option (Bounds × List Char)
  | '*' :: r => some (⟨0, none⟩, r)
  | '+' :: r => some (⟨1, none⟩, r)
  | '?' :: r => some (⟨0, some 1⟩, r)
  | '\x7b' :: r => braceBounds? r
  | _ => none

def isAnchor : Pattern → Bool
  | .anchor _ => true
  | _ => false

def quantified (p : Pattern) (s : List Char) : Option (Pattern × List Char) :=
  match bounds? s with
  | none => some (p, s)
  | some (b, r) =>
    if isAnchor p then none
    else if (b.most.map fun m => decide (m < b.least)).getD false then none
    else
      let (greedy, r) := match r with
        | '?' :: r => (false, r)
        | r => (true, r)
      if (bounds? r).isSome then none else some (repeated p b greedy, r)

def isNameStart (c : Char) : Bool := c.isAlpha || c == '_'

def upTo (close : Char) (s : List Char) : Option (List Char × List Char) :=
  match s.dropWhile (· ≠ close) with
  | _ :: r => some (s.takeWhile (· ≠ close), r)
  | [] => none

mutual

def readAlt (flags : Flags) : Nat → Groups → List Char → Option (Pattern × Groups × List Char)
  | 0, _, _ => none
  | fuel + 1, g, s => do
    let (p, g, r) ← readSeq flags fuel g s
    match r with
    | '|' :: r =>
      let (q, g, r) ← readAlt flags fuel g r
      return (.alt p q, g, r)
    | r => return (p, g, r)

def readSeq (flags : Flags) : Nat → Groups → List Char → Option (Pattern × Groups × List Char)
  | 0, _, _ => none
  | fuel + 1, g, s =>
    match s with
    | [] => some (.empty, g, [])
    | '|' :: _ => some (.empty, g, s)
    | ')' :: _ => some (.empty, g, s)
    | _ => do
      let (p, g, r) ← readAtom flags fuel g s
      let (p, r) ← quantified p r
      let (q, g, r) ← readSeq flags fuel g r
      return (match q with | .empty => p | q => .seq p q, g, r)

def readAtom (flags : Flags) : Nat → Groups → List Char → Option (Pattern × Groups × List Char)
  | 0, _, _ => none
  | fuel + 1, g, s =>
    match s with
    | [] => none
    | '.' :: r => some (.one (.dot flags.dotAll), g, r)
    | '^' :: r => some (.anchor (if flags.multiline then .lineStart else .textStart), g, r)
    | '$' :: r => some (.anchor (if flags.multiline then .lineEnd else .lastLineEnd), g, r)
    | '[' :: '^' :: r => do
      let (ms, r) ← classMembers (r.length + 1) true r
      return (.one { members := ms, negated := true, caseless := flags.caseless }, g, r)
    | '[' :: r => do
      let (ms, r) ← classMembers (r.length + 1) true r
      return (.one { members := ms, negated := false, caseless := flags.caseless }, g, r)
    | '(' :: '?' :: ':' :: r => do
      let (p, g, r) ← readAlt flags fuel g r
      match r with
      | ')' :: r => return (.seq .empty p, g, r)
      | _ => none
    | '(' :: '?' :: '=' :: r => do
      let (p, g, r) ← readAlt flags fuel g r
      match r with
      | ')' :: r => return (.ahead p false, g, r)
      | _ => none
    | '(' :: '?' :: '!' :: r => do
      let (p, g, r) ← readAlt flags fuel g r
      match r with
      | ')' :: r => return (.ahead p true, g, r)
      | _ => none
    | '(' :: '?' :: '<' :: '=' :: r => do
      let (p, g, r) ← readAlt flags fuel g r
      match r, p.width? with
      | ')' :: r, some w => return (.behind p w false, g, r)
      | _, _ => none
    | '(' :: '?' :: '<' :: '!' :: r => do
      let (p, g, r) ← readAlt flags fuel g r
      match r, p.width? with
      | ')' :: r, some w => return (.behind p w true, g, r)
      | _, _ => none
    | '(' :: '?' :: 'P' :: '<' :: r => do
      let (name, r) ← upTo '>' r
      if !(name.head?.map isNameStart).getD false
          || !name.all (fun c => c.isAlphanum || c == '_')
          || g.names.any (·.1 == String.ofList name) then none
      else
        let n := g.count
        let (p, g, r) ← readAlt flags fuel
          { count := n + 1, names := g.names ++ [(String.ofList name, n)] } r
        match r with
        | ')' :: r => return (.group n p, g, r)
        | _ => none
    | '(' :: '?' :: 'P' :: '=' :: r => do
      let (name, r) ← upTo ')' r
      let n ← g.names.lookup (String.ofList name)
      return (.again n flags.caseless, g, r)
    | '(' :: '?' :: _ => none
    | '(' :: r => do
      let n := g.count
      let (p, g, r) ← readAlt flags fuel { g with count := n + 1 } r
      match r with
      | ')' :: r => return (.group n p, g, r)
      | _ => none
    | '\\' :: 'A' :: r => some (.anchor .textStart, g, r)
    | '\\' :: 'Z' :: r => some (.anchor .textEnd, g, r)
    | '\\' :: 'b' :: r => some (.anchor .boundary, g, r)
    | '\\' :: 'B' :: r => some (.anchor .noBoundary, g, r)
    | '\\' :: c :: r =>
      match classEscape? c with
      | some m => some (.one { members := [m], negated := false, caseless := false }, g, r)
      | none =>
        if '1' ≤ c ∧ c ≤ '9' then
          let ds := (c :: r).takeWhile Char.isDigit
          let ds := ds.take 2
          if natOfDigits ds < g.count then some (.again (natOfDigits ds) flags.caseless, g, (c :: r).drop ds.length)
          else none
        else (charEscape? (c :: r)).map fun (c, r) => (.one (.single c flags.caseless), g, r)
    | ['\\'] => none
    | c :: r =>
      if c = '*' || c = '+' || c = '?' || c = ')' || c = '|' then none
      else some (.one (.single c flags.caseless), g, r)

end

def leadingFlags (flags : Flags) (s : List Char) : Flags × List Char :=
  match s with
  | '(' :: '?' :: r =>
    let letters := r.takeWhile (fun c => c == 'i' || c == 'm' || c == 's')
    match letters, r.drop letters.length with
    | _ :: _, ')' :: rest =>
      ({ caseless := flags.caseless || letters.contains 'i'
         multiline := flags.multiline || letters.contains 'm'
         dotAll := flags.dotAll || letters.contains 's' }, rest)
    | _, _ => (flags, s)
  | _ => (flags, s)

end Pattern

def Matcher.read (source : String) (flags : Pattern.Flags) : Option Matcher :=
  let (flags, s) := Pattern.leadingFlags flags source.toList
  match Pattern.readAlt flags (3 * s.length + 4) {} s with
  | some (p, g, []) => some { pattern := p, groups := g.count, names := g.names }
  | _ => none

def Matcher.of (source : String) : Matcher :=
  (Matcher.read source {}).getD { pattern := .one { members := [], negated := false, caseless := false }, groups := 1, names := [] }

namespace Pattern

def specials : List Char :=
  "()[]\x7b\x7d?*+-|^$\\.&~# \t\n\r".toList ++ [Char.ofNat 11, Char.ofNat 12]

def escape (s : String) : String :=
  String.ofList (s.toList.flatMap fun c => if specials.contains c then ['\\', c] else [c])

def escapeClass (s : String) : String :=
  String.ofList (s.toList.flatMap fun c =>
    if c = '\\' || c = '^' || c = '-' || c = ']' then ['\\', c]
    else if c = '\n' then ['\\', 'n']
    else if c = '\t' then ['\\', 't']
    else [c])

end Pattern

end Plainsong
