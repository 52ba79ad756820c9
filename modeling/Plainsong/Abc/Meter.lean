import Plainsong.Text.Blank
import Plainsong.Text.Letter
/- The number of beats in a measure may be given as a sum or product, such as
   `2+3` or `(2+3)*2`. -/
namespace Plainsong.Abc.Meter

/-- A sign of such a sum. -/
inductive Sign where
  | number (n : Int)
  | plus
  | minus
  | times
  | power
  | opening
  | closing
deriving DecidableEq, Repr

/-- Digits as a number; a zero may not lead other digits, and single
    underscores may stand between digits. -/
def numeral? (ds : List Char) : Option Int :=
  match ds with
  | '0' :: rest => if rest.all fun c => c = '0' || c = '_' then (Text.readDigits ds 0 false).map Int.ofNat else none
  | _ => (Text.readDigits ds 0 false).map Int.ofNat

def signsAt : Nat → List Char → Option (List Sign)
  | _, [] => some []
  | 0, _ => none
  | fuel + 1, c :: rest =>
    if c = ' ' || c = '\t' then signsAt fuel rest
    else if c.isDigit then
      let ds := (c :: rest).takeWhile fun c => c.isDigit || c = '_'
      match numeral? ds, signsAt fuel ((c :: rest).dropWhile fun c => c.isDigit || c = '_') with
      | some n, some more => some (.number n :: more)
      | _, _ => none
    else match c, rest with
      | '+', _ => (signsAt fuel rest).map (.plus :: ·)
      | '-', _ => (signsAt fuel rest).map (.minus :: ·)
      | '*', '*' :: rest => (signsAt fuel rest).map (.power :: ·)
      | '*', _ => (signsAt fuel rest).map (.times :: ·)
      | '(', _ => (signsAt fuel rest).map (.opening :: ·)
      | ')', _ => (signsAt fuel rest).map (.closing :: ·)
      | _, _ => none

mutual

def sum : Nat → List Sign → Option (Int × List Sign)
  | 0, _ => none
  | fuel + 1, s => do
    let (n, rest) ← product fuel s
    sumMore fuel n rest

def sumMore : Nat → Int → List Sign → Option (Int × List Sign)
  | 0, _, _ => none
  | fuel + 1, n, .plus :: rest => do
    let (m, rest) ← product fuel rest
    sumMore fuel (n + m) rest
  | fuel + 1, n, .minus :: rest => do
    let (m, rest) ← product fuel rest
    sumMore fuel (n - m) rest
  | _ + 1, n, rest => some (n, rest)

def product : Nat → List Sign → Option (Int × List Sign)
  | 0, _ => none
  | fuel + 1, s => do
    let (n, rest) ← signed fuel s
    productMore fuel n rest

def productMore : Nat → Int → List Sign → Option (Int × List Sign)
  | 0, _, _ => none
  | fuel + 1, n, .times :: rest => do
    let (m, rest) ← signed fuel rest
    productMore fuel (n * m) rest
  | _ + 1, n, rest => some (n, rest)

def signed : Nat → List Sign → Option (Int × List Sign)
  | 0, _ => none
  | fuel + 1, .plus :: rest => signed fuel rest
  | fuel + 1, .minus :: rest => (signed fuel rest).map fun (n, rest) => (-n, rest)
  | fuel + 1, .number n :: .power :: rest => powerOf fuel n rest
  | _ + 1, .number n :: rest => some (n, rest)
  | fuel + 1, .opening :: rest => do
    match ← sum fuel rest with
    | (n, .closing :: .power :: rest) => powerOf fuel n rest
    | (n, .closing :: rest) => some (n, rest)
    | _ => none
  | _ + 1, _ => none

def powerOf : Nat → Int → List Sign → Option (Int × List Sign)
  | 0, _, _ => none
  | fuel + 1, n, rest => do
    let (m, rest) ← signed fuel rest
    if m < 0 || 100000 < m then none else some (Int.pow n m.toNat, rest)

end

def value? (s : String) : Option Int := do
  let cs := s.toList
  let signs ← signsAt (cs.length + 1) cs
  match ← sum (8 * signs.length + 8) signs with
  | (n, []) => some n
  | _ => none

end Plainsong.Abc.Meter
