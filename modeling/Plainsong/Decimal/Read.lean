import Plainsong.Text.Blank
import Plainsong.Text.Case
import Plainsong.Text.Letter
/- Numbers read from text. -/
namespace Plainsong.Decimal

def digitRun : List Char → Bool → Option (List Nat)
  | [], afterDigit => if afterDigit then some [] else none
  | c :: rest, afterDigit =>
    if c = '_' then (if afterDigit then digitRun rest false else none)
    else match Text.decimalDigit? c with
      | some d => (digitRun rest true).map (d :: ·)
      | none => none

def digitRun? (cs : List Char) : Option (List Nat) := if cs.isEmpty then some [] else digitRun cs false

def ofDigits (ds : List Nat) : Nat := ds.foldl (fun n d => n * 10 + d) 0

def scaled (n : Nat) (e : Int) : Float :=
  if n = 0 then 0.0
  else if 400 < e then 1.0 / 0.0
  else if e < -(400 : Int) - (toString n).length then 0.0
  else if 0 ≤ e then Float.ofScientific (n * Nat.pow 10 e.toNat) false 0
  else Float.ofScientific n true (-e).toNat

def exponent? : List Char → Option Int
  | '-' :: ds => (digitRun ds false).map fun ds => -(ofDigits ds : Int)
  | '+' :: ds => (digitRun ds false).map fun ds => (ofDigits ds : Int)
  | ds => (digitRun ds false).map fun ds => (ofDigits ds : Int)

def unsigned? (cs : List Char) : Option Float := do
  let isMark (c : Char) := c = 'e' || c = 'E'
  let mantissa := cs.takeWhile fun c => !isMark c
  let e ← match cs.dropWhile fun c => !isMark c with
    | [] => some 0
    | _ :: rest => exponent? rest
  let whole ← digitRun? (mantissa.takeWhile (· ≠ '.'))
  let part ← digitRun? ((mantissa.dropWhile (· ≠ '.')).drop 1)
  if whole.isEmpty && part.isEmpty then none
  else some (scaled (ofDigits (whole ++ part)) (e - part.length))

def special? (s : String) : Option Float :=
  if s = "inf" || s = "infinity" then some (1.0 / 0.0)
  else if s = "nan" then some (0.0 / 0.0)
  else none

def read? (s : String) : Option Float :=
  let cs := (Text.trim s).toList
  let (negative, cs) := match cs with
    | '-' :: r => (true, r)
    | '+' :: r => (false, r)
    | r => (false, r)
  let x := (special? (Text.lower (String.ofList cs))).orElse fun _ => unsigned? cs
  x.map fun x => if negative then -x else x

end Plainsong.Decimal
