import Plainsong.Decimal.Binary
/- Decimal texts of floating-point numbers with a set number of places or of
   significant digits. The exact value is rounded, a half to the even digit. -/
namespace Plainsong.Decimal

def signText (negative : Bool) : String := if negative then "-" else ""

def placed (places n : Nat) : String :=
  let digits := toString n
  let padded := String.ofList (List.replicate (places + 1 - digits.length) '0') ++ digits
  if places = 0 then padded
  else
    let whole := padded.length - places
    String.ofList (padded.toList.take whole) ++ "." ++ String.ofList (padded.toList.drop whole)

def fixed (places : Nat) (x : Float) : String :=
  match Exact.ofFloat x with
  | .notANumber => "nan"
  | .infinite negative => signText negative ++ "inf"
  | .finite negative m e =>
    let (num, den) := quotient m e
    signText negative ++ placed places (roundEven (num * Nat.pow 10 places) den)

def leadingPower (num den : Nat) : Int :=
  let guess : Int := (toString num).length - (toString den).length
  -- the quotient lies between `10^(guess-1)` and `10^(guess+1)`
  let reaches (p : Int) : Bool :=
    if p < 0 then den ≤ num * Nat.pow 10 p.natAbs else den * Nat.pow 10 p.toNat ≤ num
  if reaches guess then guess else guess - 1

def significant (n num den : Nat) : Nat × Int :=
  let p := leadingPower num den
  let shift : Int := n - 1 - p
  let r := if shift < 0 then roundEven num (den * Nat.pow 10 shift.natAbs)
           else roundEven (num * Nat.pow 10 shift.toNat) den
  if Nat.pow 10 n ≤ r then (r / 10, p + 1) else (r, p)

def dropTrailingZeros (s : List Char) : List Char :=
  (s.reverse.dropWhile (· = '0')).reverse

def exponentText (p : Int) : String :=
  let digits := toString p.natAbs
  (if p < 0 then "e-" else "e+") ++ (if digits.length < 2 then "0" else "") ++ digits

/-- Digits `d`, the first of weight `10^p`, written positionally without
    trailing zeros after the point. -/
def positional (d : List Char) (p : Int) : String :=
  let d := dropTrailingZeros d
  if p < 0 then
    "0." ++ String.ofList (List.replicate (p.natAbs - 1) '0' ++ d)
  else
    let whole := p.toNat + 1
    let head := d.take whole ++ List.replicate (whole - d.length) '0'
    let tail := d.drop whole
    String.ofList head ++ (if tail.isEmpty then "" else "." ++ String.ofList tail)

def scientific (d : List Char) (p : Int) : String :=
  match dropTrailingZeros d with
  | [] => "0" ++ exponentText p
  | c :: r => String.ofList (c :: (if r.isEmpty then [] else '.' :: r)) ++ exponentText p

/-- A double with at most six significant digits, in the shorter of the
    positional and the exponent form. -/
def general (x : Float) : String :=
  match Exact.ofFloat x with
  | .notANumber => "nan"
  | .infinite negative => signText negative ++ "inf"
  | .finite negative m e =>
    if m = 0 then signText negative ++ "0"
    else
      let (num, den) := quotient m e
      let (r, p) := significant 6 num den
      let d := (toString r).toList
      signText negative ++ (if p < -4 ∨ 6 ≤ p then scientific d p else positional d p)

end Plainsong.Decimal
