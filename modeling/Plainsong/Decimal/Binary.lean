/- The exact value of a floating-point number: sign, and mantissa times a power
   of two. All decimal texts are computed from it in whole numbers. -/
namespace Plainsong.Decimal

/-- What the bits of a double stand for. -/
inductive Exact where
  /-- `(-1)^negative * mantissa * 2^exponent` -/
  | finite (negative : Bool) (mantissa : Nat) (exponent : Int)
  | infinite (negative : Bool)
  | notANumber
  deriving Repr, DecidableEq

def Exact.ofFloat (x : Float) : Exact :=
  let bits : Nat := x.toBits.toNat
  let negative := bits / Nat.pow 2 63 == 1
  let e : Nat := bits / Nat.pow 2 52 % 2048
  let m : Nat := bits % Nat.pow 2 52
  if e = 2047 then (if m = 0 then .infinite negative else .notANumber)
  else if e = 0 then .finite negative m (-1074)
  else .finite negative (m + Nat.pow 2 52) ((e : Int) - 1075)

def quotient (mantissa : Nat) (exponent : Int) : Nat × Nat :=
  if exponent < 0 then (mantissa, Nat.pow 2 exponent.natAbs) else (mantissa * Nat.pow 2 exponent.toNat, 1)

def roundEven (num den : Nat) : Nat :=
  let q := num / den
  let twice := 2 * (num % den)
  if twice < den then q else if den < twice then q + 1 else if q % 2 = 0 then q else q + 1

def roundFloat? (x : Float) : Option Int :=
  match Exact.ofFloat x with
  | .finite negative m e =>
    let (num, den) := quotient m e
    let n : Int := roundEven num den
    some (if negative then -n else n)
  | _ => none

def truncate? (x : Float) : Option Int :=
  match Exact.ofFloat x with
  | .finite negative m e =>
    let (num, den) := quotient m e
    let n : Int := (num / den : Nat)
    some (if negative then -n else n)
  | _ => none

def ofInt (n : Int) : Float :=
  let x := Float.ofScientific n.natAbs false 0
  if n < 0 then -x else x

def halfOfInt (n : Int) : Float :=
  let x := Float.ofScientific (5 * n.natAbs) true 1
  if n < 0 then -x else x

end Plainsong.Decimal
