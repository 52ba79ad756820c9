import Plainsong.Decimal.Fixed
/- The shortest decimal that reads back as the same double; of several with the
   same number of digits, the nearest one. -/
namespace Plainsong.Decimal

/-- The interval of reals that round to a double, in quarters of its last unit:
    `(low, high, unit exponent, ends included)`. Below a power of two the next
    double is only half as far away. -/
def roundingInterval (m : Nat) (e : Int) : Nat × Nat × Int × Bool :=
  let low := if m = Nat.pow 2 52 ∧ -1074 < e then 4 * m - 1 else 4 * m - 2
  (low, 4 * m + 2, e - 2, m % 2 == 0)

def readsBack (m : Nat) (e : Int) (digits : Nat) (scale : Int) : Bool :=
  let (low, high, q, closed) := roundingInterval m e
  let (qn, qd) := quotient 1 q
  let (sn, sd) := if scale < 0 then (1, Nat.pow 10 scale.natAbs) else (Nat.pow 10 scale.toNat, 1)
  let x := digits * sn * qd
  let lo := low * qn * sd
  let hi := high * qn * sd
  if closed then lo ≤ x && x ≤ hi else lo < x && x < hi

/-- The best decimal with `n` digits that reads back, if there is one: the
    neighbours of the value on the grid of `n` digits are tried, the nearer first. -/
def withDigits (m : Nat) (e : Int) (n : Nat) : Option (Nat × Int) :=
  let (num, den) := quotient m e
  let p := leadingPower num den
  let scale : Int := p - (n - 1)
  let (a, b) := if scale < 0 then (num * Nat.pow 10 scale.natAbs, den) else (num, den * Nat.pow 10 scale.toNat)
  let below := a / b
  let near := roundEven a b
  let far := if near = below then below + 1 else below
  if readsBack m e near scale then some (near, scale)
  else if readsBack m e far scale then some (far, scale)
  else none

def shortestDigits (m : Nat) (e : Int) : List Char × Int :=
  let found := (List.range 17).findSome? fun i => withDigits m e (i + 1)
  match found with
  | some (d, scale) =>
    let digits := (toString d).toList
    (digits, scale + digits.length - 1)
  | none => (['0'], 0)

/-- The shortest text that reads back: positional from `10^-4` up to `10^16`,
    always with a point or an exponent. -/
def shortest (x : Float) : String :=
  match Exact.ofFloat x with
  | .notANumber => "nan"
  | .infinite negative => signText negative ++ "inf"
  | .finite negative m e =>
    if m = 0 then signText negative ++ "0.0"
    else
      let (d, p) := shortestDigits m e
      signText negative ++
        (if p < -4 ∨ 16 ≤ p then scientific d p
         else
          let s := positional d p
          if s.contains '.' then s else s ++ ".0")

end Plainsong.Decimal
