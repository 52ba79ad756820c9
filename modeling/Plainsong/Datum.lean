import Plainsong.Decimal.Read
import Plainsong.Decimal.Shortest
import Plainsong.Text.Quoted
/- Loose values. What is given to an event of a MIDI file or to a sign of a score
   is kept as it was given, and only has to fit where it is used; so a value is a
   number, a text, bytes, a list or nothing, and each operation says which of
   them it takes. -/
namespace Plainsong

/-- Why an operation on loose values fails. -/
inductive Datum.Fault where
  /-- a value of a kind that the operation does not take -/
  | wrongKind
  | outOfRange
  | missing
  /-- a value of the right kind with no meaning there -/
  | refused
  /-- a number past the range of the numbers it is turned into -/
  | tooLarge
  /-- a value that does not fit the bytes set aside for it -/
  | doesNotFit
  /-- a text with a letter past the one-byte letters -/
  | unencodable
  | dividedByZero
  /-- a property asked of something that does not have it -/
  | noProperty
  deriving Repr, DecidableEq

inductive Datum where
  | none
  | bool (b : Bool)
  | int (n : Int)
  | float (x : Float)
  | text (s : String)
  | bytes (b : List UInt8)
  | list (items : List Datum)
  deriving Inhabited

namespace Datum

def isTrue : Datum → Bool
  | none => false
  | bool b => b
  | int n => n != 0
  | float x => x != 0
  | text s => !s.isEmpty
  | bytes b => !b.isEmpty
  | list items => !items.isEmpty

def whole? : Datum → Option Int
  | int n => some n
  | bool b => some (if b then 1 else 0)
  | _ => Option.none

/-! ## Comparison -/

def compareWhole (n : Int) (x : Float) : Option Ordering :=
  match Decimal.Exact.ofFloat x with
  | .notANumber => Option.none
  | .infinite negative => some (if negative then .gt else .lt)
  | .finite negative m e =>
    let (num, den) := Decimal.quotient m e
    let value : Int := if negative then -(num : Int) else num
    some (compare (n * den) value)

def compareFloats (x y : Float) : Option Ordering :=
  if x < y then some .lt else if y < x then some .gt else if x == y then some .eq else Option.none

def compare? (a b : Datum) : Option (Option Ordering) :=
  match a, b with
  | text s, text t => some (some (compare s t))
  | bytes s, bytes t => some (some (compare (s.map (·.toNat)) (t.map (·.toNat))))
  | float x, float y => some (compareFloats x y)
  | float x, b => b.whole?.map fun n => (compareWhole n x).map Ordering.swap
  | a, float y => a.whole?.map fun n => compareWhole n y
  | a, b =>
    match a.whole?, b.whole? with
    | some m, some n => some (some (compare m n))
    | _, _ => Option.none

mutual

def same : Datum → Datum → Bool
  | none, none => true
  | list s, list t => sameAll s t
  | list _, _ => false
  | a, b => compare? a b == some (some .eq)

def sameAll : List Datum → List Datum → Bool
  | [], [] => true
  | a :: s, b :: t => same a b && sameAll s t
  | _, _ => false

end

mutual

def before? : Datum → Datum → Option Bool
  | list s, list t => beforeAll? s t
  | list _, _ => Option.none
  | a, b => (compare? a b).map (· == some .lt)

def beforeAll? : List Datum → List Datum → Option Bool
  | [], [] => some false
  | [], _ :: _ => some true
  | _ :: _, [] => some false
  | a :: s, b :: t => if same a b then beforeAll? s t else before? a b

end

/-! ## Arithmetic -/

def wholeFloat (n : Int) : Except Fault Float :=
  let x := Decimal.ofInt n
  if x.isInf then .error .tooLarge else .ok x

def cut (x : Float) : Except Fault Int :=
  match Decimal.truncate? x with
  | some n => .ok n
  | Option.none => .error (if x.isNaN then .refused else .tooLarge)

def arithmetic (onWhole : Int → Int → Int) (onFloat : Float → Float → Float) (a b : Datum) : Except Fault Datum :=
  match a, b with
  | float x, float y => .ok (float (onFloat x y))
  | float x, b =>
    match b.whole? with
    | some n => (wholeFloat n).map fun y => float (onFloat x y)
    | Option.none => .error .wrongKind
  | a, float y =>
    match a.whole? with
    | some n => (wholeFloat n).map fun x => float (onFloat x y)
    | Option.none => .error .wrongKind
  | a, b =>
    match a.whole?, b.whole? with
    | some m, some n => .ok (int (onWhole m n))
    | _, _ => .error .wrongKind

def add (a b : Datum) : Except Fault Datum :=
  match a, b with
  | text s, text t => .ok (text (s ++ t))
  | bytes s, bytes t => .ok (bytes (s ++ t))
  | list s, list t => .ok (list (s ++ t))
  | a, b => arithmetic (· + ·) (· + ·) a b

def sub (a b : Datum) : Except Fault Datum := arithmetic (· - ·) (· - ·) a b

def repeatList {α : Type} (n : Int) (xs : List α) : List α := (List.replicate n.toNat xs).flatten

def mul (a b : Datum) : Except Fault Datum :=
  match a, b with
  | text s, b => again b fun n => text (String.ofList (repeatList n s.toList))
  | bytes s, b => again b fun n => bytes (repeatList n s)
  | list s, b => again b fun n => list (repeatList n s)
  | a, text s => again a fun n => text (String.ofList (repeatList n s.toList))
  | a, bytes s => again a fun n => bytes (repeatList n s)
  | a, list s => again a fun n => list (repeatList n s)
  | a, b => arithmetic (· * ·) (· * ·) a b
where
  again (times : Datum) (f : Int → Datum) : Except Fault Datum :=
    match times.whole? with
    | some n => .ok (f n)
    | Option.none => .error .wrongKind

def mostDigits : Nat := 4300

def readWhole (s : String) : Except Fault Int :=
  let cs := (Text.trim s).toList
  if mostDigits < (cs.filter Text.isDecimal).length then .error .refused else
  match Text.readInt cs with
  | some n => .ok n
  | Option.none => .error .refused

def toWhole : Datum → Except Fault Int
  | float x => cut x
  | text s => readWhole s
  | bytes b => readWhole (String.ofList (b.map fun x => Char.ofNat (if x < 128 then x.toNat else 0)))
  | d =>
    match d.whole? with
    | some n => .ok n
    | Option.none => .error .wrongKind

def toFloat : Datum → Except Fault Float
  | float x => .ok x
  | text s => readFloat s
  | bytes b => readFloat (String.ofList (b.map fun x => Char.ofNat (if x < 128 then x.toNat else 0)))
  | d =>
    match d.whole? with
    | some n => wholeFloat n
    | Option.none => .error .wrongKind
where
  readFloat (s : String) : Except Fault Float :=
    match Decimal.read? s with
    | some x => .ok x
    | Option.none => .error .refused

def wholeText : Datum → Except Fault String
  | float x => (cut x).map toString
  | d =>
    match d.whole? with
    | some n => .ok (toString n)
    | Option.none => .error .wrongKind

mutual

def written : Datum → String
  | text s => s
  | d => literal d

def literal : Datum → String
  | none => "None"
  | bool b => if b then "True" else "False"
  | int n => toString n
  | float x => Decimal.shortest x
  | text s => Text.quoted s
  | bytes b => "b" ++ Text.quoted (String.ofList (b.map fun x => Char.ofNat x.toNat))
  | list items => "[" ++ ", ".intercalate (literals items) ++ "]"

def literals : List Datum → List String
  | [] => []
  | d :: ds => literal d :: literals ds

end

/-! ## Bytes -/

def byte (n : Int) : Except Fault UInt8 :=
  if 0 ≤ n && n < 256 then .ok (UInt8.ofNat n.toNat) else .error .doesNotFit

def toByte (d : Datum) : Except Fault UInt8 :=
  match d.whole? with
  | some n => byte n
  | Option.none => .error .doesNotFit

def toSignedByte (d : Datum) : Except Fault UInt8 :=
  match d.whole? with
  | some n => if -128 ≤ n && n < 128 then .ok (UInt8.ofNat (n % 256).toNat) else .error .doesNotFit
  | Option.none => .error .doesNotFit

def toWord (d : Datum) : Except Fault Nat :=
  match d.whole? with
  | some n => if 0 ≤ n && n < 65536 then .ok n.toNat else .error .doesNotFit
  | Option.none => .error .doesNotFit

def toLatin1 : Datum → Except Fault (List UInt8)
  | text s =>
    if s.toList.all fun c => c.toNat < 256 then .ok (s.toList.map fun c => UInt8.ofNat c.toNat)
    else .error .unencodable
  | _ => .error .noProperty

def size : Datum → Except Fault Nat
  | text s => .ok s.length
  | bytes b => .ok b.length
  | list items => .ok items.length
  | _ => .error .wrongKind

def items : Datum → Except Fault (List Datum)
  | text s => .ok (s.toList.map fun c => text (String.singleton c))
  | bytes b => .ok (b.map fun x => int x.toNat)
  | list ds => .ok ds
  | _ => .error .wrongKind

def onChannel (status : Nat) (channel : Datum) : Except Fault Int :=
  match channel.whole? with
  | some (.ofNat n) => .ok (status ||| n : Nat)
  | some (.negSucc n) => .ok (.negSucc n)
  | Option.none => .error .wrongKind

end Datum

end Plainsong
