import Plainsong.Command.Arguments
import Plainsong.Text.Case
/- Command lines in which each switch takes a fixed number of the arguments behind
   it, whatever they look like. -/
namespace Plainsong.Command

structure Switch where
  short : Option Char := none
  long : Option String := none
  count : Nat := 0
  whole : Bool := false
  name : String
  deriving Repr

/-- Why a command line with switches is not carried out. -/
inductive SwitchStop where
  | help
  | version
  | refused (message : String)

/-- A command line, sorted: the arguments of each switch, and the operands. -/
structure Switched where
  given : Table String (List String) := []
  operands : List String := []

namespace Switched

def digitIn? (base : Nat) (c : Char) : Option Nat :=
  let value := if c.isDigit then some (c.toNat - 48)
    else if 'a' ≤ c && c ≤ 'f' then some (c.toNat - 87)
    else if 'A' ≤ c && c ≤ 'F' then some (c.toNat - 55)
    else Text.decimalDigit? c
  value.filter (· < base)

def digitsIn (base : Nat) : List Char → Nat → Bool → Option Nat
  | [], n, afterDigit => if afterDigit then some n else none
  | '_' :: rest, n, afterDigit => if afterDigit then digitsIn base rest n false else none
  | c :: rest, n, _ => do digitsIn base rest (n * base + (← digitIn? base c)) true

/-- A numeral: after `0x` in base sixteen, after `0b` in base two, after another
    zero in base eight, else in base ten. -/
def numeral? (s : String) : Option Int :=
  let inBase (base : Nat) (digits : String) : Option Int :=
    (digitsIn base (Text.trim digits).toList 0 false).map Int.ofNat
  match Text.lower (Text.first 2 s) with
  | "0x" => inBase 16 (Text.behind 2 s)
  | "0b" => inBase 2 (if s.length = 2 then "0" else Text.behind 2 s)
  | "0o" => inBase 8 (Text.behind 2 s)
  | _ => if s.startsWith "0" then inBase 8 s else Text.readInt (Text.trim s).toList

def enter (a : Switched) (s : Switch) (spelling : String) (values : List String) : Except SwitchStop Switched :=
  if s.name = "help" then .error .help
  else if s.name = "version" then .error .version
  else
    match if s.whole then values.find? fun v => (numeral? v).isNone else none with
    | some v => .error (.refused ("option " ++ spelling ++ ": invalid integer value: " ++ Text.quoted v))
    | none => .ok { a with given := a.given.put s.name values }

def requires (spelling : String) (n : Nat) : SwitchStop :=
  .refused (spelling ++ " option requires " ++ toString n ++ (if n = 1 then " argument" else " arguments"))

def matchLong (switches : List Switch) (spelling : String) : Except SwitchStop (Switch × String) :=
  let longs := switches.filterMap fun s => s.long.map fun l => (s, l)
  match longs.find? fun (_, l) => l == spelling with
  | some found => .ok found
  | none =>
    match longs.filter fun (_, l) => l.startsWith spelling with
    | [found] => .ok found
    | [] => .error (.refused ("no such option: " ++ spelling))
    | several =>
      .error (.refused ("ambiguous option: " ++ spelling ++ " ("
        ++ ", ".intercalate ((several.map (·.2)).mergeSort) ++ "?)"))

def readLong (switches : List Switch) (arg : String) (rest : List String) (a : Switched) :
    Except SwitchStop (List String × Switched) := do
  let (spelling, attached) := match Arguments.cutAtEquals? arg with
    | some (name, value) => (name, some value)
    | none => (arg, none)
  let (s, spelling) ← matchLong switches spelling
  let rest := attached.toList ++ rest
  if s.count = 0 then
    if attached.isSome then throw (.refused (spelling ++ " option does not take a value"))
    return (rest, ← a.enter s spelling [])
  else if rest.length < s.count then throw (requires spelling s.count)
  else return (rest.drop s.count, ← a.enter s spelling (rest.take s.count))

/-- Reads the letters of short switches; what stands behind a switch that takes
    arguments is its first one. -/
def readShort (switches : List Switch) (rest : List String) :
    List Char → Switched → Except SwitchStop (List String × Switched)
  | [], a => .ok (rest, a)
  | c :: letters, a => do
    let spelling := String.ofList ['-', c]
    match switches.find? fun s => s.short == some c with
    | none => throw (.refused ("no such option: " ++ spelling))
    | some s =>
      if s.count = 0 then readShort switches rest letters (← a.enter s spelling [])
      else
        let rest := if letters.isEmpty then rest else String.ofList letters :: rest
        if rest.length < s.count then throw (requires spelling s.count)
        else return (rest.drop s.count, ← a.enter s spelling (rest.take s.count))

def readAll (switches : List Switch) : Nat → List String → Switched → Except SwitchStop Switched
  | 0, _, a => .ok a
  | _, [], a => .ok a
  | fuel + 1, arg :: rest, a => do
    if arg = "--" then return { a with operands := a.operands ++ rest }
    else if arg.startsWith "--" then
      let (rest, a) ← readLong switches arg rest a
      readAll switches fuel rest a
    else if arg.startsWith "-" && 1 < arg.length then
      let (rest, a) ← readShort switches rest (arg.toList.drop 1) a
      readAll switches fuel rest a
    else readAll switches fuel rest { a with operands := a.operands ++ [arg] }

def read (switches : List Switch) (args : List String) : Except SwitchStop Switched :=
  readAll switches (2 * args.length + 1) args {}

def value (a : Switched) (name : String) : String := ((a.given.find? name).bind (·.head?)).getD ""

def has (a : Switched) (name : String) : Bool := a.given.holds name

end Switched

end Plainsong.Command
