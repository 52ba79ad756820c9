import Plainsong.Table
import Plainsong.Text.Blank
import Plainsong.Text.Letter
import Plainsong.Text.Quoted
import Plainsong.Text.Slice
/- Command lines in which flags take the values behind them, and the values left
   over are the operands. A flag may be shortened as long as no other begins in
   the same way, and flags of one letter may be written together. -/
namespace Plainsong.Command

/-- How many values a flag takes. -/
inductive Arity where
  | nothing
  | oneOrNone
  | any
  | exactly (n : Nat)
  deriving Repr, DecidableEq

structure Flag where
  short : String
  long : String
  arity : Arity
  whole : Bool := false
  deriving Repr, DecidableEq

def Flag.name (f : Flag) : String := f.short ++ "/" ++ f.long

/-- Why a command line is not carried out. -/
inductive Stop where
  | help
  | refused (message : String)

/-- What an argument looks like. -/
inductive Token where
  | value
  /-- the mark behind which nothing is a flag -/
  | mark
  /-- a flag in its full spelling, with a value written to it -/
  | flag (f : Flag) (spelling : String) (attached : Option String)
  | unknown

def Token.isFlag : Token → Bool
  | flag .. => true
  | unknown => true
  | _ => false

def Token.isValue : Token → Bool
  | value => true
  | _ => false

/-- The arguments of a command line, sorted. -/
structure Arguments where
  operands : Option (List String) := none
  /-- the values of each flag given, by its long spelling -/
  given : Table String (List String) := []
  extras : List String := []

namespace Arguments

def flagOf? (flags : List Flag) (spelling : String) : Option Flag :=
  flags.find? fun f => f.short == spelling || f.long == spelling

def cutAtEquals? (s : String) : Option (String × String) :=
  let head := s.toList.takeWhile (· ≠ '=')
  if head.length = s.toList.length then none
  else some (String.ofList head, String.ofList (s.toList.drop (head.length + 1)))

def candidates (flags : List Flag) (arg : String) : List (Flag × String × Option String) :=
  if arg.startsWith "--" then
    let (start, attached) := match cutAtEquals? arg with
      | some (a, b) => (a, some b)
      | none => (arg, none)
    (flags.filter fun f => f.long.startsWith start).map fun f => (f, f.long, attached)
  else
    (flags.filter fun f => f.short == Text.first 2 arg).map fun f => (f, f.short, some (Text.behind 2 arg))

def isNegativeNumber (arg : String) : Bool :=
  match arg.toList with
  | '-' :: cs =>
    let whole := cs.takeWhile Text.isDecimal
    match cs.drop whole.length with
    | [] => !whole.isEmpty
    | '.' :: rest => !rest.isEmpty && rest.all Text.isDecimal
    | _ => false
  | _ => false

def classify (flags : List Flag) (arg : String) : Except Stop Token :=
  if !arg.startsWith "-" || arg.length = 1 then .ok .value
  else match flagOf? flags arg with
    | some f => .ok (.flag f arg none)
    | none =>
      match (cutAtEquals? arg).bind fun (a, b) => (flagOf? flags a).map fun f => Token.flag f a (some b) with
      | some t => .ok t
      | none =>
        match candidates flags arg with
        | [(f, spelling, attached)] => .ok (.flag f spelling attached)
        | [] =>
          if isNegativeNumber arg || arg.toList.contains ' ' then .ok .value else .ok .unknown
        | several =>
          .error (.refused ("ambiguous option: " ++ arg ++ " could match "
            ++ ", ".intercalate (several.map fun (_, s, _) => s)))

def tokens (flags : List Flag) : List String → Except Stop (List (String × Token))
  | [] => .ok []
  | arg :: rest =>
    if arg = "--" then .ok ((arg, .mark) :: rest.map fun a => (a, .value))
    else do return (arg, ← classify flags arg) :: (← tokens flags rest)

def withoutMark (values : List String) : List String := values.erase "--"

def enter (a : Arguments) (f : Flag) (values : List String) : Except Stop Arguments :=
  if f.long = "--help" then .error .help
  else
    let bad := if f.whole then values.find? fun v => (Text.readInt (Text.trim v).toList).isNone else none
    match bad with
    | some v => .error (.refused ("argument " ++ f.name ++ ": invalid int value: " ++ Text.quoted v))
    | none => .ok { a with given := a.given.put f.long values }

def taken (f : Flag) (following : Nat) : Except Stop Nat :=
  match f.arity with
  | .nothing => .ok 0
  | .oneOrNone => .ok (min 1 following)
  | .any => .ok following
  | .exactly n =>
    if n ≤ following then .ok n
    else .error (.refused ("argument " ++ f.name ++ ": expected " ++ toString n
      ++ (if n = 1 then " argument" else " arguments")))

/-- Reads a flag with the values it takes of those that follow it. Letters
    written to a flag without value are further flags. -/
def readFlag (flags : List Flag) (following : List String) :
    Nat → Flag → String → Option String → Arguments → Except Stop (Nat × Arguments)
  | 0, _, _, _, a => .ok (0, a)
  | fuel + 1, f, spelling, attached, a =>
    match attached with
    | none => do
      let n ← taken f following.length
      return (n, ← a.enter f (following.take n))
    | some text =>
      let ignored : Except Stop (Nat × Arguments) :=
        .error (.refused ("argument " ++ f.name ++ ": ignored explicit argument " ++ Text.quoted text))
      if f.arity = .nothing then
        match text.toList with
        | [] => ignored
        | c :: rest =>
          match if spelling = f.short then flagOf? flags (String.ofList ['-', c]) else none with
          | some g => do
            let a ← a.enter f []
            readFlag flags following fuel g g.short (if rest.isEmpty then none else some (String.ofList rest)) a
          | none => ignored
      else if f.arity = .exactly 1 || f.arity = .oneOrNone || f.arity = .any then do
        return (0, ← a.enter f [text])
      else ignored

def takeOperands (a : Arguments) (values : List String) : Arguments :=
  match a.operands with
  | none => { a with operands := some (withoutMark values) }
  | some _ => { a with extras := a.extras ++ values }

def readAll (flags : List Flag) : Nat → List (String × Token) → Arguments → Except Stop Arguments
  | 0, _, a => .ok a
  | fuel + 1, args, a =>
    let leading := args.takeWhile fun (_, t) => !t.isFlag
    let rest := args.drop leading.length
    match rest with
    | [] => .ok (if leading.isEmpty && a.operands.isSome then a else a.takeOperands (leading.map (·.1)))
    | (arg, t) :: behind =>
      let a := if leading.isEmpty then a else a.takeOperands (leading.map (·.1))
      match t with
      | .flag f spelling attached => do
        let following := (behind.takeWhile fun (_, t) => t.isValue).map (·.1)
        let (n, a) ← readFlag flags following (arg.length + 1) f spelling attached a
        readAll flags fuel (behind.drop n) a
      | _ => readAll flags fuel behind { a with extras := a.extras ++ [arg] }

def read (flags : List Flag) (args : List String) : Except Stop Arguments := do
  let a ← readAll flags (args.length + 1) (← tokens flags args) {}
  if a.extras.isEmpty then return a
  else throw (.refused ("unrecognized arguments: " ++ " ".intercalate a.extras))

def value? (a : Arguments) (flag : String) : Option String := (a.given.find? flag).bind (·.head?)

def values (a : Arguments) (flag : String) : List String := (a.given.find? flag).getD []

def has (a : Arguments) (flag : String) : Bool := a.given.holds flag

end Arguments

end Plainsong.Command
