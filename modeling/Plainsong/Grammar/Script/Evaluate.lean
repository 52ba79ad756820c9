import Plainsong.Grammar.Script.Make
/- What the terms of scripts stand for. -/
namespace Plainsong.Grammar.Script

/-! ## Asking values -/

def pin (id : Nat) (on : Bool) : ScriptM Unit := do
  if on then
    let remember := (← get).remember
    changeElement id fun e => { e with pinned := some (e.pinned.getD (id, remember)) }

def listen (id : Nat) (start success failure : ScriptValue) : ScriptM Unit := do
  let pick (v : ScriptValue) : ScriptM (Notice Deed) := do
    if ← isTrue v then return listenerOf v else return .standard
  let onStart ← pick start
  let onSuccess ← pick success
  let onFailure ← pick failure
  changeElement id fun e => { e with onStart, onSuccess, onFailure, debug := true }

def isAsked (named : List (String × ScriptValue)) (name : String) : ScriptM Bool := do
  match named.lookup name with
  | some v => isTrue v
  | none => return false

def askElement (id : Nat) (name : String) (args : List ScriptValue)
    (named : List (String × ScriptValue)) : ScriptM ScriptValue := do
  let bind (params : List String) (required : Nat) : ScriptM Bound := bindArgs params required args named
  let self : ScriptValue := .element id
  match name with
  | "copy" =>
    let _ ← bind [] 0
    return .element (← copyElement id)
  | "set-name" =>
    let b ← bind ["name"] 1
    match b.getD "name" .none with
    | .text s =>
      setName id s
      return self
    | _ => throw .wrongKind
  | "set-results-name" =>
    let b ← bind ["name", "list-all-matches"] 1
    match b.getD "name" .none with
    | .text s => return .element (← Grammar.named id s (← isTrue (b.getD "list-all-matches" (.bool false))))
    | _ => throw .noProperty
  | "call" =>
    let b ← bind ["name"] 1
    match b.getD "name" .none with
    | .text s => return .element (← Grammar.named id s false)
    | _ => throw .noProperty
  | "set-break" =>
    let b ← bind ["break-flag"] 0
    pin id (← isTrue (b.getD "break-flag" (.bool true)))
    return self
  | "set-parse-action" =>
    let during ← isAsked named "call-during-try"
    setActions id (args.map Script.actionOf) during
    return self
  | "add-parse-action" =>
    let during ← isAsked named "call-during-try"
    addActions id (args.map Script.actionOf) during
    return self
  | "set-fail-action" =>
    let b ← bind ["fn"] 1
    let k ← match b.getD "fn" .none with
      | .host (.deed d) => pure (some d)
      | .host (.library .ignoreAll) => pure none
      | v => do if ← isTrue v then pure (some Deed.uncallable) else pure none
    changeElement id fun e => { e with failAction := k }
    return self
  | "leave-whitespace" =>
    let _ ← bind [] 0
    leaveBlanks id
    return self
  | "set-whitespace-chars" =>
    let b ← bind ["chars"] 1
    let s ← textOf (b.getD "chars" .none)
    changeElement id fun e => e.withBlanks s
    return self
  | "parse-with-tabs" =>
    let _ ← bind [] 0
    changeElement id fun e => { e with keepTabs := true }
    return self
  | "ignore" =>
    let b ← bind ["other"] 1
    match b.getD "other" .none with
    | .element o =>
      ignore id o
      return self
    | _ => throw .noProperty
  | "set-debug-actions" =>
    let b ← bind ["start-action", "success-action", "exception-action"] 3
    listen id (b.getD "start-action" .none) (b.getD "success-action" .none) (b.getD "exception-action" .none)
    return self
  | "set-debug" =>
    let b ← bind ["flag"] 0
    if ← isTrue (b.getD "flag" (.bool true)) then listen id .none .none .none
    else changeElement id fun e => { e with debug := false }
    return self
  | "suppress" =>
    let _ ← bind [] 0
    if isSuppress (← element id) then return self else return .element (← suppress id)
  | "streamline" =>
    let _ ← bind [] 0
    streamline id
    return self
  | "append" =>
    let b ← bind ["other"] 1
    match (← element id).kind, b.getD "other" .none with
    | .many .., .element o =>
      appendPart id o
      return self
    | _, _ => throw .noProperty
  | "validate" =>
    let _ ← bind ["validate-trace"] 0
    validate id
    return .none
  | "parse-string" =>
    let b ← bind ["instring", "parse-all"] 1
    let s ← textOf (b.getD "instring" .none)
    return .results (← parseText host id s (← isTrue (b.getD "parse-all" (.bool false))))
  | "search-string" =>
    let b ← bind ["instring", "max-matches"] 1
    let s ← textOf (b.getD "instring" .none)
    let limit ← match b.get "max-matches" with
      | some v => do pure (some (← wholeOf v))
      | none => pure none
    return .results (← search host id s limit)
  | "transform-string" =>
    let b ← bind ["instring"] 1
    return .text (← transform host id (← textOf (b.getD "instring" .none)))
  | "str" =>
    let _ ← bind [] 0
    return .text (← elementText id)
  | _ => throw .noProperty

def askValue (target : ScriptValue) (name : String) (args : List ScriptValue)
    (named : List (String × ScriptValue)) : ScriptM ScriptValue := do
  match target with
  | .element id => askElement id name args named
  | .host (.library (.once cell)) =>
    if name == "reset" && args.isEmpty && named.isEmpty then
      modify fun s => { s with onceCells := s.onceCells.modify cell fun c => { c with called := false } }
      return .none
    else throw .noProperty
  | .results id =>
    match name, args with
    | "copy", [] => return .results (← Results.copy id)
    | "as-list", [] => return .list (← Results.asList id)
    | _, _ => throw .wrongKind
  | _ => throw .noProperty

/-! ## Operators -/

def combineOperands (f : Nat → Nat → ScriptM Nat) (x y : ScriptValue) : ScriptM ScriptValue := do
  match x with
  | .element a =>
    match ← operand y with
    | some b => return .element (← f a b)
    | none => return .none
  | _ =>
    match y with
    | .element b =>
      match ← operand x with
      | some a => return .element (← f a b)
      | none => return .none
    | _ => throw .wrongKind

def multiply (id : Nat) : ScriptValue → ScriptM ScriptValue
  | .int n => do return .element (← times id n 0)
  | .bool b => do return .element (← times id (if b then 1 else 0) 0)
  | .tuple xs => do
    let number (v : ScriptValue) : ScriptM (Option Int) := match v with
      | .int n => pure (some n)
      | .bool b => pure (some (if b then 1 else 0))
      | .none => pure none
      | _ => throw .wrongKind
    let low ← number (xs.getD 0 .none)
    let high ← number (xs.getD 1 .none)
    let low := low.getD 0
    match high with
    | none => return .element (← timesAtLeast id low)
    | some h => return .element (← times id low (h - low))
  | _ => throw .wrongKind

def plainSign : String → String
  | "+=" => "+"
  | "|=" => "|"
  | "^=" => "^"
  | s => s

def extends? (op : ManyOp) (sign : String) : Bool :=
  match op, sign with
  | .sequence, "+=" => true
  | .first, "|=" => true
  | .longest, "^=" => true
  | _, _ => false

def plainOperator (sign : String) (x y : ScriptValue) : ScriptM ScriptValue :=
  match sign, x, y with
  | "+", .text a, .text b => pure (.text (a ++ b))
  | "+", .list a, .list b => pure (.list (a ++ b))
  | "+", .tuple a, .tuple b => pure (.tuple (a ++ b))
  | "+", .results a, .results b => do return .results (← Results.add a b)
  | "+", .int a, .results b => do
    if a = 0 then return .results (← Results.copy b) else return .none
  | "+", _, .results _ => pure .none
  | "+", .int a, .int b => pure (.int (a + b))
  | "-", .int a, .int b => pure (.int (a - b))
  | "*", .int a, .int b => pure (.int (a * b))
  | "*", .text a, .int n => pure (.text (String.join (List.replicate n.toNat a)))
  | "*", .int n, .text a => pure (.text (String.join (List.replicate n.toNat a)))
  | _, _, _ => throw .wrongKind

def applyOperator (sign : String) (x y : ScriptValue) : ScriptM ScriptValue := do
  match sign, x, y with
  | "<<=", .element a, y =>
    match (← element a).kind with
    | .one (.forward _) _ =>
      define a (← operandElement y)
      return x
    | _ => throw .wrongKind
  | "<<", .element a, y =>
    match (← element a).kind with
    | .one (.forward _) _ =>
      define a (← operandElement y)
      return .none
    | _ => throw .wrongKind
  | "*", .element a, y => multiply a y
  | "*", x, .element b => multiply b x
  | _, .element a, y =>
    let extended := match (← element a).kind with
      | .many op _ => extends? op sign
      | _ => false
    if extended then
      let part ← match y with
        | .text s => if sign == "+=" then literal s else inlineText s
        | .element b => pure b
        | _ => throw .noProperty
      appendPart a part
      return x
    else match plainSign sign with
      | "+" => combineOperands plus x y
      | "-" => combineOperands minus x y
      | "|" => combineOperands either x y
      | "^" => combineOperands longer x y
      | "&" => combineOperands both x y
      | _ => throw .wrongKind
  | _, x, .element _ =>
    match plainSign sign with
    | "+" => combineOperands plus x y
    | "-" => combineOperands minus x y
    | "|" => combineOperands either x y
    | "^" => combineOperands longer x y
    | "&" => combineOperands both x y
    | _ => throw .wrongKind
  | _, _, _ => plainOperator (plainSign sign) x y

def itemOf (v i : ScriptValue) : ScriptM ScriptValue := do
  let pick (xs : List ScriptValue) : ScriptM ScriptValue := do
    match index? xs.length (← wholeOf i) with
    | some k => return xs.getD k .none
    | none => throw .outOfRange
  match v with
  | .list xs => pick xs
  | .tuple xs => pick xs
  | .text s => pick (s.toList.map fun c => .text (String.singleton c))
  | .results id =>
    match i with
    | .text key => Results.named id key
    | i => Results.itemAt id (← wholeOf i)
  | .element e =>
    match (← element e).kind with
    | .many _ parts => pick (parts.map .element)
    | _ => throw .wrongKind
  | _ => throw .wrongKind

def resultAt (i : Int) : ScriptM Nat := do
  let rs := (← get).host.results
  match index? rs.size i with
  | some k => return rs.getD k 0
  | none => throw .outOfRange

/-! ## Terms -/

mutual

def evaluate : Term → ScriptM ScriptValue
  | .none => pure .none
  | .bool b => pure (.bool b)
  | .int n => pure (.int n)
  | .float x => pure (.float x)
  | .text s => pure (.text s)
  | .list xs => do return .list (← evaluateAll xs)
  | .tuple xs => do return .tuple (← evaluateAll xs)
  | .call name args names named => do
    let args ← evaluateAll args
    let named ← evaluateAll named
    make name args (names.zip named)
  | .ready name => ready name
  | .maker name => maker name
  | .stored name => do
    match (← get).host.names.lookup name with
    | some v => return v
    | none => throw .unknownName
  | .result i => do return .results (← resultAt i)
  | .ask name target args names named => do
    let args ← evaluateAll args
    let named ← evaluateAll named
    askValue (← evaluate target) name args (names.zip named)
  | .operator sign args => do
    match ← evaluateAll args with
    | [x] =>
      match sign, x with
      | "~", .element e => return .element (← notAny e)
      | "~", .int n => return .int (-n - 1)
      | _, _ => throw .wrongKind
    | [x, y] => applyOperator sign x y
    | _ => throw .wrongKind
  | .item i of => do
    let i ← evaluate i
    itemOf (← evaluate of) i
  | .pattern source => do
    match Matcher.read source {} with
    | some m => return .host (.pattern source m)
    | none => throw .badPattern
  | .side name =>
    match name with
    | "left" => pure (.host (.side true))
    | "right" => pure (.host (.side false))
    | _ => throw .noProperty
  | .anyValue => pure (.host .anyValue)
  | .action name =>
    match deed? name with
    | some d => pure (.host (.deed d))
    | none => ready name
  | .actionOf name args => do make name (← evaluateAll args) []

def evaluateAll : List Term → ScriptM (List ScriptValue)
  | [] => pure []
  | t :: rest => do
    let v ← evaluate t
    return v :: (← evaluateAll rest)

end

end Plainsong.Grammar.Script
