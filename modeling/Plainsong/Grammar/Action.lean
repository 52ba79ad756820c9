import Plainsong.Grammar.Build
/- Running actions. How many arguments an action takes is found by trying: it
   is offered text, place and tokens, and one argument less from the left each
   time it refuses. Once a call has succeeded the number is settled. -/
namespace Plainsong.Grammar

variable {ν κ σ : Type}

def mismatch (text : Chars) (loc : Nat) (message : String) (e : Option Nat) : Fault :=
  .mismatch { text, loc, message, element := e }

def sliceText (text : Chars) (i j : Nat) : String := String.ofList (text.extract i j).toList

def flattenAt : Nat → List (Value ν) → List (Value ν)
  | 0, xs => xs
  | depth + 1, xs => xs.flatMap fun x =>
    match x with
    | .list ys => flattenAt depth ys
    | v => [v]

def flatten (xs : List (Value ν)) : List (Value ν) := flattenAt 900 xs

def intOf : Value ν → GrammarM ν κ σ Int
  | .int n => pure n
  | .bool b => pure (if b then 1 else 0)
  | .float x => match Decimal.truncate? x with
    | some n => pure n
    | none => throw .refusedValue
  | .text s => match Text.readInt (Text.trim s).toList with
    | some n => pure n
    | none => throw .refusedValue
  | _ => throw .wrongKind

def inner : Value ν → GrammarM ν κ σ (Value ν)
  | .text s => pure (.text (String.ofList (s.toList.drop 1).dropLast))
  | .list xs => pure (.list (xs.drop 1).dropLast)
  | .tuple xs => pure (.tuple (xs.drop 1).dropLast)
  | .results id => do return .list ((← Results.record id).items.toList.drop 1).dropLast
  | _ => throw .wrongKind

def tokenOne (id : Nat) : GrammarM ν κ σ (Value ν) := Results.itemAt id 0

def startName : String := "_original_start"
def endName : String := "_original_end"

def markedPlace (id : Nat) (key : String) : GrammarM ν κ σ Nat := do
  match ← Results.lastNamed? id key with
  | some (.int n) => return n.toNat
  | _ => throw .wrongKind

def Action.arity (H : Host ν κ σ) : Action ν κ → Option Nat
  | .replaceWith _ => none
  | .traced => none
  | .ignoreAll => none
  | .entity => some 1
  | .toInt => some 1
  | .trimFirst => some 1
  | .firstToken => some 1
  | .host k => H.arity k
  | _ => some 3

def charOf (n : Nat) : GrammarM ν κ σ (Value ν) :=
  if h : n.isValidChar then pure (.text (String.singleton (Char.ofNatAux n h))) else throw .refusedValue

def digitsIn (base : Nat) (ds : List Char) : Option Nat :=
  if ds.isEmpty then none
  else ds.foldl (fun acc c => do
    let n ← acc
    let d ← Pattern.hexValue? c
    if d < base then some (n * base + d) else none) (some 0)

def stackTop (stack : Nat) (k : Nat) : GrammarM ν κ σ Int := do
  match ((← get).indents[stack]?).getD [] with
  | xs => match xs[k]? with
    | some c => return c
    | none => throw .outOfRange

def isUnindent (here : Int) : List Int → GrammarM ν κ σ Bool
  | [] => pure false
  | [top] => if here < top then throw .outOfRange else pure false
  | top :: below :: _ => pure (decide (here < top ∧ here ≤ below))

def Action.perform (H : Host ν κ σ) (m : Match) : Action ν κ → GrammarM ν κ σ (Value ν)
  | .upcaseTokens => do
    let texts ← (← Results.record m.tokens).items.toList.mapM (showValue H)
    return .list (texts.map fun s => .text (Text.upper s))
  | .downcaseTokens => do
    let texts ← (← Results.record m.tokens).items.toList.mapM (showValue H)
    return .list (texts.map fun s => .text (Text.lower s))
  | .removeQuotes => do inner (← tokenOne m.tokens)
  | .keepText => do
    Results.clear m.tokens
    let t ← Results.ofItems #[.text (sliceText m.text m.loc m.stop)]
    Results.append m.tokens t
    return .results m.tokens
  | .replaceWith v => pure (.list [v])
  | .onlyAtColumn n => do
    if (column m.text m.loc : Int) ≠ n then
      throw (mismatch m.text m.loc ("matched token not at column " ++ toString n) none)
    return .none
  | .withAttributes attrs => do
    for (key, wanted) in attrs do
      if !((← Results.record m.tokens).names.any (·.1 == key)) then
        throw (mismatch m.text m.loc ("no matching attribute " ++ key) none)
      match wanted with
      | none => pure ()
      | some w =>
        let v ← Results.named m.tokens key
        if !v.same w then
          let v ← Results.named m.tokens key
          throw (mismatch m.text m.loc
            ("attribute '" ++ key ++ "' has value '" ++ (← showValue H v) ++ "', must be '"
              ++ (← showValue H w) ++ "'") none)
    return .none
  | .entity => do
    match ← Results.lastNamed? m.tokens "entity" with
    | some (.text s) =>
      return match [("gt", ">"), ("lt", "<"), ("amp", "&"), ("nbsp", " "), ("quot", "\"")].lookup s with
        | some c => .text c
        | none => .none
    | _ => return .none
  | .toInt => do return .int (← intOf (← tokenOne m.tokens))
  | .countField array item void => do
    let part ← match ← tokenOne m.tokens with
      | .int n => if n = 0 then pure void else sequence (List.replicate n.toNat item) true
      | .bool b => if b then sequence [item] true else pure void
      | .text s => if s.isEmpty then pure void else throw .wrongKind
      | .none => pure void
      | _ => throw .wrongKind
    define array (← group part)
    return .list []
  | .copyLiteral target => do
    let r ← Results.record m.tokens
    match r.items.toList with
    | [] => define target (← empty)
    | [.text s] => define target (← inlineText s)
    | [.element e] => define target e
    | [.results _] => throw .wrongKind
    | [_] => throw .noProperty
    | _ =>
      let parts ← (flatten (← Results.asList m.tokens)).mapM fun v =>
        match v with
        | .text s => literal s
        | _ => throw .wrongKind
      define target (← sequence parts true)
    return .none
  | .copyTokens target => do
    let tokens := flatten (← Results.asList m.tokens)
    let h ← addHandler (.mustMatch tokens)
    changeElement target fun e => { e with actions := [h], callDuringTry := true }
    return .none
  | .mustMatch tokens => do
    let these := flatten (← Results.asList m.tokens)
    if !(Value.list these).same (.list tokens) then throw (mismatch #[] 0 "" none)
    return .none
  | .peerIndent stack => do
    if m.loc < m.text.size then
      let here : Int := column m.text m.loc
      let top ← stackTop stack 0
      if here ≠ top then
        if top < here then
          throw (.fatal { text := m.text, loc := m.loc, message := "illegal nesting", element := none })
        throw (mismatch m.text m.loc "not a peer entry" none)
    return .none
  | .deeperIndent stack => do
    let here : Int := column m.text m.loc
    if (← stackTop stack 0) < here then
      modify fun s => { s with indents := s.indents.modify stack (here :: ·) }
      return .none
    else throw (mismatch m.text m.loc "not a subentry" none)
  | .endIndent stack => do
    if m.loc < m.text.size then
      let here : Int := column m.text m.loc
      let levels := ((← get).indents[stack]?).getD []
      let ends ← isUnindent here levels
      if !ends then throw (mismatch m.text m.loc "not an unindent" none)
      modify fun s => { s with indents := s.indents.modify stack (·.drop 1) }
    return .none
  | .trimFirst => do
    match ← tokenOne m.tokens with
    | .text s => return .text (Text.trim s)
    | _ => throw .noProperty
  | .firstToken => tokenOne m.tokens
  | .location => pure (.int m.loc)
  | .textBetween keepNames => do
    if keepNames then Results.clear m.tokens
    let a ← markedPlace m.tokens startName
    let b ← markedPlace m.tokens endName
    let s := sliceText m.text a b
    if keepNames then
      Results.insert m.tokens 0 (.text s)
      Results.removeName m.tokens startName
      Results.removeName m.tokens endName
      return .none
    else return .text s
  | .isSlash => do return .bool ((← tokenOne m.tokens).same (.text "/"))
  | .escapedSign => do
    match ← tokenOne m.tokens with
    | .text s => match s.toList with
      | _ :: c :: _ => return .text (String.singleton c)
      | _ => throw .outOfRange
    | _ => throw .wrongKind
  | .escapedHex => do
    match ← tokenOne m.tokens with
    | .text s =>
      match digitsIn 16 (s.toList.dropWhile fun c => c = '\\' || c = '0' || c = 'x') with
      | some n => charOf n
      | none => throw .refusedValue
    | _ => throw .noProperty
  | .escapedOctal => do
    match ← tokenOne m.tokens with
    | .text s => match digitsIn 8 (s.toList.drop 1) with
      | some n => charOf n
      | none => throw .refusedValue
    | _ => throw .wrongKind
  | .traced => throw .noProperty
  | .ignoreAll => pure .none
  | .once _ => pure .none
  | .host k => H.perform k m

def Action.offer (H : Host ν κ σ) (a : Action ν κ) (n : Nat) (m : Match) : GrammarM ν κ σ (Value ν) :=
  match a.arity H with
  | none => a.perform H m
  | some k => if k = n then a.perform H m else throw .wrongKind

mutual

def callHandler (H : Host ν κ σ) : Nat → Nat → Match → GrammarM ν κ σ (Value ν)
  | 0, _, _ => throw .tooDeep
  | fuel + 1, id, m => do
    match (← get).handlers[id]? with
    | none => throw .wrongKind
    | some h =>
      let alone := match h.action with
        | .host k => H.tokensOnly k
        | _ => false
      if alone then h.action.perform H m
      else
        let outcome ← attempt (match h.action with
          | .once cell => if h.dropped = 0 then callOnce H fuel cell m else throw .wrongKind
          | a => a.offer H (3 - h.dropped) m)
        match outcome with
        | .ok v =>
          modify fun s => { s with handlers := s.handlers.modify id fun h => { h with settled := true } }
          return v
        | .error .wrongKind =>
          match (← get).handlers[id]? with
          | some h =>
            if h.dropped ≤ 2 && !h.settled then
              modify fun s => { s with handlers := s.handlers.modify id fun h => { h with dropped := h.dropped + 1 } }
              callHandler H fuel id m
            else throw .wrongKind
          | none => throw .wrongKind
        | .error f => throw f

def callOnce (H : Host ν κ σ) : Nat → Nat → Match → GrammarM ν κ σ (Value ν)
  | 0, _, _ => throw .tooDeep
  | fuel + 1, cell, m => do
    match (← get).onceCells[cell]? with
    | none => throw .wrongKind
    | some c =>
      if c.called then throw (mismatch m.text m.loc "" none)
      let v ← callHandler H fuel c.handler m
      modify fun s => { s with onceCells := s.onceCells.modify cell fun c => { c with called := true } }
      return v

end

def runHandler (H : Host ν κ σ) (id : Nat) (m : Match) : GrammarM ν κ σ (Value ν) :=
  callHandler H 64 id m

def setActions (id : Nat) (actions : List (Action ν κ)) (duringTry : Bool) : GrammarM ν κ σ Unit := do
  let hs ← actions.mapM addHandler
  changeElement id fun e => { e with actions := hs, callDuringTry := duringTry }

def addActions (id : Nat) (actions : List (Action ν κ)) (duringTry : Bool) : GrammarM ν κ σ Unit := do
  let hs ← actions.mapM addHandler
  changeElement id fun e =>
    { e with actions := e.actions ++ hs, callDuringTry := e.callDuringTry || duringTry }

end Plainsong.Grammar
