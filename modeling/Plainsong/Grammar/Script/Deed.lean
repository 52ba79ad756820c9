import Plainsong.Grammar.Script.Term
/- What the actions of scripts do. -/
namespace Plainsong.Grammar.Script

def Deed.arity : Deed → Option Nat
  | .nothing => some 0
  | .const => some 0
  | .place => some 2
  | .everything => some 3
  | .print => some 3
  | .fail => some 3
  | .fatal => some 3
  | .bad => some 3
  | .report => some 4
  | .stop => some 4
  | .uncallable => some 9
  | _ => some 1

def Deed.tokensOnly : Deed → Bool
  | .length | .sorted | .list | .tuple | .anyTrue | .least | .greatest | .total => true
  | _ => false

def isTrue : ScriptValue → ScriptM Bool
  | .results id => do return !(← Results.record id).items.isEmpty
  | v => pure (!isNothing v)

def isLess : ScriptValue → ScriptValue → ScriptM Bool
  | .text a, .text b => pure (decide (a < b))
  | .int a, .int b => pure (decide (a < b))
  | .float a, .float b => pure (decide (a < b))
  | .int a, .float b => pure (decide (Decimal.ofInt a < b))
  | .float a, .int b => pure (decide (a < Decimal.ofInt b))
  | .bool a, .bool b => pure (!a && b)
  | _, _ => throw .wrongKind

def insertSorted (v : ScriptValue) : List ScriptValue → ScriptM (List ScriptValue)
  | [] => pure [v]
  | w :: rest => do
    if ← isLess v w then return v :: w :: rest
    else return w :: (← insertSorted v rest)

def leastOf (better : ScriptValue → ScriptValue → ScriptM Bool) : List ScriptValue → ScriptM ScriptValue
  | [] => throw .refusedValue
  | v :: rest => rest.foldlM (fun best w => do if ← better w best then return w else return best) v

def addUp : ScriptValue → ScriptValue → ScriptM ScriptValue
  | .int a, .int b => pure (.int (a + b))
  | .int a, .bool b => pure (.int (a + if b then 1 else 0))
  | .int a, .float b => pure (.float (Decimal.ofInt a + b))
  | .float a, .float b => pure (.float (a + b))
  | .float a, .int b => pure (.float (a + Decimal.ofInt b))
  | .int a, .results b => do if a = 0 then return .results (← Results.copy b) else return .none
  | .results a, .results b => do return .results (← Results.add a b)
  | .results _, _ => throw .noProperty
  | _, _ => throw .wrongKind

section
variable (H : Host Item Deed Session)

def Deed.perform (m : Match) (d : Deed) : ScriptM ScriptValue := do
  let items : ScriptM (List ScriptValue) := do return (← Results.record m.tokens).items.toList
  match d with
  | .int => return .int (← intOf (← tokenOne m.tokens))
  | .join =>
    let texts ← (← items).mapM fun v => match v with
      | .text s => pure s
      | _ => throw .wrongKind
    return .text ("+".intercalate texts)
  | .nothing => return .none
  | .drop => return .list []
  | .place => return .list [.int m.loc, .int (← items).length]
  | .everything => return .list (.int m.text.size :: .int m.loc :: (← Results.asList m.tokens))
  | .const => return .text "const"
  | .negate =>
    match ← tokenOne m.tokens with
    | .int n => return .int (-n)
    | .bool b => return .int (if b then -1 else 0)
    | .float x => return .float (-x)
    | _ => throw .wrongKind
  | .first => tokenOne m.tokens
  | .nested => return .list [.list (← Results.asList m.tokens)]
  | .twice => return .results (← Results.add m.tokens m.tokens)
  | .print =>
    emit ("action " ++ toString m.loc ++ " " ++ (← showValue H (.results m.tokens)) ++ "\n")
    return .none
  | .fail => throw (mismatch m.text m.loc "custom failure" none)
  | .fatal => throw (.fatal { text := m.text, loc := m.loc, message := "fatal failure", element := none })
  | .bad => throw .wrongKind
  | .value => throw .refusedValue
  | .same => return .results m.tokens
  | .zero => return .int 0
  | .length => return .int (← items).length
  | .sorted => return .list (← (← items).foldlM (fun acc v => insertSorted v acc) [])
  | .list => return .list (← items)
  | .tuple => return .tuple (← items)
  | .anyTrue => return .bool (← (← items).anyM isTrue)
  | .least => leastOf isLess (← items)
  | .greatest => leastOf (fun a b => isLess b a) (← items)
  | .total => (← items).foldlM addUp (.int 0)
  | .report => throw .wrongKind
  | .stop => throw .wrongKind
  | .uncallable => throw .wrongKind

def Deed.notify (d : Deed) (event : Event) : ScriptM Unit := do
  match event with
  | .start text loc e =>
    match d with
    | .print => emit ("action " ++ toString loc ++ " " ++ (← elementText e) ++ "\n")
    | .fail => throw (mismatch text loc "custom failure" none)
    | .fatal => throw (.fatal { text, loc, message := "fatal failure", element := none })
    | .everything => throw .noProperty
    | _ => throw .wrongKind
  | .success .. => throw .wrongKind
  | .failure text loc e f =>
    match d with
    | .report =>
      emit ("fail " ++ toString loc ++ " " ++ (← elementText e) ++ ": "
        ++ f.failure?.elim "" (·.describe) ++ "\n")
    | .stop => throw (.fatal { text, loc, message := "stopped", element := none })
    | _ => throw .wrongKind

end

def Item.describe : Item → String
  | .maker name => name
  | .pattern source _ => "re.compile(" ++ Text.quoted source ++ ")"
  | _ => "<object>"

/-- What a script brings to the grammar engine; its actions may print results,
    which needs only the texts of its values. -/
def printer : Host Item Deed Session where
  arity := Deed.arity
  tokensOnly := Deed.tokensOnly
  perform := fun _ _ => throw .wrongKind
  notify := fun _ _ => throw .wrongKind
  describe := Item.describe

def host : Host Item Deed Session :=
  { printer with
    perform := fun d m => d.perform printer m
    notify := Deed.notify }

end Plainsong.Grammar.Script
