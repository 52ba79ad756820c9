import Plainsong.Grammar.Results
import Plainsong.Text.Quoted
import Plainsong.Decimal.Shortest
/- The texts of grammar elements and of values. The text of a composed element
   is worked out once and kept until the element is streamlined or changed; an
   element that is defined later shows itself as dots inside its own text. -/
namespace Plainsong.Grammar

variable {ν κ σ : Type}

def OneOp.label : OneOp ν → String
  | .plain => "ParseElementEnhance"
  | .followedBy => "FollowedBy"
  | .notAny => "NotAny"
  | .zeroOrMore => "ZeroOrMore"
  | .oneOrMore => "OneOrMore"
  | .optional _ => "Optional"
  | .skipTo _ _ _ => "SkipTo"
  | .forward _ => "Forward"
  | .converter => "TokenConverter"
  | .upcase => "Upcase"
  | .combine _ _ => "Combine"
  | .group => "Group"
  | .dict => "Dict"
  | .suppress => "Suppress"

def ManyOp.signs : ManyOp → String × String × String
  | .plain => ("ParseExpression:([", ", ", "])")
  | .sequence => ("\x7b", " ", "\x7d")
  | .longest => ("\x7b", " ^ ", "\x7d")
  | .first => ("\x7b", " | ", "\x7d")
  | .each _ => ("\x7b", " & ", "\x7d")

def elementDepth : Nat := 900

def textAt : Nat → List Nat → Nat → GrammarM ν κ σ String
  | 0, _, _ => throw .tooDeep
  | depth + 1, busy, id => do
    let e ← element id
    if busy.contains id then return "..."
    match e.name with
    | some s => return s
    | none =>
      match e.kind with
      | .atom _ => throw .noProperty
      | .many op parts =>
        match e.shown with
        | some s => return s
        | none =>
          let (left, between, right) := op.signs
          let texts ← parts.mapM (textAt depth busy)
          let s := left ++ between.intercalate texts ++ right
          changeElement id fun e => { e with shown := some s }
          return s
      | .one (.forward _) part =>
        changeElement id fun e => { e with kind := .one (.forward true) part }
        let inner ← match part with
          | some p => textAt depth (id :: busy) p
          | none => pure "None"
        return "Forward: " ++ inner
      | .one op part =>
        match e.shown with
        | some s => return s
        | none =>
          let inner ← match part with
            | some p => textAt depth busy p
            | none => pure "None"
          let s ← match op with
            | .notAny => pure ("~\x7b" ++ inner ++ "\x7d")
            | .zeroOrMore => pure ("[" ++ inner ++ "]...")
            | .oneOrMore => pure ("\x7b" ++ inner ++ "\x7d...")
            | .optional _ => pure ("[" ++ inner ++ "]")
            | op => if part.isNone then throw .wrongKind else pure (op.label ++ ":(" ++ inner ++ ")")
          changeElement id fun e => { e with shown := some s }
          return s

def elementText (id : Nat) : GrammarM ν κ σ String := textAt elementDepth [] id

def boolText (b : Bool) : String := if b then "True" else "False"

mutual

def reprAt (describe : ν → String) : Nat → Value ν → GrammarM ν κ σ String
  | 0, _ => throw .tooDeep
  | _ + 1, .none => pure "None"
  | _ + 1, .bool b => pure (boolText b)
  | _ + 1, .int n => pure (toString n)
  | _ + 1, .float x => pure (Decimal.shortest x)
  | _ + 1, .text s => pure (Text.quoted s)
  | depth + 1, .list xs => do
    return "[" ++ ", ".intercalate (← xs.mapM (reprAt describe depth)) ++ "]"
  | depth + 1, .tuple xs => do
    match ← xs.mapM (reprAt describe depth) with
    | [s] => return "(" ++ s ++ ",)"
    | texts => return "(" ++ ", ".intercalate texts ++ ")"
  | depth + 1, .results id => do
    let r ← Results.record id
    let items ← r.items.toList.mapM (reprAt describe depth)
    let names ← r.names.mapM (namesAt describe depth)
    return "([" ++ ", ".intercalate items ++ "], \x7b" ++ ", ".intercalate names ++ "\x7d)"
  | _ + 1, .element id => elementText id
  | _ + 1, .host a => pure (describe a)

def namesAt (describe : ν → String) : Nat → String × Nat → GrammarM ν κ σ String
  | 0, _ => throw .tooDeep
  | depth + 1, (key, slot) => do
    let texts ← (← Results.occurrences slot).mapM fun o => do
      return "(" ++ (← reprAt describe depth o.value) ++ ", " ++ toString o.offset ++ ")"
    return Text.quoted key ++ ": [" ++ ", ".intercalate texts ++ "]"

end

def showAt (describe : ν → String) : Nat → Value ν → GrammarM ν κ σ String
  | 0, _ => throw .tooDeep
  | _ + 1, .text s => pure s
  | depth + 1, .results id => do
    let texts ← (← Results.record id).items.toList.mapM fun v =>
      match v with
      | .results _ => showAt describe depth v
      | v => reprAt describe depth v
    return "[" ++ ", ".intercalate texts ++ "]"
  | depth + 1, v => reprAt describe (depth + 1) v

section
variable (H : Host ν κ σ)

def reprValue (v : Value ν) : GrammarM ν κ σ String := reprAt H.describe (2 * Results.depthLimit) v
def showValue (v : Value ν) : GrammarM ν κ σ String := showAt H.describe Results.depthLimit v

def stringListAt : Nat → String → Nat → GrammarM ν κ σ (List String)
  | 0, _, _ => throw .tooDeep
  | depth + 1, sep, id => do
    let mut out : Array String := #[]
    for v in (← Results.record id).items do
      if !out.isEmpty && !sep.isEmpty then out := out.push sep
      match v with
      | .results sub => out := out ++ (← stringListAt depth "" sub).toArray
      | v => out := out.push (← showValue H v)
    return out.toList

def stringList (sep : String) (id : Nat) : GrammarM ν κ σ (List String) :=
  stringListAt H Results.depthLimit sep id

def escapeMarkup (s : String) : String :=
  String.join (s.toList.map fun c => match c with
    | '&' => "&amp;"
    | '>' => "&gt;"
    | '<' => "&lt;"
    | '"' => "&quot;"
    | '\'' => "&apos;"
    | c => String.singleton c)

/-- A result as markup: each named token stands under its name, the others
    under `ITEM` or, if only named ones are wanted, not at all. -/
def markupAt : Nat → Option String → Bool → String → Bool → Nat → GrammarM ν κ σ String
  | 0, _, _, _, _, _ => throw .tooDeep
  | depth + 1, tag, namedOnly, indent, formatted, id => do
    let r ← Results.record id
    let mut places : List (Int × String) := []
    for (key, slot) in r.names do
      for o in ← Results.occurrences slot do
        places := (o.offset, key) :: places
    let next := if formatted then indent ++ "  " else ""
    let indent := if formatted then indent else ""
    let nl := if formatted then "\n" else ""
    let own := match tag with
      | some t => t
      | none => r.name.getD ""
    if own.isEmpty && namedOnly then return ""
    let own := if own.isEmpty then "ITEM" else own
    let mut out : Array String := #[nl, indent, "<", own, ">"]
    for (v, i) in r.items.toList.zipIdx do
      let found := places.lookup (i : Int)
      match v with
      | .results sub =>
        out := out.push (← markupAt depth found (namedOnly && tag.isNone) next formatted sub)
      | v =>
        let label := found.getD ""
        if !(label.isEmpty && namedOnly) then
          let label := if label.isEmpty then "ITEM" else label
          out := out ++ #[nl, next, "<", label, ">", escapeMarkup (← showValue H v), "</", label, ">"]
    return String.join (out ++ #[nl, indent, "</", own, ">"]).toList

def markup (tag : Option String) (namedOnly : Bool) (indent : String) (formatted : Bool) (id : Nat) :
    GrammarM ν κ σ String :=
  markupAt H Results.depthLimit tag namedOnly indent formatted id

def dumpAt : Nat → String → Nat → Nat → GrammarM ν κ σ String
  | 0, _, _, _ => throw .tooDeep
  | depth + 1, indent, level, id => do
    let mut out : Array String := #[indent ++ (← showValue H (.list (← Results.asList id)))]
    let entries := (← Results.entries id).mergeSort fun a b => a.1 ≤ b.1
    for (key, v) in entries do
      out := out.push ("\n" ++ indent ++ String.join (List.replicate level "  ") ++ "- " ++ key ++ ": ")
      match v with
      | .results sub =>
        if (← Results.record sub).names.isEmpty then out := out.push (← showValue H v)
        else out := out.push (← dumpAt depth indent (level + 1) sub)
      | v => out := out.push (← showValue H v)
    return String.join out.toList

def dump (indent : String) (level : Nat) (id : Nat) : GrammarM ν κ σ String :=
  dumpAt H Results.depthLimit indent level id

end

end Plainsong.Grammar
