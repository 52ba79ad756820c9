import Plainsong.Grammar.Library
/- A sample grammar, for a small language of queries, and what it makes of some
   queries: the tokens, the columns and tables by name, and the whole as
   markup; or where a query goes wrong. -/
namespace Plainsong.Grammar.Sample

def host : Host Empty Empty Unit where
  arity := fun k => nomatch k
  tokensOnly := fun k => nomatch k
  perform := fun k _ => nomatch k
  notify := fun k _ => nomatch k
  describe := fun a => nomatch a

abbrev SampleM := GrammarM Empty Empty Unit

def dottedName (ident : Nat) : SampleM Nat := do
  let e ← delimitedList host (.element ident) (.text ".") true
  setActions e [.upcaseTokens] false
  return e

def query : SampleM Nat := do
  let select ← caselessLiteral "select"
  let source ← caselessLiteral "from"
  let ident ← word alphas (some (alphanums ++ "_$")) 1 0 0 false none
  let columns ← group (← delimitedList host (.element (← dottedName ident)) (.text ",") false)
  let tables ← group (← delimitedList host (.element (← dottedName ident)) (.text ",") false)
  let wanted ← named (← either (← inlineText "*") columns) "columns" false
  plus (← plus (← plus select wanted) source) (← named tables "tables" false)

def property (id : Nat) (key : String) : SampleM (Value Empty) := do
  if (← Results.record id).names.any (·.1 == key) then Results.named id key else return .text ""

def explain (query : Nat) (s : String) : SampleM Unit := do
  let good : SampleM Unit := do
    let tokens ← parseText host query s false
    emit (s ++ "->" ++ (← reprValue host (.list (← Results.asList tokens))) ++ "\n")
    emit ("tokens = " ++ (← showValue host (.results tokens)) ++ "\n")
    emit ("tokens.columns = " ++ (← showValue host (← property tokens "columns")) ++ "\n")
    emit ("tokens.tables = " ++ (← showValue host (← property tokens "tables")) ++ "\n")
    emit ((← markup host (some "SQL") true "" true tokens) ++ "\n")
  match ← attempt good with
  | .ok _ => pure ()
  | .error f =>
    match f.failure? with
    | none => throw f
    | some g =>
      emit (s ++ "->\n")
      emit (g.line ++ "\n")
      emit (String.ofList (List.replicate (g.column - 1) ' ') ++ "^\n")
      emit (g.describe ++ "\n")
  emit "\n"

def queries : List String :=
  ["SELECT * from XYZZY, ABC", "select * from SYS.XYZZY", "Select A from Sys.dual",
   "Select AA,BB,CC from Sys.dual", "Select A, B, C from Sys.dual", "Select A, B, C from Sys.dual",
   "Xelect A, B, C from Sys.dual", "Select A, B, C frox Sys.dual", "Select", "Select ^^^ frox Sys.dual",
   "Select A, B, C from Sys.dual, Table2   "]

def report : String :=
  let all : SampleM String := do
    let q ← query
    queries.forM (explain q)
    return (← get).output
  match all.run { host := () } with
  | .ok s _ => s
  | .error _ s => s.output

end Plainsong.Grammar.Sample
