import Plainsong.Grammar.Script.Evaluate
/- Running scripts: each step is done in turn and reports what it found. A step
   that fails reports its fault, and the next one runs. -/
namespace Plainsong.Grammar.Script

/-! ## Showing values -/

def viewDepth : Nat := 900

def viewAt : Nat → ScriptValue → ScriptM View
  | 0, _ => throw .tooDeep
  | _ + 1, .none => pure .none
  | _ + 1, .bool b => pure (.bool b)
  | _ + 1, .int n => pure (.int n)
  | _ + 1, .float x => pure (.float x)
  | _ + 1, .text s => pure (.text s)
  | depth + 1, .list xs => do return .list (← xs.mapM (viewAt depth))
  | depth + 1, .tuple xs => do return .list (← xs.mapM (viewAt depth))
  | depth + 1, .results id => do
    let r ← Results.record id
    let items ← r.items.toList.mapM (viewAt depth)
    if r.names.isEmpty then return .list items
    let names ← (← Results.entries id).mapM fun (k, v) => do return (k, ← viewAt depth v)
    return .named items names
  | _ + 1, .element e => do return .expression (← elementText e)
  | _ + 1, .host a => pure (.text a.describe)

def view (v : ScriptValue) : ScriptM View := viewAt viewDepth v

def held : ScriptM (List ScriptValue) := do
  let s := (← get).host
  return s.names.map (·.2) ++ s.results.toList.map .results

def viewOrFault (x : ScriptM View) : ScriptM View := do
  match ← attempt x with
  | .ok v => return v
  | .error f => return .fault f []

def ofOption : Option String → ScriptValue
  | some s => .text s
  | none => .none

def lookAt (id : Nat) (q : Query) : ScriptM View := do
  let args ← evaluateAll q.args
  let bind (params : List String) : ScriptM Bound := bindArgs params 0 args []
  match q.name with
  | "as-xml" =>
    let b ← bind ["doctag", "named-items-only", "indent", "formatted"]
    let tag ← textOption (b.getD "doctag" .none)
    let namedOnly ← isTrue (b.getD "named-items-only" (.bool false))
    let indent ← textOf (b.getD "indent" (.text ""))
    let formatted ← isTrue (b.getD "formatted" (.bool true))
    return .text (← markup host tag namedOnly indent formatted id)
  | "dump" =>
    let b ← bind ["indent", "depth"]
    let indent ← textOf (b.getD "indent" (.text ""))
    let depth ← wholeOf (b.getD "depth" (.int 0))
    return .text (← dump host indent depth.toNat id)
  | "as-list" => view (.list (← Results.asList id))
  | "get-name" => view (ofOption (← Results.nameFor (← held) id))
  | "as-dict" =>
    let sorted := (← Results.entries id).mergeSort fun a b => decide (a.1 ≤ b.1)
    let pairs ← sorted.mapM fun (k, v) => do return View.list [.text k, ← view v]
    return .list pairs
  | "str" => return .text (← showValue host (.results id))
  | "repr" => return .text (← reprValue host (.results id))
  | "keys" => return .list ((← Results.record id).names.map fun p => .text p.1)
  | "values" =>
    let vs ← (← Results.record id).names.mapM fun (k, _) => do
      return (← Results.lastNamed? id k).getD .none
    view (.list vs)
  | "names" =>
    let held ← held
    let ns ← (← Results.record id).items.toList.mapM fun v => match v with
      | .results sub => do return ofOption (← Results.nameFor held sub)
      | _ => pure .none
    view (.list ns)
  | "copy" => view (.results (← Results.copy id))
  | "state" => view (.results (← Results.copy id))
  | _ => throw .noProperty

def lookAtAll (id : Nat) (qs : List Query) : ScriptM View := do
  return .fields (← qs.mapM fun q => do return (q.label, ← viewOrFault (lookAt id q)))

/-! ## Operations on results -/

def cutPositions (size : Nat) (a b : Option Int) (step : Int) : List Nat :=
  let clipUp (i : Int) : Int := if i < 0 then max 0 (i + size) else min i size
  let clipDown (i : Int) : Int := if i < 0 then max (-1) (i + size) else min i ((size : Int) - 1)
  if 0 < step then
    let lo := clipUp (a.getD 0)
    let hi := clipUp (b.getD size)
    ((List.range size).filter fun (k : Nat) => lo ≤ k && (k : Int) < hi && ((k : Int) - lo) % step == 0)
  else
    let hi : Int := clipDown (a.getD ((size : Int) - 1))
    let lo : Int := match b with
      | some i => clipDown i
      | none => -1
    ((List.range size).filter fun (k : Nat) => lo < k && (k : Int) ≤ hi && (hi - (k : Int)) % (-step) == 0).reverse

def boundOf : ScriptValue → ScriptM (Option Int)
  | .none => pure none
  | v => do return some (← wholeOf v)

def operate (id : Nat) (name : String) (args : List ScriptValue) : ScriptM ScriptValue := do
  let itemOrNamed (key : ScriptValue) : ScriptM ScriptValue := match key with
    | .int i => Results.itemAt id i
    | .bool b => Results.itemAt id (if b then 1 else 0)
    | .text k => Results.named id k
    | .list _ => throw .wrongKind
    | _ => throw .unknownName
  let remove (key : ScriptValue) : ScriptM Unit := match key with
    | .int i => Results.removeIndex id i
    | .bool b => Results.removeIndex id (if b then 1 else 0)
    | .text k => Results.removeName id k
    | .list _ => throw .wrongKind
    | _ => throw .unknownName
  let isName (key : ScriptValue) : ScriptM Bool := match key with
    | .text k => do return (← Results.record id).names.any (·.1 == k)
    | .list _ => throw .wrongKind
    | _ => pure false
  match name, args with
  | "getitem", [key] => itemOrNamed key
  | "slice", [a, b] =>
    let items := (← Results.record id).items
    let lo := match ← boundOf a with
      | some i => clip items.size i
      | none => 0
    let hi := match ← boundOf b with
      | some i => clip items.size i
      | none => items.size
    return .list (items.extract lo hi).toList
  | "set", [.int i, v] =>
    Results.setItem id i v
    return .none
  | "set", [.text k, v] =>
    Results.setNamed id k v 0
    return .none
  | "del", [key] =>
    remove key
    return .none
  | "delslice", a :: b :: rest =>
    let step ← match rest with
      | [] => pure 1
      | v :: _ => do pure ((← boundOf v).getD 1)
    if step = 0 then throw .refusedValue
    let size := (← Results.record id).items.size
    Results.removeAt id (cutPositions size (← boundOf a) (← boundOf b) step)
    return .none
  | "in", [x] => return .bool (← isName x)
  | "len", [] =>
    let n := (← Results.record id).items.size
    return .list [.int n, .bool (n != 0)]
  | "reversed", [] => return .list (← Results.record id).items.toList.reverse
  | "attr", [.text k] =>
    if (← Results.record id).names.any (·.1 == k) then Results.named id k else return .text ""
  | "add", [.int i] => return .results (← Results.add id (← resultAt i))
  | "iadd", [.int i] =>
    Results.append id (← resultAt i)
    return .none
  | "radd", [x] =>
    match x with
    | .int 0 => return .results (← Results.copy id)
    | .bool false => return .results (← Results.copy id)
    | .results other => return .results (← Results.add other id)
    | _ => return .none
  | "sum", is =>
    is.foldlM (fun acc i => do addUp acc (.results (← resultAt (← wholeOf i)))) (.int 0)
  | "stringlist", args =>
    let sep ← match args with
      | [] => pure ""
      | v :: _ => textOf v
    return .list ((← stringList host sep id).map .text)
  | "pop", [] =>
    let v ← itemOrNamed (.int (-1))
    remove (.int (-1))
    return v
  | "pop", [key] =>
    let v ← itemOrNamed key
    remove key
    return v
  | "get", [key] => if ← isName key then itemOrNamed key else return .none
  | "get", [key, default] => if ← isName key then itemOrNamed key else return default
  | "insert", [i, v] =>
    Results.insert id (← wholeOf i) v
    return .none
  | "items", [] =>
    return .list ((← Results.entries id).map fun (k, v) => .tuple [.text k, v])
  | "values", [] =>
    let vs ← (← Results.record id).names.mapM fun (k, _) => do
      return (← Results.lastNamed? id k).getD .none
    return .list vs
  | "get-name", [] => return ofOption (← Results.nameFor (← held) id)
  | _, _ => throw .wrongKind

def operateAndView (id : Nat) (q : Query) : ScriptM View := do
  let outcome ← attempt (do
    let args ← evaluateAll q.args
    view (← operate id q.name args))
  let now ← view (.results id)
  match outcome with
  | .ok v => return .fields [("value", v), ("now", now)]
  | .error f => return .fault f [("now", now)]

/-! ## Steps -/

def elementOf : ScriptValue → ScriptM Nat
  | .element e => pure e
  | .results _ => throw .wrongKind
  | _ => throw .noProperty

def keepResult (id : Nat) : ScriptM View := do
  modify fun s => { s with host := { s.host with results := s.host.results.push id } }
  view (.results id)

def markedLine (f : Failure) (mark : String) : View :=
  if mark.isEmpty then .text (Text.trim f.line) else .fault .wrongKind []

def faultDetails (f : Fault) (marks : List String) : ScriptM (List (String × View)) := do
  match f.failure? with
  | none => return []
  | some g =>
    let elem ← match g.element with
      | some e => do pure (View.text (← elementText e))
      | none => pure .none
    return [("str", .text g.describe), ("repr", .text g.describe), ("elem", elem)]
      ++ marks.map fun m => ("mark " ++ m, markedLine g m)

def evaluateNamed (names : List String) (named : List Term) : ScriptM (List (String × ScriptValue)) := do
  return names.zip (← evaluateAll named)

def changeSetting (owner name : String) (args : List ScriptValue) : ScriptM Unit := do
  match name, args with
  | "set-default-whitespace-chars", [.text s] => modify fun st => { st with blanks := s }
  | "inline-literals-using", [.host (.maker m)] =>
    match inline? m with
    | some i => modify fun st => { st with inline := i }
    | none => throw .noProperty
  | "reset-cache", [] => resetMemory
  | "enable-packrat", [] => modify fun st => { st with remember := true }
  | "set-default-keyword-chars", [.text s] =>
    if owner == "keyword" || owner == "caseless-keyword" then modify fun st => { st with keywordChars := s }
    else throw .noProperty
  | "set-default-whitespace-chars", _ => throw .wrongKind
  | "inline-literals-using", _ => throw .wrongKind
  | "reset-cache", _ => throw .wrongKind
  | "enable-packrat", _ => throw .wrongKind
  | "set-default-keyword-chars", _ => throw .wrongKind
  | _, _ => throw .noProperty

def asksAll : Option Term → ScriptM Bool
  | none => pure false
  | some t => do isTrue (← evaluate t)

def doStep : Step → ScriptM View
  | .define name e shown => do
    let v ← evaluate e
    modify fun s => { s with host := { s.host with
      names := (name, v) :: s.host.names.filter (·.1 != name) } }
    if shown then return .fields [("expr", .text (← showValue host v))]
    else return .fields []
  | .describe e => do
    let v ← evaluate e
    let text ← showValue host v
    let repr ← reprValue host v
    let el ← element (← elementOf v)
    return .fields [("expr", .text text), ("repr", .text repr), ("errmsg", .text el.message),
      ("empty", .bool el.mayBeEmpty)]
  | .parse e s all views _ => do
    let v ← evaluate e
    let s ← evaluate s
    let id ← elementOf v
    let tokens ← parseText host id (← textOf s) (← asksAll all)
    let shown ← keepResult tokens
    match views with
    | none => return .fields [("tokens", shown)]
    | some qs => return .fields [("tokens", shown), ("show", ← lookAtAll tokens qs)]
  | .parseFile e s file all => do
    let v ← evaluate e
    let s ← evaluate s
    let id ← elementOf v
    let text ← match file with
      | none => textOf s
      | some name => match (← get).host.files.lookup name with
        | some t => pure (Text.plainLines t)
        | none => throw .missingFile
    let tokens ← parseText host id text (← asksAll all)
    return .fields [("tokens", ← keepResult tokens)]
  | .scan e s names named => do
    let v ← evaluate e
    let s ← evaluate s
    let id ← elementOf v
    let b ← bindArgs ["instring", "max-matches", "overlap"] 1 [s] (← evaluateNamed names named)
    let limit ← match b.get "max-matches" with
      | some n => do pure (some (← wholeOf n))
      | none => pure none
    let overlap ← isTrue (b.getD "overlap" (.bool false))
    let hits ← scan host id (← showValue host s) limit overlap
    let shown ← hits.mapM fun h => do
      return View.list [← view (.results h.tokens), .int h.start, .int h.stop]
    return .fields [("matches", .list shown)]
  | .search e s names named => do
    let v ← evaluate e
    let s ← evaluate s
    let id ← elementOf v
    let b ← bindArgs ["instring", "max-matches"] 1 [s] (← evaluateNamed names named)
    let limit ← match b.get "max-matches" with
      | some n => do pure (some (← wholeOf n))
      | none => pure none
    let tokens ← search host id (← showValue host s) limit
    return .fields [("tokens", ← view (.results tokens))]
  | .transform e s => do
    let v ← evaluate e
    let s ← evaluate s
    let id ← elementOf v
    return .fields [("text", .text (← transform host id (← textOf s)))]
  | .compare e o => do
    let a ← evaluate e
    let b ← evaluate o
    let same ← sameValue a b
    let differ := !(← sameValue a b)
    return .fields [("value", .list [.bool same, .bool differ])]
  | .compareWith e o => do
    let a ← evaluate e
    let b ← evaluate o
    let _ ← elementOf a
    let same ← sameValue a b
    let differ := !(← sameValue a b)
    return .fields [("value", .list [.bool same, .bool differ])]
  | .validate e => do
    validate (← elementOf (← evaluate e))
    return .fields []
  | .packrat => do
    modify fun s => { s with remember := true }
    return .fields []
  | .verbose => pure (.fields [])
  | .setting owner name args => do
    changeSetting owner name (← evaluateAll args)
    return .fields []
  | .constant name => do
    return .fields [("value", ← view (← ready name))]
  | .call name args => do
    return .fields [("value", ← view (← make name (← evaluateAll args) []))]
  | .make args names named => do
    let args ← evaluateAll args
    match ← make "parse-results" args (← evaluateNamed names named) with
    | .results id => return .fields [("tokens", ← keepResult id)]
    | _ => throw .wrongKind
  | .views of qs => do
    return .fields [("show", ← lookAtAll (← resultAt of) qs)]
  | .operations of qs => do
    let id ← resultAt of
    let shown ← qs.mapM (operateAndView id)
    return .fields [("ops", .list shown)]

def marksOf : Step → Option (List String)
  | .parse _ _ _ _ marks => marks
  | _ => none

def runStep (s : Step) : ScriptM Report := do
  modify fun st => { st with output := "" }
  let shown ← match ← attempt (doStep s) with
    | .ok v => pure v
    | .error f => do
      match marksOf s with
      | none => pure (.fault f [])
      | some marks =>
        match ← attempt (faultDetails f marks) with
        | .ok more => pure (.fault f more)
        | .error g => pure (.fault g [])
  return { view := shown, output := (← get).output }

def runSteps (steps : List Step) : ScriptM (List Report) := do
  let l ← Library.make host
  modify fun s => { s with host := { s.host with library := some l } }
  steps.mapM runStep

def run (files : List (String × String)) (steps : List Step) : List Report :=
  match (runSteps steps).run { host := { files } } with
  | .ok reports _ => reports
  | .error _ _ => []

end Plainsong.Grammar.Script
