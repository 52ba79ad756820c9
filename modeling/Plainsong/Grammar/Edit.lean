import Plainsong.Grammar.Print
/- Making copies of elements and changing them: blanks to skip, things to
   ignore, names, and the flattening of nested combinations before parsing.
   Comparing elements and checking them for recursion stand here too. -/
namespace Plainsong.Grammar

variable {ν κ σ : Type}

def newElement (kind : Kind ν) (savelist : Bool) : GrammarM ν κ σ (Element ν κ) := do
  return { kind, blanks := (← get).blanks, saveAsList := savelist }

def Element.withBlanks (e : Element ν κ) (chars : String) : Element ν κ :=
  { e with skipBlanks := true, blanks := chars, usualBlanks := false }

/-- A change of one element takes over what it says about blanks, emptiness,
    lists and things to ignore. -/
def changeOf (op : OneOp ν) (part : Option Nat) (savelist : Bool) : GrammarM ν κ σ (Element ν κ) := do
  let e ← newElement (.one op part) savelist
  match part with
  | none => return e
  | some p =>
    let q ← element p
    return { e.withBlanks q.blanks with
      mayOverrun := q.mayOverrun
      mayBeEmpty := q.mayBeEmpty
      skipBlanks := q.skipBlanks
      saveAsList := q.saveAsList
      callPreparse := q.callPreparse
      ignored := q.ignored }

def suppressOf (part : Option Nat) : GrammarM ν κ σ Nat := do
  let e ← changeOf .suppress part false
  addElement { e with saveAsList := false }

def isSuppress (e : Element ν κ) : Bool :=
  match e.kind with
  | .one .suppress _ => true
  | _ => false

def forwardOf (part : Option Nat) : GrammarM ν κ σ Nat := do
  addElement (← changeOf (.forward false) part false)

def define (id part : Nat) : GrammarM ν κ σ Unit := do
  let q ← element part
  changeElement id fun e =>
    let kind := match e.kind with
      | .one op _ => .one op (some part)
      | k => k
    { e.withBlanks q.blanks with
      kind
      shown := none
      mayBeEmpty := q.mayBeEmpty
      mayOverrun := q.mayOverrun
      skipBlanks := q.skipBlanks
      saveAsList := q.saveAsList
      ignored := e.ignored ++ q.ignored }

/-- A copy; the parts of a combination are copied too, the part of a change is
    shared. A copied keyword goes by the usual keyword characters. -/
def copyAt : Nat → Nat → GrammarM ν κ σ Nat
  | 0, _ => throw .tooDeep
  | depth + 1, id => do
    let e ← element id
    let s ← get
    let e := { e with blanks := if e.usualBlanks then s.blanks else e.blanks }
    match e.kind with
    | .many op parts => do
      let parts ← parts.mapM (copyAt depth)
      addElement { e with kind := .many op parts }
    | .one (.forward _) none => do
      let f ← forwardOf none
      define f id
      return f
    | .atom (.keyword k) =>
      addElement { e with kind := .atom (.keyword { k with ident := .of s.keywordChars, identGiven := false }) }
    | .atom (.caselessKeyword k) =>
      addElement { e with kind := .atom (.caselessKeyword { k with ident := .of s.keywordChars, identGiven := false }) }
    | _ => addElement e

def copyElement (id : Nat) : GrammarM ν κ σ Nat := copyAt elementDepth id

def leaveBlanksAt : Nat → Nat → GrammarM ν κ σ Unit
  | 0, _ => throw .tooDeep
  | depth + 1, id => do
    changeElement id fun e => { e with skipBlanks := false }
    let e ← element id
    match e.kind with
    | .atom _ => pure ()
    | .many op parts =>
      let parts ← parts.mapM copyElement
      changeElement id fun e => { e with kind := .many op parts }
      for p in parts do leaveBlanksAt depth p
    | .one (.forward _) _ => pure ()
    | .one _ none => throw .noProperty
    | .one op (some p) =>
      let p ← copyElement p
      changeElement id fun e => { e with kind := .one op (some p) }
      leaveBlanksAt depth p

def leaveBlanks (id : Nat) : GrammarM ν κ σ Unit := leaveBlanksAt elementDepth id

def setName (id : Nat) (name : String) : GrammarM ν κ σ Unit :=
  changeElement id fun e => { e with name := some name, message := "Expected " ++ name }

def named (id : Nat) (name : String) (all : Bool) : GrammarM ν κ σ Nat := do
  let new ← copyElement id
  let starred := name.endsWith "*"
  let name := if starred then (name.dropEnd 1).toString else name
  changeElement new fun e =>
    let e := { e with resultsName := some name, modal := !(all || starred) }
    match e.kind with
    | .one .zeroOrMore _ => { e with saveAsList := true }
    | .one .oneOrMore _ => { e with saveAsList := true }
    | _ => e
  return new

def ManyOp.absorbs : ManyOp → ManyOp → Bool
  | .plain, _ => true
  | .sequence, .sequence => true
  | .longest, .longest => true
  | .first, .first => true
  | .each _, .each _ => true
  | _, _ => false

def absorbed? (op : ManyOp) (e : Element ν κ) : Option (List Nat) :=
  match e.kind with
  | .many op' parts =>
    if op.absorbs op' && e.actions.isEmpty && e.resultsName.isNone && !e.debug then some parts else none
  | _ => none

/-- Prepares an element for parsing: a combination of two takes in the parts
    of a nested one of its own kind, unless that has a name or actions. -/
def streamlineAt : Nat → Nat → GrammarM ν κ σ Unit
  | 0, _ => throw .tooDeep
  | depth + 1, id => do
    let e ← element id
    match e.kind with
    | .one (.forward _) part =>
      if !e.streamlined then
        changeElement id fun e => { e with streamlined := true }
        match part with
        | some p => streamlineAt depth p
        | none => pure ()
    | .atom _ => changeElement id fun e => { e with streamlined := true, shown := none }
    | .one _ part =>
      changeElement id fun e => { e with streamlined := true, shown := none }
      match part with
      | some p => streamlineAt depth p
      | none => pure ()
    | .many op parts =>
      changeElement id fun e => { e with streamlined := true, shown := none }
      for p in parts do streamlineAt depth p
      match parts with
      | [a, b] =>
        let left ← element a
        let parts ← match absorbed? op left with
          | some inner =>
            changeElement id fun e => { e with
              kind := .many op (inner ++ [b])
              mayBeEmpty := e.mayBeEmpty || left.mayBeEmpty
              mayOverrun := e.mayOverrun || left.mayOverrun }
            pure (inner ++ [b])
          | none => pure parts
        let right ← element b
        match absorbed? op right with
        | some inner =>
          changeElement id fun e => { e with
            kind := .many op (parts.dropLast ++ inner)
            mayBeEmpty := e.mayBeEmpty || right.mayBeEmpty
            mayOverrun := e.mayOverrun || right.mayOverrun }
        | none => pure ()
      | _ => pure ()

def streamline (id : Nat) : GrammarM ν κ σ Unit := streamlineAt elementDepth id

/-! ## Comparing -/

def Value.sameAt : Nat → Value ν → Value ν → Bool
  | 0, _, _ => false
  | _ + 1, .none, .none => true
  | _ + 1, .bool a, .bool b => a == b
  | _ + 1, .bool a, .int b => (if a then 1 else 0) == b
  | _ + 1, .int a, .bool b => a == (if b then 1 else 0)
  | _ + 1, .int a, .int b => a == b
  | _ + 1, .float a, .float b => a == b
  | _ + 1, .int a, .float b => Decimal.ofInt a == b
  | _ + 1, .float a, .int b => a == Decimal.ofInt b
  | _ + 1, .text a, .text b => a == b
  | depth + 1, .list a, .list b => a.length == b.length && (a.zip b).all fun p => Value.sameAt depth p.1 p.2
  | depth + 1, .tuple a, .tuple b => a.length == b.length && (a.zip b).all fun p => Value.sameAt depth p.1 p.2
  | _ + 1, .results a, .results b => a == b
  | _ + 1, .element a, .element b => a == b
  | _, _, _ => false

def Value.same (a b : Value ν) : Bool := Value.sameAt 900 a b

/-- A property of an element that takes part in comparing. -/
inductive Property where
  | text (s : String)
  | number (n : Int)
  | flag (b : Bool)
  | set (s : List Char)
  | absent
  | parts (ps : List Nat)
  deriving DecidableEq

def sortedChars (s : String) : List Char := (s.toList.mergeSort (· ≤ ·)).eraseDups

def extentProperties (x : Extent) : List (String × Property) :=
  [("least", .number x.least),
   ("most", match x.most with | some n => .number n | none => .absent)]

def keywordProperties (k : KeywordSpec) : List (String × Property) :=
  [("match", .text (String.ofList k.word.toList)), ("caseless", .flag k.caseless),
   ("ident", if k.identGiven then .set (sortedChars k.ident.chars) else .text k.ident.chars)]
  ++ (if k.caseless then [("upper", .text k.upper)] else [])

/-- What an atom consists of, beside what all elements have. Atoms of different
    kinds may agree in everything. -/
def Atom.properties : Atom → List (String × Property)
  | .literal cs => [("match", .text (String.ofList cs.toList))]
  | .emptyLiteral returned =>
    ("match", .text "") :: (match returned with | some s => [("returned", .text s)] | none => [])
  | .caselessLiteral upper returned => [("match", .text upper), ("returned", .text returned)]
  | .keyword k => keywordProperties k
  | .caselessKeyword k => keywordProperties k
  | .word w =>
    [("init", .text w.init.chars), ("body", .text w.body.chars), ("bounded", .flag w.bounded),
     ("whole", .flag w.whole),
     ("pattern", match w.pattern with | some (s, _) => .text s | none => .absent)]
    ++ extentProperties w.extent
  | .pattern source flags _ => [("pattern", .text source), ("flags", .number flags)]
  | .quotedText q =>
    [("opening", .text q.opening), ("closing", .text q.closing),
     ("escape", match q.escape with | some s => .text s | none => .absent),
     ("escapedQuote", match q.escapedQuote with | some s => .text s | none => .absent),
     ("unquote", .flag q.unquote), ("pattern", .text q.pattern), ("flags", .number q.flags)]
  | .charsNotIn set x => ("set", .text set.chars) :: extentProperties x
  | .white set x => ("white", .text set.chars) :: extentProperties x
  | .goToColumn n => [("column", .number n)]
  | .wordStart set => [("wordChars", .set (sortedChars set.chars))]
  | .wordEnd set => [("wordChars", .set (sortedChars set.chars))]
  | _ => []

def ManyOp.properties : ManyOp → List (String × Property)
  | .each none => [("sorted", .flag false)]
  | .each (some g) =>
    [("sorted", .flag true), ("optionals", .parts g.optionals), ("multiOptionals", .parts g.multiOptionals),
     ("multiRequired", .parts g.multiRequired), ("required", .parts g.required)]
  | _ => []

def OneOp.properties : OneOp ν → List (String × Property)
  | .optional _ => [("default", .absent)]
  | .skipTo take _ failOn =>
    [("take", .flag take), ("failOn", match failOn with | some p => .parts [p] | none => .absent)]
  | .forward printed => if printed then [("printed", .absent)] else []
  | .combine joint adjacent => [("joint", .text joint), ("adjacent", .flag adjacent)]
  | _ => []

def Kind.properties : Kind ν → List (String × Property)
  | .atom a => a.properties
  | .many op parts => ("parts", .parts parts) :: op.properties
  | .one op part =>
    ("part", match part with | some p => .parts [p] | none => .absent) :: op.properties

def Kind.values : Kind ν → List (Option (Value ν))
  | .one (.optional d) _ => [d]
  | .one (.skipTo _ skip _) _ => [skip]
  | _ => []

def Notice.tag : Notice κ → Nat
  | .silent => 0
  | .standard => 1
  | .host _ => 2

def sameSurface (a b : Element ν κ) : Bool :=
  a.name == b.name && a.shown == b.shown && a.resultsName == b.resultsName
    && a.saveAsList == b.saveAsList && a.skipBlanks == b.skipBlanks && a.blanks == b.blanks
    && a.usualBlanks == b.usualBlanks && a.mayBeEmpty == b.mayBeEmpty && a.keepTabs == b.keepTabs
    && a.debug == b.debug && a.streamlined == b.streamlined && a.mayOverrun == b.mayOverrun
    && a.message == b.message && a.modal == b.modal && a.onStart.tag == b.onStart.tag
    && a.onSuccess.tag == b.onSuccess.tag && a.onFailure.tag == b.onFailure.tag
    && a.callPreparse == b.callPreparse && a.callDuringTry == b.callDuringTry
    && a.actions == b.actions && a.failAction.isSome == b.failAction.isSome && a.tag == b.tag
    && a.pinned == b.pinned

mutual

def sameElementAt : Nat → Nat → Nat → GrammarM ν κ σ Bool
  | 0, _, _ => throw .tooDeep
  | depth + 1, a, b => do
    if a = b then return true
    let x ← element a
    let y ← element b
    if !sameSurface x y then return false
    if !(← sameListAt depth x.ignored y.ignored) then return false
    let xs := x.kind.properties
    let ys := y.kind.properties
    if xs.length != ys.length then return false
    let vs := x.kind.values.zip y.kind.values
    if !vs.all (fun p => match p with
        | (some u, some v) => u.same v
        | (none, none) => true
        | _ => false) then return false
    for (key, p) in xs do
      match p, ys.lookup key with
      | .parts ps, some (.parts qs) => if !(← sameListAt depth ps qs) then return false
      | p, some q => if p ≠ q then return false
      | _, none => return false
    return true

def sameListAt : Nat → List Nat → List Nat → GrammarM ν κ σ Bool
  | 0, _, _ => throw .tooDeep
  | depth + 1, ps, qs => do
    if ps.length != qs.length then return false
    for (p, q) in ps.zip qs do
      if !(← sameElementAt depth p q) then return false
    return true

end

def sameElement (a b : Nat) : GrammarM ν κ σ Bool := sameElementAt (2 * elementDepth) a b

def isAmong (a : Nat) : List Nat → GrammarM ν κ σ Bool
  | [] => pure false
  | b :: bs => do if ← sameElement a b then pure true else isAmong a bs

def removeFirst (a : Nat) : List Nat → GrammarM ν κ σ (List Nat)
  | [] => pure []
  | b :: bs => do if ← sameElement a b then pure bs else return b :: (← removeFirst a bs)

/-! ## Things to ignore -/

/-- Adds something to ignore to one element alone; a suppressed element is
    added once only, anything else is copied and suppressed. -/
def ignoreHere (id other : Nat) : GrammarM ν κ σ Unit := do
  if isSuppress (← element other) then
    if !(← isAmong other (← element id).ignored) then
      let c ← copyElement other
      changeElement id fun e => { e with ignored := e.ignored ++ [c] }
  else
    let c ← copyElement other
    let s ← suppressOf c
    changeElement id fun e => { e with ignored := e.ignored ++ [s] }

/-- Adds something to ignore to an element and to its parts. A combination of
    adjacent tokens keeps it to itself. -/
def ignoreAt : Nat → Nat → Nat → GrammarM ν κ σ Unit
  | 0, _, _ => throw .tooDeep
  | depth + 1, id, other => do
    let e ← element id
    let parts := match e.kind with
      | .atom _ => none
      | .one (.combine _ true) _ => none
      | .many _ parts => some parts
      | .one _ part => some part.toList
    match parts with
    | none => ignoreHere id other
    | some parts =>
      if isSuppress (← element other) && (← isAmong other e.ignored) then return
      ignoreHere id other
      match (← element id).ignored.getLast? with
      | some last => for p in parts do ignoreAt depth p last
      | none => pure ()

def ignore (id other : Nat) : GrammarM ν κ σ Unit := ignoreAt elementDepth id other

/-! ## Recursion -/

def checkRecursionAt : Nat → List Nat → Nat → GrammarM ν κ σ Unit
  | 0, _, _ => throw .tooDeep
  | depth + 1, trace, id => do
    let e ← element id
    match e.kind with
    | .atom _ => pure ()
    | .many .plain _ => pure ()
    | .many .sequence parts =>
      for p in parts do
        checkRecursionAt depth (trace ++ [id]) p
        if !(← element p).mayBeEmpty then break
    | .many _ parts => for p in parts do checkRecursionAt depth (trace ++ [id]) p
    | .one _ part =>
      if ← isAmong id trace then
        let texts ← (trace ++ [id]).mapM elementText
        throw (.recursive ("RecursiveGrammarException: [" ++ ", ".intercalate texts ++ "]"))
      match part with
      | some p => checkRecursionAt depth (trace ++ [id]) p
      | none => pure ()

def validateAt : Nat → List Nat → Nat → GrammarM ν κ σ Unit
  | 0, _, _ => throw .tooDeep
  | depth + 1, trace, id => do
    let e ← element id
    match e.kind with
    | .atom _ => pure ()
    | .many _ parts => for p in parts do validateAt depth (trace ++ [id]) p
    | .one (.forward _) part =>
      if !(← isAmong id trace) then
        for p in part.toList do validateAt depth (trace ++ [id]) p
    | .one _ part => for p in part.toList do validateAt depth (trace ++ [id]) p
    checkRecursionAt elementDepth [] id

def validate (id : Nat) : GrammarM ν κ σ Unit := validateAt elementDepth [] id

end Plainsong.Grammar
