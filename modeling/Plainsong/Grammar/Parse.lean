import Plainsong.Grammar.Action
/- Parsing. An element is matched at a place of a text: first the blanks and
   ignored elements before it are skipped, then its own rule is applied, then
   its tokens are reshaped, and last its actions run. A rule that needs its
   parts is given the parser of the parts, so that each rule stands on its own;
   `parseAt` closes the circle with a bound on the nesting. -/
namespace Plainsong.Grammar

variable {ν κ σ : Type}

/-- A parser: the element, the place, whether actions run, whether blanks are
    skipped first. It returns the place behind the match and the tokens. -/
abbrev Parser (ν κ σ : Type) := Nat → Nat → Bool → Bool → GrammarM ν κ σ (Nat × Nat)

/-! ## Atoms -/

def charAt (text : Chars) (i : Nat) : GrammarM ν κ σ Char :=
  match text[i]? with
  | some c => pure c
  | none => throw .outOfRange

def charBefore (text : Chars) (i : Nat) : GrammarM ν κ σ Char :=
  if i = 0 then charAt text (text.size - 1) else charAt text (i - 1)

def standsAt (text chars : Chars) (i : Nat) : Bool := text.extract i (i + chars.size) == chars

def CharSet.containsUpper (k : CharSet) (c : Char) : Bool :=
  match (Text.upper (String.singleton c)).toList with
  | [u] => k.contains u
  | _ => false

def runEnd (p : Char → Bool) (text : Chars) : Nat → Nat → Nat
  | i, 0 => i
  | i, n + 1 => match text[i]? with
    | some c => if p c then runEnd p text (i + 1) n else i
    | none => i

def Extent.furtherFrom (x : Extent) (text : Chars) (start : Nat) : Nat :=
  let stop := match x.most with
    | some m => min (start + m) text.size
    | none => text.size
  stop - (start + 1)

def KeywordSpec.stands (k : KeywordSpec) (text : Chars) (loc : Nat) (lookBack : Bool) :
    GrammarM ν κ σ Bool := do
  let n := k.word.size
  let isIdent (c : Char) : Bool := if k.caseless then k.ident.containsUpper c else k.ident.contains c
  let here ← if k.caseless then
      pure (Text.upper (sliceText text loc (loc + n)) == k.upper)
    else do
      let c ← charAt text loc
      match k.word[0]? with
      | none => throw .noProperty
      | some d => pure (c == d && (n == 1 || standsAt text k.word loc))
  if !here then return false
  if loc + n < text.size then
    if isIdent (← charAt text (loc + n)) then return false
  if lookBack && loc != 0 then
    if isIdent (← charAt text (loc - 1)) then return false
  return true

/-- What an atom matches at a place: the place behind it and its tokens. The
    arguments `skip` and `fail` are the skipping of blanks before the element
    itself and its failure at a place. -/
def Atom.parse (text : Chars) (skip : Nat → GrammarM ν κ σ Nat) (fail : Nat → Fault) (loc : Nat) :
    Atom → GrammarM ν κ σ (Nat × Value ν)
  | .bare => pure (loc, .list [])
  | .token => pure (loc, .list [])
  | .empty => pure (loc, .list [])
  | .errorStop => pure (loc, .list [])
  | .emptyLiteral _ => pure (loc, .list [])
  | .noMatch => throw (fail loc)
  | .literal chars => do
    let c ← charAt text loc
    if some c = chars[0]? && (chars.size == 1 || standsAt text chars loc) then
      return (loc + chars.size, .text (String.ofList chars.toList))
    else throw (fail loc)
  | .caselessLiteral upper returned => do
    let n := upper.length
    if Text.upper (sliceText text loc (loc + n)) == upper then return (loc + n, .text returned)
    else throw (fail loc)
  | .keyword k => do
    if ← k.stands text loc true then return (loc + k.word.size, .text (String.ofList k.word.toList))
    else throw (fail loc)
  | .caselessKeyword k => do
    if ← k.stands text loc false then return (loc + k.word.size, .text (String.ofList k.word.toList))
    else throw (fail loc)
  | .word w => do
    match w.pattern with
    | some (_, m) =>
      match m.atPos text (min loc text.size) with
      | some found => return (found.stop, .text (found.whole text))
      | none => throw (fail loc)
    | none =>
      if !w.init.contains (← charAt text loc) then throw (fail loc)
      let stop := runEnd w.body.contains text (loc + 1) (w.extent.furtherFrom text loc)
      let inBody (i : Nat) : Bool := match text[i]? with
        | some c => w.body.contains c
        | none => false
      if stop - loc < w.extent.least || (w.bounded && inBody stop)
          || (w.whole && ((0 < loc && inBody (loc - 1)) || inBody stop)) then
        throw (fail stop)
      return (stop, .text (sliceText text loc stop))
  | .pattern _ _ m => do
    match m.atPos text (min loc text.size) with
    | none => throw (fail loc)
    | some found =>
      let id ← Results.ofItems #[.text (found.whole text)]
      for (key, n) in m.names do
        Results.setNamed id key (match found.group? text n with
          | some s => .text s
          | none => .none) 0
      return (found.stop, .results id)
  | .quotedText q => do
    let c ← charAt text loc
    let found ← match (if q.opening.toList.head? = some c then q.matcher.atPos text loc else none) with
      | some found => pure found
      | none => throw (fail loc)
    let whole := text.extract found.start found.stop
    if !q.unquote then return (found.stop, .text (String.ofList whole.toList))
    let inside := sliceText whole q.opening.length (whole.size - q.closing.length)
    let inside := match q.escaped with
      | some m => m.replace inside fun t f => (f.group? t 1).getD ""
      | none => inside
    let inside := match q.escapedQuote with
      | some s => if s.isEmpty then inside else inside.replace s q.closing
      | none => inside
    return (found.stop, .text inside)
  | .charsNotIn set extent => do
    if set.contains (← charAt text loc) then throw (fail loc)
    let stop := runEnd (fun c => !set.contains c) text (loc + 1) (extent.furtherFrom text loc)
    if stop - loc < extent.least then throw (fail stop)
    return (stop, .text (sliceText text loc stop))
  | .white set extent => do
    if !set.contains (← charAt text loc) then throw (fail loc)
    let stop := runEnd set.contains text (loc + 1) (extent.furtherFrom text loc)
    if stop - loc < extent.least then throw (fail stop)
    return (stop, .text (sliceText text loc stop))
  | .goToColumn n => do
    let here : Int := column text loc
    if n < here then
      throw (match fail loc with
        | .mismatch f => .mismatch { f with message := "Text not in expected column" }
        | f => f)
    let stop := loc + (n - here).toNat
    return (stop, .text (sliceText text loc stop))
  | .lineStart => do
    if loc = 0 then return (loc, .list [])
    if loc = (← skip 0) then return (loc, .list [])
    if (← charAt text (loc - 1)) = '\n' then return (loc, .list [])
    throw (fail loc)
  | .lineEnd =>
    if loc < text.size then
      if text[loc]? = some '\n' then pure (loc + 1, .text "\n") else throw (fail loc)
    else if loc = text.size then pure (loc + 1, .list [])
    else throw (fail loc)
  | .textStart => do
    if loc ≠ 0 then
      if loc ≠ (← skip 0) then throw (fail loc)
    return (loc, .list [])
  | .textEnd =>
    if loc < text.size then throw (fail loc)
    else if loc = text.size then pure (loc + 1, .list [])
    else pure (loc, .list [])
  | .wordStart set => do
    if loc ≠ 0 then
      if set.contains (← charAt text (loc - 1)) then throw (fail loc)
      if !set.contains (← charAt text loc) then throw (fail loc)
    return (loc, .list [])
  | .wordEnd set => do
    if loc < text.size then
      if set.contains (← charAt text loc) then throw (fail loc)
      if !set.contains (← charBefore text loc) then throw (fail loc)
    return (loc, .list [])

/-! ## What is skipped -/

def turnsFor (text : Chars) : Nat := text.size + 1024

def skipOne (rec : Parser ν κ σ) (e : Nat) : Nat → Nat → Bool → GrammarM ν κ σ (Nat × Bool)
  | 0, _, _ => throw .tooDeep
  | n + 1, loc, found => do
    match ← attempt (rec e loc true true) with
    | .ok (stop, _) => skipOne rec e n stop true
    | .error (.mismatch _) => return (loc, found)
    | .error f => throw f

def skipRound (rec : Parser ν κ σ) (turns : Nat) : List Nat → Nat → Bool → GrammarM ν κ σ (Nat × Bool)
  | [], loc, found => pure (loc, found)
  | e :: rest, loc, found => do
    let (loc, here) ← skipOne rec e turns loc false
    skipRound rec turns rest loc (found || here)

def skipIgnored (rec : Parser ν κ σ) (turns : Nat) (ignored : List Nat) : Nat → Nat → GrammarM ν κ σ Nat
  | 0, _ => throw .tooDeep
  | n + 1, loc => do
    let (loc, found) ← skipRound rec turns ignored loc false
    if found then skipIgnored rec turns ignored n loc else return loc

def Element.skipIgnored (rec : Parser ν κ σ) (text : Chars) (e : Element ν κ) (loc : Nat) :
    GrammarM ν κ σ Nat :=
  if e.ignored.isEmpty then pure loc
  else Grammar.skipIgnored rec (turnsFor text) e.ignored (turnsFor text) loc

def blanksToColumn (text : Chars) (n : Int) : Nat → Nat → Nat
  | loc, 0 => loc
  | loc, fuel + 1 => match text[loc]? with
    | some c =>
      if Text.isBlank c && (column text loc : Int) ≠ n then blanksToColumn text n (loc + 1) fuel else loc
    | none => loc

def Element.skip (rec : Parser ν κ σ) (text : Chars) (e : Element ν κ) (loc : Nat) :
    GrammarM ν κ σ Nat := do
  let usual : GrammarM ν κ σ Nat := do
    let loc ← e.skipIgnored rec text loc
    if e.skipBlanks then return runEnd (fun c => e.blanks.toList.contains c) text loc (text.size - loc)
    else return loc
  match e.kind with
  | .atom (.goToColumn n) =>
    if (column text loc : Int) = n then return loc
    let loc ← e.skipIgnored rec text loc
    return blanksToColumn text n loc (text.size - loc)
  | .atom .lineStart =>
    let after ← usual
    return if (← charAt text after) = '\n' then loc + 1 else loc
  | _ => usual

/-! ## Combinations -/

def tryParse (rec : Parser ν κ σ) (text : Chars) (id loc : Nat) : GrammarM ν κ σ Nat := do
  match ← attempt (rec id loc false true) with
  | .ok (stop, _) => return stop
  | .error (.fatal _) => throw (mismatch text loc (← element id).message (some id))
  | .error (.stopped _) => throw (mismatch text loc (← element id).message (some id))
  | .error f => throw f

def gather (acc more : Nat) : GrammarM ν κ σ Unit := do
  if ← Results.isPresent more then Results.append acc more

def isErrorStop (id : Nat) : GrammarM ν κ σ Bool := do
  match (← element id).kind with
  | .atom .errorStop => return true
  | _ => return false

def parseRest (rec : Parser ν κ σ) (text : Chars) (fail : Nat → Failure) (act : Bool) (acc : Nat) :
    List Nat → Bool → Nat → GrammarM ν κ σ Nat
  | [], _, loc => pure loc
  | p :: rest, final, loc => do
    if ← isErrorStop p then parseRest rec text fail act acc rest true loc
    else
      let (stop, more) ← match ← attempt (rec p loc act true) with
        | .ok r => pure r
        | .error f =>
          if final then
            match f with
            | .mismatch g => throw (.stopped g)
            | .fatal g => throw (.stopped g)
            | .outOfRange => throw (.stopped (fail text.size))
            | f => throw f
          else throw f
      gather acc more
      parseRest rec text fail act acc rest final stop

def furthest : Option Failure → Failure → Option Failure
  | none, f => some f
  | some g, f => if g.loc < f.loc then some f else some g

def passable (text : Chars) (whole part : Nat) (f : Fault) : GrammarM ν κ σ Failure := do
  match f with
  | .mismatch g => return g
  | .outOfRange => return { text, loc := text.size, message := (← element part).message, element := some whole }
  | f => throw f

def noAlternative {α : Type} (text : Chars) (whole loc : Nat) : Option Failure → GrammarM ν κ σ α
  | some f => throw (.mismatch f)
  | none => throw (mismatch text loc "no defined alternatives to match" (some whole))

def parseFirst (rec : Parser ν κ σ) (text : Chars) (whole : Nat) (act : Bool) (loc : Nat) :
    List Nat → Option Failure → GrammarM ν κ σ (Nat × Nat)
  | [], worst => noAlternative text whole loc worst
  | p :: rest, worst => do
    match ← attempt (rec p loc act true) with
    | .ok r => return r
    | .error f => parseFirst rec text whole act loc rest (furthest worst (← passable text whole p f))

def longestMatch (rec : Parser ν κ σ) (text : Chars) (whole : Nat) (loc : Nat) :
    List Nat → Option (Nat × Nat) → Option Failure → GrammarM ν κ σ (Option (Nat × Nat) × Option Failure)
  | [], best, worst => pure (best, worst)
  | p :: rest, best, worst => do
    match ← attempt (tryParse rec text p loc) with
    | .ok stop =>
      let better := match best with
        | some (n, _) => decide (n < stop)
        | none => true
      longestMatch rec text whole loc rest (if better then some (stop, p) else best) worst
    | .error f => longestMatch rec text whole loc rest best (furthest worst (← passable text whole p f))

/-- The elements equal to an optional's content, and so on: the parts of an
    unordered combination by how often they may occur. -/
def eachGroups (parts : List Nat) : GrammarM ν κ σ EachGroups := do
  let all ← parts.mapM fun p => return (p, ← element p)
  let inner (p : OneOp ν → Bool) : List Nat := all.filterMap fun (_, e) => match e.kind with
    | .one op (some q) => if p op then some q else none
    | _ => none
  let optionals := inner fun op => match op with | .optional _ => true | _ => false
  let multiOptionals := inner fun op => match op with | .zeroOrMore => true | _ => false
  let multiRequired := inner fun op => match op with | .oneOrMore => true | _ => false
  let empties ← all.filterM fun (p, e) => do
    if e.mayBeEmpty then return !(← isAmong p optionals) else return false
  let required := all.filterMap fun (p, e) => match e.kind with
    | .one (.optional _) _ => none
    | .one .zeroOrMore _ => none
    | .one .oneOrMore _ => none
    | _ => some p
  return { optionals := optionals ++ empties.map (·.1), multiOptionals, multiRequired
           required := required ++ multiRequired }

/-- How far an unordered match has come. -/
structure EachProgress where
  loc : Nat
  required : List Nat
  optionals : List Nat
  order : List Nat := []

def eachRound (rec : Parser ν κ σ) (text : Chars) :
    List Nat → EachProgress → Nat → GrammarM ν κ σ (EachProgress × Nat)
  | [], p, failed => pure (p, failed)
  | e :: rest, p, failed => do
    match ← attempt (tryParse rec text e p.loc) with
    | .ok stop =>
      let p := { p with loc := stop, order := p.order ++ [e] }
      if ← isAmong e p.required then
        eachRound rec text rest { p with required := ← removeFirst e p.required } failed
      else if ← isAmong e p.optionals then
        eachRound rec text rest { p with optionals := ← removeFirst e p.optionals } failed
      else eachRound rec text rest p failed
    | .error (.mismatch _) => eachRound rec text rest p (failed + 1)
    | .error f => throw f

def eachRounds (rec : Parser ν κ σ) (text : Chars) (g : EachGroups) :
    Nat → EachProgress → GrammarM ν κ σ EachProgress
  | 0, _ => throw .tooDeep
  | n + 1, p => do
    let candidates := p.required ++ p.optionals ++ g.multiOptionals ++ g.multiRequired
    let (p, failed) ← eachRound rec text candidates p 0
    if failed = candidates.length then return p else eachRounds rec text g n p

def joinEach (final r : Nat) : GrammarM ν κ σ Unit := do
  let mut twice : Array (String × Nat) := #[]
  for (key, _) in (← Results.record r).names do
    if (← Results.record final).names.any (·.1 == key) then
      let sum ← Results.ofValue (← Results.named final key)
      Results.append sum (← Results.ofValue (← Results.named r key))
      twice := twice.push (key, sum)
  Results.append final r
  for (key, sum) in twice do
    Results.setNamed final key (.results sum) 0

def parseEach (rec : Parser ν κ σ) (text : Chars) (id : Nat) (parts : List Nat)
    (groups : Option EachGroups) (act : Bool) (loc : Nat) : GrammarM ν κ σ (Nat × Value ν) := do
  let g ← match groups with
    | some g => pure g
    | none => do
      let g ← eachGroups parts
      changeElement id fun e => { e with kind := .many (.each (some g)) parts }
      pure g
  let p ← eachRounds rec text g (turnsFor text) { loc, required := g.required, optionals := g.optionals }
  if !p.required.isEmpty then
    let names ← p.required.mapM fun q => elementText q
    throw (mismatch text loc
      ("Missing one or more required elements (" ++ ", ".intercalate names ++ ")") none)
  let unmatched ← parts.filterM fun q => do
    match (← element q).kind with
    | .one (.optional _) (some inner) => isAmong inner p.optionals
    | _ => return false
  let mut here := loc
  let mut results : Array Nat := #[]
  for q in p.order ++ unmatched do
    let (stop, r) ← rec q here act true
    here := stop
    results := results.push r
  let final ← Results.ofItems #[]
  for r in results do
    joinEach final r
  return (here, .results final)

/-! ## Changes of one element -/

def parseMore (rec : Parser ν κ σ) (skip : Nat → GrammarM ν κ σ Nat) (part : Nat) (act : Bool) (acc : Nat) :
    Nat → Nat → GrammarM ν κ σ Nat
  | 0, _ => throw .tooDeep
  | n + 1, loc => do
    match ← attempt (do rec part (← skip loc) act true) with
    | .ok (stop, more) =>
      gather acc more
      parseMore rec skip part act acc n stop
    | .error (.mismatch _) => return loc
    | .error .outOfRange => return loc
    | .error f => throw f

/-- Skips what may hold false matches of the element looked for: the place
    reached, and the fault that stopped there if it is more than a mismatch. -/
def skipHidden (rec : Parser ν κ σ) (text : Chars) (hidden : Value ν) :
    Nat → Nat → GrammarM ν κ σ (Nat × Option Fault)
  | 0, loc => return (loc, some .tooDeep)
  | n + 1, loc => do
    match hidden with
    | .element e =>
      match ← attempt (tryParse rec text e loc) with
      | .ok stop => skipHidden rec text hidden n stop
      | .error f => return (loc, if f.failure?.isSome then none else some f)
    | _ => return (loc, some .noProperty)

def skipToHere (rec : Parser ν κ σ) (text : Chars) (part : Nat) (hidden : Option (Value ν))
    (loc : Nat) : GrammarM ν κ σ (Nat × Option Fault) := do
  let (here, stopped) ← match hidden with
    | some h => skipHidden rec text h (turnsFor text) loc
    | none => pure (loc, none)
  match stopped with
  | some f => return (here, some f)
  | none =>
    match ← attempt (rec part here false false) with
    | .ok _ => return (here, none)
    | .error f => return (here, some f)

/-- Whether the element that ends the search stands at a place; `none` if it
    runs past the end of the text. -/
def isBarred (rec : Parser ν κ σ) (text : Chars) (failOn : Option Nat) (loc : Nat) :
    GrammarM ν κ σ (Option Bool) := do
  match failOn with
  | none => return some false
  | some e =>
    match ← attempt (tryParse rec text e loc) with
    | .ok _ => return some true
    | .error .outOfRange => return none
    | .error f => if f.failure?.isSome then return some false else throw f

def skipToFrom (rec : Parser ν κ σ) (text : Chars) (id part : Nat) (take : Bool) (hidden : Option (Value ν))
    (failOn : Option Nat) (act : Bool) (start : Nat) : Nat → Nat → GrammarM ν κ σ (Nat × Value ν)
  | 0, loc => do throw (mismatch text loc (← element id).message (some id))
  | n + 1, loc => do
    if text.size < loc then throw (mismatch text loc (← element id).message (some id))
    match ← isBarred rec text failOn loc with
    | none => skipToFrom rec text id part take hidden failOn act start n (loc + 1)
    | some true =>
      throw (mismatch text loc ("Found expression " ++ (← elementText (failOn.getD 0))) none)
    | some false =>
      let (here, fault) ← skipToHere rec text part hidden loc
      match fault with
      | some (.mismatch _) => skipToFrom rec text id part take hidden failOn act start n (here + 1)
      | some .outOfRange => skipToFrom rec text id part take hidden failOn act start n (here + 1)
      | some f => throw f
      | none =>
        let skipped := Value.text (sliceText text start here)
        if !take then return (here, .list [skipped])
        match ← attempt (rec part here act false) with
        | .ok (stop, found) =>
          if (← Results.record found).items.isEmpty then return (stop, .list [skipped])
          let both ← Results.ofItems #[skipped]
          Results.append both found
          return (stop, .list [.results both])
        | .error (.mismatch _) => skipToFrom rec text id part take hidden failOn act start n (here + 1)
        | .error .outOfRange => skipToFrom rec text id part take hidden failOn act start n (here + 1)
        | .error f => throw f

def OneOp.parse (rec : Parser ν κ σ) (text : Chars) (id : Nat) (e : Element ν κ) (part : Option Nat)
    (act : Bool) (loc : Nat) (op : OneOp ν) : GrammarM ν κ σ (Nat × Value ν) := do
  let need : GrammarM ν κ σ Nat := match part with
    | some p => pure p
    | none => throw .noProperty
  let whole (r : Nat × Nat) : Nat × Value ν := (r.1, .results r.2)
  match op with
  | .followedBy =>
    let _ ← tryParse rec text (← need) loc
    return (loc, .list [])
  | .notAny =>
    match ← attempt (tryParse rec text (← need) loc) with
    | .ok _ => throw (mismatch text loc e.message (some id))
    | .error (.mismatch _) => return (loc, .list [])
    | .error .outOfRange => return (loc, .list [])
    | .error f => throw f
  | .zeroOrMore =>
    let p ← need
    match ← attempt (rec p loc act false) with
    | .ok (stop, acc) =>
      let stop ← parseMore rec (e.skipIgnored rec text) p act acc (turnsFor text) stop
      return (stop, .results acc)
    | .error (.mismatch _) => return (loc, .list [])
    | .error .outOfRange => return (loc, .list [])
    | .error f => throw f
  | .oneOrMore =>
    let p ← need
    let (stop, acc) ← rec p loc act false
    let stop ← parseMore rec (e.skipIgnored rec text) p act acc (turnsFor text) stop
    return (stop, .results acc)
  | .optional default =>
    let p ← need
    let missing : GrammarM ν κ σ (Nat × Value ν) := do
      match default with
      | none => return (loc, .list [])
      | some v =>
        match (← element p).resultsName with
        | none => return (loc, .list [v])
        | some "" => return (loc, .list [v])
        | some key =>
          let r ← Results.ofItems #[v]
          Results.setNamed r key v 0
          return (loc, .results r)
    match ← attempt (rec p loc act false) with
    | .ok r => return whole r
    | .error (.mismatch _) => missing
    | .error .outOfRange => missing
    | .error f => throw f
  | .skipTo take hidden failOn =>
    skipToFrom rec text id (← need) take hidden failOn act loc (text.size + 2 - loc) loc
  | _ =>
    match part with
    | some p => return whole (← rec p loc act false)
    | none => throw (mismatch #[] loc e.message (some id))

def Element.rule (rec : Parser ν κ σ) (text : Chars) (id : Nat) (e : Element ν κ)
    (act : Bool) (loc : Nat) : GrammarM ν κ σ (Nat × Value ν) := do
  let fail (loc : Nat) : Failure := { text, loc, message := e.message, element := some id }
  match e.kind with
  | .atom a => a.parse text (e.skip rec text) (fun i => .mismatch (fail i)) loc
  | .many op parts =>
    match op with
    | .plain => return (loc, .list [])
    | .sequence =>
      match parts with
      | [] => throw .outOfRange
      | p :: rest =>
        let (stop, acc) ← rec p loc act false
        let stop ← parseRest rec text fail act acc rest false stop
        return (stop, .results acc)
    | .first =>
      let (stop, r) ← parseFirst rec text id act loc parts none
      return (stop, .results r)
    | .longest =>
      match ← longestMatch rec text id loc parts none none with
      | (some (_, p), _) =>
        let (stop, r) ← rec p loc act true
        return (stop, .results r)
      | (none, worst) => noAlternative text id loc worst
    | .each groups => parseEach rec text id parts groups act loc
  | .one op part => op.parse rec text id e part act loc

/-! ## Reshaping tokens -/

def nameByFirst (H : Host ν κ σ) (tokens : Nat) : GrammarM ν κ σ Unit := do
  let items := (← Results.record tokens).items
  for h : i in [0:items.size] do
    let tok := items[i]
    let parts ← match tok with
      | .results id => pure (← Results.record id).items.toList
      | .text s => pure (s.toList.map fun c => .text (String.singleton c))
      | .list xs => pure xs
      | .tuple xs => pure xs
      | _ => throw .wrongKind
    match parts with
    | [] => pure ()
    | first :: more =>
      let key ← match first with
        | .text s => pure s
        | v => pure (Text.trim (← showValue H v))
      match more with
      | [] => Results.setNamed tokens key (.text "") i
      | _ =>
        let plain := match more with
          | [.results _] => none
          | [v] => some v
          | _ => none
        match plain with
        | some v => Results.setNamed tokens key v i
        | none =>
          match tok with
          | .results id =>
            let rest ← Results.copy id
            Results.removeIndex rest 0
            let r ← Results.record rest
            if r.items.size ≠ 1 || !r.names.isEmpty then Results.setNamed tokens key (.results rest) i
            else Results.setNamed tokens key (r.items.getD 0 .none) i
          | .list _ =>
            match more with
            | [v] => Results.setNamed tokens key v i
            | vs => Results.setNamed tokens key (.list vs) i
          | _ => throw .noProperty

def tokenItems : Value ν → GrammarM ν κ σ (List (Value ν))
  | .results id => do return (← Results.record id).items.toList
  | .list xs => pure xs
  | v => pure [v]

def Element.reshape (H : Host ν κ σ) (e : Element ν κ) (tokens : Value ν) : GrammarM ν κ σ (Value ν) := do
  let isNamed := match e.resultsName with
    | some s => !s.isEmpty
    | none => false
  match e.kind with
  | .one .upcase _ => do
    let out ← (← tokenItems tokens).mapM fun v =>
      match v with
      | .text s => pure (Value.text (Text.upper s))
      | _ => throw .wrongKind
    return .list out
  | .one (.combine joint _) _ =>
    let id ← Results.ofValue tokens
    let joined := String.join (← stringList H joint id)
    let r ← Results.copy id
    Results.clear r
    Results.append r (← Results.ofItems #[.text joined])
    if isNamed && !(← Results.record r).names.isEmpty then return .list [.results r]
    else return .results r
  | .one .group _ => return .list [tokens]
  | .one .dict _ =>
    let id ← Results.ofValue tokens
    nameByFirst H id
    return if isNamed then .list [.results id] else .results id
  | .one .suppress _ => return .list []
  | _ => return tokens

/-! ## Notices and actions -/

def Notice.send (H : Host ν κ σ) (n : Notice κ) (event : Event) : GrammarM ν κ σ Unit :=
  match n with
  | .silent => pure ()
  | .host k => H.notify k event
  | .standard => do
    match event with
    | .start text loc e =>
      emit ("Match " ++ (← elementText e) ++ " at loc " ++ toString loc ++ "("
        ++ toString (lineNumber text loc) ++ "," ++ toString (column text loc) ++ ")\n")
    | .success _ _ _ e r =>
      emit ("Matched " ++ (← elementText e) ++ " -> " ++ (← reprValue H (.list (← Results.asList r))) ++ "\n")
    | .failure _ _ _ f =>
      emit ("Exception raised:" ++ (f.failure?.elim "" (·.describe)) ++ "\n")

def runActions (H : Host ν κ σ) (e : Element ν κ) (text : Chars) (start stop : Nat) :
    List Nat → Nat → GrammarM ν κ σ Nat
  | [], tokens => pure tokens
  | h :: rest, tokens => do
    match ← runHandler H h { text, loc := start, stop, tokens } with
    | .none => runActions H e text start stop rest tokens
    | v =>
      let isList := match v with
        | .results _ => true
        | .list _ => true
        | _ => false
      runActions H e text start stop rest
        (← Results.make v e.resultsName (e.saveAsList && isList) e.modal)

def catchOverrun {α : Type} (text : Chars) (e : Element ν κ) (id : Nat) (x : GrammarM ν κ σ α) :
    GrammarM ν κ σ α := do
  match ← attempt x with
  | .ok a => return a
  | .error .outOfRange => throw (mismatch text text.size e.message (some id))
  | .error f => throw f

def parseElement (H : Host ν κ σ) (text : Chars) (rec : Parser ν κ σ) : Parser ν κ σ :=
  fun id loc act pre => do
    let e ← element id
    let watched := e.debug || e.failAction.isSome
    if watched then e.onStart.send H (.start text loc id)
    let start ← if pre && e.callPreparse then e.skip rec text loc else pure loc
    let rule := e.rule rec text id act start
    let (stop, tokens) ←
      if watched then do
        match ← attempt (catchOverrun text e id rule) with
        | .ok r => pure r
        | .error f => do
          if f.failure?.isSome then
            e.onFailure.send H (.failure text start id f)
            match e.failAction with
            | some k => H.notify k (.failure text start id f)
            | none => pure ()
          throw f
      else if e.mayOverrun || text.size ≤ loc then catchOverrun text e id rule
      else rule
    let e ← element id
    let tokens ← e.reshape H tokens
    let mut result ← Results.make tokens e.resultsName e.saveAsList e.modal
    if !e.actions.isEmpty && (act || e.callDuringTry) then
      match ← attempt (runActions H e text start stop e.actions result) with
      | .ok r => result := r
      | .error f =>
        if e.debug && f.failure?.isSome then e.onFailure.send H (.failure text start id f)
        throw f
    if e.debug then e.onSuccess.send H (.success text start stop id result)
    return (stop, result)

def parseRemembering (H : Host ν κ σ) (text : Chars) (rec : Parser ν κ σ) : Parser ν κ σ :=
  fun id loc act pre => do
    match (← get).memory[(id, loc, pre, act)]? with
    | some (.ok (stop, r)) => return (stop, ← Results.copy r)
    | some (.error f) => throw f
    | none =>
      match ← attempt (parseElement H text rec id loc act pre) with
      | .ok (stop, r) =>
        let kept ← Results.copy r
        modify fun s => { s with memory := s.memory.insert (id, loc, pre, act) (.ok (stop, kept)) }
        return (stop, r)
      | .error f =>
        if f.failure?.isSome then
          modify fun s => { s with memory := s.memory.insert (id, loc, pre, act) (.error f) }
        throw f

def parseAt (H : Host ν κ σ) (text : Chars) : Nat → Parser ν κ σ
  | 0, _, _, _, _ => throw .tooDeep
  | depth + 1, id, loc, act, pre => do
    let (id, remember) := ((← element id).pinned).getD (id, (← get).remember)
    if remember then parseRemembering H text (parseAt H text depth) id loc act pre
    else parseElement H text (parseAt H text depth) id loc act pre

def nestingLimit : Nat := 490

def parse (H : Host ν κ σ) (text : Chars) : Parser ν κ σ := parseAt H text nestingLimit

end Plainsong.Grammar
