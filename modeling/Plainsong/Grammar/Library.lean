import Plainsong.Grammar.Scan
/- Ready-made elements and ways to make common grammars: lists, counted
   arrays, alternatives of texts, tags, operators with precedence, nested
   brackets, indented blocks. -/
namespace Plainsong.Grammar

variable {ν κ σ : Type}

/-! ## Operands -/

def literalOperand : Value ν → GrammarM ν κ σ Nat
  | .element e => pure e
  | .text s => literal s
  | _ => throw .noProperty

def operand : Value ν → GrammarM ν κ σ (Option Nat)
  | .element e => pure (some e)
  | .text s => do return some (← inlineText s)
  | _ => pure none

def operandElement (v : Value ν) : GrammarM ν κ σ Nat := do
  match ← operand v with
  | some e => return e
  | none => throw .noProperty

/-! ## Lists -/

def delimitedList (H : Host ν κ σ) (item delimiter : Value ν) (combined : Bool) :
    GrammarM ν κ σ Nat := do
  let itemText ← showValue H item
  let name := itemText ++ " [" ++ (← showValue H delimiter) ++ " " ++ itemText ++ "]..."
  let id ← if combined then do
      let next ← match delimiter, item with
        | .text d, .text i => literal (d ++ i)
        | _, _ => do plus (← operandElement delimiter) (← operandElement item)
      let tail ← zeroOrMore next
      combine (← plus (← operandElement item) tail) "" true
    else do
      let tail ← zeroOrMore (← plus (← suppress (← literalOperand delimiter)) (← operandElement item))
      plus (← operandElement item) tail
  setName id name
  return id

def countedArray (void item : Nat) (count : Option Nat) : GrammarM ν κ σ Nat := do
  let array ← forwardOf none
  let count ← match count with
    | some c => copyElement c
    | none => do
      let c ← simpleWord nums
      setActions c [.toInt] false
      pure c
  setName count "arrayLen"
  addActions count [.countField array item void] true
  plus count array

def dictOf (key value : Nat) : GrammarM ν κ σ Nat := do
  dict (← zeroOrMore (← group (← plus key value)))

/-! ## Repeated matches -/

def repeatedLiteral (e : Nat) : GrammarM ν κ σ Nat := do
  let again ← forwardOf none
  addActions e [.copyLiteral again] true
  return again

def repeatedTokens (e : Nat) : GrammarM ν κ σ Nat := do
  let again ← forwardOf none
  define again (← copyElement e)
  addActions e [.copyTokens again] true
  return again

/-! ## Alternatives of texts -/

/-- What stands in the way of a text among those behind it. -/
inductive Clash where
  /-- One behind it is equal: the others without that one. -/
  | repeated (others : List String)
  /-- One behind it starts with it: that one, and the others. -/
  | longer (text : String) (others : List String)

/-- The first of `others` that is equal to `s` or starts with it; `fold` says
    what does not count in comparing. -/
def clash? (fold : String → String) (s : String) : List String → Option Clash
  | [] => none
  | t :: rest =>
    if fold t == fold s then some (.repeated rest)
    else if (fold t).startsWith (fold s) then some (.longer t rest)
    else match clash? fold s rest with
      | none => none
      | some (.repeated others) => some (.repeated (t :: others))
      | some (.longer u others) => some (.longer u (t :: others))

/-- Orders texts so that none stands before a longer one that starts with it,
    and drops repetitions; at most `n` steps. -/
def longestFirstAt (fold : String → String) : Nat → List String → List String
  | 0, texts => texts
  | _, [] => []
  | n + 1, s :: rest =>
    match clash? fold s rest with
    | none => s :: longestFirstAt fold n rest
    | some (.repeated others) => longestFirstAt fold n (s :: others)
    | some (.longer t others) => longestFirstAt fold n (t :: s :: others)

def longestFirst (fold : String → String) (texts : List String) : List String :=
  longestFirstAt fold (2 * texts.length * texts.length + texts.length + 1) texts

def alternativesPattern (texts : List String) : String :=
  if texts.length = (String.join texts).length then
    "[" ++ String.join (texts.map Pattern.escapeClass) ++ "]"
  else "|".intercalate (texts.map Pattern.escape)

def oneOf (texts : List String) (caseless asPattern : Bool) : GrammarM ν κ σ Nat := do
  let texts := longestFirst (if caseless then Text.upper else id) texts
  let each : GrammarM ν κ σ Nat := do
    firstOf (← texts.mapM (if caseless then caselessLiteral else literal)) false
  if !caseless && asPattern then
    match ← attempt (regex (alternativesPattern texts) 0) with
    | .ok e => return e
    | .error _ => each
  else each

/-! ## Matched text -/

def matchedText (e : Nat) (asText : Bool) : GrammarM ν κ σ Nat := do
  let mark ← empty
  setActions mark [.location] false
  let endMark ← copyElement mark
  changeElement endMark fun m => { m with callPreparse := false }
  let start ← named mark startName false
  let stop ← named endMark endName false
  let whole ← plus (← plus start e) stop
  setActions whole [.textBetween (!asText)] false
  return whole

def ungroup (e : Option Nat) : GrammarM ν κ σ Nat := do
  let id ← converter e
  setActions id [.firstToken] false
  return id

/-! ## Quoted texts and comments -/

def doubleQuotedPattern : String := "\"(?:[^\"\\n\\r\\\\]|(?:\"\")|(?:\\\\x[0-9a-fA-F]+)|(?:\\\\.))*\""
def singleQuotedPattern : String := "'(?:[^'\\n\\r\\\\]|(?:'')|(?:\\\\x[0-9a-fA-F]+)|(?:\\\\.))*'"

def namedPattern (source name : String) : GrammarM ν κ σ Nat := do
  let e ← regex source 0
  setName e name
  return e

/-! ## Sets of characters in brackets -/

def bracketSet : GrammarM ν κ σ Nat := do
  let sign ← word "\\" (some "\\[]-*.$+^?()~ ") 1 0 2 false none
  setActions sign [.escapedSign] false
  let hex ← regex "\\\\0?[xX][0-9a-fA-F]+" 0
  setActions hex [.escapedHex] false
  let octal ← regex "\\\\0[0-7]+" 0
  setActions octal [.escapedOctal] false
  let plain ← word printables none 1 0 1 false (some "\\]")
  let single ← either (← either (← either sign hex) octal) plain
  let range ← group (← plus (← plus single (← suppress (← literal "-"))) single)
  let negate ← named (← optional (← literal "^") none) "negate" false
  let body ← named (← group (← oneOrMore (← either range single))) "body" false
  plus (← plus (← plus (← literal "[") negate) body) (← inlineText "]")

def charsBetween (a b : Char) : String :=
  String.ofList ((List.range (b.toNat + 1 - a.toNat)).filterMap fun i =>
    let n := a.toNat + i
    if h : n.isValidChar then some (Char.ofNatAux n h) else none)

def expandPart : Value ν → GrammarM ν κ σ String
  | .text s => pure s
  | .results id => do
    match (← Results.record id).items.toList with
    | .text a :: .text b :: _ =>
      match a.toList, b.toList with
      | [x], [y] =>
        let s := charsBetween x y
        if s.isEmpty then throw .wrongKind else pure s
      | _, _ => throw .wrongKind
    | _ => throw .outOfRange
  | _ => throw .wrongKind

def charRange (H : Host ν κ σ) (sets : Nat) (s : String) : GrammarM ν κ σ String := do
  let expand : GrammarM ν κ σ String := do
    let tokens ← parseText H sets s false
    match ← Results.lastNamed? tokens "body" with
    | some (.results body) =>
      return String.join (← (← Results.record body).items.toList.mapM expandPart)
    | _ => throw .wrongKind
  match ← attempt expand with
  | .ok chars => return chars
  | .error _ => return ""

/-! ## Tags -/

def tagName (s : String) : String := String.join (Text.words (Text.title (s.replace ":" " ")))

def tags (H : Host ν κ σ) (doubleQuoted quoted : Nat) (tag : Value ν) (strict : Bool) :
    GrammarM ν κ σ (Nat × Nat) := do
  let (name, tag) ← match tag with
    | .text s => do pure (s, ← keyword s defaultKeywordChars (!strict))
    | .element e => do
      match (← element e).name with
      | some n => pure (n, e)
      | none => throw .noProperty
    | _ => throw .noProperty
  let attrName ← word alphas (some (alphanums ++ "_-:")) 1 0 0 false none
  let sign (s : String) : GrammarM ν κ σ Nat := do suppress (← literal s)
  let slash : GrammarM ν κ σ Nat := do
    let e ← named (← optional (← literal "/") (some (.list [.bool false]))) "empty" false
    setActions e [.isSlash] false
    return e
  let attrs ← if strict then do
      let value ← copyElement doubleQuoted
      setActions value [.removeQuotes] false
      pure (value, none)
    else do
      let value ← copyElement quoted
      setActions value [.removeQuotes] false
      let bare ← simpleWord (String.ofList (printables.toList.filter (· ≠ '>')))
      pure (← either value bare, some ())
  let head ← plus (← sign "<") (← named tag "tag" false)
  let attr ← match attrs with
    | (value, none) => plus (← plus attrName (← sign "=")) value
    | (value, some ()) => do
      setActions attrName [.downcaseTokens] false
      plus attrName (← optional (← plus (← sign "=") value) none)
  let openTag ← plus (← plus (← plus head (← dict (← zeroOrMore (← group attr)))) (← slash)) (← sign ">")
  let closeTag ← combine (← plus (← plus (← literal "</") tag) (← inlineText ">")) "" true
  let tagText ← showValue H (.element tag)
  let openTag ← named openTag ("start" ++ tagName name) false
  setName openTag ("<" ++ tagText ++ ">")
  let closeTag ← named closeTag ("end" ++ tagName name) false
  setName closeTag ("</" ++ tagText ++ ">")
  changeElement openTag fun e => { e with tag := some name }
  changeElement closeTag fun e => { e with tag := some name }
  return (openTag, closeTag)

/-! ## Operators with precedence -/

/-- An operator of an expression grammar: its sign or signs, on which side it
    groups, and the action on what it makes. -/
structure Operator (ν κ : Type) where
  arity : Int
  signs : List (Value ν)
  left : Bool
  action : Option (Action ν κ)

/-- What an operator matches, where operands of it are `last` and expressions
    with the operator itself are `this`. -/
def operatorMatch (o : Operator ν κ) (last this : Nat) : GrammarM ν κ σ Nat := do
  let chain (xs : List Nat) : GrammarM ν κ σ Nat :=
    match xs with
    | [] => throw .outOfRange
    | x :: rest => rest.foldlM plus x
  let ahead (test body : Nat) : GrammarM ν κ σ Nat := do plus (← followedBy test) (← group body)
  let other := if o.left then last else this
  match o.arity, o.signs with
  | 1, [sign] =>
    if o.left then
      let sign' ← operandElement sign
      let test ← plus last sign'
      ahead test (← plus last (← oneOrMore (← literalOperand sign)))
    else
      let sign ← literalOperand sign
      let isOptional := match (← element sign).kind with
        | .one (.optional _) (some p) => some p
        | _ => none
      let (part, sign) ← match isOptional with
        | some p => pure (p, sign)
        | none => do pure (sign, ← optional sign none)
      ahead (← plus part this) (← plus sign this)
  | 2, [.none] =>
    ahead (← plus last other) (← plus last (← oneOrMore other))
  | 2, [sign] =>
    let test ← chain [last, ← operandElement sign, other]
    ahead test (← plus last (← oneOrMore (← plus (← operandElement sign) other)))
  | 3, [a, b] =>
    let once : GrammarM ν κ σ Nat := do
      chain [last, ← operandElement a, other, ← operandElement b, other]
    let test ← once
    ahead test (← once)
  | _, _ => throw .refusedValue

def expressions (base : Value ν) (operators : List (Operator ν κ)) (opening closing : Value ν) :
    GrammarM ν κ σ Nat := do
  let whole ← forwardOf none
  let inner ← plus (← plus (← operandElement opening) whole) (← operandElement closing)
  let mut last ← either (← operandElement base) inner
  for o in operators do
    let this ← forwardOf none
    let found ← operatorMatch o last this
    match o.action with
    | some a => setActions found [a] false
    | none => pure ()
    define this (← either found last)
    last := this
  define whole last
  return whole

/-! ## Nesting -/

def nestedContent (opening closing : String) (ignored : Option Nat) : GrammarM ν κ σ Nat := do
  let blanks := (← get).blanks
  let trimmed (e : Nat) : GrammarM ν κ σ Nat := do
    setActions e [.trimFirst] false
    return e
  let isShort := opening.length = 1 ∧ closing.length = 1
  match ignored with
  | some g =>
    let head ← notAny g
    let run ← if isShort then do
        plus head (← charsNotIn (opening ++ closing ++ blanks) 1 0 1)
      else do
        let head ← plus head (← notAny (← literal opening))
        let head ← plus head (← notAny (← literal closing))
        plus head (← charsNotIn blanks 1 0 1)
    trimmed (← combine (← oneOrMore run) "" true)
  | none =>
    if isShort then
      let e ← empty
      setName e "empty"
      let run ← charsNotIn (opening ++ closing ++ blanks) 1 0 0
      plus e (← trimmed run)
    else
      let head ← plus (← notAny (← literal opening)) (← notAny (← literal closing))
      let run ← plus head (← charsNotIn blanks 1 0 1)
      trimmed (← combine (← oneOrMore run) "" true)

def nested (opening closing : Value ν) (content : Option Nat) (ignored : Option Nat) :
    GrammarM ν κ σ Nat := do
  let content ← match content with
    | some c => pure c
    | none => match opening, closing with
      | .text a, .text b => nestedContent a b ignored
      | _, _ => throw .refusedValue
  let whole ← forwardOf none
  let start ← suppress (← literalOperand opening)
  let item ← match ignored with
    | some g => either (← either g whole) content
    | none => either whole content
  let items ← plus start (← zeroOrMore item)
  let stop ← suppress (← literalOperand closing)
  define whole (← group (← plus items stop))
  return whole

def indentedBlock (statement : Nat) (levels : List Int) (deeper : Bool) : GrammarM ν κ σ Nat := do
  let stack := (← get).indents.size
  modify fun s => { s with indents := s.indents.push levels.reverse }
  let mark (a : Action ν κ) : GrammarM ν κ σ Nat := do
    let e ← empty
    setActions e [a] false
    return e
  let ending ← lineEnd
  changeElement ending fun e => e.withBlanks "\t "
  let newLines ← oneOrMore (← suppress ending)
  let indent ← plus (← empty) (← mark (.deeperIndent stack))
  let peer ← mark (.peerIndent stack)
  let unindent ← mark (.endIndent stack)
  let entry ← plus (← plus peer (← group statement)) (← optional newLines none)
  let block ← if deeper then do
      let head ← plus (← optional newLines none) indent
      plus (← plus head (← oneOrMore entry)) unindent
    else do
      let head ← optional newLines none
      plus head (← oneOrMore entry)
  let whole ← group block
  ignore statement (← plus (← inlineText "\\") (← lineEnd))
  return whole

/-! ## Ready-made elements -/

/-- The ready-made elements. -/
structure Library where
  empty : Nat
  lineStart : Nat
  lineEnd : Nat
  textStart : Nat
  textEnd : Nat
  bracketSet : Nat
  doubleQuoted : Nat
  singleQuoted : Nat
  quoted : Nat
  unicodeText : Nat
  /-- What nested brackets leave alone, unless told otherwise. -/
  nestedIgnored : Nat
  /-- The parentheses of expressions, unless told otherwise. -/
  openParen : Nat
  closeParen : Nat
  anyOpenTag : Nat
  anyCloseTag : Nat
  entity : Nat
  blockComment : Nat
  markupComment : Nat
  restOfLine : Nat
  slashComment : Nat
  mixedComment : Nat
  hashComment : Nat
  commaItem : Nat
  commaList : Nat

def Library.make (H : Host ν κ σ) : GrammarM ν κ σ Library := do
  let under (x : GrammarM ν κ σ Nat) (name : String) : GrammarM ν κ σ Nat := do
    let e ← x
    setName e name
    return e
  let empty ← under Grammar.empty "empty"
  let lineStart ← under Grammar.lineStart "lineStart"
  let lineEnd ← under Grammar.lineEnd "lineEnd"
  let textStart ← under Grammar.textStart "stringStart"
  let textEnd ← under Grammar.textEnd "stringEnd"
  let bracketSet ← Grammar.bracketSet
  let doubleQuoted ← namedPattern doubleQuotedPattern "string enclosed in double quotes"
  let singleQuoted ← namedPattern singleQuotedPattern "string enclosed in single quotes"
  let quoted ← namedPattern ("(?:" ++ doubleQuotedPattern ++ ")|(?:" ++ singleQuotedPattern ++ ")")
    "quotedString using single or double quotes"
  let unicodeText ← combine (← plus (← literal "u") (← copyElement quoted)) "" true
  let nestedIgnored ← copyElement quoted
  let openParen ← suppress (← literal "(")
  let closeParen ← suppress (← literal ")")
  let anyTag ← word alphas (some (alphanums ++ "_:")) 1 0 0 false none
  let (anyOpenTag, anyCloseTag) ← tags H doubleQuoted quoted (.element anyTag) false
  let entityName ← named (← oneOf ["gt", "lt", "amp", "nbsp", "quot"] false true) "entity" false
  let entity ← combine (← plus (← plus (← literal "&") entityName) (← inlineText ";")) "" true
  streamline entity
  let blockComment ← namedPattern "/\\*(?:[^*]*\\*+)+?/" "C style comment"
  let markupComment ← regex "<!--[\\s\\S]*?-->" 0
  let restOfLine ← regex ".*" 0
  leaveBlanks restOfLine
  let slashComment ← namedPattern "\\/\\/(\\\\\\n|.)*" "// comment"
  let mixedComment ← namedPattern
    "/(?:\\*(?:[^*]*\\*+)+?/|/[^\\n]*(?:\\n[^\\n]*)*?(?:(?<!\\\\)|\\Z))" "C++ style comment"
  let hashComment ← namedPattern "#.*" "Python style comment"
  let piece ← word printables none 1 0 0 false (some ",")
  let gap ← plus (← plus (← simpleWord " \t") (← notAny (← literal ","))) (← notAny (← Grammar.lineEnd))
  let commaItem ← combine (← oneOrMore (← plus piece (← optional gap none))) "" true
  streamline commaItem
  setName commaItem "commaItem"
  let item ← optional (← either (← copyElement quoted) commaItem) (some (.text ""))
  let commaList ← delimitedList H (.element item) (.text ",") false
  setName commaList "commaSeparatedList"
  return { empty, lineStart, lineEnd, textStart, textEnd, bracketSet, doubleQuoted, singleQuoted, quoted
           unicodeText, nestedIgnored, openParen, closeParen, anyOpenTag, anyCloseTag, entity, blockComment
           markupComment, restOfLine, slashComment, mixedComment, hashComment, commaItem, commaList }

end Plainsong.Grammar
