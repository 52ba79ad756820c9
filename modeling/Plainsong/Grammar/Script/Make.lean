import Plainsong.Grammar.Script.Deed
/- The vocabulary of scripts: what the names of makers, ready-made values and
   actions stand for. -/
namespace Plainsong.Grammar.Script

/-! ## Arguments -/

abbrev Bound := List (String × ScriptValue)

/-- Binds positional arguments to parameters in order, then named ones. The
    first `required` parameters must be given. -/
def bindArgs (params : List String) (required : Nat) (args : List ScriptValue)
    (named : List (String × ScriptValue)) : ScriptM Bound := do
  if params.length < args.length then throw .wrongKind
  let taken := params.zip args
  if named.any (fun (n, _) => !params.contains n || (taken.lookup n).isSome) then throw .wrongKind
  let all := taken ++ named
  if (params.take required).any fun p => (all.lookup p).isNone then throw .wrongKind
  return all

def Bound.get (b : Bound) (name : String) : Option ScriptValue := List.lookup name b

def Bound.getD (b : Bound) (name : String) (default : ScriptValue) : ScriptValue := (b.get name).getD default

def textOf : ScriptValue → ScriptM String
  | .text s => pure s
  | _ => throw .wrongKind

def textOption : ScriptValue → ScriptM (Option String)
  | .none => pure none
  | .text s => pure (some s)
  | _ => throw .wrongKind

def wholeOf : ScriptValue → ScriptM Int
  | .int n => pure n
  | .bool b => pure (if b then 1 else 0)
  | _ => throw .wrongKind

def partOf : ScriptValue → ScriptM (Option Nat)
  | .none => pure none
  | v => do return some (← literalOperand v)

def partsOf : ScriptValue → ScriptM (List ScriptValue)
  | .list xs => pure xs
  | .tuple xs => pure xs
  | .text s => do return [.element (← literal s)]
  | .element e => do
    match (← element e).kind with
    | .many _ parts => return parts.map .element
    | _ => return [.element e]
  | .results id => do return (← Results.record id).items.toList
  | v => pure [v]

def elementsOf (vs : List ScriptValue) : ScriptM (List Nat) :=
  vs.mapM fun v => match v with
    | .element e => pure e
    | _ => throw .noProperty

def checkFirst : ScriptValue → ScriptM Unit
  | .text s => if s.isEmpty then throw .outOfRange else throw .noProperty
  | .element e => do
    match (← element e).kind with
    | .many .. => pure ()
    | _ => throw .wrongKind
  | _ => pure ()

def actionOf : ScriptValue → Action Item Deed
  | .host (.deed d) => .host d
  | .host (.library a) => a
  | _ => .host .uncallable

def listenerOf : ScriptValue → Notice Deed
  | .host (.deed d) => .host d
  | .host (.library .ignoreAll) => .silent
  | _ => .host .uncallable

/-! ## Names -/

def libraryAction? : String → Option (Action Item Deed)
  | "upcase-tokens" => some .upcaseTokens
  | "downcase-tokens" => some .downcaseTokens
  | "remove-quotes" => some .removeQuotes
  | "keep-text" => some .keepText
  | "replace-html-entity" => some .entity
  | "null-debug-action" => some .ignoreAll
  | _ => none

def deed? : String → Option Deed
  | "int" => some .int
  | "join" => some .join
  | "none" => some .nothing
  | "drop" => some .drop
  | "loc" => some .place
  | "all" => some .everything
  | "const" => some .const
  | "neg" => some .negate
  | "first" => some .first
  | "nested" => some .nested
  | "dup" => some .twice
  | "print" => some .print
  | "fail" => some .fail
  | "fatal" => some .fatal
  | "bad" => some .bad
  | "value" => some .value
  | "same" => some .same
  | "zero" => some .zero
  | "show" => some .report
  | "fatal-show" => some .stop
  | "len" => some .length
  | "sorted" => some .sorted
  | "list" => some .list
  | "tuple" => some .tuple
  | "any" => some .anyTrue
  | "min" => some .least
  | "max" => some .greatest
  | "sum" => some .total
  | _ => none

def inline? : String → Option Inline
  | "literal" => some .literal
  | "caseless-literal" => some .caselessLiteral
  | "keyword" => some .keyword
  | "caseless-keyword" => some .caselessKeyword
  | "word" => some .word
  | "chars-not-in" => some .charsNotIn
  | "white" => some .white
  | "regex" => some .regex
  | "quoted-string" => some .quotedText
  | "suppress" => some .suppress
  | "group" => some .group
  | "combine" => some .combine
  | "optional" => some .optional
  | "zero-or-more" => some .zeroOrMore
  | "one-or-more" => some .oneOrMore
  | "followed-by" => some .followedBy
  | "not-any" => some .notAny
  | "skip-to" => some .skipTo
  | "forward" => some .forward
  | _ => none

def theLibrary : ScriptM Library := do
  match (← get).host.library with
  | some l => return l
  | none => throw .noProperty

def accentedLetters : String :=
  charsBetween 'À' 'Ö' ++ charsBetween 'Ø' 'ö' ++ charsBetween 'ø' 'ÿ'

def accentedSigns : String := charsBetween '¡' '¿' ++ "×÷"

def constant? : String → Option String
  | "alphas" => some alphas
  | "nums" => some nums
  | "hexnums" => some hexnums
  | "alphanums" => some alphanums
  | "printables" => some printables
  | "alphas8bit" => some accentedLetters
  | "punc8bit" => some accentedSigns
  | "version" => some "2.0.1"
  | "version-time" => some "16 July 2013 22:22"
  | _ => none

def readyElement? (l : Library) : String → Option Nat
  | "empty" => some l.empty
  | "line-start" => some l.lineStart
  | "line-end" => some l.lineEnd
  | "string-start" => some l.textStart
  | "string-end" => some l.textEnd
  | "dbl-quoted-string" => some l.doubleQuoted
  | "sgl-quoted-string" => some l.singleQuoted
  | "quoted-string" => some l.quoted
  | "unicode-string" => some l.unicodeText
  | "any-open-tag" => some l.anyOpenTag
  | "any-close-tag" => some l.anyCloseTag
  | "common-html-entity" => some l.entity
  | "c-style-comment" => some l.blockComment
  | "html-comment" => some l.markupComment
  | "rest-of-line" => some l.restOfLine
  | "dbl-slash-comment" => some l.slashComment
  | "mixed-comment" => some l.mixedComment
  | "hash-comment" => some l.hashComment
  | "comma-separated-list" => some l.commaList
  | _ => none

/-! ## Makers -/

def place? : String → Option (ScriptM Nat)
  | "empty" => some empty
  | "token" => some token
  | "no-match" => some noMatch
  | "line-start" => some lineStart
  | "line-end" => some lineEnd
  | "string-start" => some textStart
  | "string-end" => some textEnd
  | _ => none

def changer? : String → Option (Option Nat → ScriptM Nat)
  | "followed-by" => some followedBy
  | "not-any" => some notAny
  | "zero-or-more" => some zeroOrMore
  | "one-or-more" => some oneOrMore
  | "token-converter" => some converter
  | "upcase" => some upcased
  | "suppress" => some suppress
  | "group" => some group
  | "dict" => some dict
  | "ungroup" => some ungroup
  | "parse-element-enhance" => some fun p => do addElement (← changeOf .plain p false)
  | _ => none

def takesSavelist : String → Bool
  | "one-or-more" | "token-converter" | "upcase" | "suppress" | "parse-element-enhance" => true
  | _ => false

/-- Two values are equal: elements by all that they are, a text and an element
    if the element matches all of the text. -/
def sameValue (a b : ScriptValue) : ScriptM Bool := do
  let matchesAll (e : Nat) (s : String) : ScriptM Bool := do
    match ← attempt (parseText host e s true) with
    | .ok _ => return true
    | .error f => if f.failure?.isSome then return false else throw f
  match a, b with
  | .element x, .element y => sameElement x y
  | .element x, .text s => matchesAll x s
  | .text s, .element y => matchesAll y s
  | .element _, _ => return false
  | _, .element _ => return false
  | _, _ => return a.same b

def performByHand (a : Action Item Deed) (args : List ScriptValue) : ScriptM ScriptValue := do
  let outside : Fault := .fatal
    { text := #[], loc := 0, element := none
      message := "incorrect usage of getTokensEndLoc - may only be called from within a parse action" }
  match a, args with
  | .ignoreAll, _ => return .none
  | .keepText, [_, _, _] => throw outside
  | .entity, [t] => a.perform host ⟨#[], 0, 0, ← Results.ofValue t⟩
  | .entity, _ => throw .wrongKind
  | _, [s, l, t] =>
    let text := match s with
      | .text s => s.toList.toArray
      | _ => #[]
    let loc := match l with
      | .int n => n.toNat
      | _ => 0
    a.perform host ⟨text, loc, loc, ← Results.ofValue t⟩
  | _, _ => throw .wrongKind

def attributePair : ScriptValue → ScriptM (String × Option ScriptValue)
  | .tuple [.text k, .host .anyValue] => pure (k, none)
  | .tuple [.text k, v] => pure (k, some v)
  | .list [.text k, .host .anyValue] => pure (k, none)
  | .list [.text k, v] => pure (k, some v)
  | .tuple xs => if xs.length = 2 then throw .wrongKind else throw .refusedValue
  | .list xs => if xs.length = 2 then throw .wrongKind else throw .refusedValue
  | _ => throw .wrongKind

def operatorOf : ScriptValue → ScriptM (Operator Item Deed)
  | .tuple (sign :: arity :: side :: rest) => do
    let signs ← match arity with
      | .int 3 => match sign with
        | .tuple [a, b] => pure [a, b]
        | .list [a, b] => pure [a, b]
        | .none => throw .refusedValue
        | .tuple _ => throw .refusedValue
        | .list _ => throw .refusedValue
        | .text s => if s.length = 2 then
            pure (s.toList.map fun c => .text (String.singleton c)) else throw .refusedValue
        | _ => throw .wrongKind
      | _ => pure [sign]
    let left ← match side with
      | .host (.side left) => pure left
      | _ => throw .refusedValue
    let n ← match arity with
      | .int n => pure n
      | .bool b => pure (if b then 1 else 0)
      | _ => throw .refusedValue
    let action := match rest with
      | [] => none
      | .none :: _ => none
      | a :: _ => some (Script.actionOf a)
    return { arity := n, signs, left, action }
  | .tuple _ => throw .refusedValue
  | _ => throw .wrongKind

def alternativesOf : ScriptValue → ScriptM (List String)
  | .text s => pure (Text.words s)
  | .list xs => xs.mapM fun v => match v with
    | .text s => pure s
    | _ => throw .noProperty
  | .tuple xs => xs.mapM fun v => match v with
    | .text s => pure s
    | _ => throw .noProperty
  | _ => throw .unassigned

def make (name : String) (args : List ScriptValue) (named : List (String × ScriptValue)) :
    ScriptM ScriptValue := do
  let bind (params : List String) (required : Nat) : ScriptM Bound := bindArgs params required args named
  let asElement (x : ScriptM Nat) : ScriptM ScriptValue := do return .element (← x)
  match place? name with
  | some x =>
    let _ ← bind [] 0
    return ← asElement x
  | none => pure ()
  match changer? name with
  | some f =>
    let first := if name == "dict" then "exprs" else "expr"
    let b ← bind (if takesSavelist name then [first, "savelist"] else [first]) 1
    return ← asElement (do f (← partOf (b.getD first .none)))
  | none => pure ()
  match libraryAction? name with
  | some a => return ← performByHand a (args ++ named.map (·.2))
  | none => pure ()
  match name with
  | "parser-element" =>
    let b ← bind ["savelist"] 0
    asElement (do bare (← isTrue (b.getD "savelist" (.bool false))))
  | "literal" =>
    let b ← bind ["match-string"] 1
    asElement (do literal (← textOf (b.getD "match-string" .none)))
  | "caseless-literal" =>
    let b ← bind ["match-string"] 1
    match b.getD "match-string" .none with
    | .text s => asElement (caselessLiteral s)
    | _ => throw .noProperty
  | "keyword" =>
    let b ← bind ["match-string", "ident-chars", "caseless"] 1
    let s ← textOf (b.getD "match-string" .none)
    let ident ← textOf (b.getD "ident-chars" (.text defaultKeywordChars))
    asElement (do keyword s ident (← isTrue (b.getD "caseless" (.bool false))))
  | "caseless-keyword" =>
    let b ← bind ["match-string", "ident-chars"] 1
    let s ← textOf (b.getD "match-string" .none)
    asElement (do caselessKeyword s (← textOf (b.getD "ident-chars" (.text defaultKeywordChars))))
  | "word" =>
    let b ← bind ["init-chars", "body-chars", "min", "max", "exact", "as-keyword", "exclude-chars"] 1
    let init ← textOf (b.getD "init-chars" .none)
    let body ← textOption (b.getD "body-chars" .none)
    let least ← wholeOf (b.getD "min" (.int 1))
    let most ← wholeOf (b.getD "max" (.int 0))
    let exact ← wholeOf (b.getD "exact" (.int 0))
    let whole ← isTrue (b.getD "as-keyword" (.bool false))
    asElement (do word init body least most exact whole (← textOption (b.getD "exclude-chars" .none)))
  | "regex" =>
    let b ← bind ["pattern", "flags"] 1
    let flags ← wholeOf (b.getD "flags" (.int 0))
    match b.getD "pattern" .none with
    | .text s => asElement (regex s flags.toNat)
    | .host (.pattern source m) =>
      asElement (patternOf ("re.compile(" ++ Text.quoted source ++ ")") flags.toNat m)
    | _ => throw .refusedValue
  | "quoted-string" =>
    let b ← bind ["quote-char", "esc-char", "esc-quote", "multiline", "unquote-results", "end-quote-char"] 1
    match b.getD "quote-char" .none with
    | .text s =>
      let esc ← textOption (b.getD "esc-char" .none)
      let escQuote ← textOption (b.getD "esc-quote" .none)
      let multiline ← isTrue (b.getD "multiline" (.bool false))
      let unquote ← isTrue (b.getD "unquote-results" (.bool true))
      asElement (do quotedText s esc escQuote multiline unquote (← textOption (b.getD "end-quote-char" .none)))
    | _ => throw .noProperty
  | "chars-not-in" =>
    let b ← bind ["not-chars", "min", "max", "exact"] 1
    let s ← textOf (b.getD "not-chars" .none)
    let least ← wholeOf (b.getD "min" (.int 1))
    let most ← wholeOf (b.getD "max" (.int 0))
    asElement (do charsNotIn s least most (← wholeOf (b.getD "exact" (.int 0))))
  | "white" =>
    let b ← bind ["ws", "min", "max", "exact"] 0
    let s ← textOf (b.getD "ws" (.text " \t\r\n"))
    let least ← wholeOf (b.getD "min" (.int 1))
    let most ← wholeOf (b.getD "max" (.int 0))
    asElement (do white s least most (← wholeOf (b.getD "exact" (.int 0))))
  | "go-to-column" =>
    let b ← bind ["colno"] 1
    asElement (do goToColumn (← wholeOf (b.getD "colno" .none)))
  | "word-start" =>
    let b ← bind ["word-chars"] 0
    asElement (do wordStart (← textOf (b.getD "word-chars" (.text printables))))
  | "word-end" =>
    let b ← bind ["word-chars"] 0
    asElement (do wordEnd (← textOf (b.getD "word-chars" (.text printables))))
  | "parse-expression" =>
    let b ← bind ["exprs", "savelist"] 1
    let parts ← elementsOf (← partsOf (b.getD "exprs" .none))
    let savelist ← isTrue (b.getD "savelist" (.bool false))
    asElement (do addElement (← several .plain parts savelist))
  | "and" =>
    let b ← bind ["exprs", "savelist"] 1
    let given := b.getD "exprs" .none
    let parts ← elementsOf (← partsOf given)
    checkFirst given
    asElement (do sequence parts (← isTrue (b.getD "savelist" (.bool true))))
  | "or" =>
    let b ← bind ["exprs", "savelist"] 1
    let parts ← elementsOf (← partsOf (b.getD "exprs" .none))
    asElement (do longestOf parts (← isTrue (b.getD "savelist" (.bool false))))
  | "match-first" =>
    let b ← bind ["exprs", "savelist"] 1
    let parts ← elementsOf (← partsOf (b.getD "exprs" .none))
    asElement (do firstOf parts (← isTrue (b.getD "savelist" (.bool false))))
  | "each" =>
    let b ← bind ["exprs", "savelist"] 1
    let parts ← elementsOf (← partsOf (b.getD "exprs" .none))
    asElement (do eachOf parts (← isTrue (b.getD "savelist" (.bool true))))
  | "optional" =>
    let b ← bind ["exprs", "default"] 1
    asElement (do optional (← partOf (b.getD "exprs" .none)) (b.get "default"))
  | "skip-to" =>
    let b ← bind ["other", "include", "ignore", "fail-on"] 1
    let p ← partOf (b.getD "other" .none)
    let take ← isTrue (b.getD "include" (.bool false))
    let skip := match b.getD "ignore" .none with
      | .none => none
      | v => some v
    let failOn ← partOf (b.getD "fail-on" .none)
    asElement (skipTo p take skip failOn)
  | "forward" =>
    let b ← bind ["other"] 0
    asElement (do forwardOf (← partOf (b.getD "other" .none)))
  | "combine" =>
    let b ← bind ["expr", "join-string", "adjacent"] 1
    let p ← partOf (b.getD "expr" .none)
    let joint ← textOf (b.getD "join-string" (.text ""))
    asElement (do combine p joint (← isTrue (b.getD "adjacent" (.bool true))))
  | "parse-results" =>
    let b ← bind ["toklist", "name", "as-list", "modal"] 1
    let key ← match b.getD "name" .none with
      | .none => pure none
      | .text s => pure (some s)
      | .int n => pure (if n = 0 then none else some (toString n))
      | v => do pure (some (← showValue host v))
    let asList ← isTrue (b.getD "as-list" (.bool true))
    let modal ← isTrue (b.getD "modal" (.bool true))
    return .results (← Results.make (b.getD "toklist" .none) key asList modal)
  | "only-once" =>
    let b ← bind ["method-call"] 1
    let h ← addHandler (Script.actionOf (b.getD "method-call" .none))
    let cell := (← get).onceCells.size
    modify fun s => { s with onceCells := s.onceCells.push { handler := h } }
    return .host (.library (.once cell))
  | "trace-parse-action" =>
    let _ ← bind ["f"] 1
    return .host (.library .traced)
  | "delimited-list" =>
    let b ← bind ["expr", "delim", "combine"] 1
    let combined ← isTrue (b.getD "combine" (.bool false))
    asElement (delimitedList host (b.getD "expr" .none) (b.getD "delim" (.text ",")) combined)
  | "counted-array" =>
    let b ← bind ["expr", "int-expr"] 1
    let item ← literalOperand (b.getD "expr" .none)
    let count ← match b.getD "int-expr" .none with
      | .none => pure none
      | .element e => pure (some e)
      | _ => throw .noProperty
    asElement (do countedArray (← theLibrary).empty item count)
  | "match-previous-literal" =>
    let b ← bind ["expr"] 1
    match b.getD "expr" .none with
    | .element e => asElement (repeatedLiteral e)
    | _ => throw .noProperty
  | "match-previous-expr" =>
    let b ← bind ["expr"] 1
    match b.getD "expr" .none with
    | .element e => asElement (repeatedTokens e)
    | _ => throw .noProperty
  | "one-of" =>
    let b ← bind ["strs", "caseless", "use-regex"] 1
    let caseless ← isTrue (b.getD "caseless" (.bool false))
    let asPattern ← isTrue (b.getD "use-regex" (.bool true))
    asElement (do oneOf (← alternativesOf (b.getD "strs" .none)) caseless asPattern)
  | "dict-of" =>
    let b ← bind ["key", "value"] 2
    match b.getD "key" .none, b.getD "value" .none with
    | .text k, .text v => asElement (do dict (← zeroOrMore (← group (← literal (k ++ v)))))
    | k, v => asElement (do dictOf (← operandElement k) (← operandElement v))
  | "matched-text" =>
    let b ← bind ["expr", "as-string"] 1
    let e ← operandElement (b.getD "expr" .none)
    asElement (do matchedText e (← isTrue (b.getD "as-string" (.bool true))))
  | "srange" =>
    let b ← bind ["s"] 1
    match b.getD "s" .none with
    | .text s => return .text (← charRange host (← theLibrary).bracketSet s)
    | _ => return .text ""
  | "match-only-at-col" =>
    let b ← bind ["n"] 1
    return .host (.library (.onlyAtColumn (← wholeOf (b.getD "n" .none))))
  | "replace-with" =>
    let b ← bind ["repl-str"] 1
    return .host (.library (.replaceWith (b.getD "repl-str" .none)))
  | "with-attribute" =>
    let attrs ← if args.isEmpty then
        pure (named.map fun (k, v) => match v with
          | .host .anyValue => (k, none)
          | v => (k, some v))
      else args.mapM attributePair
    return .host (.library (.withAttributes attrs))
  | "make-html-tags" =>
    let b ← bind ["tag-str"] 1
    let l ← theLibrary
    let (o, c) ← tags host l.doubleQuoted l.quoted (b.getD "tag-str" .none) false
    return .tuple [.element o, .element c]
  | "make-xml-tags" =>
    let b ← bind ["tag-str"] 1
    let l ← theLibrary
    let (o, c) ← tags host l.doubleQuoted l.quoted (b.getD "tag-str" .none) true
    return .tuple [.element o, .element c]
  | "infix-notation" =>
    let b ← bind ["base-expr", "op-list", "lpar", "rpar"] 2
    let l ← theLibrary
    let ops ← match b.getD "op-list" .none with
      | .list xs => xs.mapM operatorOf
      | .tuple xs => xs.mapM operatorOf
      | _ => throw .wrongKind
    asElement (expressions (b.getD "base-expr" .none) ops
      (b.getD "lpar" (.element l.openParen)) (b.getD "rpar" (.element l.closeParen)))
  | "nested-expr" =>
    let b ← bind ["opener", "closer", "content", "ignore-expr"] 0
    let l ← theLibrary
    let opener := b.getD "opener" (.text "(")
    let closer := b.getD "closer" (.text ")")
    if ← sameValue opener closer then throw .refusedValue
    let content ← match b.getD "content" .none with
      | .none => pure none
      | v => do pure (some (← operandElement v))
    let ignored ← match b.getD "ignore-expr" (.element l.nestedIgnored) with
      | .none => pure none
      | v => do pure (some (← operandElement v))
    asElement (nested opener closer content ignored)
  | "indented-block" =>
    let b ← bind ["block-statement-expr", "indent-stack", "indent"] 2
    let statement ← match b.getD "block-statement-expr" .none with
      | .element e => pure e
      | _ => throw .noProperty
    let levels ← match b.getD "indent-stack" .none with
      | .list xs => xs.mapM wholeOf
      | _ => throw .wrongKind
    asElement (do indentedBlock statement levels (← isTrue (b.getD "indent" (.bool true))))
  | "col" =>
    let b ← bind ["loc", "strg"] 2
    let loc ← wholeOf (b.getD "loc" .none)
    match column? (← textOf (b.getD "strg" .none)).toList.toArray loc with
    | some n => return .int n
    | none => throw .outOfRange
  | "lineno" =>
    let b ← bind ["loc", "strg"] 2
    let loc ← wholeOf (b.getD "loc" .none)
    match b.getD "strg" .none with
    | .text s => return .int (lineNumber s.toList.toArray loc)
    | _ => throw .noProperty
  | "line" =>
    let b ← bind ["loc", "strg"] 2
    let loc ← wholeOf (b.getD "loc" .none)
    match b.getD "strg" .none with
    | .text s => return .text (lineAt s.toList.toArray loc)
    | _ => throw .noProperty
  | "get-tokens-end-loc" =>
    let _ ← bind [] 0
    performByHand .keepText [.none, .none, .none]
  | _ => throw .noProperty

def makerNames : List String :=
  ["parser-element", "token", "empty", "no-match", "line-start", "line-end", "string-start", "string-end",
   "literal", "caseless-literal", "keyword", "caseless-keyword", "word", "regex", "quoted-string",
   "chars-not-in", "white", "go-to-column", "word-start", "word-end", "parse-expression", "and", "or",
   "match-first", "each", "parse-element-enhance", "followed-by", "not-any", "zero-or-more", "one-or-more",
   "optional", "skip-to", "forward", "token-converter", "upcase", "combine", "group", "dict", "suppress",
   "parse-results", "only-once", "trace-parse-action", "delimited-list", "counted-array",
   "match-previous-literal", "match-previous-expr", "one-of", "dict-of", "matched-text", "ungroup",
   "srange", "match-only-at-col", "replace-with", "with-attribute", "make-html-tags", "make-xml-tags",
   "infix-notation", "nested-expr", "indented-block", "col", "lineno", "line",
   "get-tokens-end-loc"]

def maker (name : String) : ScriptM ScriptValue :=
  if makerNames.contains name then pure (.host (.maker name)) else throw .noProperty

def ready (name : String) : ScriptM ScriptValue := do
  match constant? name with
  | some s => return .text s
  | none => pure ()
  match libraryAction? name with
  | some a => return .host (.library a)
  | none => pure ()
  match readyElement? (← theLibrary) name with
  | some e => return .element e
  | none => maker name

end Plainsong.Grammar.Script
