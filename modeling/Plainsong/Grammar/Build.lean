import Plainsong.Grammar.Edit
/- Making elements: texts, words, patterns, quotes, places, combinations and
   changes, and the operators between elements. -/
namespace Plainsong.Grammar

variable {ν κ σ : Type}

def newAtom (a : Atom) : GrammarM ν κ σ (Element ν κ) := newElement (.atom a) false

def Element.titled (e : Element ν κ) (name : String) : Element ν κ :=
  { e with name := some name, message := "Expected " ++ name }

def bare (savelist : Bool) : GrammarM ν κ σ Nat := do addElement (← newElement (.atom .bare) savelist)

def token : GrammarM ν κ σ Nat := do addElement (← newAtom .token)

def empty : GrammarM ν κ σ Nat := do
  addElement { ← newAtom .empty with name := some "Empty", mayBeEmpty := true, mayOverrun := false }

def noMatch : GrammarM ν κ σ Nat := do
  addElement { ← newAtom .noMatch with
    name := some "NoMatch", mayBeEmpty := true, mayOverrun := false, message := "Unmatchable token" }

def errorStop : GrammarM ν κ σ Nat := do
  addElement { ← newAtom .errorStop with
    name := some "-", mayBeEmpty := true, mayOverrun := false, skipBlanks := false }

def literal (s : String) : GrammarM ν κ σ Nat := do
  let a := if s.isEmpty then Atom.emptyLiteral none else .literal s.toList.toArray
  addElement { (← newAtom a).titled ("\"" ++ s ++ "\"") with mayOverrun := false }

def caselessLiteral (s : String) : GrammarM ν κ σ Nat := do
  let a := if s.isEmpty then Atom.emptyLiteral (some s) else .caselessLiteral (Text.upper s) s
  addElement { (← newAtom a).titled ("'" ++ s ++ "'") with mayOverrun := false }

def keywordSpec (s ident : String) (caseless : Bool) : KeywordSpec :=
  { word := s.toList.toArray, caseless, upper := Text.upper s
    ident := .of (if caseless then Text.upper ident else ident), identGiven := true }

def keyword (s ident : String) (caseless : Bool) : GrammarM ν κ σ Nat := do
  addElement { (← newAtom (.keyword (keywordSpec s ident caseless))).titled ("\"" ++ s ++ "\"") with
    mayOverrun := false }

def caselessKeyword (s ident : String) : GrammarM ν κ σ Nat := do
  addElement { (← newAtom (.caselessKeyword (keywordSpec s ident true))).titled ("\"" ++ s ++ "\"") with
    mayOverrun := false }

def shortened (s : String) : String :=
  if 4 < s.length then (s.take 4).toString ++ "..." else s

def wordPattern (init body : String) (whole : Bool) : String :=
  let core :=
    if body = init then "[" ++ Pattern.escapeClass init ++ "]+"
    else if body.length = 1 then Pattern.escape init ++ "[" ++ Pattern.escapeClass body ++ "]*"
    else "[" ++ Pattern.escapeClass init ++ "][" ++ Pattern.escapeClass body ++ "]*"
  if whole then "\\b" ++ core ++ "\\b" else core

def word (init : String) (body : Option String) (least most exact : Int) (whole : Bool)
    (exclude : Option String) : GrammarM ν κ σ Nat := do
  let without (s : String) : String := match exclude with
    | none => s
    | some x => if x.isEmpty then s else String.ofList (s.toList.filter fun c => !x.contains c)
  let init := without init
  let body := match body with
    | none => init
    | some b => if b.isEmpty then init else
      let b := without b
      if b.isEmpty then init else b
  if least < 1 then throw .refusedValue
  let text := if init = body then "W:(" ++ shortened init ++ ")"
    else "W:(" ++ shortened init ++ "," ++ shortened body ++ ")"
  let pattern := if !(init ++ body).contains ' ' && least == 1 && most == 0 && exact == 0 then
      let source := wordPattern init body whole
      (Matcher.read source {}).map fun m => (source, m)
    else none
  let spec : WordSpec :=
    { init := .of init, body := .of body, extent := .of least most exact, bounded := 0 < most, whole, pattern }
  addElement { (← newAtom (.word spec)).titled text with shown := some text, mayOverrun := false }

def simpleWord (chars : String) : GrammarM ν κ σ Nat := word chars none 1 0 0 false none

def patternOf (source : String) (flags : Nat) (m : Matcher) : GrammarM ν κ σ Nat := do
  let text := "Re:(" ++ Text.quoted source ++ ")"
  addElement { (← newAtom (.pattern source flags m)).titled text with
    shown := some text, mayOverrun := false, mayBeEmpty := true }

def regex (source : String) (flags : Nat) : GrammarM ν κ σ Nat := do
  match Matcher.read source (Pattern.Flags.ofNat flags) with
  | some m => patternOf source flags m
  | none => throw .badPattern

def quotePattern (opening closing : String) (escape escapedQuote : Option String) (multiline : Bool) :
    String :=
  let first := String.ofList (closing.toList.take 1)
  let escapeClass := match escape with
    | some e => Pattern.escapeClass e
    | none => ""
  let inside := "[^" ++ Pattern.escapeClass first ++ (if multiline then "" else "\\n\\r") ++ escapeClass ++ "]"
  let cs := closing.toList
  let partials := (List.range (cs.length - 1)).reverse.map fun i =>
    Pattern.escape (String.ofList (cs.take (i + 1))) ++ "[^"
      ++ Pattern.escapeClass (String.ofList ((cs.drop (i + 1)).take 1)) ++ "]"
  Pattern.escape opening ++ "(?:" ++ inside
    ++ (if 1 < cs.length then "|(?:" ++ ")|(?:".intercalate partials ++ ")" else "")
    ++ (match escapedQuote with
        | some q => if q.isEmpty then "" else "|(?:" ++ Pattern.escape q ++ ")"
        | none => "")
    ++ (match escape with
        | some e => if e.isEmpty then "" else "|(?:" ++ Pattern.escape e ++ ".)"
        | none => "")
    ++ ")*" ++ Pattern.escape closing

def quotedText (opening : String) (escape escapedQuote : Option String) (multiline unquote : Bool)
    (closing : Option String) : GrammarM ν κ σ Nat := do
  let opening := Text.trim opening
  if opening.isEmpty then throw .emptyQuote
  let closing := match closing with
    | some c => Text.trim c
    | none => opening
  if closing.isEmpty then throw .emptyQuote
  let flags := if multiline then 24 else 0
  let source := quotePattern opening closing escape escapedQuote multiline
  match Matcher.read source (Pattern.Flags.ofNat flags) with
  | none => throw .badPattern
  | some m =>
    let escaped := match escape with
      | some e =>
        if e.isEmpty then none else
          let set := (opening.toList.take 1 ++ closing.toList.take 1).eraseDups.flatMap fun c =>
            if c = '^' || c = '-' then ['\\', c] else [c]
          Matcher.read (Pattern.escape e ++ "([" ++ String.ofList set ++ "])") {}
      | none => none
    let text := "quoted string, starting with " ++ opening ++ " ending with " ++ closing
    let spec : QuoteSpec :=
      { opening, closing, escape, escapedQuote, unquote, pattern := source, flags, matcher := m, escaped }
    addElement { (← newAtom (.quotedText spec)).titled text with
      shown := some text, mayOverrun := false, mayBeEmpty := true }

def charsNotIn (chars : String) (least most exact : Int) : GrammarM ν κ σ Nat := do
  if least < 1 then throw .refusedValue
  let text := if 4 < chars.length then "!W:(" ++ (chars.take 4).toString ++ "...)" else "!W:(" ++ chars ++ ")"
  let extent := Extent.of least most exact
  addElement { (← newAtom (.charsNotIn (.of chars) extent)).titled text with
    shown := some text, skipBlanks := false, mayBeEmpty := extent.least == 0, mayOverrun := false }

def blankName? : Char → Option String
  | ' ' => some "<SPC>"
  | '\t' => some "<TAB>"
  | '\n' => some "<LF>"
  | '\r' => some "<CR>"
  | c => if c.toNat = 12 then some "<FF>" else none

def white (chars : String) (least most exact : Int) : GrammarM ν κ σ Nat := do
  let e ← newAtom (.white (.of chars) (Extent.of least most exact))
  let e := e.withBlanks (String.ofList (e.blanks.toList.filter fun c => !chars.contains c))
  match chars.toList.mapM blankName? with
  | none => throw .unknownName
  | some names => addElement { e.titled (String.join names) with mayBeEmpty := true }

def place (a : Atom) (name message : String) : GrammarM ν κ σ (Element ν κ) := do
  return { ← newAtom a with name := some name, mayBeEmpty := true, mayOverrun := false, message }

def goToColumn (n : Int) : GrammarM ν κ σ Nat := do
  addElement (← place (.goToColumn n) "GoToColumn" "")

def inlineBlanks : GrammarM ν κ σ String := do
  return String.ofList ((← get).blanks.toList.filter (· ≠ '\n'))

def lineStart : GrammarM ν κ σ Nat := do
  let e ← place .lineStart "LineStart" "Expected start of line"
  addElement (e.withBlanks (← inlineBlanks))

def lineEnd : GrammarM ν κ σ Nat := do
  let e ← place .lineEnd "LineEnd" "Expected end of line"
  addElement (e.withBlanks (← inlineBlanks))

def textStart : GrammarM ν κ σ Nat := do
  addElement (← place .textStart "StringStart" "Expected start of text")

def textEnd : GrammarM ν κ σ Nat := do
  addElement (← place .textEnd "StringEnd" "Expected end of text")

def wordStart (chars : String) : GrammarM ν κ σ Nat := do
  addElement (← place (.wordStart (.of chars)) "WordStart" "Not at the start of a word")

def wordEnd (chars : String) : GrammarM ν κ σ Nat := do
  addElement { ← place (.wordEnd (.of chars)) "WordEnd" "Not at the end of a word" with skipBlanks := false }

/-! ## Combinations -/

def several (op : ManyOp) (parts : List Nat) (savelist : Bool) : GrammarM ν κ σ (Element ν κ) := do
  return { ← newElement (.many op parts) savelist with callPreparse := false }

def sequence (parts : List Nat) (savelist : Bool) : GrammarM ν κ σ Nat := do
  let e ← several .sequence parts savelist
  let all ← parts.mapM element
  match all with
  | [] => throw .outOfRange
  | head :: _ =>
    addElement { e.withBlanks head.blanks with
      mayBeEmpty := all.all (·.mayBeEmpty), skipBlanks := head.skipBlanks, callPreparse := true }

def longestOf (parts : List Nat) (savelist : Bool) : GrammarM ν κ σ Nat := do
  let all ← parts.mapM element
  addElement { ← several .longest parts savelist with mayBeEmpty := all.any (·.mayBeEmpty) }

def firstOf (parts : List Nat) (savelist : Bool) : GrammarM ν κ σ Nat := do
  let all ← parts.mapM element
  addElement { ← several .first parts savelist with
    mayBeEmpty := parts.isEmpty || all.any (·.mayBeEmpty) }

def eachOf (parts : List Nat) (savelist : Bool) : GrammarM ν κ σ Nat := do
  let all ← parts.mapM element
  addElement { ← several (.each none) parts savelist with
    mayBeEmpty := all.all (·.mayBeEmpty), skipBlanks := true }

/-! ## Changes -/

def partText : Option Nat → GrammarM ν κ σ String
  | some p => elementText p
  | none => pure "None"

def followedBy (p : Option Nat) : GrammarM ν κ σ Nat := do
  addElement { ← changeOf .followedBy p false with mayBeEmpty := true }

def notAny (p : Option Nat) : GrammarM ν κ σ Nat := do
  let e ← changeOf .notAny p false
  addElement { e with
    skipBlanks := false, mayBeEmpty := true, message := "Found unwanted token, " ++ (← partText p) }

def zeroOrMore (p : Option Nat) : GrammarM ν κ σ Nat := do
  addElement { ← changeOf .zeroOrMore p false with mayBeEmpty := true }

def oneOrMore (p : Option Nat) : GrammarM ν κ σ Nat := do
  addElement (← changeOf .oneOrMore p false)

def optional (p : Option Nat) (default : Option (Value ν)) : GrammarM ν κ σ Nat := do
  addElement { ← changeOf (.optional default) p false with mayBeEmpty := true }

def skipTo (p : Option Nat) (take : Bool) (skip : Option (Value ν)) (failOn : Option Nat) :
    GrammarM ν κ σ Nat := do
  let e ← changeOf (.skipTo take skip failOn) p false
  addElement { e with
    mayBeEmpty := true, mayOverrun := false, message := "No match found for " ++ (← partText p) }

def converting (op : OneOp ν) (p : Option Nat) : GrammarM ν κ σ (Element ν κ) := do
  return { ← changeOf op p false with saveAsList := false }

def converter (p : Option Nat) : GrammarM ν κ σ Nat := do addElement (← converting .converter p)
def upcased (p : Option Nat) : GrammarM ν κ σ Nat := do addElement (← converting .upcase p)
def suppress (p : Option Nat) : GrammarM ν κ σ Nat := suppressOf p

def combine (p : Option Nat) (joint : String) (adjacent : Bool) : GrammarM ν κ σ Nat := do
  let id ← addElement (← converting (.combine joint adjacent) p)
  if adjacent then leaveBlanks id
  changeElement id fun e => { e with skipBlanks := true, callPreparse := true }
  return id

def group (p : Option Nat) : GrammarM ν κ σ Nat := do
  addElement { ← converting .group p with saveAsList := true }

def dict (p : Option Nat) : GrammarM ν κ σ Nat := do
  addElement { ← converting .dict p with saveAsList := true }

/-! ## Operators -/

def inlineText (s : String) : GrammarM ν κ σ Nat := do
  let text := literal s
  match (← get).inline with
  | .literal => text
  | .caselessLiteral => caselessLiteral s
  | .keyword => keyword s defaultKeywordChars false
  | .caselessKeyword => caselessKeyword s defaultKeywordChars
  | .word => simpleWord s
  | .charsNotIn => charsNotIn s 1 0 0
  | .white => white s 1 0 0
  | .regex => regex s 0
  | .quotedText => quotedText s none none false true none
  | .suppress => do suppress (← text)
  | .group => do group (← text)
  | .combine => do combine (← text) "" true
  | .optional => do optional (← text) none
  | .zeroOrMore => do zeroOrMore (← text)
  | .oneOrMore => do oneOrMore (← text)
  | .followedBy => do followedBy (← text)
  | .notAny => do notAny (← text)
  | .skipTo => do skipTo (← text) false none none
  | .forward => do forwardOf (some (← text))

def plus (a b : Nat) : GrammarM ν κ σ Nat := sequence [a, b] true

def minus (a b : Nat) : GrammarM ν κ σ Nat := do sequence [a, ← errorStop, b] true

def either (a b : Nat) : GrammarM ν κ σ Nat := firstOf [a, b] false
def longer (a b : Nat) : GrammarM ν κ σ Nat := longestOf [a, b] false
def both (a b : Nat) : GrammarM ν κ σ Nat := eachOf [a, b] true

def appendPart (id p : Nat) : GrammarM ν κ σ Unit :=
  changeElement id fun e => match e.kind with
    | .many op parts => { e with kind := .many op (parts ++ [p]), shown := none }
    | _ => e

def optionalRun (p : Nat) : Nat → GrammarM ν κ σ Nat
  | 0 => optional p none
  | n + 1 => do
    let rest ← optionalRun p n
    optional (← plus p rest) none

def times (p : Nat) (least more : Int) : GrammarM ν κ σ Nat := do
  if least < 0 || more < 0 || (least == 0 && more == 0) then throw .refusedValue
  if more = 0 then
    if least = 1 then return p else sequence (List.replicate least.toNat p) true
  else
    let tail ← optionalRun p (more.toNat - 1)
    if least = 0 then return tail
    else if least = 1 then plus p tail
    else plus (← sequence (List.replicate least.toNat p) true) tail

def timesAtLeast (p : Nat) (n : Int) : GrammarM ν κ σ Nat := do
  if n = 0 then zeroOrMore p
  else if n = 1 then oneOrMore p
  else
    let run ← times p n 0
    plus run (← zeroOrMore p)

end Plainsong.Grammar
