import Plainsong.Grammar.Value
import Plainsong.Pattern.Reader
/- Grammar elements as data. An element is an atom (a text, a word, a pattern,
   a place), a combination of several elements, or a change made to one. What
   all elements have in common (blanks to skip, results name, actions, texts
   for messages) stands beside it. Elements refer to each other by number, so
   that recursive grammars and shared parts are plain data too. -/
namespace Plainsong.Grammar

def alphas : String := "abcdefghijklmnopqrstuvwxyzABCDEFGHIJKLMNOPQRSTUVWXYZ"
def nums : String := "0123456789"
def hexnums : String := nums ++ "ABCDEFabcdef"
def alphanums : String := alphas ++ nums

def printables : String :=
  nums ++ alphas ++ "!\"#$%&'()*+,-./:;<=>?@[\\]^_\x60\x7b|\x7d~"

def defaultKeywordChars : String := alphanums ++ "_$"

/-- A set of characters and the text it was made from. -/
structure CharSet where
  chars : String
  members : Pattern.CharClass

def CharSet.of (s : String) : CharSet := ⟨s, .ofChars s.toList⟩
def CharSet.contains (k : CharSet) (c : Char) : Bool := k.members.test c

/-- The length a run of characters may have. -/
structure Extent where
  least : Nat
  most : Option Nat
  deriving DecidableEq

def Extent.of (least most exact : Int) : Extent :=
  if 0 < exact then ⟨exact.toNat, some exact.toNat⟩
  else ⟨least.toNat, if 0 < most then some most.toNat else none⟩

/-- A keyword and the characters that may not stand next to it. -/
structure KeywordSpec where
  word : Array Char
  caseless : Bool
  /-- The word in upper case, for comparing without case. -/
  upper : String
  ident : CharSet
  /-- Whether `ident` is still the set given by the maker of the keyword. -/
  identGiven : Bool

/-- A word: its first characters, its further ones and its length. -/
structure WordSpec where
  init : CharSet
  body : CharSet
  extent : Extent
  /-- Whether a longer run of word characters is a failure. -/
  bounded : Bool
  whole : Bool
  /-- The pattern that does the same at once, where there is one. -/
  pattern : Option (String × Matcher)

/-- Text between quotes. -/
structure QuoteSpec where
  opening : String
  closing : String
  escape : Option String
  escapedQuote : Option String
  unquote : Bool
  pattern : String
  flags : Nat
  matcher : Matcher
  /-- An escape sign before one of the quotes. -/
  escaped : Option Matcher

/-- Elements without parts. -/
inductive Atom where
  /-- The bare notion of an element; it has not even a name. -/
  | bare
  | token
  | empty
  | noMatch
  | errorStop
  | literal (chars : Array Char)
  /-- A literal without characters, and the text that a caseless one would return. -/
  | emptyLiteral (returned : Option String)
  | caselessLiteral (upper : String) (returned : String)
  | keyword (k : KeywordSpec)
  | caselessKeyword (k : KeywordSpec)
  | word (w : WordSpec)
  | pattern (source : String) (flags : Nat) (m : Matcher)
  | quotedText (q : QuoteSpec)
  | charsNotIn (set : CharSet) (extent : Extent)
  | white (set : CharSet) (extent : Extent)
  | goToColumn (n : Int)
  | lineStart
  | lineEnd
  | textStart
  | textEnd
  | wordStart (set : CharSet)
  | wordEnd (set : CharSet)

/-- The parts of an unordered combination, sorted by how often they may occur. -/
structure EachGroups where
  optionals : List Nat
  multiOptionals : List Nat
  multiRequired : List Nat
  required : List Nat
  deriving DecidableEq

/-- Ways to combine several elements. -/
inductive ManyOp where
  | plain
  | sequence
  | longest
  | first
  | each (groups : Option EachGroups)

/-- Ways to change one element. -/
inductive OneOp (ν : Type) where
  | plain
  | followedBy
  | notAny
  | zeroOrMore
  | oneOrMore
  | optional (default : Option (Value ν))
  | skipTo (take : Bool) (skip : Option (Value ν)) (failOn : Option Nat)
  /-- To be defined later; `printed` once its text has been asked for. -/
  | forward (printed : Bool)
  | converter
  | upcase
  | combine (joint : String) (adjacent : Bool)
  | group
  | dict
  | suppress

/-- What an element is. -/
inductive Kind (ν : Type) where
  | atom (a : Atom)
  | many (op : ManyOp) (parts : List Nat)
  | one (op : OneOp ν) (part : Option Nat)

/-- Notices sent while an element is parsed: none, the standard text, or a host's. -/
inductive Notice (κ : Type) where
  | silent
  | standard
  | host (k : κ)

/-- A grammar element. -/
structure Element (ν κ : Type) where
  kind : Kind ν
  /-- The name given to the element, or made for it. -/
  name : Option String := none
  shown : Option String := none
  resultsName : Option String := none
  saveAsList : Bool := false
  skipBlanks : Bool := true
  blanks : String
  /-- Whether a copy takes the blanks that are usual at that time. -/
  usualBlanks : Bool := true
  mayBeEmpty : Bool := false
  keepTabs : Bool := false
  ignored : List Nat := []
  debug : Bool := false
  streamlined : Bool := false
  /-- Whether running past the end of the text is caught here. -/
  mayOverrun : Bool := true
  message : String := ""
  /-- Whether a results name reports only its last match. -/
  modal : Bool := true
  onStart : Notice κ := .silent
  onSuccess : Notice κ := .silent
  onFailure : Notice κ := .silent
  callPreparse : Bool := true
  callDuringTry : Bool := false
  actions : List Nat := []
  failAction : Option κ := none
  /-- The name of the tag an element was made for. -/
  tag : Option String := none
  /-- An element whose way of parsing was put back in place: on behalf of which
      element, and whether memory is used. -/
  pinned : Option (Nat × Bool) := none

/-- Actions of the library, run when an element has matched. -/
inductive Action (ν κ : Type) where
  | upcaseTokens
  | downcaseTokens
  | removeQuotes
  | keepText
  | replaceWith (v : Value ν)
  | onlyAtColumn (n : Int)
  /-- Requires attributes of a tag; `none` asks for any value. -/
  | withAttributes (attrs : List (String × Option (Value ν)))
  | entity
  | toInt
  /-- The number of items read sets what the array consists of; `void` stands
      for no items. -/
  | countField (array item void : Nat)
  | copyLiteral (target : Nat)
  | copyTokens (target : Nat)
  | mustMatch (tokens : List (Value ν))
  | peerIndent (stack : Nat)
  | deeperIndent (stack : Nat)
  | endIndent (stack : Nat)
  | trimFirst
  | firstToken
  | location
  /-- The text between two marked places; names may be kept. -/
  | textBetween (keepNames : Bool)
  | isSlash
  | escapedSign
  | escapedHex
  | escapedOctal
  /-- An action that may run once only: the number of its cell. -/
  | once (cell : Nat)
  | traced
  | ignoreAll
  | host (k : κ)

/-- What a plain text among elements is taken for. -/
inductive Inline where
  | literal | caselessLiteral | keyword | caselessKeyword | word | charsNotIn | white | regex
  | quotedText | suppress | group | combine | optional | zeroOrMore | oneOrMore | followedBy
  | notAny | skipTo | forward
  deriving DecidableEq

/-- An action in use: the number of leading arguments it does not take, found
    by trying, and whether that number is settled. -/
structure Handler (ν κ : Type) where
  action : Action ν κ
  dropped : Nat := 0
  settled : Bool := false

/-- The wrapper of an action that runs once. -/
structure OnceCell where
  handler : Nat
  called : Bool := false

end Plainsong.Grammar
