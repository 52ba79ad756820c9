import Plainsong.Abc.Reading
/- The grammar of tunes: fields of the header, music of a voice with its
   lyrics, layouts of voices on staves, and maps of percussion notes. -/
namespace Plainsong.Abc.Notation

open Grammar

def chain : List Nat → ReadM Nat
  | [] => empty
  | e :: rest => rest.foldlM plus e

def choice : List Nat → ReadM Nat
  | [] => noMatch
  | e :: rest => rest.foldlM either e

def alternatives (words : String) : ReadM Nat := oneOf (Text.words words) false true

def mark (s : String) : ReadM Nat := do suppress (← literal s)

def does (e : Nat) (d : Deed) : ReadM Unit := setActions e [.host d] false

def makes (e : Nat) (name : String) : ReadM Unit := does e (.node name false)
def makesOrdered (e : Nat) (name : String) : ReadM Unit := does e (.node name true)

def hidden (e : Nat) : ReadM Nat := do suppress (← copyElement e)

def number : ReadM Nat := do
  let e ← simpleWord nums
  setActions e [.toInt] false
  return e

def userSymbol : ReadM Nat :=
  word ("HIJKLMNOPQRSTUVWhijklmnopqrstuvw~") none 1 0 1 false none

/-! ## Fields -/

/-- The fields that a header or a voice may hold. -/
structure Fields where
  reference : Nat
  symbol : Nat
  voice : Nat
  info : Nat

def fields : ReadM Fields := do
  let before ← regex "[^H-Wh-w~=]*" 0
  let behind ← regex "[^=]*" 0
  let content ← regex "[^]]*" 0
  setActions content [.trimFirst] false
  let letter ← alternatives "K L M Q P I T C O A Z N G H R B D F S E r Y"
  let reference ← chain [← literal "X", ← mark ":", content]
  let symbol ← chain [← literal "U", ← mark ":", before, ← optional (← userSymbol) (some (.text "H")),
    behind, ← mark "=", content]
  let voice ← chain [← literal "V", ← mark ":", ← simpleWord (alphanums ++ "_"), content]
  let info ← chain [letter, ← mark ":", content]
  does before .misplaced
  does behind .misplaced
  return { reference, symbol, voice, info }

def header (f : Fields) : ReadM Nat := do
  let field ← chain [← mark "[", ← choice [f.reference, f.symbol, f.voice, f.info], ← mark "]"]
  makes field "field"
  plus (← oneOrMore field) (← textEnd)

def inlineField (f : Fields) : ReadM Nat := do
  let e ← chain [← mark "[", ← choice [f.info, f.symbol, f.voice], ← mark "]"]
  makes e "inline"
  return e

/-! ## Layouts of voices -/

/-- Voices on staves: groups of voices on one staff, grand staves, and braces
    and brackets around parts, which nest. -/
def layout : ReadM Nat := do
  let bar := mark "|"
  let voice ← plus (← suppress (← optional (← literal "*") none)) (← simpleWord (alphanums ++ "_"))
  makesOrdered voice "vid"
  let voices ← chain [← mark "(", ← oneOrMore (← either voice (← bar)), ← mark ")"]
  makesOrdered voices "voicegr"
  let simple ← choice [voice, voices, ← bar]
  let grand ← chain [← alternatives "\x7b* \x7b", ← oneOrMore simple, ← mark "\x7d"]
  makesOrdered grand "grand"
  let part ← forwardOf none
  let parts ← oneOrMore (← either part (← bar))
  let brace ← chain [← mark "\x7b", parts, ← mark "\x7d"]
  makesOrdered brace "bracegr"
  let bracket ← chain [← mark "[", parts, ← mark "]"]
  makesOrdered bracket "bracketgr"
  define part (← firstOf [← choice [simple, grand, brace, bracket], ← bar] false)
  let whole ← plus (← suppress (← alternatives "staves score")) (← oneOrMore part)
  makesOrdered whole "score"
  return whole

/-! ## Lyrics -/

def lyricLine (white : Nat) : ReadM Nat := do
  let skip ← alternatives "* -"
  let extend ← literal "_"
  let bar ← literal "|"
  let plain ← charsNotIn "*-_| \t\n\\]" 1 0 0
  let chars ← combine (← oneOrMore (← either plain (← regex "\\\\." 0))) "" true
  let syllable ← plus chars (← optional (← literal "-") none)
  let gap := do hidden (← optional white none)
  let item ← plus (← choice [syllable, skip, extend, bar]) (← gap)
  let line ← plus (← gap) (← zeroOrMore item)
  makes syllable "syl"
  makes skip "skip"
  makes extend "ext"
  makes bar "sbar"
  leaveBlanks line
  return line

def lyrics (white : Nat) : ReadM Nat := do
  let line ← chain [← mark "[", ← mark "w", ← mark ":", ← lyricLine white, ← mark "]"]
  makesOrdered line "lyr_fld"
  let block ← oneOrMore line
  makesOrdered block "lyr_blk"
  return block

/-! ## Notes, rests and chords -/

/-- The parts that notes are made of. -/
structure NoteParts where
  number : Nat
  length : Nat
  octave : Nat
  letter : Nat
  accidental : Nat
  tie : Nat
  slurEnds : Nat
  decorations : Nat

def noteParts : ReadM NoteParts := do
  let number ← number
  let length ← chain [← optional number (some (.int 1)), ← group (← zeroOrMore (← literal "/")),
    ← optional number (some (.int 2))]
  does length .duration
  let up ← oneOrMore (← literal "'")
  does up (.count true)
  let down ← oneOrMore (← literal ",")
  does down (.count false)
  let octave ← either up down
  let letter ← alternatives "C D E F G A B c d e f g a b y"
  let accidental ← alternatives "^^ __ ^ _ ="
  let slurStart ← plus (← alternatives "( (, (' .( .(, .('") (← notAny (← simpleWord nums))
  let slurEnds ← oneOrMore (← alternatives ") .)")
  makes slurEnds "slurs"
  let long ← combine (← chain [← alternatives "! +", ← charsNotIn "!+ \n" 1 0 0, ← alternatives "! +"]) "" true
  let staccato ← plus (← literal ".") (← notAny (← literal "|"))
  let pizzicato ← literal "!+!"
  setActions pizzicato [.replaceWith (.text "!plus!")] false
  let decorations ← oneOrMore (← choice [slurStart, staccato, ← userSymbol, long, pizzicato])
  makes decorations "deco"
  let tie ← alternatives ".- -"
  makes tie "tie"
  return { number, length, octave, letter, accidental, tie, slurEnds, decorations }

/-- What has a stem, and groups of grace notes. -/
structure Stems where
  stem : Nat
  grace : Nat

def stems (p : NoteParts) : ReadM Stems := do
  let rest ← chain [← optional p.accidental none, ← alternatives "x X z Z", p.length]
  does rest .rest
  let pitch ← chain [← optional p.accidental none, p.letter, ← optional p.octave (some (.int 0))]
  makes pitch "pitch"
  let ending := do return [p.length, ← optional p.tie none, ← optional p.slurEnds none]
  let note ← chain (pitch :: (← ending))
  does note .note
  let decorated ← chain ((← optional p.decorations none) :: pitch :: (← ending))
  does decorated .note
  let stray ← word "-,'<>’#" none 1 0 1 false none
  does stray .misplaced
  let grace ← forwardOf none
  let member ← choice [decorated, rest, stray]
  let chord ← chain ([← mark "[", ← oneOrMore (← either member grace), ← mark "]"] ++ (← ending))
  makesOrdered chord "chord"
  let stem ← choice [note, chord, rest]
  let slash ← literal "/"
  makes slash "accia"
  let graceStem ← plus (← optional p.decorations none) stem
  define grace (← group (← chain [← mark "\x7b", ← optional slash none, ← oneOrMore graceStem, ← mark "\x7d"]))
  does grace .grace
  return { stem, grace }

/-! ## Chord symbols and texts -/

def chordRoot (name : String) : ReadM Nat := do
  let e ← plus (← alternatives "C D E F G A B") (← optional (← alternatives "# b =") none)
  makes e name
  return e

def quotedMark : ReadM Nat := do
  let text ← plus (← optional (← alternatives "^ _ < > @") (some (.text "^")))
    (← optional (← charsNotIn "\"" 1 0 0) (some (.text "")))
  makes text "text"
  let triad ← alternatives "ma Maj maj M mi min m aug dim o + -"
  let seventh ← alternatives "7 ma7 Maj7 M7 maj7 mi7 min7 m7 dim7 o7 -7 aug7 +7 m7b5 mi7b5"
  let sixth ← alternatives "6 ma6 M6 mi6 min6 m6"
  let ninth ← alternatives "9 ma9 M9 maj9 Maj9 mi9 min9 m9"
  let eleventh ← alternatives "11 ma11 M11 maj11 Maj11 mi11 min11 m11"
  let thirteenth ← alternatives "13 ma13 M13 maj13 Maj13 mi13 min13 m13"
  let suspended ← alternatives "sus sus2 sus4"
  let degree ← combine (← plus (← optional (← alternatives "# b =") none)
    (← alternatives "2 4 5 6 7 9 11 13")) "" true
  makes degree "degree"
  let kind ← plus (← optional (← choice [seventh, sixth, ninth, eleventh, thirteenth, triad]) none)
    (← optional suspended none)
  makes kind "kind"
  let root ← chordRoot "root"
  let bass ← chordRoot "bass"
  let symbol ← chain [root, kind, ← zeroOrMore degree, ← optional (← plus (← mark "/") bass) none]
  makes symbol "chordsym"
  let remark ← chain [← literal "(", ← charsNotIn ")" 1 0 0, ← literal ")"]
  let withRemark ← plus symbol (← hidden (← optional remark none))
  chain [← mark "\"", ← longer withRemark text, ← mark "\""]

/-! ## Bar lines and measures -/

structure Bars where
  left : Nat
  right : Nat

def bars : ReadM Bars := do
  let numbers ← plus (← hidden (← optional (← literal "[") none))
    (← combine (← plus (← simpleWord nums)
      (← zeroOrMore (← plus (← alternatives ", -") (← simpleWord nums)))) "" true)
  let named ← plus (← hidden (← literal "[")) (← regex "\"[^\"]+\"" 0)
  let volta ← either numbers named
  let invisible ← alternatives "[|] []"
  let dashed ← alternatives ": .|"
  setActions dashed [.replaceWith (.text ".|")] false
  let double ← plus (← literal ":") (← followedBy (← literal ":"))
  let overlay ← combine (← oneOrMore (← literal "&")) "" true
  let bareVolta ← followedBy (← plus (← literal "[") (← simpleWord nums))
  setActions bareVolta [.replaceWith (.text "|")] false
  let left ← choice [
    ← plus (← alternatives "[|: |: [: :") (← optional volta none),
    ← plus (← hidden (← optional (← literal "|") none)) volta,
    ← alternatives "| [|"]
  makes left "lbar"
  let lines ← chain [← zeroOrMore (← literal ":"), ← zeroOrMore (← literal "["),
    ← oneOrMore (← alternatives "| ]")]
  let right ← choice [invisible, double, ← combine lines "" true, dashed, overlay, bareVolta]
  makes right "rbar"
  return { left, right }

def tuplet (number : Nat) : ReadM Nat := do
  let count ← plus (← mark "(") number
  let more : ReadM Nat := do plus (← mark ":") (← optional number (some (.int 0)))
  let into ← more
  let among ← more
  let e ← plus count (← optional (← plus into (← optional among none)) none)
  makes e "tup"
  return e

def voice (f : Fields) (p : NoteParts) (white : Nat) : ReadM Nat := do
  let inline ← inlineField f
  let lyrics ← lyrics white
  let s ← stems p
  let broken ← combine (← either (← oneOrMore (← literal "<")) (← oneOrMore (← literal ">"))) "" true
  makes broken "broken"
  let tuplet ← tuplet p.number
  let quoted ← quotedMark
  let b ← bars
  let stray ← chain [← notAny b.right, ← optional (← simpleWord " \n") none, ← charsNotIn ":&|" 1 0 1]
  does stray .misplaced
  let lineBreak ← either (← literal "$") (← plus (← notAny p.decorations) (← literal "!"))
  makes lineBreak "linebrk"
  let item ← choice [← either inline lyrics, broken, p.decorations, s.stem, quoted, s.grace, tuplet,
    lineBreak, stray]
  let ending := do return [← optional lineBreak none, ← optional lyrics none]
  let measure ← group (← chain ([← zeroOrMore inline, ← optional b.left none, ← zeroOrMore item, b.right]
    ++ (← ending)))
  does measure .measure
  let openMeasure ← group (← chain ([← zeroOrMore inline, ← optional b.left none, ← oneOrMore item]
    ++ (← ending)))
  does openMeasure .measure
  chain [← zeroOrMore measure, ← optional (← either openMeasure (← group b.left)) none,
    ← hidden (← zeroOrMore inline), ← textEnd]

/-! ## Percussion maps -/

/-- The map of one percussion note to a place on the staff, a sounding note and
    a head, in which blanks matter. -/
def percussion (p : NoteParts) (white : Nat) : ReadM Nat := do
  let gap ← hidden (← either white (← textEnd))
  let maybeGap ← optional gap none
  let name ← simpleWord (alphanums ++ "-")
  let step ← plus p.letter (← optional p.octave (some (.int 0)))
  let pitch ← group (← chain [← optional p.accidental (some (.text "")), step, ← followedBy gap])
  let place ← either (← group (← plus step (← followedBy gap))) (← literal "*")
  let sound ← choice [← literal "*", p.number, pitch, name]
  let head ← optional (← combine (← plus name (← optional (← literal "+") none)) "" true) (some (.text ""))
  let e ← chain [← literal "percmap", maybeGap, pitch, maybeGap, ← optional place (some (.text "*")), maybeGap,
    ← optional sound (some (.text "*")), maybeGap, head]
  leaveBlanks e
  return e

/-! ## All of it -/

/-- The grammars for the four kinds of text. -/
structure Grammars where
  header : Nat
  voice : Nat
  layout : Nat
  percussion : Nat

def build : ReadM Grammars := do
  let f ← fields
  let header ← header f
  let layout ← layout
  let white ← simpleWord " \t"
  let p ← noteParts
  let voice ← voice f p white
  let percussion ← percussion p white
  for e in [header, voice, layout, percussion] do
    streamline e
  return { header, voice, layout, percussion }

end Plainsong.Abc.Notation

namespace Plainsong.Abc

open Grammar (Fault State Value)

def grammars : Except Fault (Notation.Grammars × State Node Deed Reading) :=
  match Notation.build { host := {} } with
  | .ok g s => .ok (g, s)
  | .error f _ => .error f

/-- The four kinds of text. -/
inductive Part where
  | header
  | voice
  | layout
  | percussion
deriving DecidableEq, Repr

def Part.element (p : Part) (g : Notation.Grammars) : Nat :=
  match p with
  | .header => g.header
  | .voice => g.voice
  | .layout => g.layout
  | .percussion => g.percussion

/-- What a text was read as: its tokens, nested as they were found. -/
inductive Sheet where
  | node (n : Node)
  | leaf (l : Leaf)
  | list (xs : List Sheet)
deriving Inhabited

def sheetAt (s : State Node Deed Reading) : Nat → Value Node → Sheet
  | 0, _ => .list []
  | depth + 1, v => match v with
    | .host n => .node n
    | .text t => .leaf (.text t)
    | .int n => .leaf (.int n)
    | .bool b => .leaf (.bool b)
    | .results id => .list (((s.records[id]?).map (·.items.toList)).getD [] |>.map (sheetAt s depth))
    | _ => .list []

def read (p : Part) (text : String) (r : Reading) : Except Fault (List Sheet) × Reading :=
  match grammars with
  | .error f => (.error f, r)
  | .ok (g, s) =>
    match Grammar.parseText host (p.element g) text false { s with host := r } with
    | .ok id s =>
      (.ok (((s.records[id]?).map (·.items.toList)).getD [] |>.map (sheetAt s 100)), s.host)
    | .error f s => (.error f, s.host)

end Plainsong.Abc
