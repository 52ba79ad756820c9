import Plainsong.Abc.Score.Field
import Plainsong.Abc.Score.Note
/- Measures: bar lines with repeats and endings, directions, chord symbols, and
   the notes between them. -/
namespace Plainsong.Abc.Score

open Grammar (Fault)

/-! ## Bar lines -/

/-- What a bar line looks like and does. -/
structure Bar where
  location : String
  style : String := ""
  /-- The direction in which it repeats, if it does. -/
  repeats : String := ""
  /-- The ending that starts at it, if one does. -/
  ending : String := ""

/-- Stops the open ending: on this bar line if it is a right one, else on a new
    right bar line of the measure before. -/
def stopEnding (barline : Nat) (location : String) (level : Int) : ScoreM Unit := do
  let s ← get
  if !s.volta.isEmpty then
    let e ← elem "ending" [("number", s.volta), ("type", "stop")]
    modify fun s => { s with volta := "" }
    if location = "left" then
      let b ← elem "barline" [("location", "right")]
      addElem b e (level + 1)
      match s.lastMeasure with
      | some m => addElem m b level
      | none => throw .wrongKind
    else addElem barline e (level + 1)

def startEnding (barline : Nat) (ending : String) (level : Int) : ScoreM Unit := do
  let ending := ending.replace "-" ","
  let isText := ending.startsWith "\""
  let number := if isText then "33" else ending
  let text := if isText then Text.trimChars ['"'] ending else ""
  let e ← elem "ending" [("number", number), ("type", "start")]
  if !text.isEmpty then setText e text
  addElem barline e level
  modify fun s => { s with volta := number }

def barLine (measure : Nat) (b : Bar) (level : Int) : ScoreM Unit := do
  let e ← elem "barline" [("location", b.location)]
  if !b.style.isEmpty then
    let _ ← addText e "bar-style" b.style (level + 1)
  stopEnding e b.location level
  if !b.ending.isEmpty then startEnding e b.ending (level + 1)
  if !b.repeats.isEmpty then
    let _ ← addNew e "repeat" [("direction", b.repeats)] (level + 1)
  addElem measure e level

def leftBar? (leaves : List String) : Option Bar :=
  match leaves with
  | [] => none
  | sign :: more =>
    if sign = "|" || sign = "[|" then none
    else if Text.has sign ":" then
      let ending := match more with
        | [volta] => volta
        | _ => ""
      some { location := "left", style := "heavy-light", repeats := "forward", ending }
    else some { location := "left", ending := sign }

/-- The bar line at the end of a measure, if one is to be written. A plain bar
    line is written only to stop an ending. -/
def rightBar? (stopVolta : Bool) (sign : String) : Option Bar :=
  let right (style repeats : String) : Option Bar := some { location := "right", style, repeats }
  if sign = ".|" then right "dotted" ""
  else if Text.has sign ":" then right "light-heavy" "backward"
  else if sign = "||" then right "light-light" ""
  else if sign = "[|]" || sign = "[]" then right "none" ""
  else if Text.has sign "[" || Text.has sign "]" then right "light-heavy" ""
  else if sign = "|" && stopVolta then right "regular" ""
  else none

/-! ## Directions -/

def addLeap (measure : Nat) (l : Leap) (sign : Nat) (level : Int) : ScoreM Unit := do
  let direction ← addDirection measure [(sign, [])] level (← staff) "above" false
  let sound ← elem "sound" [(l.sound, l.value)]
  addElem direction sound (level + 1)

def staffDecoration (measure : Nat) (level : Int) (sign : String) : ScoreM Unit := do
  let d ← meaning sign
  let staff ← staff
  let simple (e : Nat) (placement : String) : ScoreM Unit := do
    let _ ← addDirection measure [(e, [])] level staff placement false
  if dynamics.contains d then
    let e ← elem "dynamics" []
    let _ ← addDirection measure [(e, [← elem d []])] level staff "below" (← get).isCue
  else if wedges.contains d then
    let kind := if Text.has d ")" then "stop"
      else if Text.has d "<" || Text.has d "crescendo" then "crescendo" else "diminuendo"
    simple (← elem "wedge" [("type", kind)]) "below"
  else if d.startsWith "8v" then
    let (kind, placement) := if Text.has d "a" then ("down", "above") else ("up", "below")
    let kind := if Text.has d ")" then "stop" else kind
    simple (← elem "octave-shift" [("type", kind), ("size", "8")]) placement
  else if d = "ped" || d = "ped-up" then
    simple (← elem "pedal" [("type", if d = "ped-up" then "stop" else "start")]) "below"
  else match leaps.find? d with
    | some l =>
      let sign ← if d = "coda" || d = "segno" then elem l.text [] else elemWithText "words" l.text
      addLeap measure l sign level
    | none =>
      if d = "(" || d = ".(" then modify fun s => { s with slurStarts := s.slurStarts ++ [d] }
      else if ["/-", "//-", "///-", "////-"].contains d then
        modify fun s => { s with
          tupletCount := 2, tupletInto := 1, tupletLeft := 2, tremolo := d.length - 1, inTremolo := true }
      else if ["/", "//", "///"].contains d then modify fun s => { s with tremolo := -d.length }
      else if d = "rbstop" then modify fun s => { s with stopVolta := true }
      else modify fun s => { s with nextDecorations := s.nextDecorations ++ [d] }

/-! ## Chord symbols -/

def chordAlter : String → String
  | "#" => "1"
  | "b" => "-1"
  | _ => "0"

def addChordStep (parent : Nat) (tag : String) (n : Node) (level : Int) : ScoreM Unit := do
  let e ← addNew parent tag [] level
  let _ ← addText e (tag ++ "-step") n.text (level + 1)
  match n.texts with
  | [_, sign] =>
    let _ ← addText e (tag ++ "-alter") (chordAlter sign) (level + 1)
  | _ => pure ()

def chordSymbol (measure : Nat) (n : Node) (level : Int) : ScoreM Unit := do
  let e ← addNew measure "harmony" [] level
  match n.one? "root" with
  | some r => addChordStep e "root" r (level + 1)
  | none => throw .noProperty
  let kind := match (n.one? "kind").bind Node.text? with
    | some sign => (chordKinds.find? sign).getD "major"
    | none => "major"
  let _ ← addText e "kind" kind (level + 1)
  if let some b := n.one? "bass" then addChordStep e "bass" b (level + 1)
  for d in n.get "degree" do
    let sign := Text.first 1 d.text
    let (alter, value) :=
      if sign = "#" then ("1", Text.behind 1 d.text)
      else if sign = "b" then ("-1", Text.behind 1 d.text)
      else ("0", d.text)
    let x ← addNew e "degree" [] (level + 1)
    let _ ← addText x "degree-value" value (level + 2)
    let _ ← addText x "degree-alter" alter (level + 2)
    let _ ← addText x "degree-type" "add" (level + 2)

/-! ## Measures -/

def startTuplet (leaves : List Leaf) : ScoreM Unit := do
  let ns := leaves.map Leaf.asInt
  let count := ns.getD 0 0
  let into := ns.getD 1 0
  let notes := ns.getD 2 0
  let into := if into = 0 then (if count = 2 || count = 4 || count = 8 then 3 else 2) else into
  let notes := if notes = 0 then count else notes
  modify fun s => { s with tupletCount := count, tupletInto := into, tupletLeft := notes }

def addLineBreak (measure : Nat) (level : Int) : ScoreM Unit := do
  let _ ← addNew measure "print" [("new-system", "yes")] level

/-- Writes one node of a measure; `atStart` tells that a left bar line stands
    before it. The answer tells whether the next measure is laid over this one. -/
def measureNode (measure : Nat) (level : Int) (atStart : Bool) (n : Node) : ScoreM Bool := do
  match n.name with
  | "note" | "rest" =>
    let n := match n.duration? with
      | some (0, den) => n.withDuration 1 den
      | _ => n
    addElem measure (← note n level) level
    return false
  | "lbar" =>
    match n.leaves with
    | [] => throw .outOfRange
    | _ => if let some b := leftBar? n.texts then barLine measure b level
    return false
  | "rbar" =>
    match n.text? with
    | none => throw .outOfRange
    | some sign =>
      match rightBar? (← get).stopVolta sign with
      | some b =>
        barLine measure b level
        return false
      | none => return sign.startsWith "&"
  | "tup" =>
    startTuplet n.leaves
    return false
  | "deco" =>
    for d in n.texts do
      staffDecoration measure level d
    return false
  | "text" =>
    let placement := if n.text = "^" then "above" else "below"
    let words ← elemWithText "words" (n.texts.getD 1 "")
    let _ ← addDirection measure [(words, [])] level (← staff) placement false
    return false
  | "inline" =>
    fields measure [(n.text, " ".intercalate (n.texts.drop 1))] level
    return false
  | "accia" =>
    modify fun s => { s with acciaccatura := true }
    return false
  | "linebrk" =>
    modify fun s => { s with hasLineBreaks := true }
    if atStart then addLineBreak measure level
    else modify fun s => { s with lineBreak := true }
    return false
  | "chordsym" =>
    chordSymbol measure n level
    return false
  | _ => return false

def measureNodes (measure : Nat) (level : Int) : List Node → Bool → Bool → ScoreM Bool
  | [], _, overlay => pure overlay
  | n :: rest, atStart, overlay => do
    let o ← measureNode measure level atStart n
    measureNodes measure level rest (n.name == "lbar") (overlay || o)

/-- Writes a measure with a number and the fields that hold from its start. The
    answer tells too whether the next measure is laid over it. -/
def measure (number : Nat) (nodes : List Node) (level : Int) (start : Table String String) :
    ScoreM (Nat × Bool) := do
  modify fun s => { s with
    measureAlters := [], tupletLeft := -1, tremolo := 0, inTremolo := false, acciaccatura := false
    stopVolta := false }
  let m ← elem "measure" [("number", toString number)]
  if !start.isEmpty then fields m start (level + 1)
  if (← get).lineBreak then
    addLineBreak m (level + 1)
    modify fun s => { s with lineBreak := false }
  let overlay ← measureNodes m (level + 1) nodes false false
  stopBeams
  modify fun s => { s with lastMeasure := some m }
  return (m, overlay)

end Plainsong.Abc.Score
