import Plainsong.Abc.Layout
import Plainsong.Abc.Slurs
import Plainsong.Abc.Strings
import Plainsong.Abc.Tables
import Plainsong.Text.Slice
import Plainsong.Xml.Tree
/- The score of a tune while it is written: what has been written so far, and
   what is open, pending or set. -/
namespace Plainsong.Abc

open Grammar (Fault)

/-- What outlives a tune: the meaning of symbols, the kinds of metadata, page
    formats, and the state of the reader with its messages. -/
structure Converter where
  symbols : Table String String := firstSymbols
  /-- The kinds of metadata that fields are taken as. -/
  metadataFor : Table String String := [("C", "composer")]
  page : List Float := firstPage
  /-- A page format that overrides all others, if there is one. -/
  givenPage : List Float := []
  /-- The staff numbers of the last layout, if there was one. -/
  firstStaffNumber : Option (Table String Int) := none
  reading : Reading := {}
deriving Inhabited

/-- An open tie: the alteration of its note, the notations and the note it
    starts at, and its overlay. -/
structure Tie where
  alter : String
  notations : Nat
  overlay : Int
  note : Nat

/-- Channel, program, volume and panning as they were written. -/
structure Program where
  channel : String := ""
  program : String := ""
  volume : String := ""
  pan : String := ""
deriving DecidableEq, Repr, Inhabited

/-- An instrument that is used: part, voice, and how it sounds. -/
structure Instrument where
  part : String
  voice : String
  channel : String
  program : String
  volume : String
  pan : String
deriving DecidableEq, Repr, Inhabited

/-- Where a percussion note stands, the number of its sound, and its head. -/
structure Drum where
  step : String
  octave : Int
  sound : String
  head : String
deriving Inhabited

/-- The score of a tune. -/
structure Score where
  converter : Converter
  tree : Xml.Tree := {}
  -- open matters of the voice
  ties : Table (String × Int) Tie := []
  slurs : Slurs := []
  slurStarts : List String := []
  volta : String := ""
  openDashes : List Nat := []
  lastBeamed : Option Nat := none
  lastLyric : Table Nat Nat := []
  graceBreak : Bool := false
  nextDecorations : List String := []
  chordStemless : Bool := false
  lineBreak : Bool := false
  lastMeasure : Option Nat := none
  overlay : Int := 0
  glissandi : Int := 0
  slides : Int := 0
  acciaccatura : Bool := false
  stopVolta : Bool := false
  -- tuplets and tremolos
  tupletCount : Int := 0
  tupletInto : Int := 0
  tupletLeft : Int := 0
  tremolo : Int := 0
  inTremolo : Bool := false
  tuplet : List (Int × Nat) := []
  irregular : Bool := false
  normalType : String := ""
  -- what fields have set
  unit : Int × Int := (1, 8)
  unitNow : Int × Int := (1, 8)
  keyAlters : Table String String := []
  measureAlters : Table (String × Int) String := []
  measureLength : Int × Int := (4, 4)
  octaveShift : Int := 0
  clef : String := ""
  isCue : Bool := false
  program : Program := {}
  title : String := ""
  metadata : Table String String := []
  hasLineBreaks : Bool := false
  usesPage : Bool := false
  -- layout
  layoutDefs : List String := []
  layout : Layout := {}
  voice : String := ""
  part : String := ""
  -- instruments and percussion
  isPercussion : Bool := false
  drums : Table (String × String × Int) Drum := []
  hasDrumMaps : Bool := false
  instruments : Table String Instrument := []
  -- strings
  forceStrings : Bool := false
  tabPart : String := ""
  tuning : List String := guitar
  capo : Int := 0
  /-- The sounds of the strings, from high to low. -/
  stringSounds : List Int := []
  /-- The sounds of the strings with their numbers, from high to low. -/
  stringOrder : List (Int × Int) := []
  strings : Strings := {}
  noStems : Bool := false
  diatonicFrets : Bool := false
  /-- When the current note starts and stops. -/
  time : Int × Int := (0, 0)
deriving Inhabited

abbrev ScoreM := EStateM Fault Score

def divisions : Int := 2520

namespace Score

/-! ## Elements -/

def newElem (e : Xml.Element) : ScoreM Nat :=
  modifyGet fun s => (s.tree.elements.size, { s with tree := (s.tree.add e).2 })

def elem (tag : String) (attributes : List (String × String)) : ScoreM Nat := newElem { tag, attributes }

def elemWithText (tag text : String) : ScoreM Nat := newElem { tag, text := some text }

def addElem (parent child : Nat) (level : Int) : ScoreM Unit :=
  modify fun s => { s with tree := s.tree.append parent child level }

def addNew (parent : Nat) (tag : String) (attributes : List (String × String)) (level : Int) : ScoreM Nat := do
  let e ← elem tag attributes
  addElem parent e level
  return e

def addText (parent : Nat) (tag text : String) (level : Int) : ScoreM Nat := do
  let e ← elemWithText tag text
  addElem parent e level
  return e

def setAttr (id : Nat) (key value : String) : ScoreM Unit :=
  modify fun s => { s with tree := s.tree.change id (·.setAttr key value) }

def setText (id : Nat) (text : String) : ScoreM Unit :=
  modify fun s => { s with tree := s.tree.change id fun e => { e with text := some text } }

def removeElem (parent child : Nat) : ScoreM Unit :=
  modify fun s => { s with tree := s.tree.remove parent child }

def element (id : Nat) : ScoreM Xml.Element := return (← get).tree.get id

def findAll (id : Nat) (path : List String) : ScoreM (List Nat) := return (← get).tree.findAll id path

def child? (id : Nat) (tag : String) : ScoreM (Option Nat) := return (← get).tree.child? id tag

def readInt (s : String) : ScoreM Int :=
  match Text.readInt (Text.trim s).toList with
  | some n => pure n
  | none => throw .refusedValue

def attrInt (id : Nat) (key : String) : ScoreM Int := do
  match (← element id).attr? key with
  | some s => readInt s
  | none => throw .wrongKind

def textInt (id : Nat) : ScoreM Int := do readInt ((← element id).text.getD "")

/-! ## Directions -/

def addDirection (parent : Nat) (types : List (Nat × List Nat)) (level : Int) (staff : Int) (placement : String)
    (cue : Bool) : ScoreM Nat := do
  let direction ← addNew parent "direction" [("placement", placement)] level
  for (e, inner) in types do
    let type ← addNew direction "direction-type" [] (level + 1)
    addElem type e (level + 2)
    for i in inner do
      addElem e i (level + 3)
  if cue then
    let _ ← addNew direction "level" [("size", "cue")] (level + 1)
  if staff ≠ 0 then
    let _ ← addText direction "staff" (toString staff) (level + 1)
  return direction

/-! ## Messages and state -/

def say (message : String) (warn : Bool) : ScoreM Unit :=
  modify fun s => { s with converter.reading := s.converter.reading.say message warn }

def warn (message : String) : ScoreM Unit := say message true

def liftExcept {α : Type} : Except Fault α → ScoreM α
  | .ok a => pure a
  | .error f => throw f

def lowest (a b : Int) : ScoreM (Int × Int) := liftExcept (simplify a b)

def quotient (a b : Int) : ScoreM Int := if b = 0 then throw .dividedByZero else pure (a.fdiv b)

def staff : ScoreM Int := do
  let s ← get
  return (s.layout.staffNumber.find? s.voice).getD 0

def meaning (decoration : String) : ScoreM String := do
  let s ← get
  return Text.trimChars ['!', '+'] ((s.converter.symbols.find? decoration).getD decoration)

end Score

end Plainsong.Abc
