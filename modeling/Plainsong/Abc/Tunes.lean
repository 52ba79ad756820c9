import Plainsong.Abc.Score.Document
import Plainsong.Xml.Print
/- Texts with one or more tunes, and the documents that are made of them. -/
namespace Plainsong.Abc

open Grammar (Fault)

/-- A score with the store that holds its elements. -/
structure Sheetmusic where
  tree : Xml.Tree
  root : Nat

namespace Converter

def convert (c : Converter) (o : Score.Options) (text : String) : Except Fault Sheetmusic × Converter :=
  let text := text.replace "[I:staff " "[I:staff"
  let c := { c with reading.highFirst := false }
  match Tune.split ((c.metadataFor.find? "W").getD "W") text with
  | .error f => (.error f, c)
  | .ok tune =>
    match Score.write o tune { converter := c, forceStrings := o.forceStrings } with
    | .ok root s => (.ok ⟨s.tree, root⟩, s.converter)
    | .error f s => (.error f, s.converter)

def say (c : Converter) (message : String) (warn : Bool) : Converter :=
  { c with reading := c.reading.say message warn }

def messages (c : Converter) : List String := c.reading.messages.reverse

def forget (c : Converter) : Converter := { c with reading.messages := [] }

end Converter

def elementInt (t : Xml.Tree) (id : Nat) : Int :=
  (Text.readInt ((t.get id).text.getD "").toList).getD 0

def durationDivisor (durations : List Int) : Int :=
  match durations ++ [21] with
  | [] => 21
  | d :: rest => rest.foldl commonDivisor d

/-- Divides all durations of a score, and what they are counted in, by their
    common divisor. What a part counts in is divided once for each place at
    which the part stands. -/
def Sheetmusic.reduce (m : Sheetmusic) : Sheetmusic :=
  let durations := m.tree.withTag m.root "duration"
  let d := durationDivisor (durations.map (elementInt m.tree))
  let set (t : Xml.Tree) (id : Nat) (n : Int) : Xml.Tree :=
    t.change id fun e => { e with text := some (toString (n.fdiv d)) }
  let tree := durations.foldl (fun t id => set t id (elementInt m.tree id)) m.tree
  { m with tree := (tree.withTag m.root "divisions").foldl (fun t id => set t id (elementInt t id)) tree }

def Sheetmusic.document (m : Sheetmusic) : String := m.tree.document m.root

def tuneStart : Matcher := (Matcher.read "^\\s*X:" { multiline := true }).getD (Matcher.of "X:")

def splitTunes (text : String) : List String :=
  match tuneStart.split text with
  | preamble :: tunes =>
    if tunes.isEmpty && !preamble.isEmpty then ["X:1\n" ++ preamble]
    else tunes.map fun t => preamble ++ "X:" ++ t
  | [] => []

namespace Converter

/-- Converts tunes one after the other; those that fail are left out. A tune
    that cannot be read has been reported; other failures are reported here. -/
def convertAll (o : Score.Options) : List String → Converter → List Sheetmusic × Converter
  | [], c => ([], c)
  | t :: rest, c =>
    match c.convert o t with
    | (.ok m, c) =>
      let (ms, c) := convertAll o rest c
      (m.reduce :: ms, c)
    | (.error (.mismatch _), c) => convertAll o rest c
    | (.error _, c) => convertAll o rest (c.say "an exception occurred." true)

def convertText (o : Score.Options) (skip count : Int) (text : String) (c : Converter) :
    List Sheetmusic × Converter :=
  let tunes := splitTunes text
  let wanted := tunes.zipIdx.filterMap fun (t, i) =>
    if skip ≤ i && (i : Int) < skip + count then some t else none
  convertAll o wanted c

end Converter

end Plainsong.Abc
