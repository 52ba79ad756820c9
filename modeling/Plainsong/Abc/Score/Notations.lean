import Plainsong.Abc.Score.Pitch
/- What is attached to notes: ties, slurs, tuplet brackets, tremolos,
   articulations and ornaments, strings and frets, lyrics and beams. -/
namespace Plainsong.Abc.Score

open Grammar (Fault)

/-! ## Articulations -/

def addIn (notations : Nat) (outer inner : String) (level : Int) : ScoreM Unit := do
  let o ← addNew notations outer [] level
  let _ ← addNew o inner [] (level + 1)

def writtenSound (note : Nat) : ScoreM (Int × Int × String × Int) := do
  let t := (← get).tree
  let alter ← match t.textAt? note ["pitch", "alter"] with
    | some s => if s.isEmpty then pure 0 else readInt s
    | none => pure 0
  match t.textAt? note ["pitch", "step"], t.textAt? note ["pitch", "octave"] with
  | some step, some o =>
    let octave ← readInt o
    let k ← liftExcept (stepSemitones step)
    return (octave * 12 + k + alter + 12, alter, step, octave)
  | _, _ => throw .wrongKind

/-- The outcome of the search for a string: whether the last string tried was
    free, the string found, and the first string on which the note can be
    played. -/
structure StringSearch where
  free : Option Bool
  chosen : String
  firstFit : String := ""

def searchString (sound : Int) (span : Span) : List (Int × Int) → StringSearch → ScoreM StringSearch
  | [], r => pure r
  | (stringSound, number) :: rest, r => do
    if stringSound ≤ sound then
      let (free, strings) ← liftExcept ((← get).strings.take (number - 1) span)
      modify fun s => { s with strings }
      let name := toString number
      let r := { r with free := some free, chosen := name, firstFit := if r.firstFit.isEmpty then name else r.firstFit }
      if free then pure r else searchString sound span rest r
    else searchString sound span rest r

def forceString (name : String) (span : Span) : ScoreM Unit := do
  let n ← readInt name
  let strings ← liftExcept ((← get).strings.force (n - 1) span)
  modify fun s => { s with strings }

def addFret (note technical : Nat) (wanted : String) (free : Option Bool) (level : Int) : ScoreM (Option Bool) := do
  let (sound, alter, step, octave) ← writtenSound note
  let (start, stop) := (← get).time
  let span : Span := ⟨start, stop⟩
  let (name, free) ← (
    if wanted = "0" then do
      let r ← searchString sound span (← get).stringOrder { free, chosen := wanted }
      match r.free with
      | none => throw .unassigned
      | some true => return (r.chosen, r.free)
      | some false =>
        forceString r.firstFit span
        return (r.firstFit, r.free)
    else do
      forceString wanted span
      return (wanted, free))
  let sounds := (← get).stringSounds
  match Strings.place? sounds.length ((← readInt name) - 1) with
  | none => throw .outOfRange
  | some i =>
    let fret := sound - sounds.getD i 0
    if 0 ≤ fret && fret < 25 then
      let _ ← addText technical "fret" (toString fret) (level + 1)
    else
      let sign := if alter = -1 then "b" else if alter = 1 then "#" else ""
      warn ("fret " ++ toString fret ++ " out of range, note " ++ step ++ sign ++ toString octave ++ " on string " ++ name)
    let _ ← addText technical "string" name (level + 1)
    return free

def addArticulation (note notations : Nat) (level : Int) (free : Option Bool) (a : String) :
    ScoreM (Option Bool × List String) := do
  if let some name := articulations.find? a then
    addIn notations "articulations" name level
    return (free, [])
  if let some name := ornaments.find? a then
    addIn notations "ornaments" name level
    return (free, [])
  if a = "trill(" || a = "trill)" then
    let o ← addNew notations "ornaments" [] level
    if a = "trill(" then
      let _ ← addNew o "trill-mark" [] (level + 1)
    let _ ← addNew o "wavy-line" [("type", if a = "trill(" then "start" else "stop")] (level + 1)
    return (free, [])
  if let some name := technicals.find? a then
    addIn notations "technical" name level
    return (free, [])
  if Text.has "0123456" a then
    let t ← addNew notations "technical" [] level
    let s ← get
    if s.tabPart = s.part then
      return (← addFret note t a free level, [])
    else
      let _ ← addText t "fingering" a (level + 1)
      return (free, [])
  return (free, [a])

def addArticulations (note notations : Nat) (level : Int) : List String → Option Bool → ScoreM (List String)
  | [], _ => pure []
  | a :: rest, free => do
    let (free, left) ← addArticulation note notations level free a
    return left ++ (← addArticulations note notations level rest free)

/-! ## Ties, slurs and brackets -/

def slurSigns : List String := ["(", ".(", "(,", "('", ".(,", ".('"]

/-- A line from note to note with a number: a glissando or a slide. The number
    of lines still open is counted; an end without a start writes nothing. -/
def addLine (notations : Nat) (tag lineType : String) (starts : Bool) (count : Int) (level : Int) : ScoreM Int := do
  let (number, count) := if starts then (count + 1, count + 1) else (count, count - 1)
  if count < 0 then return 0
  let _ ← addNew notations tag
    [("line-type", lineType), ("number", toString number), ("type", if starts then "start" else "stop")] level
  return count

/-- Writes the decorations that have notations of their own, notes the starts of
    slurs, and returns the other decorations. -/
def addDecorations (notations : Nat) (level : Int) : List String → ScoreM (List String)
  | [] => pure []
  | d :: rest => do
    let left ← (
      if slurSigns.contains d then do
        modify fun s => { s with slurStarts := s.slurStarts ++ [d] }
        return []
      else if d = "fermata" || d = "H" then do
        let _ ← addNew notations "fermata" [("type", "upright")] level
        return []
      else if d = "arpeggio" then do
        let _ ← addNew notations "arpeggiate" [("number", "1")] level
        return []
      else if d = "~(" || d = "~)" then do
        let count ← addLine notations "glissando" "wavy" (d = "~(") (← get).glissandi level
        modify fun s => { s with glissandi := count }
        return []
      else if d = "-(" || d = "-)" then do
        let count ← addLine notations "slide" "solid" (d = "-(") (← get).slides level
        modify fun s => { s with slides := count }
        return []
      else return [d])
    return left ++ (← addDecorations notations level rest)

def closeSlurs (notations : Nat) (level : Int) : List String → ScoreM Unit
  | [] => pure ()
  | _ :: rest => do
    let s ← get
    match s.slurs.stop? s.overlay with
    | none => pure ()
    | some (n, slurs) =>
      modify fun s => { s with slurs }
      let _ ← addNew notations "slur" [("number", toString n), ("type", "stop")] level
      closeSlurs notations level rest

def openSlurs (notations : Nat) (level : Int) : List String → ScoreM Unit
  | [] => modify fun s => { s with slurStarts := [] }
  | sign :: rest => do
    let s ← get
    let (n, slurs) := s.slurs.start s.overlay
    modify fun s => { s with slurs }
    let e ← elem "slur" [("number", toString n), ("type", "start")]
    if Text.has sign "." then setAttr e "line-type" "dotted"
    if Text.has sign "," then setAttr e "placement" "below"
    if Text.has sign "'" then setAttr e "placement" "above"
    addElem notations e level
    openSlurs notations level rest

def starting (id : Nat) (tag : String) : ScoreM Nat := do
  let t := (← get).tree
  match (t.childrenTagged id tag).find? fun e => (t.get e).attr? "type" == some "start" with
  | some e => return e
  | none => throw .outOfRange

/-- The pitches of the chord that a note starts: `none` if it starts none. A
    chord of one note has no pitch to compare with. -/
def chordPitches (n : Node) : Option (List (String × Int)) :=
  (n.one? "pitches").map fun p =>
    match p.get "pitch" with
    | [_] => []
    | ps => ps.map fun p => match p.leaves.reverse with
      | o :: s :: _ => (s.asText, o.asInt)
      | _ => ("", 0)

def keepsTie (n : Node) (here : Option (String × Int)) (overlay : Int) (key : String × Int) (tie : Tie) : Bool :=
  tie.overlay ≠ overlay
    || (match chordPitches n with
        | some ps => ps.contains key
        | none => false)
    || n.has "chord" || here = some key || n.isGrace

/-- Ties that do not lead to a note of the same pitch become slurs that end
    here. Returns the signs for their ends. -/
def mendTies (n : Node) (here : Option (String × Int)) :
    List ((String × Int) × Tie) → ScoreM (List String)
  | [] => pure []
  | (key, tie) :: rest => do
    let overlay := (← get).overlay
    if keepsTie n here overlay key tie then mendTies n here rest
    else
      warn ("tie between different pitches: " ++ key.1 ++ toString key.2 ++ " converted to slur")
      modify fun s => { s with ties := s.ties.erase key }
      removeElem tie.note (← starting tie.note "tie")
      let e ← starting tie.notations "tied"
      modify fun s => { s with tree := s.tree.change e fun x => { x with tag := "slur" } }
      let (number, slurs) := (← get).slurs.start overlay
      modify fun s => { s with slurs }
      setAttr e "number" (toString number)
      return ")" :: (← mendTies n here rest)

def tieOrder (a b : (String × Int) × Tie) : Bool :=
  a.1.1 < b.1.1 || (a.1.1 == b.1.1 && decide (a.1.2 ≤ b.1.2))

/-- What is known of a note when its notations are written. -/
structure NoteFacts where
  node : Node
  /-- Letter and octave as they are written; none for a rest. -/
  key : Option (String × Int)
  alter : String
  decorations : List String
  /-- The bracket of a tuplet or tremolo that starts or stops here. -/
  bracket : String
  stopsTie : Bool
  element : Nat

/-- Writes the mark of a tremolo or the bracket of a tuplet. Within a tremolo
    only its first and last note have notations: the answer tells whether to go
    on. -/
def addBracket (notations : Nat) (bracket : String) (level : Int) : ScoreM Bool := do
  let s ← get
  if s.tremolo ≠ 0 then
    let bracket := if s.tremolo < 0 then "single" else bracket
    if s.tremolo < 0 then modify fun s => { s with tremolo := -s.tremolo }
    if bracket.isEmpty then return false
    let o ← elem "ornaments" []
    let t ← elem "tremolo" [("type", bracket)]
    setText t (toString (← get).tremolo)
    addElem notations o level
    addElem o t (level + 1)
    if bracket = "stop" || bracket = "single" then modify fun s => { s with tremolo := 0 }
  else if !bracket.isEmpty then
    let t ← elem "tuplet" [("type", bracket)]
    if bracket = "start" then setAttr t "bracket" "yes"
    addElem notations t level
  return true

def shownList (xs : List String) : String := "[" ++ ", ".intercalate (xs.map Text.quoted) ++ "]"

def notations (f : NoteFacts) (level : Int) : ScoreM Unit := do
  let ties := (← get).ties.mergeSort tieOrder
  let added ← mendTies f.node f.key ties
  let ends := ((f.node.one? "slurs").map Node.texts).getD [] ++ added
  let endsSlurs := f.node.has "slurs" || !added.isEmpty
  let tie := f.node.one? "tie"
  let s ← get
  if !(f.stopsTie || tie.isSome || !f.decorations.isEmpty || endsSlurs || !s.slurStarts.isEmpty
      || !f.bracket.isEmpty || s.tremolo ≠ 0) then
    return
  let e ← elem "notations" []
  if !(← addBracket e f.bracket (level + 1)) then return
  if f.stopsTie then
    if let some key := f.key then modify fun s => { s with ties := s.ties.erase key }
    let _ ← addNew e "tied" [("type", "stop")] (level + 1)
  if let some t := tie then
    if let some key := f.key then
      modify fun s =>
        { s with ties := s.ties.put key { alter := f.alter, notations := e, overlay := s.overlay, note := f.element } }
    let x ← elem "tied" [("type", "start")]
    if t.text = ".-" then setAttr x "line-type" "dotted"
    addElem e x (level + 1)
  let left ← addDecorations e (level + 1) f.decorations
  if !left.isEmpty then
    let unhandled ← addArticulations f.element e (level + 1) left none
    if !unhandled.isEmpty then warn ("unhandled note decorations: " ++ shownList unhandled)
  closeSlurs e (level + 1) ends
  openSlurs e (level + 1) (← get).slurStarts
  if !(← element e).children.isEmpty then addElem f.element e level

/-! ## Lyrics -/

def openBlank : Matcher := Matcher.of "(?<!\\\\)~"
def escapedSign : Matcher := Matcher.of "\\\\(.)"

def sung (s : String) : String :=
  let s := openBlank.replace s fun _ _ => " "
  escapedSign.replace s fun text m => (m.group? text 1).getD ""

def addVerse (note : Nat) (level : Int) (verse : Nat) (n : Node) : ScoreM Unit := do
  let e ← elem "lyric" [("number", toString (verse + 1))]
  let keep : ScoreM Unit := do
    addElem note e level
    modify fun s => { s with lastLyric := s.lastLyric.put verse e }
  if n.name = "syl" then
    let dash := n.leaves.length == 2
    let wasOpen := (← get).openDashes.contains verse
    let kind := match dash, wasOpen with
      | true, true => "middle"
      | true, false => "begin"
      | false, true => "end"
      | false, false => "single"
    if dash && !wasOpen then modify fun s => { s with openDashes := verse :: s.openDashes }
    if !dash && wasOpen then modify fun s => { s with openDashes := s.openDashes.erase verse }
    let _ ← addText e "syllabic" kind (level + 1)
    let _ ← addText e "text" (sung n.text) (level + 1)
    keep
  else if n.name = "ext" then
    match (← get).lastLyric.find? verse with
    | none => warn "lyric extend error"
    | some last =>
      match ← child? last "extend" with
      | none =>
        let _ ← addNew last "extend" [("type", "start")] (level + 1)
      | some x =>
        if (← element x).attr? "type" = some "stop" then setAttr x "type" "continue"
      let _ ← addNew e "extend" [("type", "stop")] (level + 1)
      keep

def addVerses (note : Nat) (level : Int) : List Token → Nat → ScoreM Unit
  | [], _ => pure ()
  | .inl n :: rest, i => do
    addVerse note level i n
    addVerses note level rest (i + 1)
  | .inr _ :: _, _ => throw .noProperty

/-! ## Beams -/

def endBeam (note : Nat) : ScoreM Unit := do
  match ← child? note "beam" with
  | none => pure ()
  | some b =>
    match (← element b).text with
    | some "begin" => removeElem note b
    | some "continue" => setText b "end"
    | _ => pure ()

/-- Beams a note with the one before it, unless the beam breaks here; `part` is
    the note's part of four whole notes. Grace notes and notes that join a
    chord are passed over. -/
def beam (n : Node) (note : Nat) (part : Int) (level : Int) : ScoreM Unit := do
  let breaks := ((n.one? "bbrk").map fun b => b.leaves.head? == some (.bool true)).getD false
  if n.has "chord" || n.isGrace then
    modify fun s => { s with graceBreak := s.graceBreak || breaks }
  else
    let breaks := (← get).graceBreak || breaks || part < 32
    modify fun s => { s with graceBreak := false }
    let b ← elemWithText "beam" "begin"
    setAttr b "number" "1"
    if let some last := (← get).lastBeamed then
      if (← child? last "beam").isSome then
        if breaks then
          endBeam last
          modify fun s => { s with lastBeamed := none }
        else setText b "continue"
    if 32 ≤ part && n.name ≠ "rest" then
      addElem note b level
      modify fun s => { s with lastBeamed := some note }

def stopBeams : ScoreM Unit := do
  if let some last := (← get).lastBeamed then
    endBeam last
    modify fun s => { s with lastBeamed := none }

end Plainsong.Abc.Score
