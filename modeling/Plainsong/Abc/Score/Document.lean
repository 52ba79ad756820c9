import Plainsong.Abc.Lyrics
import Plainsong.Abc.Score.Part
import Plainsong.Abc.Source
/- Whole scores: the fields of the header, the voices with their lyrics, and the
   document that is made of them. -/
namespace Plainsong.Abc.Score

open Grammar (Fault)

/-! ## The header -/

def headerField (start : Table String String) (n : Node) : ScoreM (Table String String) := do
  match n.texts with
  | kind :: raw :: more =>
    let value := raw.replace "%5d" "]"
    if value.isEmpty then return start
    match kind with
    | "M" | "K" | "Q" => return start.put kind value
    | "L" =>
      let unit ← (match unitLength? raw with
        | some u => return u
        | none => do
          warn ("illegal unit length:" ++ raw ++ ", 1/8 assumed")
          return [1, 8])
      match allowedUnit? unit with
      | some u => modify fun s => { s with unit := u }
      | none =>
        warn ("L:" ++ raw ++ " is not allowed, 1/8 assumed")
        modify fun s => { s with unit := (1, 8) }
      return start
    | "T" =>
      modify fun s => { s with title := if s.title.isEmpty then value else s.title ++ "\n" ++ value }
      return start
    | "U" =>
      match more with
      | [] => throw .outOfRange
      | sign :: _ =>
        modify fun s => { s with
          converter.symbols := s.converter.symbols.put value (Text.trimChars ['!', '+'] sign) }
        return start
    | "I" =>
      let _ ← directive none value 0
      return start
    | _ =>
      if Text.has "CRZNOAGHBDFSP" kind then
        let s ← get
        let kind := (s.converter.metadataFor.find? kind).getD kind
        modify fun s => { s with metadata := Gathering.note kind value s.metadata }
      else warn ("skipped header: " ++ n.shown)
      return start
  | _ => throw .outOfRange

/-! ## Voices -/

/-- A voice that has been read: its definition, if its music starts with one, and
    its measures. -/
structure Voice where
  name : String
  definition : Option Node
  measures : List (List Node)

/-- Deals out the lyrics below each stretch of music. Nodes come with the number
    of their measure; `waiting` are those since the last lyrics, latest first. -/
def singAlong : List (Nat × Node) → List (Nat × Node) → List (Nat × Node)
  | [], waiting => waiting.reverse
  | (m, n) :: rest, waiting =>
    if n.name = "lyr_blk" then
      let nodesIn (n : Node) : List Node := n.items.filterMap fun
        | .inl x => some x
        | .inr _ => none
      let lines := (nodesIn n).map nodesIn
      let music := waiting.reverse
      let sung := dealLyrics (music.map (·.2)) lines
      (music.map (·.1)).zip sung ++ (m, n) :: singAlong rest []
    else singAlong rest ((m, n) :: waiting)

def withLyrics (measures : List (List Node)) : List (List Node) :=
  let flat := measures.zipIdx.flatMap fun (ns, i) => ns.map fun n => (i, n)
  let sung := singAlong flat []
  (List.range measures.length).map fun i => (sung.filter (·.1 == i)).map (·.2)

def dropOpening (measures : List (List Node)) : List (List Node) :=
  match measures.getLast? with
  | some last =>
    if (last.getLast?.map (·.name)) = some "lbar" && 1 < measures.length then measures.dropLast else measures
  | none => measures

def Voice.ofSheets (name : String) (sheets : List Sheet) : Except Fault Voice := do
  let measures := sheets.map fun
    | .list xs => xs.filterMap fun
      | .node n => some n
      | _ => none
    | _ => []
  let measures := withLyrics measures
  let measures :=
    if measures.isEmpty then [[{ name := "inline", leaves := [.text "I", .text "empty voice"] }]] else measures
  match dropOpening measures with
  | (first :: more) :: rest =>
    if first.name = "inline" && first.text = "V" then
      return { name, definition := some first, measures := more :: rest }
    else return { name, definition := none, measures := (first :: more) :: rest }
  | _ => .error .outOfRange

/-! ## Reading -/

def lineBreakOff : Matcher := Matcher.of "I:linebreak\\s*([!$]|none)|I:continueall\\s*(1|true)"
def lineField : Matcher := Matcher.of "\\[[wA-Z]:[^]]*\\]"

def markLineEnds (music : String) : String :=
  "\n".intercalate ((Text.lines music).map fun line =>
    if (Text.trim (lineField.replace line fun _ _ => "")).isEmpty then line
    else Text.trimEndChars ['$', '!'] line ++ "$")

def symbolField : Matcher := Matcher.of "\\[U:"
def headerOnlyField : Matcher := Matcher.of "\\[[OAPZNGHRBDFSXTCIU]:"

def reportFailure (f : Grammar.Failure) : ScoreM Unit := do
  let f := if 40 < f.loc then { f with text := f.text.extract (f.loc - 40) (f.loc + 40), loc := 40 } else f
  let column := f.column
  let here := Text.behind (column - 1) f.line
  say f.line false
  say (String.ofList (List.replicate (column - 1) '-') ++ "^") false
  if symbolField.occursIn here then
    say ("Error: illegal user defined symbol: " ++ Text.behind 1 here) false
  else if headerOnlyField.occursIn here then
    say ("Error: header-only field " ++ Text.behind 1 here ++ " appears after K:") false
  else say ("Syntax error at column " ++ toString column) false

def readPart (p : Part) (text : String) : ScoreM (List Sheet) := do
  let (result, reading) := read p text (← get).converter.reading
  modify fun s => { s with converter.reading := reading }
  match result with
  | .ok sheets => return sheets
  | .error f =>
    if let .mismatch g := f then reportFailure g
    throw f

def setsTab (n : Node) : Bool := n.text = "K" && Text.has (n.texts.getD 1 "") "tab"

def readVoice (header : List Node) (breakLines : Bool) (name music : String) : ScoreM Voice := do
  let music := if breakLines then markLineEnds music else music
  modify fun s => { s with converter.reading.highFirst :=
    s.forceStrings && (Text.has (Text.first 200 music) "tab" || header.any setsTab) }
  let sheets ← readPart .voice music
  liftExcept (Voice.ofSheets name sheets)

/-! ## Names and layout -/

def voiceNameSign : Matcher := Matcher.of "(?:name|nm)=\"([^\"]*)\""
def voiceShortSign : Matcher := Matcher.of "(?:subname|snm|sname)=\"([^\"]*)\""

def defineVoice (v : Voice) : ScoreM VoiceDef := do
  match v.definition with
  | none => return { name := "", short := "", rest := "" }
  | some d =>
    match d.texts with
    | _ :: given :: text :: _ =>
      if v.name ≠ given then
        warn ("voice ids unequal: " ++ v.name ++ " (reg-ex) != " ++ given ++ " (grammar)")
      let name := ((voiceNameSign.texts? text).map fun g => g.getD 1 "").getD ""
      let short := ((voiceShortSign.texts? text).map fun g => g.getD 1 "").getD ""
      let rest := (text.replace ("\"" ++ name ++ "\"") "\"\"").replace ("\"" ++ short ++ "\"") "\"\""
      return { name, short, rest }
    | _ => throw .outOfRange

def layoutsIn (v : Voice) : List String :=
  (v.measures.flatten.filter fun n => n.name = "inline").filterMap fun n =>
    let text := n.texts.getD 1 ""
    if text.startsWith "score" || text.startsWith "staves" then some (text.replace "%5d" "]") else none

def defineVoices : List Voice → VoiceDefs → ScoreM VoiceDefs
  | [], defs => pure defs
  | v :: rest, defs => do
    let d ← defineVoice v
    modify fun s => { s with layoutDefs := s.layoutDefs ++ layoutsIn v }
    defineVoices rest (defs.put v.name d)

def readLayout (defs : VoiceDefs) : ScoreM VoiceDefs := do
  let s ← get
  let (result, reading) := Layout.read s.layoutDefs defs s.converter.reading
  modify fun s => { s with converter.reading := reading }
  let (layout, defs) ← liftExcept result
  modify fun s => { s with layout }
  if !s.layoutDefs.isEmpty then
    modify fun s => { s with converter.firstStaffNumber := some layout.staffNumber }
  return defs

/-! ## Identification and page -/

def identification (score : Nat) (level : Int) : ScoreM Unit := do
  let s ← get
  if !s.title.isEmpty then
    let lines := s.title.splitOn "\n"
    let work ← addNew score "work" [] (level + 1)
    let more := "\n".intercalate (lines.drop 1)
    if !more.isEmpty then
      let _ ← addText work "work-number" more (level + 2)
    let _ ← addText work "work-title" (lines.getD 0 "") (level + 2)
  let ident ← addNew score "identification" [] (level + 1)
  for (kind, value) in s.metadata do
    if metadataKinds.contains kind && kind ≠ "rights" then
      let c ← elem "creator" [("type", kind)]
      setText c value
      addElem ident c (level + 2)
  if let some rights := s.metadata.find? "rights" then
    let _ ← addText ident "rights" rights (level + 2)
  let encoding ← addNew ident "encoding" [] (level + 2)
  let _ ← addText encoding "encoder" "abc2xml version 245" (level + 3)
  if s.hasLineBreaks then
    let _ ← addNew encoding "supports"
      [("attribute", "new-system"), ("element", "print"), ("type", "yes"), ("value", "yes")] (level + 3)
  let _ ← addText encoding "encoding-date" "2000-01-01" (level + 3)
  let misc ← elem "miscellaneous" []
  let sorted := s.metadata.mergeSort fun a b => decide (a.1 ≤ b.1)
  for (kind, value) in sorted do
    if kind = "S" then
      let _ ← addText ident "source" value (level + 2)
    else if !metadataKinds.contains kind then
      match fieldNames.find? kind with
      | none => throw .unknownName
      | some name =>
        let f ← elem "miscellaneous-field" [("name", name)]
        setText f value
        addElem misc f (level + 3)
  if !(← element misc).children.isEmpty then addElem ident misc (level + 2)

def pageFormat (score : Nat) (level : Int) : ScoreM Unit := do
  let s ← get
  let format := if !s.converter.givenPage.isEmpty then s.converter.givenPage
    else if s.usesPage then s.converter.page else []
  match format with
  | [size, height, width, left, right, top, bottom] =>
    let millimeters := 4.0 * (size * 2.117)
    if millimeters == 0.0 then throw .dividedByZero
    let scale := 40.0 / millimeters
    let text (x : Float) := Decimal.general (x * scale)
    let e ← addNew score "defaults" [] level
    let scaling ← addNew e "scaling" [] (level + 1)
    let _ ← addText scaling "millimeters" (Decimal.general millimeters) (level + 2)
    let _ ← addText scaling "tenths" "40" (level + 2)
    let page ← addNew e "page-layout" [] (level + 1)
    let _ ← addText page "page-height" (text height) (level + 2)
    let _ ← addText page "page-width" (text width) (level + 2)
    let margins ← addNew page "page-margins" [("type", "both")] (level + 2)
    let _ ← addText margins "left-margin" (text left) (level + 3)
    let _ ← addText margins "right-margin" (text right) (level + 3)
    let _ ← addText margins "top-margin" (text top) (level + 3)
    let _ ← addText margins "bottom-margin" (text bottom) (level + 3)
  | [] => pure ()
  | _ => throw .refusedValue

/-! ## The score -/

/-- How a tune is converted. -/
structure Options where
  withRests : Bool := false
  /-- Lines of the score break where lines of the music end. -/
  breakLines : Bool := false
  /-- Strings and frets are allotted on tablatures. -/
  forceStrings : Bool := false
deriving Inhabited

def writeVoices (o : Options) (defs : VoiceDefs) :
    List Voice → Table String String → List (String × Nat) → ScoreM (List (String × Nat))
  | [], _, parts => pure parts
  | v :: rest, start, parts => do
    match defs.find? v.name with
    | none => throw .unknownName
    | some d =>
      let start := start.put "V" d.rest
      let s ← get
      match s.layout.partOf.find? v.name with
      | none => throw .unknownName
      | some partName =>
        modify fun s => { s with
          voice := v.name, part := partName, time := (0, 0), strings := s.strings.rewind }
        let p ← writePart v.measures ("P" ++ v.name) 1 start ((s.layout.staffCount.find? v.name).getD 0) o.withRests
        let s ← get
        let id := "I" ++ s.part ++ "-" ++ s.voice
        if s.program ≠ {} && !s.isPercussion && !s.instruments.holds id then
          let i : Instrument :=
            { part := s.part, voice := s.voice, channel := s.program.channel, program := s.program.program
              volume := s.program.volume, pan := s.program.pan }
          modify fun s => { s with instruments := s.instruments.put id i }
        writeVoices o defs rest (start.erase "Q") (parts ++ [(v.name, p)])

def write (o : Options) (t : Tune) : ScoreM Nat := do
  modify fun s => { s with metadata := t.metadata }
  let breakLines := o.breakLines && !lineBreakOff.occursIn t.header
  let header := (← readPart .header t.header).filterMap fun
    | .node n => some n
    | _ => none
  let voices ← t.voices.mapM fun (name, music) => readVoice header breakLines name music
  let score ← elem "score-partwise" []
  let start ← header.foldlM headerField [("Div", toString divisions), ("K", "C treble"), ("M", "4/4")]
  let defs ← defineVoices voices []
  let defs ← readLayout defs
  let parts ← writeVoices o defs voices start []
  let names : Table String (String × String) := defs.map fun (v, d) => (v, (d.name, d.short))
  let s ← get
  let merged ← mergeParts parts s.layout.staves o.withRests false
  let merged ← mergeParts merged s.layout.grands o.withRests true
  for (name, p) in merged do
    reduceInstruments name p
  identification score 0
  pageFormat score 1
  let list ← partList (parts.map (·.1)) names 1
  addElem score list 1
  for (_, p) in merged do
    addElem score p 1
  return score

end Plainsong.Abc.Score
