import Plainsong.Abc.Include
import Plainsong.Command.Glob
import Plainsong.Command.Run
import Plainsong.Command.Switches
/- The command that converts tunes in ABC into documents in MusicXML. -/
namespace Plainsong.Command.Convert

open Abc (Converter Sheetmusic)

/-! ## Texts -/

def usage (program : String) : String :=
  "Usage: " ++ program ++ " [-h] [-r] [-t] [-b] [-m SKIP NUM] [-o DIR] [-p PFMT] [-z MODE] [--meta MAP] <file1> [<file2> ...]\n"

def help (program : String) : String :=
  usage program ++ "\n".intercalate [
    "",
    "Options:",
    "  --version            show program's version number and exit",
    "  -h, --help           show this help message and exit",
    "  -o DIR               store xml files in DIR",
    "  -m SKIP NUM          skip SKIP (0) tunes, then read at most NUM (1) tunes",
    "  -p PFMT              pageformat PFMT (mm) = scale (0.75), pageheight (297),",
    "                       pagewidth (210), leftmargin (18), rightmargin (18),",
    "                       topmargin (10), botmargin (10)",
    "  -z MODE, --mxl=MODE  store as compressed mxl, MODE = a(dd) or r(eplace)",
    "  -r                   show whole measure rests in merged staffs",
    "  -t                   use tune title as file name",
    "  -b                   line break at EOL",
    "  --meta=MAP           map infofields to XML metadata, MAP =",
    "                       R:poet,Z:lyricist,N:...",
    "  -f                   force string/fret allocations for tab staves",
    ""]

def version : String := "version 245"

def refuse {α : Type} (program message : String) : Run α := do
  Run.printError (usage program ++ "\n" ++ program ++ ": error: " ++ message ++ "\n")
  Run.exit 2

/-! ## Writing documents -/

/-- How documents are written: plain, compressed, or both. -/
structure Manner where
  /-- the directory; without one documents are printed -/
  directory : String := ""
  /-- the mode of compression, empty for none -/
  archive : String := ""
  /-- whether documents are named by their titles -/
  byTitle : Bool := false

def containerText (name : String) : String :=
  "\n".intercalate [
    Xml.declaration,
    "<container><rootfiles>",
    "<rootfile full-path=\"" ++ name ++ "\" media-type=\"application/vnd.recordare.musicxml+xml\"/>",
    "</rootfiles></container>"]

def documentName (m : Manner) (path number : String) (score : Sheetmusic) : String :=
  if m.byTitle then
    let title := (score.tree.textAt? score.root ["work", "work-title"]).getD "no_title"
    title.map fun c => if c = ',' || c = '\'' || c = '?' then '_' else c
  else Path.name path ++ number

def written (path : String) : Run Unit := Run.printError (path ++ " written\n")

def writeDocument (m : Manner) (path number : String) (score : Sheetmusic) : Run Unit := do
  let name := documentName m path number score
  let text := score.document
  if m.directory.isEmpty then Run.print (text ++ "\n")
  else
    if m.archive.isEmpty || m.archive = "a" || m.archive = "add" then
      let file := Path.join m.directory (name ++ ".xml")
      Run.writeContent file (.bytes text.toUTF8)
      written file
    if !m.archive.isEmpty then
      let file := Path.join m.directory (name ++ ".mxl")
      Run.writeContent file
        (.archive [("META-INF/container.xml", containerText (name ++ ".xml")), (name ++ ".xml", text)])
      written file

def report (c : Converter) : Run Converter := do
  Run.printError (String.join c.messages)
  return c.forget

def convertOne (m : Manner) (o : Abc.Score.Options) (path text : String) : Run Unit := do
  let (result, c) := ({} : Converter).convert o text
  let _ ← report c
  match result with
  | .ok score => writeDocument m path "" score
  | .error f => Run.stop (.tune f)

/-! ## The command -/

def switches : List Switch := [
  { long := some "--version", name := "version" },
  { short := some 'h', long := some "--help", name := "help" },
  { short := some 'o', count := 1, name := "directory" },
  { short := some 'm', count := 2, whole := true, name := "range" },
  { short := some 'p', count := 1, name := "page" },
  { short := some 'z', long := some "--mxl", count := 1, name := "archive" },
  { short := some 'r', name := "rests" },
  { short := some 't', name := "title" },
  { short := some 'b', name := "breaks" },
  { long := some "--meta", count := 1, name := "metadata" },
  { short := some 'f', name := "strings" }]

def metadataFields : String := "OAZNGHRBDFSPW"

def prepare (program : String) (a : Switched) : Run Manner := do
  let archive := a.value "archive"
  if !archive.isEmpty && !(["a", "add", "r", "replace"].contains archive) then
    refuse program ("MODE should be a(dd) or r(eplace), not: " ++ archive)
  let directory := a.value "directory"
  if !directory.isEmpty then
    let w ← get
    if !w.disk.pathExists directory then
      set { w with disk := ← Run.ofDisk (w.disk.makeDirectory directory) }
    if !(← Run.isDirectory directory) then refuse program (directory ++ " is not a directory")
  return { directory, archive, byTitle := a.has "title" }

def pageFormat (program text : String) : Run (List Float) := do
  if text.isEmpty then return []
  let values ← (text.splitOn ",").mapM fun s =>
    match Decimal.read? s with
    | some x => (return x : Run Float)
    | none => refuse program ("could not convert string to float: " ++ Text.quoted s)
  if values.length ≠ 7 then refuse program "-p needs 7 values"
  return values

def metadataMap (program text : String) (table : Table String String) : Run (Table String String) :=
  ((text.splitOn ",").filter fun s => !s.isEmpty).foldlM (fun table s =>
    match s.splitOn ":" with
    | [field, tag] => do
      if !Text.has metadataFields field then
        refuse program ("--meta: field " ++ field ++ " is no valid ABC field")
      if !Abc.metadataKinds.contains tag then
        refuse program ("--meta: tag " ++ tag ++ " is no valid XML creator type")
      return table.put field tag
    | _ => refuse program ("--meta: " ++ s ++ " cannot be split on colon")) table

def twoDigits (n : Nat) : String := if n < 10 then "0" ++ toString n else toString n

def tuneRange (a : Switched) : Int × Int :=
  match ((a.given.find? "range").getD []).mapM Switched.numeral? with
  | some [skip, count] => (skip, count)
  | _ => (0, 1)

def convertFile (m : Manner) (o : Abc.Score.Options) (range : Int × Int) (c : Converter) (path : String) :
    Run Converter := do
  let w ← get
  let (stem, extension) := Path.splitExtension path
  if !Text.has ".abc" (Text.lower extension) then
    report (c.say ("skipped input file " ++ path ++ ", it should have extension .abc") true)
  else if w.disk.pathIsDirectory path then
    report (c.say ("skipped directory " ++ path ++ ". Only files are accepted") true)
  else
    let (text, c) := c.readFile w.disk w.input path "read error: "
    match text with
    | none => do
      let _ ← report c
      Run.stop (.tune .noProperty)
    | some text =>
      let (scores, c) := c.scores w.disk w.input o range.1 range.2 text
      let c ← report c
      scores.zipIdx.forM fun (score, i) =>
        writeDocument m stem (if 1 < scores.length then twoDigits (i + 1) else "") score
      return c

def convert (program : String) (a : Switched) : Run Unit := do
  if a.operands.isEmpty then refuse program "no input file given"
  let m ← prepare program a
  let givenPage ← pageFormat program (a.value "page")
  let start : Converter := {}
  let metadataFor ← metadataMap program (a.value "metadata") start.metadataFor
  let w ← get
  let paths := a.operands.flatMap fun p => if p = "-" then [Abc.inputName] else Glob.expand w.disk p
  if paths.isEmpty then refuse program "none of the input files exist"
  let o : Abc.Score.Options :=
    { withRests := a.has "rests", breakLines := a.has "breaks", forceStrings := a.has "strings" }
  let c ← paths.foldlM (convertFile m o (tuneRange a)) { start with givenPage, metadataFor }
  discard (report (c.say "done" true))

def run (program : String) (args : List String) : Run Unit :=
  match Switched.read switches args with
  | .error .help => do
    Run.print (help program)
    Run.exit 0
  | .error .version => do
    Run.print (version ++ "\n")
    Run.exit 0
  | .error (.refused message) => refuse program message
  | .ok a => convert program a

end Plainsong.Command.Convert
