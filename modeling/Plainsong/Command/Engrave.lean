import Plainsong.Chant.Lilypond
import Plainsong.Chant.Performance
import Plainsong.Command.Arguments
import Plainsong.Command.Run
/- The command that reads a chant and writes it out in the formats asked for. -/
namespace Plainsong.Command.Engrave

open Chant (Score)

def flags : List Flag := [
  ⟨"-h", "--help", .nothing, false⟩,
  ⟨"-i", "--input", .any, false⟩,
  ⟨"-o", "--midi", .oneOrNone, false⟩,
  ⟨"-l", "--lily", .oneOrNone, false⟩,
  ⟨"-c", "--abc", .oneOrNone, false⟩,
  ⟨"-x", "--mxml", .oneOrNone, false⟩,
  ⟨"-e", "--export", .oneOrNone, false⟩,
  ⟨"-m", "--musique", .oneOrNone, false⟩,
  ⟨"-b", "--tab", .oneOrNone, false⟩,
  ⟨"-t", "--tempo", .exactly 1, true⟩,
  ⟨"-d", "--transposition", .exactly 1, true⟩,
  ⟨"-n", "--titre", .exactly 1, false⟩,
  ⟨"-a", "--alerter", .any, false⟩,
  ⟨"-v", "--verbose", .nothing, false⟩]

/-! ## Texts -/

def usage (program : String) : String :=
  let start := "usage: " ++ program ++ " "
  let margin := Text.blanks start.length
  String.join [
    start, "[-h] [-i [INPUT ...]] [-o [MIDI]] [-l [LILY]] [-c [ABC]]\n",
    margin, "[-x [MXML]] [-e [EXPORT]] [-m [MUSIQUE]] [-b [TAB]]\n",
    margin, "[-t TEMPO] [-d TRANSPOSITION] [-n TITRE] [-a [ALERTER ...]]\n",
    margin, "[-v]\n",
    margin, "[entree ...]\n"]

def help (program : String) : String :=
  usage program ++ "\n".intercalate [
    "",
    "positional arguments:",
    "  entree                Fichier gabc à traiter",
    "",
    "options:",
    "  -h, --help            show this help message and exit",
    "  -i [INPUT ...], --input [INPUT ...]",
    "                        Fichier gabc à traiter",
    "  -o [MIDI], --midi [MIDI]",
    "                        Sortie Midi",
    "  -l [LILY], --lily [LILY]",
    "                        Sortie Lilypond",
    "  -c [ABC], --abc [ABC]",
    "                        Sortie ABC",
    "  -x [MXML], --mxml [MXML]",
    "                        Sortie MusicXML",
    "  -e [EXPORT], --export [EXPORT]",
    "                        Ficher texte où exporter les paroles seules",
    "  -m [MUSIQUE], --musique [MUSIQUE]",
    "                        Fichier texte où exporter les notes seules",
    "  -b [TAB], --tab [TAB]",
    "                        Sortie tablature",
    "  -t TEMPO, --tempo TEMPO",
    "                        Tempo en notes par minute",
    "  -d TRANSPOSITION, --transposition TRANSPOSITION",
    "                        Transposition en demi-tons",
    "  -n TITRE, --titre TITRE",
    "                        Titre de la pièce",
    "  -a [ALERTER ...], --alerter [ALERTER ...]",
    "                        Caractères à signaler",
    "  -v, --verbose         Degré de verbosité",
    ""]

def missingText (program : String) : String :=
  "\n".intercalate [
    "Erreur : fichier inexistant",
    "Usage : ",
    "    " ++ program ++ " -i <input.gabc>",
    "          [-o <output.mid>]",
    "          [-l <output.ly>]",
    "          [-c <output.abc>]",
    "          [-x <output.xml>]",
    "          [-e <texte.txt>]",
    "          [-t <tempo>]",
    "          [-d <transposition>]",
    "          [-n <titre>]",
    "          [-a <alertes>]",
    "          [-v]",
    ""]

def headersText (headers : Table String String) : String :=
  "\x7b" ++ ", ".intercalate (headers.map fun (k, v) => Text.quoted k ++ ": " ++ Text.quoted v) ++ "\x7d"

def details (code : String) (s : Score) : String :=
  String.join [
    headersText (Chant.Source.headers code), " \n\n",
    (Chant.Source.body? code).getD "", " \n\n",
    s.lyrics, "\n",
    s.syllablesText, "\n"]

def tablature (s : Score) : Except Datum.Fault String := do
  let lines ← s.allSyllables.mapM fun y => do
    return y.text ++ "\t" ++ (← Chant.Lilypond.neumeText (s.signsOf y.neume))
  let text := ("\n".intercalate lines).replace "\n " "\n//\n"
  return String.ofList (text.toList.dropWhile Text.isBlank)

/-! ## The command -/

def target (path stem extension : String) : Run String := do
  return if ← Run.isDirectory path then Path.join path (stem ++ extension) else path

def textTarget (path : String) : Run String := do
  if ← Run.isDirectory path then Run.stop .noName
  return path

def ofValue {α : Type} : Except Datum.Fault α → Run α
  | .ok a => return a
  | .error f => Run.stop (.chant (.value f))

def readScore (code : String) (transposition : Option Int) : Run Score := do
  let (result, s) := Score.read code transposition
  Run.print s.remarks
  Run.printError s.warnings
  match result with
  | .ok _ => return s
  | .error f => Run.stop (.chant f)

def writeMidi (path : String) (file : Midi.File) : Run Unit := do
  Run.writeBytes path file.header
  Run.writeBytes path (← ofValue (Midi.File.write.run.run file).1)

def writeDocument (path : String) (tune : Chant.Tune) : Run Unit := do
  let (directory, name) := Path.split path
  let name := if name = "-" then "" else name
  let directory := if !name.isEmpty && directory.isEmpty then "." else directory
  match tune.document with
  | .error f => Run.stop (.tune f)
  | .ok text =>
    if directory.isEmpty then Run.print (text ++ "\n")
    else Run.writeText (Path.join directory (Text.exceptLast 4 name ++ ".xml")) text

def tempo : Datum := .int 165

def writeFormats (a : Arguments) (s : Score) (title : Datum) (stem : String) : Run Unit := do
  let wanted (flag : String) : Option String := (a.value? flag).filter fun v => !v.isEmpty
  if let some path := wanted "--midi" then
    let file ← ofValue (Chant.Performance.ofScore s title tempo)
    writeMidi (← target path stem ".mid") file
  if let some path := wanted "--lily" then
    let lily ← ofValue (Chant.Lilypond.ofScore s)
    Run.writeText (← target path stem ".ly") (lily.file title)
  if (wanted "--abc").isSome || (wanted "--mxml").isSome then
    let tune ← ofValue (Chant.Tune.ofScore s title tempo)
    if let some path := wanted "--abc" then
      Run.writeText (← target path stem ".abc") tune.code
    if let some path := wanted "--mxml" then
      writeDocument (← target path stem ".xml") tune

def writeTexts (a : Arguments) (s : Score) : Run Unit := do
  let wanted (flag : String) : Option String := (a.value? flag).filter fun v => !v.isEmpty
  if let some path := wanted "--export" then
    Run.writeText (← textTarget path) (s.lyrics ++ "\n")
  if let some path := wanted "--musique" then
    Run.writeText (← textTarget path) s.code
  if let some path := wanted "--tab" then
    let text ← ofValue (tablature s)
    Run.writeText (← textTarget path) (text ++ "\n")

def readSource (program path : String) : Run String := do
  if ← Run.isDirectory path then Run.stop .noName
  tryCatch (Run.readText path) fun e =>
    match e with
    | .fault (.disk .missing) => do
      Run.printError (missingText program)
      Run.exit 2
    | e => throw e

def treat (program : String) (a : Arguments) (path : String) : Run Unit := do
  let transposition := (a.value? "--transposition").bind fun v => Text.readInt (Text.trim v).toList
  let code ← readSource program path
  let s ← readScore code transposition
  let title := match a.given.find? "--titre" with
    | some values => Datum.list (values.map .text)
    | none => .text (Chant.Source.name code)
  if a.has "--verbose" then Run.print (details code s)
  writeFormats a s title (Path.stem path)
  let parts := a.values "--alerter"
  Run.printError (Chant.alarmText parts s.lyrics)
  writeTexts a s
  Run.exit (if (Chant.alarms parts s.lyrics).isEmpty then 0 else 16)

def run (program : String) (args : List String) : Run Unit :=
  match Arguments.read flags args with
  | .error .help => do
    Run.print (help program)
    Run.exit 0
  | .error (.refused message) => do
    Run.printError (usage program ++ program ++ ": error: " ++ message ++ "\n")
    Run.exit 2
  | .ok a =>
    let operands := a.operands.getD []
    let paths := if operands.isEmpty then a.values "--input" else operands
    match paths with
    | [] => return
    | path :: _ => treat program a path

end Plainsong.Command.Engrave
