import Plainsong.Grammar.Value
import Plainsong.Pattern.Reader
import Plainsong.Table
import Plainsong.Text.Slice
/- A tune before it is read: its lines are joined to a header and to the music
   of each voice, in which fields stand in brackets. -/
namespace Plainsong.Abc

open Grammar (Fault)

/-! ## Slurs, rests and bar lines in the music -/

def restCount : Matcher := Matcher.of "([XZ])(\\d+)"
def barWithBlanks : Matcher := Matcher.of "([:|][ |\\[\\]]+[:|])"
def slurBehindSign : Matcher := Matcher.of "(?<![!+])([\x7d><][<>]?)(\\)+)"

def spreadRests (s : String) : String :=
  restCount.replace s fun text m =>
    let sign := (m.group? text 1).getD ""
    let n := ((m.group? text 2).bind fun d => Text.readDigits d.toList 0 false).getD 0
    Text.exceptLast 1 (Text.times n (sign ++ "|"))

def closeBars (s : String) : String :=
  barWithBlanks.replace s fun text m => ((m.group? text 1).getD "").replace " " ""

/-- Ends of slurs directly behind their notes, before signs of broken rhythm and
    the end of grace notes. -/
def moveSlurs (s : String) : String :=
  slurBehindSign.replace s fun text m => (m.group? text 2).getD "" ++ (m.group? text 1).getD ""

def mend (s : String) : String := moveSlurs (closeBars (spreadRests s))

/-! ## Lines -/

def bracketed (field : String) : String := "[" ++ Text.replace "]" "%5d" field ++ "]"

def comment : Matcher := Matcher.of "%.*$"
def fieldLine : Matcher := Matcher.of "^([A-Zw]:.*$)|\\[[A-Zw]:[^]]*]$"
def directive : Matcher := Matcher.of "^%%(?=[^%])"
def fieldBody : Matcher := Matcher.of "^.:(.*?)\\\\*$"

def startsAs (m : Matcher) (s : String) : Bool := (m.atPos s.toList.toArray 0).isSome

def dropStars (s : String) : String :=
  if s.startsWith "w:" || s.startsWith "+:" || Text.has s "percmap" then s
  else Text.trimEndChars ['*'] s

/-- The lines of a tune on the way: complete lines, the last first, and the line
    of music and the field that may go on. -/
structure Gathering where
  done : List String := []
  inTune : Bool := false
  musicGoesOn : Bool := false
  fieldGoesOn : Bool := false
  music : String := ""
  field : String := ""
  metadata : Table String String := []
  deriving DecidableEq

namespace Gathering

def note (kind text : String) (t : Table String String) : Table String String :=
  match t.find? kind with
  | some old => t.put kind (if old.isEmpty then text else old ++ "\n" ++ text)
  | none => t.put kind text

def withField (g : Gathering) : String :=
  if g.field.isEmpty then g.music else g.music ++ bracketed g.field

def endsOpen (s : String) : Bool := s.toList.getLast? = some '\\'

def takeField (g : Gathering) (s : String) : Gathering :=
  if g.fieldGoesOn then
    { g with
      fieldGoesOn := endsOpen s
      field := g.field ++ fieldBody.replace s fun text m => (m.group? text 1).getD "" }
  else
    let t := if s.startsWith "[" then Text.trimChars ['[', ']'] s else s
    { g with music := g.withField, fieldGoesOn := endsOpen t, field := Text.trimEndChars ['\\'] t }

def takeMusic (g : Gathering) (s : String) : Gathering :=
  let music := g.withField
  let done := if g.musicGoesOn || music.isEmpty then g.done else music :: g.done
  let music := if g.musicGoesOn then music ++ Text.trimEndChars ['\\'] s else Text.trimEndChars ['\\'] s
  let goesOn := endsOpen s
  { g with
    fieldGoesOn := false, field := "", musicGoesOn := goesOn
    done := if goesOn then done else music :: done
    music := if goesOn then music else "" }

def takeLine (kind : String) (g : Gathering) (s : String) : Gathering :=
  if s.isEmpty then g
  else if s.startsWith "W:" then
    { g with metadata := note kind (Text.trim (Text.behind 2 s)) g.metadata }
  else if s.startsWith "+:" then { g with field := g.field ++ Text.behind 2 s }
  else if startsAs fieldLine s then g.takeField s
  else if g.inTune then g.takeMusic s
  else g

def takeLines (kind : String) (g : Gathering) : List String → Gathering
  | [] => g
  | line :: rest =>
    let s := Text.trim line
    if g.inTune && (s.isEmpty || s.startsWith "X:") then g
    else
      let g := if s.startsWith "X:" then { g with inTune := true } else g
      let s := directive.replace s fun _ _ => "I:"
      let s := comment.replace s fun _ _ => ""
      takeLines kind (g.takeLine kind (dropStars s)) rest

def lines (g : Gathering) : List String :=
  let last := g.withField
  (if last.isEmpty then g.done else last :: g.done).reverse

end Gathering

/-! ## Header and voices -/

/-- A tune in its parts. -/
structure Tune where
  header : String
  /-- The voices in the order in which they first appear, with their music. -/
  voices : List (String × String)
  metadata : Table String String

def keyField : Matcher := Matcher.of "(\\[K:[^]]*\\])"
def anyField : Matcher := Matcher.of "\\[[A-Z]:[^]]*\\]"
def voiceName : Matcher := Matcher.of "\\[V:\\s*(\\S*)[ \\]]"
def voiceField : Matcher := Matcher.of "(\\[V:[^]]*\\])"
def fieldGap : Matcher := Matcher.of "\\]\\["
def partMark : Matcher := Matcher.of "\\[P:.\\]"

def splitAtKey (line : String) : String × String :=
  match keyField.split line with
  | before :: key :: rest => (before ++ key, String.join rest)
  | _ => (line, "")

def isVoiceMatter (field : String) : Bool :=
  field.startsWith "V" || field.startsWith "I:MIDI" || field.startsWith "I:percmap"

def joinFields (fields : List String) : String := "[" ++ "][".intercalate fields ++ "]"

def withFirstVoice (music : String) : String :=
  match Text.before? "[V:" music with
  | some before =>
    if (Text.trim (anyField.replace before fun _ _ => "")).isEmpty then music else "[V:1]" ++ music
  | none => "[V:1]" ++ music

def addToVoice (voices : Table String String) (field music : String) : Except Fault (Table String String) := do
  let text := field.toList.toArray
  match voiceName.search text with
  | none => .error .noProperty
  | some m =>
    let name := (m.group? text 1).getD ""
    let (name, field) := if name.isEmpty then ("1", "[V:1]") else (name, field)
    return voices.put name ((voices.find? name).getD "" ++ field ++ music)

def dealVoices (voices : Table String String) : List String → Except Fault (Table String String)
  | field :: music :: rest => do dealVoices (← addToVoice voices field music) rest
  | _ => .ok voices

def Tune.ofLines (metadata : Table String String) : List String → Except Fault Tune
  | [] => .error .outOfRange
  | first :: rest => do
    let (header, left) := splitAtKey first
    let music := "\n".intercalate (left :: rest)
    let fields := fieldGap.split (Text.inside header)
    if fields.any String.isEmpty then .error .outOfRange
    else
      let ofVoices := fields.filter isVoiceMatter
      let header := joinFields (fields.filter fun f => !isVoiceMatter f)
      let music := (if ofVoices.isEmpty then "" else joinFields ofVoices) ++ music
      match voiceField.split (withFirstVoice music) with
      | before :: field :: music :: rest =>
        let text := before.toList.toArray
        let marks := String.join ((partMark.all text).map (·.whole text))
        let header := header ++ partMark.replace before fun _ _ => ""
        let voices ← dealVoices [] (field :: (marks ++ music) :: rest)
        return { header, voices := voices.map fun (name, music) => (name, mend music), metadata }
      | _ => .error .refusedValue

def Tune.split (wordsKind text : String) : Except Fault Tune :=
  let g := Gathering.takeLines wordsKind {} (Text.lines text)
  Tune.ofLines g.metadata g.lines

end Plainsong.Abc
