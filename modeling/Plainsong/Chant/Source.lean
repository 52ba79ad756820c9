import Plainsong.Chant.Plain
import Plainsong.Pattern.Reader
import Plainsong.Table
/- The source of a chant: headers, a line of two percent signs, and a body in
   which each neume stands in brackets behind its syllable. -/
namespace Plainsong.Chant

def untitled : String := "Cantus"

def officeParts : List String :=
  ["alleluia", "antiphona", "antienne", "antiphon", "communio", "communion", "graduale", "graduel", "gradual",
   "hymnus", "hymne", "hymn", "introitus", "introit", "kyriale", "lectio", "leçon", "lecon", "lesson",
   "offertorium", "offertoire", "offertory", "responsorium", "responsum", "répons", "repons", "response",
   "sequentia", "sequence", "tractus", "trait", "tract", "versus", "verset", "verse"]

namespace Source

def sectionMark : Matcher := Matcher.of "%%\r?\n"

def sections (code : String) : List String := sectionMark.split code

def header? (line : String) : Option (String × String) :=
  match line.splitOn ":" with
  | [] | [_] => none
  | key :: rest =>
    let value := String.ofList ((":".intercalate rest).toList.filter fun c => c ≠ ';' && c ≠ '\r')
    some (key, Text.trimChars [' '] value)

def officePart (given : Option String) : String :=
  match given with
  | none => "varia"
  | some s =>
    let part := plain (Text.lower s)
    if officeParts.contains part then part else "varia"

def headers (code : String) : Table String String :=
  let given := (((sections code).headD "").splitOn "\n").filterMap header?
  let table := given.foldl (fun (t : Table String String) (k, v) => t.put k v) []
  let table := table.put "office-part" (officePart (table.find? "office-part"))
  if table.holds "name" then table else table.put "name" untitled

def name (code : String) : String := ((headers code).find? "name").getD untitled

def comment : Matcher := Matcher.of "%.*\n"

def body? (code : String) : Option String :=
  (sections code)[1]?.map fun s =>
    String.ofList ((comment.replace s fun _ _ => "").toList.map fun c => if c = '\n' then ' ' else c)

/-! ## Syllables and neumes -/

def order : Matcher := Matcher.of "\\[[^\\[^\\]]*\\]"

def textPart : Matcher := Matcher.of "\\)?[^\\(\\)]*\\("

def neumePart : Matcher := Matcher.of "\\([^\\(\\)]*\\)"

def again : Matcher := Matcher.of "<i>.*i*j\\..*</i>"

def withoutBrackets (s : String) : String := String.ofList (s.toList.filter fun c => c ≠ '(' && c ≠ ')')

def parts (m : Matcher) (s : String) : List String :=
  let text := s.toList.toArray
  (m.all text).map fun f => withoutBrackets (f.whole text)

def twoBefore? (i size : Nat) : Option Nat :=
  if 2 ≤ i then some (i - 2) else if 2 ≤ i + size then some (i + size - 2) else none

def moveAgain : Nat → Nat → Array String → Option (Array String)
  | 0, _, texts => some texts
  | n + 1, i, texts =>
    let text := texts.getD i ""
    match again.texts? text with
    | none => moveAgain n (i + 1) texts
    | some groups => do
      let j ← twoBefore? i texts.size
      let texts := texts.modify j fun t => t ++ " " ++ groups.getD 0 ""
      moveAgain n (i + 1) (texts.setIfInBounds i (again.replace text fun _ _ => ""))

def syllables? (body : String) : Option (List (String × String)) := do
  let body := order.replace body fun _ _ => ""
  let texts := (parts textPart body).toArray
  let texts ← moveAgain texts.size 0 texts
  return texts.toList.zip (parts neumePart body)

end Source

end Plainsong.Chant
