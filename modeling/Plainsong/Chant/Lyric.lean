import Plainsong.Chant.Summary
/- The text of a syllable as Lilypond and ABC take it. -/
namespace Plainsong.Chant

def verbatim : Matcher := Matcher.of "<v>.*</v>"

def styleMarks : List (String × String) :=
  [("<i>", ""), ("</i>", ""), ("<b>", ""), ("</b>", ""), ("\x7b", ""), ("\x7d", "")]

def specialLetters : List (String × String) :=
  [("<sp>R/</sp>", "℟"), ("<sp>V/</sp>", "℣"),
   ("<sp>ae</sp>", "æ"), ("<sp>'ae</sp>", "ǽ"), ("<sp>'æ</sp>", "ǽ"),
   ("<sp>AE</sp>", "Æ"), ("<sp>'AE</sp>", "Ǽ"), ("<sp>'Æ</sp>", "Ǽ"),
   ("<sp>oe</sp>", "œ"), ("<sp>'oe</sp>", "œ́"), ("<sp>'œ</sp>", "œ́"),
   ("<sp>OE</sp>", "Œ"), ("<sp>'OE</sp>", "Œ́"), ("<sp>'Œ</sp>", "Œ́")]

def replaceEach (pairs : List (String × String)) (s : String) : String :=
  pairs.foldl (fun s (old, new) => Text.replace old new s) s

def stanza : Matcher := Matcher.of "([0-9]+\\.?)"

namespace Syllable

def lily (y : Syllable) : String :=
  let text := verbatim.replace y.lilyText fun _ _ => ""
  let text := Text.replace " " "_" text
  let text := stanza.replace text fun chars f => "\\set stanza = \"" ++ f.whole chars ++ "\""
  replaceEach specialLetters (replaceEach styleMarks (Text.replace "*" "&zwj;*" text))

def abc (y : Syllable) : String :=
  let text := match y.text.toList with
    | ' ' :: rest => String.ofList rest
    | _ => y.text
  let text := verbatim.replace text fun _ _ => ""
  let text := replaceEach [(" ", "~"), ("-", ""), ("*", "~✶"), ("~~", "~")] text
  replaceEach specialLetters (replaceEach styleMarks text)

end Syllable

end Plainsong.Chant
