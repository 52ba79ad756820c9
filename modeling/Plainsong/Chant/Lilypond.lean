import Plainsong.Chant.Lyric
/- A score as a Lilypond file. -/
namespace Plainsong.Chant

/-- What a Lilypond file is made of. -/
structure Lilypond where
  transposition : String
  lyrics : String
  music : String

namespace Lilypond

def transpositions : List String :=
  ["c, ", "des, ", "d, ", "ees, ", "e, ", "f, ", "fis, ", "g, ", "aes, ", "a, ", "bes, ", "b, ",
   "c", "des", "d", "ees", "e", "f", "fis", "g", "aes", "a", "bes", "b", "c'"]

def transpositionName (shift : Int) : String :=
  (itemAt? transpositions (Int.fmod (shift + 12) 24)).getD ""

def neumeText (signs : List Sign) : Except Datum.Fault String := do
  return String.join (← signs.mapM (·.lilyText))

def wordTexts (s : Score) (w : Nat) : Except Datum.Fault (String × String) := do
  let syllables := (s.word w).syllables.map s.syllable
  let notes ← syllables.mapM fun y => neumeText (s.signsOf y.neume)
  return (" -- ".intercalate (syllables.map (·.lily)), String.join notes)

def addTexts (done : Nat × String × String) (word : String × String) : Nat × String × String :=
  let (i, lyrics, music) := done
  let (text, notes) := word
  if text.isEmpty && notes.isEmpty then done else
  let number := "%" ++ toString (i + 1)
  (i + 1,
   lyrics ++ number ++ (if text.isEmpty then "" else "\n" ++ text) ++ "\n",
   music ++ number ++ "\n" ++ notes ++ "\n")

def texts (s : Score) : Except Datum.Fault (String × String) := do
  return ((← s.text.mapM (wordTexts s)).foldl addTexts (0, "", "")).2

def ofScore (s : Score) : Except Datum.Fault Lilypond := do
  let (lyrics, music) ← texts s
  return { transposition := transpositionName s.shift, lyrics, music }

def file (l : Lilypond) (title : Datum) : String :=
  "\n".intercalate [
    "\\version \"2.18\"",
    "",
    "\\header \x7b",
    "  title = \"" ++ title.written ++ "\"",
    "  tagline = \"\"",
    "  composer = \"\"",
    "\x7d",
    "",
    "\\paper \x7b",
    " #(include-special-characters)",
    "\x7d",
    "",
    "MusiqueTheme = \x7b",
    " \\key c\\major",
    l.music ++ "\x7d",
    "",
    "Paroles = \\lyricmode \x7b",
    l.lyrics,
    "\x7d",
    "",
    "\\score\x7b",
    "  <<",
    "    \\new Staff <<",
    "      \\set Staff.midiInstrument = \"flute\"",
    "      \\set Staff.autoBeaming = ##f",
    "      \\new Voice = \"theme\" \x7b",
    "        \\cadenzaOn \\transpose c " ++ l.transposition ++ "\x7b\\MusiqueTheme\x7d",
    "      \x7d",
    "    >>",
    "    \\new Lyrics \\lyricsto theme \x7b",
    "      \\Paroles",
    "    \x7d",
    "  >>",
    "  \\layout\x7b",
    "    \\context \x7b",
    "      \\Staff",
    "      \\override TimeSignature #'stencil = #point-stencil",
    "      \\override Slur #'stencil = ##f",
    "    \x7d",
    "  \x7d",
    "  \\midi\x7b\x7d",
    "\x7d"]

end Lilypond

end Plainsong.Chant
