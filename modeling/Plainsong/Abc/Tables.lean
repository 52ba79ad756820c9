import Plainsong.Table
/- Tables of the notation: note types, decorations, clefs, keys and chords, and
   the elements of the score that stand for them. -/
namespace Plainsong.Abc

def noteTypes : Table Int String :=
  [(1, "long"), (2, "breve"), (4, "whole"), (8, "half"), (16, "quarter"), (32, "eighth"), (64, "16th"),
   (128, "32nd"), (256, "64th")]

def dynamics : List String := ["p", "pp", "ppp", "pppp", "f", "ff", "fff", "ffff", "mp", "mf", "sfz"]

def tempos : Table String Int :=
  [("larghissimo", 40), ("moderato", 104), ("adagissimo", 44), ("allegretto", 112), ("lentissimo", 48),
   ("allegro", 120), ("largo", 56), ("vivace", 168), ("adagio", 59), ("vivo", 180), ("lento", 62), ("presto", 192),
   ("larghetto", 66), ("allegrissimo", 208), ("adagietto", 76), ("vivacissimo", 220), ("andante", 88),
   ("prestissimo", 240), ("andantino", 96)]

def wedges : List String :=
  [">(", ">)", "<(", "<)", "crescendo(", "crescendo)", "diminuendo(", "diminuendo)"]

def articulations : Table String String :=
  [(".", "staccato"), (">", "accent"), ("accent", "accent"), ("wedge", "staccatissimo"), ("tenuto", "tenuto"),
   ("breath", "breath-mark"), ("marcato", "strong-accent"), ("^", "strong-accent"), ("slide", "scoop")]

def ornaments : Table String String :=
  [("trill", "trill-mark"), ("T", "trill-mark"), ("turn", "turn"), ("uppermordent", "inverted-mordent"),
   ("lowermordent", "mordent"), ("pralltriller", "inverted-mordent"), ("mordent", "mordent"),
   ("invertedturn", "inverted-turn")]

def technicals : Table String String :=
  [("upbow", "up-bow"), ("downbow", "down-bow"), ("plus", "stopped"), ("open", "open-string"),
   ("snap", "snap-pizzicato"), ("thumb", "thumb-position")]

/-- A direction to go elsewhere: its text, and the attribute of its sound. -/
structure Leap where
  text : String
  sound : String
  value : String

def leaps : Table String Leap :=
  [("fine", ⟨"Fine", "fine", "yes"⟩), ("D.S.", ⟨"D.S.", "dalsegno", "segno"⟩), ("D.C.", ⟨"D.C.", "dacapo", "yes"⟩),
   ("dacapo", ⟨"D.C.", "dacapo", "yes"⟩), ("dacoda", ⟨"To Coda", "tocoda", "coda"⟩),
   ("coda", ⟨"coda", "coda", "coda"⟩), ("segno", ⟨"segno", "segno", "segno"⟩)]

def sharpness : List String :=
  ["Fb", "Cb", "Gb", "Db", "Ab", "Eb", "Bb", "F", "C", "G", "D", "A", "E", "B", "F#", "C#", "G#", "D#", "A#", "E#",
   "B#"]

def modes : Table String (Int × String) :=
  [("maj", (8, "major")), ("m", (11, "minor")), ("min", (11, "minor")), ("mix", (9, "mixolydian")),
   ("dor", (10, "dorian")), ("phr", (12, "phrygian")), ("lyd", (7, "lydian")), ("loc", (13, "locrian"))]

def clefs : Table String (String × String) :=
  [("alto1", ("C", "1")), ("alto2", ("C", "2")), ("alto", ("C", "3")), ("alto4", ("C", "4")), ("tenor", ("C", "4")),
   ("bass3", ("F", "3")), ("bass", ("F", "4")), ("treble", ("G", "2")), ("perc", ("percussion", "")),
   ("none", ("", "")), ("tab", ("TAB", "5"))]

def clefOfMiddle : Table String String :=
  [("B", "treble"), ("G", "alto1"), ("E", "alto2"), ("C", "alto"), ("A", "tenor"), ("F", "bass3"), ("D", "bass")]

def alterations : Table String String := [("=", "0"), ("_", "-1"), ("__", "-2"), ("^", "1"), ("^^", "2")]

def accidentalNames : Table String String :=
  [("=", "natural"), ("_", "flat"), ("__", "flat-flat"), ("^", "sharp"), ("^^", "sharp-sharp")]

def firstSymbols : Table String String :=
  [("~", "roll"), ("H", "fermata"), ("L", ">"), ("M", "lowermordent"), ("O", "coda"), ("P", "uppermordent"),
   ("S", "segno"), ("T", "trill"), ("u", "upbow"), ("v", "downbow")]

def firstPage : List Float := [0.75, 297.0, 210.0, 18.0, 18.0, 10.0, 10.0]

def fieldNames : Table String String :=
  [("O", "origin"), ("A", "area"), ("Z", "transcription"), ("N", "notes"), ("G", "group"), ("H", "history"),
   ("R", "rhythm"), ("B", "book"), ("D", "discography"), ("F", "fileurl"), ("S", "source"), ("P", "partmap"),
   ("W", "lyrics")]

def metadataKinds : List String := ["composer", "lyricist", "poet", "arranger", "translator", "rights"]

def guitar : List String := ["E2", "A2", "D3", "G3", "B3", "E4"]

def chordKinds : Table String String :=
  let all (kind : String) (signs : List String) := signs.map fun s => (s, kind)
  all "major" ["ma", "Maj", "maj", "M"] ++ all "minor" ["mi", "min", "m"] ++ all "augmented" ["aug"]
    ++ all "diminished" ["dim", "o"] ++ all "augmented" ["+"] ++ all "minor" ["-"]
    ++ all "dominant" ["7"] ++ all "major-seventh" ["ma7", "Maj7", "M7", "maj7"]
    ++ all "minor-seventh" ["mi7", "min7", "m7"] ++ all "diminished-seventh" ["dim7", "o7"]
    ++ all "minor-seventh" ["-7"] ++ all "augmented-seventh" ["aug7", "+7"]
    ++ all "half-diminished" ["m7b5", "mi7b5"]
    ++ all "major-sixth" ["6", "ma6", "M6"] ++ all "minor-sixth" ["mi6", "min6", "m6"]
    ++ all "dominant-ninth" ["9"] ++ all "major-ninth" ["ma9", "M9", "maj9", "Maj9"]
    ++ all "minor-ninth" ["mi9", "min9", "m9"]
    ++ all "dominant-11th" ["11"] ++ all "major-11th" ["ma11", "M11", "maj11", "Maj11"]
    ++ all "minor-11th" ["mi11", "min11", "m11"]
    ++ all "dominant-13th" ["13"] ++ all "major-13th" ["ma13", "M13", "maj13", "Maj13"]
    ++ all "minor-13th" ["mi13", "min13", "m13"]
    ++ [("sus", "suspended-fourth"), ("sus4", "suspended-fourth"), ("sus2", "suspended-second")]

def drumNames : List String :=
  ["acoustic-bass-drum", "bass-drum-1", "side-stick", "acoustic-snare", "hand-clap", "electric-snare",
   "low-floor-tom", "closed-hi-hat", "high-floor-tom", "pedal-hi-hat", "low-tom", "open-hi-hat", "low-mid-tom",
   "hi-mid-tom", "crash-cymbal-1", "high-tom", "ride-cymbal-1", "chinese-cymbal", "ride-bell", "tambourine",
   "splash-cymbal", "cowbell", "crash-cymbal-2", "vibraslap", "ride-cymbal-2", "hi-bongo", "low-bongo",
   "mute-hi-conga", "open-hi-conga", "low-conga", "high-timbale", "low-timbale", "high-agogo", "low-agogo",
   "cabasa", "maracas", "short-whistle", "long-whistle", "short-guiro", "long-guiro", "claves", "hi-wood-block",
   "low-wood-block", "mute-cuica", "open-cuica", "mute-triangle", "open-triangle"]

def drumSounds : List (String × String) :=
  drumNames.zipIdx.map fun (name, i) => (name, toString (35 + i))

end Plainsong.Abc
