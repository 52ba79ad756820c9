import Plainsong.Chant.Sign
import Plainsong.Pattern.Reader
/- Reading a neume: each letter of its code is a sign that may change the signs
   before it, and a clef may stand among them. -/
namespace Plainsong.Chant

def Kind.ofLetter? (c : Char) : Option Kind :=
  if "abcdefghijklmABCDEFGHIJKLM".toList.contains c then some .note
  else if "_.'w~".toList.contains c then some .rhythm
  else if "osvOSV".toList.contains c then some .special
  else if c.toNat = 0x60 || ",;:".toList.contains c then some .bar
  else if "xy#".toList.contains c then some .accidental
  else if "/ ".toList.contains c then some .cut
  else if c = '+' then some .custos
  else if c = 'z' then some .lineEnd
  else if c = '!' then some .caesura
  else none

def nuanceOf : String → Option String
  | "'" => some "ictus"
  | "_" => some "episeme"
  | "." => some "point"
  | "w" => some "quilisma"
  | "~" => some "liquescence"
  | _ => none

def pauseOf : String → Option Datum
  | "\x60" => some (.int 0)
  | "," => some (.int 0)
  | ";" => some (.float 0.5)
  | ":" => some (.int 1)
  | "::" => some (.float 1.2)
  | _ => none

namespace Act

/-! ## Signs -/

def makeSign (kind : Kind) (code : String) (n : Nat) (before : Option Nat) (held : Option Accidentals) : Act Nat := do
  let i := (← get).signs.size
  modify fun s => { s with signs := s.signs.push { kind, code, neume := n, before := none } }
  setBefore i before
  match held with
  | some a => if !isVoid (← get) a then setAccidentals i a
  | none => pure ()
  return i

def dropLast (n : Nat) : Act Unit := changeNeume n fun u => { u with signs := u.signs.dropLast }

def soundNote (i : Nat) (code : String) : Act Unit := do
  let pitch ← pitchOf i code
  changeSign i ({ · with pitch := some pitch, duration := some (.int 1) })
  let lily ← need .outOfRange (lilyName? pitch)
  changeSign i ({ · with lily })
  let abc ← need .outOfRange (abcName? pitch)
  changeSign i ({ · with abc, nuances := some [] })

def enterElement (n i : Nat) : Act Unit := do
  changeNeume n ({ · with hasNote := true })
  let closed := (← neume n).elementClosed
  if closed then openElement i
  changeSign i ({ · with opensElement := some closed })

def makeNote (kind : Kind) (code : String) (n : Nat) (before : Option Nat) (held : Option Accidentals) : Act Nat := do
  let i ← makeSign kind code n before held
  soundNote i code
  enterElement n i
  return i

/-- Makes a special note: it takes the place of the note it is put on, and a
    further one stands behind it. -/
def makeSpecial (letter : String) (n : Nat) (before : Option Nat) (held : Option Accidentals) : Act Nat := do
  let j ← need .noProperty before
  let i ← makeNote .special (← sign j).code n before held
  let on ← sign j
  match on.kind with
  | .special => changeSign i ({ · with code := letter })
  | .note =>
    changeSign i ({ · with code := on.code ++ letter })
    if on.opensElement.getD false then openElement i
    setBefore i on.before
    dropLast n
  | _ => throw (.malformed (letter ++ " sans note précédente"))
  return i

def makeAccidental (letter : String) (n : Nat) (before : Option Nat) (held : Option Accidentals) : Act Nat := do
  let i ← makeSign .accidental letter n before held
  let j ← need .noProperty before
  changeSign i ({ · with code := (← sign j).code ++ letter })
  let opens ← need .noProperty ((← get).inherited (some j) (·.opensElement))
  if opens then changeNeume n ({ · with elementClosed := true })
  setBefore i (← sign j).before
  dropLast n
  return i

def endElement (i : Nat) : Act Unit := do
  orIfMissing (onNote (← sign i).before equalise) (return)
  orIfMissing (onNote (← sign i).before closeElement) (return)

def lastOfWordBefore (i : Nat) : Act Nat := do
  let s ← get
  let w := (s.syllable (s.neume (s.sign i).neume).syllable).word
  let v ← need .wrongKind (s.word w).before
  let last ← need .outOfRange (s.word v).syllables.getLast?
  need .outOfRange (s.neume (s.syllable last).neume).signs.getLast?

def restBefore (i : Nat) : Act Unit := do
  let d ← need .missing (pauseOf (← sign i).code)
  orIfMissing (pause (← sign i).before d) (do pause (some (← lastOfWordBefore i)) d)

def makeBar (letter : String) (n : Nat) (before : Option Nat) (held : Option Accidentals) : Act Nat := do
  let i ← makeSign .bar letter n before held
  match before with
  | some j =>
    let last ← sign j
    if last.kind = .bar then
      if last.code = ":" && letter = ":" then
        changeSign i ({ · with code := "::" })
        setBefore i last.before
        dropLast n
      else throw (.malformed "Double barre bizarre")
  | none => pure ()
  endElement i
  restBefore i
  return i

def makeCustos (letter : String) (n : Nat) (before : Option Nat) (held : Option Accidentals) : Act Nat := do
  let i ← makeSign .custos letter n before held
  let j ← need .noProperty before
  setBefore i (← sign j).before
  dropLast n
  return i

def makeRhythm (letter : String) (n : Nat) (before : Option Nat) (held : Option Accidentals) : Act Nat := do
  let i ← makeSign .rhythm letter n before held
  let nuance ← need .missing (nuanceOf letter)
  orIfMissing (applyNuance before nuance) (remark "Bizarrerie : signe rythmique sans note.\n")
  return i

def makeOf (kind : Kind) (letter : String) (n : Nat) (before : Option Nat) (held : Option Accidentals) : Act Nat :=
  match kind with
  | .note => makeNote .note letter n before held
  | .special => makeSpecial letter n before held
  | .rhythm => makeRhythm letter n before held
  | .bar => makeBar letter n before held
  | .accidental => makeAccidental letter n before held
  | .custos => makeCustos letter n before held
  | .cut => do
    let i ← makeSign .cut letter n before held
    endElement i
    return i
  | kind => makeSign kind letter n before held

def appendSign (n i : Nat) : Act Unit := changeNeume n fun u => { u with signs := u.signs ++ [i] }

def addLetter (n : Nat) (c : Char) : Act Unit :=
  match Kind.ofLetter? c with
  | none => return
  | some kind => do
    let u ← neume n
    appendSign n (← makeOf kind (String.singleton c) n u.signs.getLast? u.accidentals)

def addClef (n : Nat) (code : String) : Act Unit := do
  let i ← makeSign .clef code n none none
  let w := ((← get).syllable (← neume n).syllable).word
  changeWord w ({ · with clef := some i })
  appendSign n i

/-! ## Neumes -/

def frameNeume (n : Nat) : Act Unit := do
  let s ← get
  let notes := (s.neume n).signs.filter fun i => (s.sign i).kind.sounds
  match notes.head?, notes.getLast? with
  | some i, some j =>
    openNeume i
    closeNeume j
  | _, _ => return

def readLetters (n : Nat) (letters : List Char) : Act Unit := do
  letters.forM (addLetter n)
  frameNeume n

def clefMatcher : Matcher := Matcher.of "[cf][b]?[1234]"

/-- Reads the code of a neume. Around a clef the letters are read one by one;
    behind a second clef nothing is read. -/
def readCode (n : Nat) (code : String) : Act Unit :=
  match clefMatcher.texts? code with
  | none => readLetters n code.toList
  | some groups => do
    let around := clefMatcher.split code
    (around.getD 0 "").toList.forM fun c => readLetters n [c]
    addClef n (groups.getD 0 "")
    (around.getD 1 "").toList.forM fun c => readLetters n [c]
    frameNeume n

end Act

end Plainsong.Chant
