import Plainsong.Chant.Staff
import Plainsong.Text.Slice
/- What single signs do: a note has a pitch under its clef, lasts, takes nuances,
   and opens and closes the elements of its neume; and the text of every sign in
   Lilypond and in ABC. -/
namespace Plainsong.Chant

/-! ## Texts of signs -/

namespace Sign

def hasNuance (s : Sign) (nuance : String) : Bool := (s.nuances.getD []).contains nuance

def noteLily (s : Sign) : String :=
  let text := " " ++ s.lily
  let text := if s.hasNuance "point" then text.map fun c => if c = '8' then '4' else c else text
  let text := if s.hasNuance "episeme" then text ++ "--" else text
  let text := if s.hasNuance "ictus" then text ++ "-!" else text
  let text := if s.hasNuance "quilisma" then text ++ "\\prall" else text
  if s.hasNuance "liquescence" then " \\tiny" ++ text ++ " \\normalsize" else text

def noteAbc (s : Sign) : Except Datum.Fault String := do
  let text ← if s.hasNuance "point" then
      let kept := Text.trimEndChars [' '] s.abc
      if kept.isEmpty then throw .outOfRange else pure (kept ++ "2")
    else pure s.abc
  let text := if s.hasNuance "episeme" then "!tenuto!" ++ text else text
  let text := if s.hasNuance "ictus" then "!wedge!" ++ text else text
  return if s.hasNuance "quilisma" then "P" ++ text else text

def barLily : String → Except Datum.Fault String
  | "" => .ok " \\bar \"\""
  | "," => .ok " \\bar \"'\""
  | ";" => .ok " \\bar \"'\""
  | ":" => .ok " \\bar \"|\""
  | "::" => .ok " \\bar \"||\""
  | _ => .error .missing

def barAbc : String → Except Datum.Fault String
  | "" => .ok ""
  | "," => .ok "!shortphrase![|]"
  | ";" => .ok "!mediumphrase![|]"
  | ":" => .ok "|"
  | "::" => .ok "||"
  | _ => .error .missing

def lilyText (s : Sign) : Except Datum.Fault String :=
  if s.kind.sounds then .ok s.noteLily else if s.kind = .bar then barLily s.code else .ok s.lily

def abcText (s : Sign) : Except Datum.Fault String :=
  if s.kind.sounds then s.noteAbc else if s.kind = .bar then barAbc s.code else .ok s.abc

def shown (s : Sign) : String :=
  if s.kind = .cut && s.code = " " then "\\ " else s.kind.name ++ " : " ++ s.code

end Sign

namespace Act

/-! ## Accidentals -/

def isVoid (s : Score) : Accidentals → Bool
  | .table n => (s.table n).isEmpty
  | .loose d => !d.isTrue

def putAccidental (held : Accidentals) (entry : String) (value : Int) : Act Unit :=
  match held with
  | .table n => modify fun s => { s with tables := s.tables.modify n fun t => t.put entry value }
  | .loose _ => fail .wrongKind

def accidentalAt (held : Accidentals) (entry : String) : Act Int :=
  match held with
  | .table n => do need .missing (((← get).table n).find? entry)
  | .loose _ => fail .wrongKind

def alteration? : Char → Option Int
  | 'x' => some (-1)
  | 'y' => some 0
  | '#' => some 1
  | _ => none

/-- The accidentals in force at a sign. A sign of alteration enters its letter
    into those of the sign before it, or into new ones; any other sign has its
    own, or those of the sign before it. -/
def accidentalsFrom : Nat → Option Nat → Act Accidentals
  | 0, _ => fail .noProperty
  | _ + 1, none => fail .noProperty
  | fuel + 1, some i => do
    let s ← sign i
    if s.kind = .accidental then
      let held ← orIfMissing (accidentalsFrom fuel s.before) newTable
      let value ← need .missing (alteration? (← need .outOfRange s.code.toList[1]?))
      let letter ← need .outOfRange s.code.toList[0]?
      putAccidental held (String.singleton letter) value
      return held
    else
      match s.accidentals with
      | some held => return held
      | none => accidentalsFrom fuel s.before

def accidentalsOf (i : Nat) : Act Accidentals := do
  accidentalsFrom ((← get).signs.size + 1) (some i)

/-- Gives a sign its own accidentals; a sign of alteration has none and passes
    them on to the sign before it. -/
def setAccidentalsFrom (held : Accidentals) : Nat → Option Nat → Act Unit
  | 0, _ => fail .noProperty
  | _ + 1, none => fail .noProperty
  | fuel + 1, some i => do
    let s ← sign i
    if s.kind = .accidental then setAccidentalsFrom held fuel s.before
    else changeSign i ({ · with accidentals := some held })

def setAccidentals (i : Nat) (held : Accidentals) : Act Unit := do
  setAccidentalsFrom held ((← get).signs.size + 1) (some i)

/-! ## Pitch -/

def noteAccidentals (i : Nat) : Act Accidentals :=
  orIfMissing (do
    let held ← accidentalsOf i
    if isVoid (← get) held then newTable else accidentalsOf i) newTable

def clefAt (i : Nat) : Act String := do
  let s ← get
  let w := (s.syllable (s.neume (s.sign i).neume).syllable).word
  return (← need .noProperty (s.clefOf? w)).code

def plainClef (clef : String) (held : Accidentals) : Act String :=
  match clef.toList with
  | [family, _, line] => do
    let clef := String.ofList [family, line]
    putAccidental held (← need .missing (clefFlat? clef)) (-1)
    return clef
  | _ => return clef

def pitchOf (i : Nat) (code : String) : Act Int := do
  let clef ← clefAt i
  let held ← noteAccidentals i
  let clef ← plainClef clef held
  let _ ← need .missing (clefOffset? clef)
  let letter ← need .outOfRange (Text.lower code).toList.head?
  let (name, height) ← need .missing (letterNote? clef letter)
  let altered ← accidentalAt held (String.singleton letter)
  if altered = -1 && name ≠ "si" then warn (name ++ " bémol rencontré")
  return height + altered

/-! ## Duration -/

def less (a b : Datum) : Act Bool := need .wrongKind (a.before? b)

def durationOf (i : Option Nat) : Act Datum := do
  need .noProperty ((← get).inherited i (·.duration))

def setDuration (i : Nat) (d : Datum) : Act Unit := changeSign i ({ · with duration := some d })

def equalise (i : Nat) : Act Unit :=
  orIfMissing (do
    let own ← durationOf (some i)
    let before ← durationOf (← sign i).before
    if ← less own before then setDuration i before) (return)

def hold (i : Nat) (d : Datum) : Act Unit := do
  if ← less (← durationOf (some i)) d then setDuration i d

def lengthen (i : Nat) (d : Datum) : Act Unit := do
  setDuration i (← ofValue ((← durationOf (some i)).add d))

/-! ## Elements and neumes -/

def openElement (i : Nat) : Act Unit := do
  changeNeume (← sign i).neume ({ · with elementClosed := false })
  changeSign i fun s => { s with lily := s.lily ++ "[" }

/-- Closes the element of a note; an element of one note, or one that ends on a
    dotted note, has no beam. -/
def closeElement (i : Nat) : Act Unit := do
  changeSign i fun s =>
    { s with
      abc := s.abc ++ " "
      lily := if s.hasNuance "point" then Text.replace "[" "" s.lily else Text.replace "[]" "" (s.lily ++ "]") }
  changeNeume (← sign i).neume ({ · with elementClosed := true })

def openNeume (i : Nat) : Act Unit := changeSign i fun s => { s with lily := s.lily ++ "(" }

def closeNeume (i : Nat) : Act Unit := do
  equalise i
  changeSign i fun s => { s with lily := Text.replace "()" "" (s.lily ++ ")") }
  closeElement i

/-! ## Nuances -/

def onNote (i : Option Nat) (act : Nat → Act Unit) : Act Unit := do
  act (← need .noProperty ((← get).nearestNote? i))

/-- Applies a nuance to a note; a nuance it already has goes to the note before,
    but two quilismas or liquescences in a row are refused. -/
def applyFrom (nuance : String) : Nat → Option Nat → Act Unit
  | 0, _ => fail .noProperty
  | fuel + 1, place => onNote place fun i => do
    let s ← sign i
    let held := s.nuances.getD []
    if held.contains nuance then
      if nuance = "quilisma" || nuance = "liquescence" then
        throw (.malformed ("Deux " ++ nuance ++ "s consécutifs."))
      else applyFrom nuance fuel s.before
    else
      changeSign i ({ · with nuances := some (held ++ [nuance]) })
      match nuance with
      | "episeme" => hold i (.float 1.7)
      | "point" =>
        hold i (.float 2.3)
        closeElement i
        orIfMissing (onNote s.before closeElement) (return)
      | "quilisma" => onNote s.before fun j => hold j (.int 2)
      | _ => return

def applyNuance (place : Option Nat) (nuance : String) : Act Unit := do
  applyFrom nuance ((← get).signs.size + 1) place

def pause (place : Option Nat) (d : Datum) : Act Unit := do
  let s ← get
  let i ← need .noProperty ((s.chain place).find? fun j => (s.sign j).kind.sounds || (s.sign j).kind == .bar)
  if (s.sign i).kind.sounds then lengthen i d

end Act

end Plainsong.Chant
