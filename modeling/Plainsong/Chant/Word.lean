import Plainsong.Chant.Neume
import Plainsong.Chant.Source
/- Building a score: syllables with their neumes, words of syllables, and the
   whole score from the source of a chant. -/
namespace Plainsong.Chant

namespace Act

def inheritedAccidentals (before : Option Nat) : Act (Option Accidentals) := do
  let s ← get
  let j ← need .noProperty before
  let last ← need .outOfRange (s.neume (s.syllable j).neume).signs.getLast?
  orIfMissing (do return some (← accidentalsOf last)) (return none)

/-- The text under the notes: the text of a syllable without notes is put before
    the text of the next one. -/
def settleText (k : Nat) : Act Unit := do
  let s ← get
  let own := (s.syllable k).text
  let joined ← match (s.syllable k).before with
    | some j =>
      let last := s.syllable j
      if last.lilyText ≠ "" && !(s.neume last.neume).hasNote then
        changeSyllable j ({ · with lilyText := "" })
        pure (last.lilyText ++ " " ++ own)
      else pure own
    | none => pure own
  let lilyText := String.ofList (joined.toList.dropWhile (· == ' '))
  changeSyllable k ({ · with lilyText })

def addSyllable (w : Nat) (before : Option Nat) (text code : String) : Act Nat := do
  let s ← get
  let k := s.syllables.size
  let n := s.neumes.size
  modify fun s => { s with syllables := s.syllables.push { word := w, text, before, neume := n } }
  let held ← if (s.word w).syllables.isEmpty then pure none else inheritedAccidentals before
  modify fun s => { s with neumes := s.neumes.push { syllable := k, accidentals := held } }
  readCode n code
  settleText k
  changeWord w fun v => { v with syllables := v.syllables ++ [k] }
  return k

def makeWord (before : Option Nat) (syllables : List (String × String)) : Act Nat := do
  let w := (← get).words.size
  modify fun s => { s with words := s.words.push { before } }
  syllables.forM fun (text, code) => do
    let s ← get
    let last := match (s.word w).syllables.getLast? with
      | some k => some k
      | none => before.bind fun v => (s.word v).syllables.getLast?
    discard (addSyllable w last text code)
  return w

def addWord (syllables : List (String × String)) : Act Unit := do
  let w ← makeWord (← get).text.getLast? syllables
  modify fun s => { s with text := s.text ++ [w] }

def orIfOutOfRange {α : Type} (act other : Act α) : Act α :=
  tryCatch act fun f =>
    match f with
    | .value .outOfRange => other
    | f => throw f

/-- Adds the syllables word by word: a new word begins at a syllable that is
    empty or begins with a blank. A word that fails for want of a sign is tried
    once more. -/
def addSyllables : List (String × String) → List (String × String) → Act Unit
  | word, [] => do
    let _ ← need .outOfRange (← get).text.getLast?
    addWord word.reverse
  | word, (text, code) :: rest => do
    match text.toList with
    | [] =>
      addWord word.reverse
      addSyllables [(text, code)] rest
    | ' ' :: _ =>
      orIfOutOfRange (addWord word.reverse) (addWord word.reverse)
      addSyllables [(text, code)] rest
    | _ => addSyllables ((text, code) :: word) rest

def readBody (body : String) : Act Unit := do
  addSyllables [] (← need .outOfRange (Source.syllables? body))

end Act

def Score.read (code : String) (transposition : Option Int) : Except Fault Unit × Score :=
  let empty : Score := { title := Source.name code, transposition }
  match Source.body? code with
  | none => (.error (.value .outOfRange), empty)
  | some body => (Act.readBody body).run.run empty

end Plainsong.Chant
