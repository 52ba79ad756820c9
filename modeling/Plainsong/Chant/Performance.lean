import Plainsong.Chant.Tune
import Plainsong.Midi.File
/- A score as a MIDI file: one track with the notes and the syllables, and a
   tempo for each note that stretches it. -/
namespace Plainsong.Chant

namespace Performance

open Midi (File)

def trackName : Datum → Except Datum.Fault Datum
  | .text s => .ok (.text (plain s))
  | _ => .error .wrongKind

/-- Plays one note at a time of the track, and gives the time behind it. The note
    lasts the whole part of its duration, and the tempo makes up for the rest. -/
def playNote (shift : Int) (tempo : Float) (text : Option String) (time : Datum) (s : Sign) :
    Midi.Act File Datum := do
  let whole (d : Except Datum.Fault Float) : Midi.Act File Float := liftM d
  let pitch := s.pitch.getD 0 + shift
  let given := s.duration.getD (.int 1)
  let beats ← liftM given.toWhole
  let length ← whole given.toFloat
  let counted ← whole (Datum.wholeFloat beats)
  if length == 0 then throw .dividedByZero
  File.addTempo (.int 0) time (.float (tempo * counted / length))
  File.addNote (.int 0) (.int 0) (.int pitch) time (.float (counted / 2)) (.int 127) .none
  match text with
  | some t => File.addText (.int 0) time (.text t)
  | none => pure ()
  liftM (time.add (.float (counted / 2)))

def playNotes (shift : Int) (tempo : Float) : Option String → List Sign → Datum → Midi.Act File Datum
  | _, [], time => return time
  | text, s :: rest, time => do
    playNotes shift tempo none rest (← playNote shift tempo text time s)

def playSyllables (score : Score) (tempo : Float) : List Syllable → Datum → Midi.Act File Datum
  | [], time => return time
  | y :: rest, time => do
    let text := if rest.isEmpty then y.text else y.text ++ "-"
    let notes := (score.signsOf y.neume).filter fun s => s.kind.sounds
    playSyllables score tempo rest (← playNotes score.shift tempo (some text) notes time)

def playWords (score : Score) (tempo : Float) : List Nat → Datum → Midi.Act File Datum
  | [], time => return time
  | w :: rest, time => do
    playWords score tempo rest
      (← playSyllables score tempo ((score.word w).syllables.map score.syllable) time)

def play (score : Score) (title : Datum) (tempo : Float) : Midi.Act File Unit := do
  File.addTrackName (.int 0) (.int 0) (← liftM (trackName title))
  File.addTempo (.int 0) (.int 0) (.float tempo)
  File.addProgramChange (.int 0) (.int 0) (.int 0) (.int 74)
  discard (playWords score tempo score.text (.int 0))

def ofScore (score : Score) (title tempo : Datum) : Except Datum.Fault File := do
  let tempo ← Tune.halfTempo tempo
  let empty ← File.create {}
  match (play score title tempo).run.run empty with
  | (.ok _, file) => return file
  | (.error f, _) => throw f

def bytes (score : Score) (title tempo : Datum) : Except Datum.Fault (List UInt8) := do
  ((File.write).run.run (← ofScore score title tempo)).1

end Performance

end Plainsong.Chant
