import Plainsong.Midi.Track
import Plainsong.Midi.Tuning
/- A Standard MIDI File under construction. In a file of format 1 the first track
   holds tempo and signatures, and the tracks of the caller follow it. -/
namespace Plainsong.Midi

/-- How a file is set up. -/
structure Settings where
  tracks : Datum := .int 1
  dropDuplicates : Bool := true
  separateNotes : Bool := true
  adjustOrigin : Bool := false
  format : Datum := .int 1
  division : Datum := .int 960
  timesAreTicks : Bool := false

structure File where
  format : Nat
  division : Nat
  adjustOrigin : Bool
  timesAreTicks : Bool
  tracks : Array Track
  counter : Nat := 0
  closed : Bool := false

namespace File

def create (s : Settings) : Except Fault File := do
  let wanted ← if s.format.same (.int 1) then s.tracks.add (.int 1) else pure s.tracks
  let format ← s.format.toWord
  let count ← wanted.toWord
  let division ← s.division.toWord
  return { format, division, adjustOrigin := s.adjustOrigin, timesAreTicks := s.timesAreTicks,
           tracks := Array.replicate count
             { dropDuplicates := s.dropDuplicates, separateNotes := s.separateNotes } }

/-! ## Time -/

def quarterToTick (f : File) (time : Datum) : Except Fault Int := do
  (← time.mul (.int f.division)).toWhole

def tickToQuarter (f : File) (tick : Datum) : Except Fault Float := do
  let x ← tick.toFloat
  if f.division = 0 then throw .dividedByZero
  return x / Float.ofNat f.division

def ticks (f : File) (time : Datum) : Except Fault Datum :=
  if f.timesAreTicks then .ok time else (f.quarterToTick time).map Datum.int

/-! ## Tracks -/

def place (f : File) (track : Datum) : Except Fault Nat :=
  match track.whole? with
  | none => .error .wrongKind
  | some n =>
    let size : Int := f.tracks.size
    let i := if n < 0 then n + size else n
    if 0 ≤ i && i < size then .ok i.toNat else .error .outOfRange

def notePlace (f : File) (track : Datum) : Except Fault Nat := do
  if f.format = 1 then f.place (← track.add (.int 1)) else f.place track

def settingPlace (f : File) (track : Datum) : Except Fault Nat :=
  if f.format = 1 then f.place (.int 0) else f.place track

def onTrack {α : Type} (i : Nat) (act : Act Track α) : Act File α := do
  let f ← get
  let (result, t) := act.run.run (f.tracks.getD i default)
  set { f with tracks := f.tracks.setIfInBounds i t }
  match result with
  | .ok a => return a
  | .error e => throw e

def put (i : Nat) (tick : Datum) (deed : Deed) : Act File Unit := do
  let order := (← get).counter
  onTrack i (modify (·.add { tick, order, deed }))

def count : Act File Unit := modify fun f => { f with counter := f.counter + 1 }

/-- Adds one event to the track at `place`, its time read after the place and its
    content after its time. -/
def putAt (place : Except Fault Nat) (time : Datum) (deed : Except Fault Deed) : Act File Unit := do
  let i ← liftM place
  let tick ← liftM ((← get).ticks time)
  put i tick (← liftM deed)
  count

/-! ## Adding events -/

def addNote (track channel pitch time duration volume annotation : Datum) : Act File Unit := do
  let f ← get
  let i ← liftM (f.notePlace track)
  let tick ← liftM (f.ticks time)
  let duration ← liftM (f.ticks duration)
  put i tick (.noteOn channel pitch duration volume annotation)
  put i (← liftM (tick.add duration)) (.noteOff channel pitch volume annotation)
  count

def addTrackName (track time name : Datum) : Act File Unit := do
  putAt ((← get).notePlace track) time (name.toLatin1.map .trackName)

def addTimeSignature (track time numerator denominator clocks notes : Datum) : Act File Unit := do
  putAt ((← get).settingPlace track) time (.ok (.timeSignature numerator denominator clocks notes))

def microseconds (tempo : Datum) : Except Fault Int :=
  match tempo with
  | .float x => if x == 0 then .error .dividedByZero else Datum.cut (60000000 / x)
  | d =>
    match d.whole? with
    | some n => if n = 0 then .error .dividedByZero else .ok (Int.tdiv 60000000 n)
    | none => .error .wrongKind

def addTempo (track time tempo : Datum) : Act File Unit := do
  putAt ((← get).settingPlace track) time ((microseconds tempo).map .tempo)

def addCopyright (track time notice : Datum) : Act File Unit := do
  putAt ((← get).notePlace track) time (notice.toLatin1.map .copyright)

def addKeySignature (track time accidentals kind mode : Datum) : Act File Unit := do
  putAt ((← get).settingPlace track) time (.ok (.keySignature accidentals kind mode))

def addText (track time text : Datum) : Act File Unit := do
  putAt ((← get).notePlace track) time (text.toLatin1.map .text)

def addProgramChange (track channel time program : Datum) : Act File Unit := do
  putAt ((← get).notePlace track) time (.ok (.programChange channel program))

def addChannelPressure (track channel time pressure : Datum) : Act File Unit := do
  putAt ((← get).notePlace track) time (.ok (.channelPressure channel pressure))

def addController (track channel time number parameter : Datum) : Act File Unit := do
  putAt ((← get).notePlace track) time (.ok (.controller channel number parameter))

def addPitchWheel (track channel time value : Datum) : Act File Unit := do
  putAt ((← get).notePlace track) time (.ok (.pitchWheel channel value))

def putControllers (i : Nat) (channel step : Datum) : Datum → List (Int × Datum) → Act File Unit
  | _, [] => return
  | tick, (number, value) :: rest => do
    put i tick (.controller channel (.int number) value)
    count
    putControllers i channel step (← liftM (tick.add step)) rest

/-- The controllers that set a parameter: two to choose it, one or two for its value. -/
structure Parameter where
  chooseHigh : Int
  chooseLow : Int

def registered : Parameter := ⟨101, 100⟩

def unregistered : Parameter := ⟨99, 98⟩

def setParameter (p : Parameter) (track channel time high low dataHigh dataLow : Datum) (timeOrder : Bool) :
    Act File Unit := do
  let f ← get
  let tick ← liftM (f.ticks time)
  let i ← liftM (f.notePlace track)
  let step := Datum.int (if timeOrder then 1 else 0)
  let choose := [(p.chooseHigh, high), (p.chooseLow, low), (6, dataHigh)]
  let all := match dataLow with
    | .none => choose
    | d => choose ++ [(38, d)]
  putControllers i channel step tick all

def changeTuningBank (track channel time bank : Datum) (timeOrder : Bool) : Act File Unit :=
  setParameter registered track channel time (.int 0) (.int 4) (.int 0) bank timeOrder

def changeTuningProgram (track channel time program : Datum) (timeOrder : Bool) : Act File Unit :=
  setParameter registered track channel time (.int 0) (.int 3) (.int 0) program timeOrder

def tuningBytes (note frequency : Datum) : Except Fault (List UInt8) := do
  let note ← note.toByte
  let (a, b, c) ← Tuning.ofFrequency frequency
  return [note, ← Datum.byte a, ← Datum.byte b, ← Datum.byte c]

def tuningPayload (tunings program : Datum) : Except Fault (List UInt8) := do
  let program ← program.toByte
  let size ← tunings.size
  let size ← Datum.byte size
  let notes ← (← tunings.items).mapM fun tuning => do
    match ← tuning.items with
    | [note, frequency] => tuningBytes note frequency
    | _ => throw .refused
  return [program, size] ++ notes.flatten

def changeNoteTuning (track tunings device realTime program : Datum) : Act File Unit := do
  let i ← liftM ((← get).notePlace track)
  let payload ← liftM (tuningPayload tunings program)
  put i (.int 0) (.universalExclusive realTime device (.int 8) (.int 2) (.bytes payload))
  count

def addSystemExclusive (track time manufacturer payload : Datum) : Act File Unit := do
  let f ← get
  let tick ← liftM (f.ticks time)
  let i ← liftM (f.notePlace track)
  put i tick (.systemExclusive manufacturer payload)
  count

def addUniversalExclusive (track time code subcode payload device realTime : Datum) : Act File Unit := do
  let f ← get
  let tick ← liftM (f.ticks time)
  let i ← liftM (f.notePlace track)
  put i tick (.universalExclusive realTime device code subcode payload)
  count

/-! ## Closing and writing -/

def latestOrigin : Datum := .int 100000000

def earlier (origin tick : Datum) : Except Fault Datum :=
  match tick.before? origin with
  | some true => .ok tick
  | some false => .ok origin
  | none => .error .wrongKind

def shift (offset : Datum) : Act File Unit := do
  let offset ← liftM ((← get).ticks offset)
  let ticks := (← get).tracks.toList.flatMap fun t => t.addedEvents.map (·.tick)
  let origin ← liftM (ticks.foldlM earlier latestOrigin)
  (List.range (← get).tracks.size).forM fun i => onTrack i do
    (← get).added.forM fun n => do
      let adjusted ← liftM (((← get).event n).tick.sub origin)
      let tick ← liftM (adjusted.add offset)
      modify (·.setTick n tick)

def origin (f : File) : Except Fault Datum :=
  (f.tracks.toList.filterMap fun t => t.streamEvents.head?.map (·.tick)).foldlM earlier latestOrigin

def close : Act File Unit := do
  if (← get).closed then return
  let places := List.range (← get).tracks.size
  places.forM fun i => onTrack i do
    Track.close
    Track.sortStream
  let f ← get
  let origin ← liftM f.origin
  places.forM fun i => onTrack i do
    Track.makeRelative (if f.adjustOrigin then origin else .int 0)
    Track.writeStream
  modify fun f => { f with closed := true }

def word (n : Nat) : List UInt8 := [UInt8.ofNat (n / 256), UInt8.ofNat n]

def longWord (n : Nat) : List UInt8 := word (n / 65536) ++ word n

def header (f : File) : List UInt8 :=
  "MThd".toUTF8.toList ++ longWord 6 ++ word f.format ++ word f.tracks.size ++ word f.division

def chunk (t : Track) : Except Fault (List UInt8) :=
  match t.length? with
  | some n => .ok ("MTrk".toUTF8.toList ++ longWord n ++ t.data)
  | none => .error .wrongKind

def write : Act File (List UInt8) := do
  close
  let f ← get
  let chunks ← liftM (f.tracks.toList.mapM chunk)
  return f.header ++ chunks.flatten

end File

end Plainsong.Midi
