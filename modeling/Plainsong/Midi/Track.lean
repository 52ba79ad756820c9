import Plainsong.Midi.Event
import Plainsong.Table
/- A track: the events added to it, and the stream of events that is written when
   the track is closed. Both name the same events, so a tick that changes in the
   stream changes among the added ones too. -/
namespace Plainsong.Midi

abbrev Act (σ α : Type) := ExceptT Fault (StateM σ) α

structure Track where
  dropDuplicates : Bool
  separateNotes : Bool
  events : Array Event := #[]
  /-- the events added, in the order of the list -/
  added : List Nat := []
  stream : List Nat := []
  data : List UInt8 := []
  /-- the length of the data, once all of it is written -/
  length? : Option Nat := none
  closed : Bool := false
  deriving Inhabited

namespace Track

def event (t : Track) (i : Nat) : Event := t.events.getD i default

def addedEvents (t : Track) : List Event := t.added.map t.event

def streamEvents (t : Track) : List Event := t.stream.map t.event

def add (t : Track) (e : Event) : Track :=
  { t with events := t.events.push e, added := t.added ++ [t.events.size] }

def setTick (t : Track) (i : Nat) (tick : Datum) : Track :=
  { t with events := t.events.modify i fun e => { e with tick } }

def sorted (t : Track) (ids : List Nat) : Except Fault (List Nat) :=
  match ids with
  | [] => .ok []
  | first :: _ =>
    if ids.all fun i => (t.event first).comparable (t.event i) then
      .ok (ids.mergeSort fun i j => (t.event i).le (t.event j))
    else .error .wrongKind

def distinct (t : Track) (ids : List Nat) : List Nat :=
  (ids.foldl (fun kept i => if kept.any fun j => (t.event j).same (t.event i) then kept else i :: kept) []).reverse

def removeDuplicates : Act Track Unit := do
  let t ← get
  t.added.forM fun i => discard (liftM (t.event i).fingerprint)
  set { t with added := t.distinct t.added }
  let t ← get
  set { t with added := ← liftM (t.sorted t.added) }

abbrev OpenNotes := Table String (List Datum)

def noteKey (pitch channel : Datum) : String := pitch.written ++ channel.written

/-- Passes one event: where a note begins while the same one still sounds, the
    next end of it is moved back to that beginning. -/
def separateOne (openNotes : OpenNotes) (i : Nat) : Act Track OpenNotes := do
  let e := (← get).event i
  match e.deed with
  | .noteOn channel pitch .. =>
    let key := noteKey pitch channel
    return openNotes.put key (e.tick :: (openNotes.find? key).getD [])
  | .noteOff channel pitch .. =>
    let key := noteKey pitch channel
    match openNotes.find? key with
    | none => throw .missing
    | some [] => throw .outOfRange
    | some [_] => return openNotes.put key []
    | some (tick :: rest) =>
      modify (·.setTick i tick)
      return openNotes.put key rest
  | _ => return openNotes

def separate : Act Track Unit := do
  let _ ← (← get).stream.foldlM separateOne ([] : OpenNotes)
  let t ← get
  set { t with stream := ← liftM (t.sorted t.stream) }

def sortStream : Act Track Unit := do
  let t ← get
  set { t with stream := ← liftM (t.sorted t.stream) }

def close : Act Track Unit := do
  if (← get).closed then return
  modify fun t => { t with closed := true }
  if (← get).dropDuplicates then removeDuplicates
  modify fun t => { t with stream := t.added }
  sortStream
  if (← get).separateNotes then separate

def makeRelative (origin : Datum) : Act Track Unit := do
  let _ ← (← get).stream.foldlM (fun running i => do
    let adjusted ← liftM (((← get).event i).tick.sub origin)
    let tick ← liftM (adjusted.sub running)
    modify (·.setTick i tick)
    return adjusted) (Datum.int 0)

def trailer : List UInt8 := [0x00, 0xFF, 0x2F, 0x00]

def lengthLimit : Nat := Nat.pow 2 32

def writeStream : Act Track Unit := do
  (← get).stream.forM fun i => do
    let bytes ← liftM ((← get).event i).bytes
    modify fun t => { t with data := t.data ++ bytes }
  modify fun t => { t with data := t.data ++ trailer }
  let length := (← get).data.length
  if lengthLimit ≤ length then throw .doesNotFit
  modify fun t => { t with length? := some length }

end Track

end Plainsong.Midi
