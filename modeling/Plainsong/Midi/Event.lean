import Plainsong.Midi.VarLength
/- The events of a track: what each is, in which order events of one tick come,
   which are taken for the same event, and the bytes of each. -/
namespace Plainsong.Midi

/-- What happens. -/
inductive Deed where
  | noteOn (channel pitch duration volume annotation : Datum)
  | noteOff (channel pitch volume annotation : Datum)
  | tempo (microseconds : Int)
  | copyright (notice : List UInt8)
  | text (letters : List UInt8)
  | keySignature (accidentals kind mode : Datum)
  | programChange (channel program : Datum)
  | systemExclusive (manufacturer payload : Datum)
  | universalExclusive (realTime device code subcode payload : Datum)
  | controller (channel number parameter : Datum)
  | channelPressure (channel pressure : Datum)
  | pitchWheel (channel value : Datum)
  | trackName (letters : List UInt8)
  | timeSignature (numerator denominator clocks notes : Datum)
  deriving Inhabited

structure Event where
  tick : Datum
  /-- the number of the call that added the event -/
  order : Nat
  deed : Deed
  deriving Inhabited

namespace Deed

/-- The place of a deed among those of the same tick: names and time signatures
    first, then settings, then the ends of notes, then their beginnings. -/
def rank : Deed → Nat
  | trackName .. => 0
  | timeSignature .. => 0
  | noteOff .. => 2
  | noteOn .. => 3
  | tempo .. => 3
  | _ => 1

/-- Whether two deeds of one tick are taken for the same. Messages to a device,
    controllers and the pitch wheel never are; a text, a copyright notice and a
    signature are whatever they say. -/
def same : Deed → Deed → Bool
  | noteOn c p .., noteOn c' p' .. => p.same p' && c.same c'
  | noteOff c p .., noteOff c' p' .. => p.same p' && c.same c'
  | tempo m, tempo m' => m == m'
  | copyright _, copyright _ => true
  | text _, text _ => true
  | keySignature .., keySignature .. => true
  | programChange c p, programChange c' p' => p.same p' && c.same c'
  | channelPressure c v, channelPressure c' v' => v.same v' && c.same c'
  | trackName n, trackName n' => n == n'
  | timeSignature .., timeSignature .. => true
  | _, _ => false

end Deed

namespace Event

def rank (e : Event) : Nat := e.deed.rank

def same (a b : Event) : Bool := a.tick.same b.tick && a.deed.same b.deed

def le (a b : Event) : Bool :=
  if a.tick.same b.tick then
    a.rank < b.rank || (a.rank == b.rank && a.order ≤ b.order)
  else a.tick.before? b.tick == some true

def comparable (a b : Event) : Bool := a.tick.same b.tick || (a.tick.before? b.tick).isSome

/-! ## Fingerprint -/

def xor : Int → Int → Int
  | .ofNat m, .ofNat n => .ofNat (m ^^^ n)
  | .ofNat m, .negSucc n => .negSucc (m ^^^ n)
  | .negSucc m, .ofNat n => .negSucc (m ^^^ n)
  | .negSucc m, .negSucc n => .ofNat (m ^^^ n)

def fingerprint (e : Event) : Except Fault Int := do
  let a ← e.tick.toWhole
  let a := (a + 0x7ed55d16) + a * Int.pow 2 12
  let a := xor (xor a 0xc761c23c) (a.fdiv (Int.pow 2 19))
  let a := (a + 0x165667b1) + a * Int.pow 2 5
  let a := xor (a + 0xd3a2646c) (a * Int.pow 2 9)
  let a := (a + 0xfd7046c5) + a * Int.pow 2 3
  return xor (xor a 0xb55a4f09) (a.fdiv (Int.pow 2 16))

/-! ## Text -/

def words? (e : Event) : Option (Except Fault String) :=
  match e.deed with
  | .noteOn channel pitch duration volume _ => some do
    let pitch ← pitch.wholeText
    let tick ← e.tick.wholeText
    let duration ← duration.wholeText
    let channel ← channel.wholeText
    let volume ← volume.wholeText
    return s!"NoteOn {pitch} at tick {tick} duration {duration} ch {channel} vel {volume}"
  | .noteOff channel pitch volume _ => some do
    let pitch ← pitch.wholeText
    let tick ← e.tick.wholeText
    let channel ← channel.wholeText
    let volume ← volume.wholeText
    return s!"NoteOff {pitch} at tick {tick} ch {channel} vel {volume}"
  | _ => none

/-! ## Bytes -/

abbrev Bytes := List UInt8

def channelMessage (tick channel : Datum) (status : Nat) (values : List Datum) : Except Fault Bytes := do
  let code ← Datum.onChannel status channel
  let time ← VarLength.encodeDatum tick
  let code ← Datum.byte code
  let values ← values.mapM Datum.toByte
  return time ++ [code] ++ values

def textMessage (tick : Datum) (type : UInt8) (letters : Bytes) : Except Fault Bytes := do
  let time ← VarLength.encodeDatum tick
  return time ++ [0xFF, type] ++ VarLength.encode letters.length ++ letters

def payloadBytes : Datum → Except Fault Bytes
  | .bytes b => .ok b
  | _ => .error .wrongKind

def bytes (e : Event) : Except Fault Bytes :=
  match e.deed with
  | .noteOn channel pitch _ volume _ => channelMessage e.tick channel 0x90 [pitch, volume]
  | .noteOff channel pitch volume _ => channelMessage e.tick channel 0x80 [pitch, volume]
  | .tempo m => do
    if m < 0 || Int.pow 2 32 ≤ m then throw .doesNotFit
    let n := m.toNat
    let time ← VarLength.encodeDatum e.tick
    return time ++ [0xFF, 0x51, 0x03, UInt8.ofNat (n / 65536), UInt8.ofNat (n / 256), UInt8.ofNat n]
  | .copyright notice => do
    let time ← VarLength.encodeDatum e.tick
    -- the length is kept in signed bytes, so no length of two bytes fits
    if 128 ≤ notice.length then throw .doesNotFit
    return time ++ [0xFF, 0x02] ++ VarLength.encode notice.length ++ notice
  | .text letters => textMessage e.tick 0x01 letters
  | .trackName letters => textMessage e.tick 0x03 letters
  | .keySignature accidentals kind mode => do
    let time ← VarLength.encodeDatum e.tick
    let count ← (← accidentals.mul kind).toSignedByte
    let mode ← mode.toByte
    return time ++ [0xFF, 0x59, 0x02, count, mode]
  | .programChange channel program => channelMessage e.tick channel 0xC0 [program]
  | .systemExclusive manufacturer payload => do
    let time ← VarLength.encodeDatum e.tick
    let size ← payload.size
    let manufacturer ← manufacturer.toByte
    let payload ← payloadBytes payload
    return time ++ [0xF0] ++ VarLength.encode (size + 2) ++ [manufacturer] ++ payload ++ [0xF7]
  | .universalExclusive realTime device code subcode payload => do
    let time ← VarLength.encodeDatum e.tick
    let size ← payload.size
    let device ← device.toByte
    let code ← code.toByte
    let subcode ← subcode.toByte
    let payload ← payloadBytes payload
    return time ++ [0xF0] ++ VarLength.encode (size + 5)
      ++ [if realTime.isTrue then 0x7F else 0x7E, device, code, subcode] ++ payload ++ [0xF7]
  | .controller channel number parameter => channelMessage e.tick channel 0xB0 [number, parameter]
  | .channelPressure channel pressure => channelMessage e.tick channel 0xD0 [pressure]
  | .pitchWheel channel value => do
    let code ← Datum.onChannel 0xE0 channel
    let time ← VarLength.encodeDatum e.tick
    let raised ← match ← value.add (.int 8192) with
      | .int n => pure n
      | _ => throw .wrongKind
    let code ← Datum.byte code
    let high ← Datum.byte (raised.fdiv 128)
    return time ++ [code, UInt8.ofNat (raised % 128).toNat, high]
  | .timeSignature numerator denominator clocks notes => do
    let time ← VarLength.encodeDatum e.tick
    let values ← [numerator, denominator, clocks, notes].mapM Datum.toByte
    return time ++ [0xFF, 0x58, 0x04] ++ values

end Event

end Plainsong.Midi
