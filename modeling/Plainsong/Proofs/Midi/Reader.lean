import Mathlib
import Plainsong.Midi.File
/- Standard MIDI Files, read back. `Reader.file` takes the bytes of a file apart: a
   header, then chunks of tracks with the lengths they say, and in each track
   messages at ticks up to the end of the track, which must be where the chunk
   ends. Every byte is accounted for, and a status byte is asked of every message.
   The main statement is that a track written message by message is read back as
   those messages at those ticks (`track_encode`), and a file of such tracks as
   those tracks (`file_chunks`). -/
namespace Plainsong.Midi

open List Option

namespace Reader

/-- A message of a track. -/
inductive Message where
  /-- a message on a channel: what it does, the channel, and its one or two values -/
  | voice (status channel : Nat) (values : List UInt8)
  | exclusive (status : UInt8) (data : List UInt8)
  /-- a message that does not sound: a name, a text, a tempo -/
  | silent (type : UInt8) (data : List UInt8)
  deriving DecidableEq

namespace Message

def noteOff (channel : Nat) (key velocity : UInt8) : Message := .voice 8 channel [key, velocity]

def noteOn (channel : Nat) (key velocity : UInt8) : Message := .voice 9 channel [key, velocity]

def programChange (channel : Nat) (program : UInt8) : Message := .voice 12 channel [program]

def text (letters : List UInt8) : Message := .silent 0x01 letters

def trackName (letters : List UInt8) : Message := .silent 0x03 letters

def endOfTrack : Message := .silent 0x2F []

end Message

/-- What a track says: messages with their ticks. -/
abbrev Timed := List (Nat × Message)

/-! ## Reading -/

/-- Reads a quantity of seven bits a byte off the front, `high` being the part of
    it that has been read. -/
def quantity (high : Nat) : List UInt8 → Option (Nat × List UInt8)
  | [] => none
  | b :: rest =>
    if b.toNat < 128 then some (high * 128 + b.toNat, rest) else quantity (high * 128 + (b.toNat - 128)) rest

/-- Takes so many bytes off the front. -/
def take? (n : Nat) (bytes : List UInt8) : Option (List UInt8 × List UInt8) :=
  if n ≤ bytes.length then some (bytes.take n, bytes.drop n) else none

/-- How many values a message on a channel has. -/
def arity (status : Nat) : Nat := if status = 12 || status = 13 then 1 else 2

/-- Reads bytes with their number before them. -/
def counted (bytes : List UInt8) : Option (List UInt8 × List UInt8) := do
  let (n, rest) ← quantity 0 bytes
  take? n rest

/-- Reads the values of a message on a channel. -/
def voice (status : Nat) (bytes : List UInt8) : Option (Message × List UInt8) := do
  let (values, rest) ← take? (arity (status / 16)) bytes
  if values.all (·.toNat < 128) then some (.voice (status / 16) (status % 16) values, rest) else none

/-- Reads the type and the data of a message that does not sound. -/
def silent : List UInt8 → Option (Message × List UInt8)
  | [] => none
  | type :: rest => (counted rest).map fun (data, rest) => (.silent type data, rest)

/-- Reads one message off the front. -/
def message : List UInt8 → Option (Message × List UInt8)
  | [] => none
  | status :: rest =>
    if status.toNat < 0x80 then none
    else if status.toNat < 0xF0 then voice status.toNat rest
    else if status = 0xFF then silent rest
    else if status = 0xF0 || status = 0xF7 then
      (counted rest).map fun (data, rest) => (.exclusive status data, rest)
    else none

/-- Reads messages up to the end of a track, which must be the end of the bytes. -/
def timed : Nat → Nat → List UInt8 → Option Timed
  | 0, _, _ => none
  | fuel + 1, tick, bytes => do
    let (delta, rest) ← quantity 0 bytes
    let (m, rest) ← message rest
    if m = Message.endOfTrack then if rest = [] then some [] else none
    else (timed fuel (tick + delta) rest).map ((tick + delta, m) :: ·)

/-- Reads the data of a track; every message takes a byte at least. -/
def track (data : List UInt8) : Option Timed := timed data.length 0 data

/-- A number of several bytes, the highest first. -/
def number (bytes : List UInt8) : Nat := bytes.foldl (fun n b => n * 256 + b.toNat) 0

/-- Takes a chunk of a type off the front. -/
def chunk (type : String) (bytes : List UInt8) : Option (List UInt8 × List UInt8) := do
  let (name, rest) ← take? 4 bytes
  if name = type.toUTF8.toList then
    let (length, rest) ← take? 4 rest
    take? (number length) rest
  else none

/-- Reads so many tracks, and nothing behind them. -/
def tracks : Nat → List UInt8 → Option (List Timed)
  | 0, bytes => if bytes = [] then some [] else none
  | n + 1, bytes => do
    let (data, rest) ← chunk "MTrk" bytes
    let first ← track data
    (tracks n rest).map (first :: ·)

/-- What a file says. -/
structure Content where
  format : Nat
  division : Nat
  tracks : List Timed

def file (bytes : List UInt8) : Option Content := do
  let (head, rest) ← chunk "MThd" bytes
  match head with
  | [a, b, c, d, e, f] =>
    let ts ← tracks (number [c, d]) rest
    some { format := number [a, b], division := number [e, f], tracks := ts }
  | _ => none

/-! ## Writing -/

namespace Message

def bytes : Message → List UInt8
  | voice status channel values => UInt8.ofNat (status * 16 + channel) :: values
  | exclusive status data => status :: (VarLength.encode data.length ++ data)
  | silent type data => 0xFF :: type :: (VarLength.encode data.length ++ data)

/-- A message that can be written; the end of a track is none of its messages. -/
def Valid : Message → Prop
  | voice status channel values =>
    8 ≤ status ∧ status < 15 ∧ channel < 16 ∧ values.length = arity status ∧ ∀ v ∈ values, v.toNat < 128
  | exclusive status _ => status = 0xF0 ∨ status = 0xF7
  | silent type data => silent type data ≠ endOfTrack

end Message

/-- The bytes of messages behind a tick, with the end of the track. -/
def encode : Nat → Timed → List UInt8
  | _, [] => Track.trailer
  | tick, (t, m) :: rest => VarLength.encode (t - tick) ++ m.bytes ++ encode t rest

/-! ## What is written is read -/

theorem toNat_ofNat {n : Nat} (h : n < 256) : (UInt8.ofNat n).toNat = n := by
  simp [Nat.mod_eq_of_lt h]

theorem encodeOnto_zero (xs : List UInt8) : VarLength.encodeOnto 0 xs = xs := by
  rw [VarLength.encodeOnto, if_pos rfl]

theorem encodeOnto_pos {n : Nat} (h : ¬ n = 0) (xs : List UInt8) :
    VarLength.encodeOnto n xs = VarLength.encodeOnto (n / 128) (UInt8.ofNat (n % 128 + 128) :: xs) := by
  rw [VarLength.encodeOnto, if_neg h]

theorem encodeOnto_append (n : Nat) (xs ys : List UInt8) :
    VarLength.encodeOnto n xs ++ ys = VarLength.encodeOnto n (xs ++ ys) := by
  induction n, xs using VarLength.encodeOnto.induct with
  | case1 xs => rw [encodeOnto_zero, encodeOnto_zero]
  | case2 n xs h ih => rw [encodeOnto_pos h, ih, encodeOnto_pos h, cons_append]

theorem quantity_encodeOnto (n : Nat) (xs : List UInt8) :
    quantity 0 (VarLength.encodeOnto n xs) = quantity n xs := by
  induction n, xs using VarLength.encodeOnto.induct with
  | case1 xs => rw [encodeOnto_zero]
  | case2 n xs h ih =>
    have hb : (UInt8.ofNat (n % 128 + 128)).toNat = n % 128 + 128 := toNat_ofNat (by omega)
    have hn : n / 128 * 128 + (n % 128 + 128 - 128) = n := by omega
    rw [encodeOnto_pos h, ih, quantity, hb, if_neg (by omega), hn]

theorem quantity_encode (n : Nat) (rest : List UInt8) :
    quantity 0 (VarLength.encode n ++ rest) = some (n, rest) := by
  have hb : (UInt8.ofNat (n % 128)).toNat = n % 128 := toNat_ofNat (by omega)
  have hn : n / 128 * 128 + n % 128 = n := by omega
  rw [VarLength.encode, encodeOnto_append, quantity_encodeOnto, singleton_append, quantity, hb,
    if_pos (by omega), hn]

theorem take?_append (xs ys : List UInt8) : take? xs.length (xs ++ ys) = some (xs, ys) := by
  simp [take?]

theorem counted_encode (data rest : List UInt8) :
    counted (VarLength.encode data.length ++ data ++ rest) = some (data, rest) := by
  rw [append_assoc, counted, quantity_encode]
  exact take?_append data rest

theorem message_bytes {m : Message} (h : m.Valid) (rest : List UInt8) : message (m.bytes ++ rest) = some (m, rest) := by
  cases m with
  | voice status channel values =>
    obtain ⟨hlo, hhi, hc, hlen, hv⟩ := h
    have hb : (UInt8.ofNat (status * 16 + channel)).toNat = status * 16 + channel := toNat_ofNat (by omega)
    have hall : values.all (·.toNat < 128) = true := by simpa using hv
    rw [Message.bytes, cons_append, message, hb, if_neg (by omega), if_pos (by omega), voice]
    have hs : (status * 16 + channel) / 16 = status := by omega
    have hch : (status * 16 + channel) % 16 = channel := by omega
    rw [hs, hch, ← hlen, take?_append]
    simp only [bind_eq_bind, bind_some, hall, if_true]
  | exclusive status data =>
    rcases h with rfl | rfl
    all_goals
      show (counted (VarLength.encode data.length ++ data ++ rest)).map _ = _
      rw [counted_encode]
      rfl
  | silent type data =>
    show (counted (VarLength.encode data.length ++ data ++ rest)).map _ = _
    rw [counted_encode]
    rfl

theorem Message.Valid.ne_endOfTrack {m : Message} (h : m.Valid) : m ≠ endOfTrack := by
  cases m with
  | voice => simp [endOfTrack]
  | exclusive => simp [endOfTrack]
  | silent => exact h

/-- The ticks never go back, from a tick on. -/
def Ordered : Nat → Timed → Prop
  | _, [] => True
  | tick, (t, _) :: rest => tick ≤ t ∧ Ordered t rest

theorem timed_encode {l : Timed} (hv : ∀ p ∈ l, p.2.Valid) {tick fuel : Nat}
    (ho : Ordered tick l) (hf : l.length < fuel) : timed fuel tick (encode tick l) = some l := by
  induction l generalizing tick fuel with
  | nil =>
    obtain ⟨fuel, rfl⟩ : ∃ k, fuel = k + 1 := ⟨fuel - 1, by simp at hf; omega⟩
    rfl
  | cons p l ih =>
    obtain ⟨t, m⟩ := p
    obtain ⟨fuel, rfl⟩ : ∃ k, fuel = k + 1 := ⟨fuel - 1, by simp at hf; omega⟩
    obtain ⟨hle, ho⟩ := ho
    have hm : m.Valid := hv (t, m) (by simp)
    have ht : tick + (t - tick) = t := by omega
    rw [encode, timed, append_assoc, quantity_encode]
    simp only [bind_eq_bind, bind_some, message_bytes hm, if_neg hm.ne_endOfTrack, ht,
      ih (fun p hp => hv p (by simp [hp])) ho (by simpa using hf), map_some]

theorem length_le_encode (tick : Nat) (l : Timed) : l.length < (encode tick l).length := by
  induction l generalizing tick with
  | nil => exact Nat.zero_lt_succ 3
  | cons p l ih =>
    obtain ⟨t, m⟩ := p
    have hm : 0 < m.bytes.length := by cases m <;> simp [Message.bytes]
    have := ih t
    simp only [encode, length_append, length_cons]
    omega

theorem track_encode {l : Timed} (hv : ∀ p ∈ l, p.2.Valid) (ho : Ordered 0 l) :
    track (encode 0 l) = some l :=
  timed_encode hv ho (length_le_encode 0 l)

theorem number_longWord {n : Nat} (h : n < 2 ^ 32) : number (File.longWord n) = n := by
  simp only [number, File.longWord, File.word, cons_append, nil_append, foldl_cons,
    foldl_nil, UInt8.toNat_ofNat']
  omega

theorem number_word {n : Nat} (h : n < 2 ^ 16) : number (File.word n) = n := by
  simp only [number, File.word, foldl_cons, foldl_nil, UInt8.toNat_ofNat']
  omega

theorem chunk_append (type : String) (ht : type.toUTF8.toList.length = 4) (data : List UInt8)
    (hd : data.length < 2 ^ 32) (rest : List UInt8) :
    chunk type (type.toUTF8.toList ++ File.longWord data.length ++ data ++ rest) = some (data, rest) := by
  have hname := take?_append type.toUTF8.toList (File.longWord data.length ++ (data ++ rest))
  have hlength := take?_append (File.longWord data.length) (data ++ rest)
  rw [ht] at hname
  have hfour : (File.longWord data.length).length = 4 := rfl
  rw [hfour] at hlength
  rw [chunk, append_assoc, append_assoc, hname]
  simp only [bind_eq_bind, bind_some, if_true, hlength, number_longWord hd]
  exact take?_append data rest

/-- The chunk of a track with given data. -/
def trackChunk (data : List UInt8) : List UInt8 := "MTrk".toUTF8.toList ++ File.longWord data.length ++ data

theorem tracks_chunks {ds : List (List UInt8)} {ts : List Timed}
    (h : List.Forall₂ (fun d t => d.length < 2 ^ 32 ∧ track d = some t) ds ts) :
    tracks ds.length (ds.map trackChunk).flatten = some ts := by
  induction h with
  | nil => rfl
  | @cons d t ds ts hd _ ih =>
    rw [length_cons, tracks, map_cons, flatten_cons, trackChunk, chunk_append "MTrk" (by decide +kernel) _ hd.1]
    simp only [bind_eq_bind, bind_some, hd.2, ih, map_some]

theorem file_chunks {f : File} {ds : List (List UInt8)} {ts : List Timed}
    (h : List.Forall₂ (fun d t => d.length < 2 ^ 32 ∧ track d = some t) ds ts)
    (hformat : f.format < 2 ^ 16) (hdivision : f.division < 2 ^ 16)
    (hcount : f.tracks.size = ds.length) (hsize : ds.length < 2 ^ 16) :
    file (f.header ++ (ds.map trackChunk).flatten) =
      some { format := f.format, division := f.division, tracks := ts } := by
  have hhead := chunk_append "MThd" (by decide +kernel)
    (File.word f.format ++ File.word f.tracks.size ++ File.word f.division)
    (show 6 < 2 ^ 32 by omega) (ds.map trackChunk).flatten
  have hsix : (File.word f.format ++ File.word f.tracks.size ++ File.word f.division).length = 6 := rfl
  rw [hsix] at hhead
  have hbytes : f.header = "MThd".toUTF8.toList ++ File.longWord 6 ++
      (File.word f.format ++ File.word f.tracks.size ++ File.word f.division) := by
    simp only [File.header, append_assoc]
  rw [file, hbytes, hhead]
  show (tracks (number (File.word f.tracks.size)) (ds.map trackChunk).flatten).bind (fun ts => some
    ({ format := number (File.word f.format), division := number (File.word f.division), tracks := ts } : Content)) = _
  rw [hcount, number_word hsize, tracks_chunks h, number_word hformat, number_word hdivision]
  rfl

end Reader

end Plainsong.Midi
