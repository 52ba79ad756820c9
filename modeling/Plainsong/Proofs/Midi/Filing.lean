import Plainsong.Proofs.Midi.Melody
import Plainsong.Proofs.Sequence
/- Writing a file of any number of tracks. What a message means is told apart from
   the bytes it has (`Reader.Sense`), and a deed voices a meaning if whatever bytes
   it gets are those of a message with that meaning. The tracks are closed, the
   earliest tick is looked for and the tracks are written, one after the other; so
   a file whose tracks settle on streams is written with every event of a stream at
   its own tick, unless an event is refused or a track is too long
   (`File.ends_write`). -/
namespace Plainsong.Midi

open List

/-! ## What messages mean -/

namespace Reader

/-- What a message tells, whatever its bytes. -/
inductive Sense where
  | noteOff (channel key velocity : Nat)
  | noteOn (channel key velocity : Nat)
  | controller (channel number value : Nat)
  | program (channel number : Nat)
  | pressure (channel value : Nat)
  | pitchWheel (channel : Nat) (value : Int)
  | text (letters : List UInt8)
  | copyright (letters : List UInt8)
  | trackName (letters : List UInt8)
  | tempo (microseconds : Nat)
  | timeSignature (numerator denominator clocks notes : UInt8)
  | keySignature (accidentals : Int) (mode : UInt8)
  /-- a message to a device, with the byte that ends it -/
  | exclusive (data : List UInt8)
  | unknown
  deriving DecidableEq

/-- The number a byte with a sign stands for. -/
def signed (b : UInt8) : Int := if b.toNat < 128 then b.toNat else b.toNat - 256

namespace Message

def voiceSense (channel : Nat) : Nat → List UInt8 → Sense
  | 8, [key, velocity] => .noteOff channel key.toNat velocity.toNat
  | 9, [key, velocity] => .noteOn channel key.toNat velocity.toNat
  | 11, [n, value] => .controller channel n.toNat value.toNat
  | 12, [n] => .program channel n.toNat
  | 13, [value] => .pressure channel value.toNat
  | 14, [low, high] => .pitchWheel channel (high.toNat * 128 + low.toNat - 8192)
  | _, _ => .unknown

def silentSense : Nat → List UInt8 → Sense
  | 0x01, letters => .text letters
  | 0x02, letters => .copyright letters
  | 0x03, letters => .trackName letters
  | 0x51, [a, b, c] => .tempo (number [a, b, c])
  | 0x58, [numerator, denominator, clocks, notes] => .timeSignature numerator denominator clocks notes
  | 0x59, [accidentals, mode] => .keySignature (signed accidentals) mode
  | _, _ => .unknown

def sense : Message → Sense
  | voice status channel values => voiceSense channel status values
  | exclusive status data => if status = 0xF0 then .exclusive data else .unknown
  | silent type data => silentSense type.toNat data

end Message

/-- The place of a meaning among those of one tick. -/
def Sense.rank : Sense → Nat
  | trackName .. => 0
  | timeSignature .. => 0
  | noteOff .. => 2
  | noteOn .. => 3
  | tempo .. => 3
  | _ => 1

/-- Meanings with their ticks. -/
abbrev Told := List (Nat × Sense)

def Timed.told (l : Timed) : Told := l.map fun p => (p.1, p.2.sense)

/-- Ticks counted from an origin. -/
def fromOrigin {α : Type} (origin : Nat) (l : List (Nat × α)) : List (Nat × α) := l.map fun p => (p.1 - origin, p.2)

theorem encode_fromOrigin {origin tick : Nat} {l : Timed} (hle : origin ≤ tick) (ho : Ordered tick l) :
    encode (tick - origin) (fromOrigin origin l) = encode tick l := by
  induction l generalizing tick with
  | nil => rfl
  | cons p l ih =>
    obtain ⟨t, m⟩ := p
    have ht : tick ≤ t := ho.1
    have hdelta : t - origin - (tick - origin) = t - tick := by omega
    rw [fromOrigin, map_cons, encode, encode, hdelta]
    exact congrArg _ (ih (hle.trans ht) ho.2)

theorem ordered_fromOrigin (origin : Nat) {tick : Nat} {l : Timed} (ho : Ordered tick l) :
    Ordered (tick - origin) (fromOrigin origin l) := by
  induction l generalizing tick with
  | nil => trivial
  | cons p l ih => exact ⟨Nat.sub_le_sub_right ho.1 origin, ih ho.2⟩

theorem track_fromOrigin {origin : Nat} {l : Timed} (hv : ∀ p ∈ l, p.2.Valid) (ho : Ordered origin l) :
    track (encode origin l) = some (fromOrigin origin l) := by
  have hencode := encode_fromOrigin le_rfl ho
  have hordered := ordered_fromOrigin origin ho
  rw [Nat.sub_self] at hencode hordered
  rw [← hencode]
  refine track_encode (fun p hp => ?_) hordered
  obtain ⟨q, hq, rfl⟩ := mem_map.mp hp
  exact hv q hq

end Reader

namespace Track

/-! ## What deeds mean -/

/-- Whatever bytes a deed gets behind any number of ticks, they are those of a message
    with this meaning. -/
def Voices (d : Deed) (σ : Reader.Sense) : Prop :=
  ∀ (n order : Nat) (bytes : List UInt8), ({ tick := .int n, order, deed := d } : Event).bytes = .ok bytes →
    ∃ m : Reader.Message, m.Valid ∧ m.sense = σ ∧ bytes = VarLength.encode n ++ m.bytes

theorem Says.voices {d : Deed} {m : Reader.Message} (h : Says d m) : Voices d m.sense :=
  fun n order _ hbytes => ⟨m, h.1, rfl, Except.ok.inj (hbytes.symm.trans (h.2 n order))⟩

/-- An event at a tick with a meaning. -/
def Heard (e : Event) (q : Nat × Reader.Sense) : Prop := e.At q.1 ∧ Voices e.deed q.2

theorem messages_of_bytes {es : List Event} {qs : Reader.Told} (h : List.Forall₂ Heard es qs)
    {running : Nat} (hlow : ∀ q ∈ qs, running ≤ q.1) (hrising : qs.Pairwise fun p q => p.1 ≤ q.1)
    {parts : List (List UInt8)} (hparts : List.Forall₂ (fun e b => Event.bytes e = .ok b) (relative running es) parts) :
    ∃ l : Reader.Timed, l.told = qs ∧ (∀ p ∈ l, p.2.Valid) ∧ Reader.Ordered running l ∧
      parts.flatten ++ trailer = Reader.encode running l := by
  induction h generalizing running parts with
  | nil =>
    cases hparts
    exact ⟨[], rfl, by simp, trivial, rfl⟩
  | @cons e q es qs he _ ih =>
    obtain ⟨tick, σ⟩ := q
    rw [pairwise_cons] at hrising
    have hnumber : e.number = tick := Event.number_of_at he.1
    have hle : running ≤ tick := hlow (tick, σ) (by simp)
    rw [relative, hnumber] at hparts
    obtain ⟨b, parts, hb, hrest, rfl⟩ := forall₂_cons_left_iff.mp hparts
    obtain ⟨l, rfl, hvalid, hordered, hflat⟩ := ih (fun q hq => hrising.1 q hq) hrising.2 hrest
    rw [← Int.ofNat_sub hle] at hb
    obtain ⟨m, hm, rfl, rfl⟩ := he.2 _ _ _ hb
    refine ⟨(tick, m) :: l, rfl, forall_mem_cons.mpr ⟨hm, hvalid⟩, ⟨hle, hordered⟩, ?_⟩
    rw [flatten_cons, append_assoc, hflat, Reader.encode]

/-! ## Writing, whatever comes of it -/

/-- The bytes that events get. -/
def BytesOf (es : List Event) (parts : List (List UInt8)) : Prop :=
  List.Forall₂ (fun e b => Event.bytes e = .ok b) es parts

theorem ends_forM_writeOne (t : Track) (ids : List Nat) {E : Fault → Prop}
    (hrefused : ∀ i ∈ ids, ∀ x, (t.event i).bytes = .error x → E x) (data : List UInt8) :
    Ends (ids.forM writeOne) { t with data }
      (fun _ t' => ∃ parts, BytesOf (ids.map t.event) parts ∧ t' = { t with data := data ++ parts.flatten })
      fun x _ => E x := by
  induction ids generalizing data with
  | nil => exact ⟨[], .nil, by simp⟩
  | cons i ids ih =>
    show Ends (writeOne i >>= fun _ => ids.forM writeOne) _ _ _
    rw [ends_bind, writeOne, ends_bind, ends_get, ends_bind, ends_except]
    refine ⟨fun b hb => ?_, hrefused i (by simp)⟩
    rw [ends_modify]
    refine (ih (fun j hj => hrefused j (by simp [hj])) (data ++ b)).mono ?_ fun _ _ hx => hx
    rintro _ t' ⟨parts, hparts, rfl⟩
    exact ⟨b :: parts, .cons hb hparts, by simp⟩

theorem ends_writeStream {t : Track} {E : Fault → Prop} (hdata : t.data = [])
    (hrefused : ∀ e ∈ t.streamEvents, ∀ x, e.bytes = .error x → E x)
    (hlong : ∀ parts, BytesOf t.streamEvents parts → 2 ^ 32 ≤ (parts.flatten ++ trailer).length → E .doesNotFit) :
    Ends writeStream t (fun _ t' => ∃ parts, BytesOf t.streamEvents parts ∧ t'.data = parts.flatten ++ trailer ∧
      t'.length? = some t'.data.length ∧ t'.data.length < 2 ^ 32) fun x _ => E x := by
  have hwrite := ends_forM_writeOne t t.stream (fun i hi => hrefused _ (mem_map_of_mem hi)) []
  have hself : { t with data := [] } = t := by rw [← hdata]
  rw [hself] at hwrite
  rw [writeStream, ends_bind, ends_get]
  refine hwrite.andThen ?_ fun _ _ hx => hx
  rintro _ t' ⟨parts, hparts, rfl⟩
  rw [ends_bind, ends_modify, ends_bind, ends_get, nil_append]
  dsimp only
  split
  · next hlimit =>
    refine hlong parts hparts ?_
    simpa only [lengthLimit, Nat.pow_eq] using hlimit
  · next hlimit =>
    rw [ends_modify]
    refine ⟨parts, hparts, rfl, rfl, ?_⟩
    simpa only [lengthLimit, Nat.pow_eq, Nat.not_le] using hlimit

/-- A closed track with a stream of events at rising ticks. An event of it may be refused
    and its data may be too long, where the failure is one of `E`. -/
structure Settled (t : Track) (qs : Reader.Told) (E : Fault → Prop) : Prop where
  empty : t.data = []
  nodup : t.stream.Nodup
  known : ∀ i ∈ t.stream, i < t.events.size
  heard : List.Forall₂ Heard t.streamEvents qs
  rising : qs.Pairwise fun p q => p.1 ≤ q.1
  refused : ∀ origin, (∀ q ∈ qs, origin ≤ q.1) → ∀ e ∈ relative origin t.streamEvents, ∀ x, e.bytes = .error x → E x
  tooLong : ∀ origin, (∀ q ∈ qs, origin ≤ q.1) → ∀ parts, BytesOf (relative origin t.streamEvents) parts →
    2 ^ 32 ≤ (parts.flatten ++ trailer).length → E .doesNotFit

namespace Settled

variable {t : Track} {qs : Reader.Told} {E : Fault → Prop}

theorem stream_at (h : t.Settled qs E) : ∀ i ∈ t.stream, ∃ n, (t.event i).At n := by
  intro i hi
  obtain ⟨q, -, hq⟩ := exists_of_forall₂ h.heard (mem_map_of_mem hi)
  exact ⟨q.1, hq.1⟩

theorem le_of_head (h : t.Settled qs E) {origin : Nat} (horigin : ∀ e ∈ t.streamEvents.head?, origin ≤ e.number) :
    ∀ q ∈ qs, origin ≤ q.1 := by
  have hheard := h.heard
  have hrising := h.rising
  generalize t.streamEvents = es at hheard horigin
  cases hheard with
  | nil => simp
  | @cons e q es qs he _ =>
    have hfirst : origin ≤ q.1 := Event.number_of_at he.1 ▸ horigin e rfl
    exact forall_mem_cons.mpr ⟨hfirst, fun p hp => hfirst.trans (rel_of_pairwise_cons hrising hp)⟩

theorem ends_written (h : t.Settled qs E) {origin : Nat} (horigin : ∀ q ∈ qs, origin ≤ q.1) :
    Ends (do makeRelative (.int origin); writeStream) t
      (fun _ t' => t'.length? = some t'.data.length ∧ t'.data.length < 2 ^ 32 ∧
        ∃ l : Reader.Timed, Reader.track t'.data = some l ∧ l.told = Reader.fromOrigin origin qs) fun x _ => E x := by
  obtain ⟨events, last, hfold, hmap, -⟩ := foldlM_relative h.nodup h.known h.stream_at origin origin
  rw [sub_self] at hfold
  rw [ends_bind, (makeRelative_gives hfold).ends]
  have hstream : Track.streamEvents { t with events := events } = relative origin t.streamEvents := hmap
  refine (ends_writeStream (t := { t with events := events }) h.empty (by rw [hstream]; exact h.refused origin horigin)
    (by rw [hstream]; exact h.tooLong origin horigin)).mono ?_ fun _ _ hx => hx
  rintro _ t' ⟨parts, hparts, hdata, hlength, hfits⟩
  rw [hstream] at hparts
  obtain ⟨l, rfl, hvalid, hordered, hflat⟩ := messages_of_bytes h.heard horigin h.rising hparts
  refine ⟨hlength, hfits, Reader.fromOrigin origin l, ?_, ?_⟩
  · rw [hdata, hflat]
    exact Reader.track_fromOrigin hvalid hordered
  · simp [Reader.Timed.told, Reader.fromOrigin]

end Settled

end Track

namespace File

/-! ## Track by track -/

theorem ends_onTrack {α : Type} {f : File} {i : Nat} {act : Act Track α} {Q : α → File → Prop} {E : Fault → File → Prop} :
    Ends (onTrack i act) f Q E ↔ Ends act (f.tracks.getD i default)
      (fun a t => Q a { f with tracks := f.tracks.setIfInBounds i t })
      (fun e t => E e { f with tracks := f.tracks.setIfInBounds i t }) := by
  rw [onTrack, ends_bind, ends_get]
  generalize hrun : act.run.run (f.tracks.getD i default) = r
  obtain ⟨r, t⟩ := r
  simp only [Ends, hrun]
  cases r <;> rfl

theorem ends_forM_onTrack {β : Type} {f : File} {act : Act Track PUnit} {bs : List β} {R : β → Track → Prop}
    {E : Fault → Prop} (h : List.Forall₂ (fun t b => Ends act t (fun _ => R b) fun x _ => E x) f.tracks.toList bs) :
    Ends ((List.range f.tracks.size).forM fun i => onTrack i act) f
      (fun _ f' => ∃ us : List Track, f' = { f with tracks := us.toArray } ∧ List.Forall₂ R bs us)
      fun x _ => E x := by
  -- the tracks done stand before those still to be done
  have hfrom : ∀ {todo : List Track} {bs : List β} (done : List Track),
      List.Forall₂ (fun t b => Ends act t (fun _ => R b) fun x _ => E x) todo bs →
      Ends ((List.range' done.length todo.length).forM fun i => onTrack i act) { f with tracks := (done ++ todo).toArray }
        (fun _ f' => ∃ us : List Track, f' = { f with tracks := (done ++ us).toArray } ∧ List.Forall₂ R bs us)
        fun x _ => E x := by
    intro todo bs done h
    induction h generalizing done with
    | nil => exact ⟨[], rfl, .nil⟩
    | @cons t b todo bs ht _ ih =>
      rw [length_cons, range'_succ]
      show Ends (onTrack done.length act >>= fun _ => _) _ _ _
      rw [ends_bind, ends_onTrack]
      have hself : (done ++ t :: todo).toArray.getD done.length default = t := by simp
      rw [hself]
      refine ht.mono (fun _ u hu => ?_) fun _ _ hx => hx
      have hset : (done ++ t :: todo).toArray.setIfInBounds done.length u = (done ++ [u] ++ todo).toArray := by simp
      have hrest := ih (done ++ [u])
      rw [length_append, length_singleton] at hrest
      rw [hset]
      refine hrest.mono ?_ fun _ _ hx => hx
      rintro _ f' ⟨us, rfl, hus⟩
      exact ⟨u :: us, by simp, .cons hu hus⟩
  simpa [range_eq_range'] using hfrom [] h

theorem mapM_chunk {ts : List Track} (h : ∀ t ∈ ts, t.length? = some t.data.length) :
    ts.mapM chunk = .ok ((ts.map (·.data)).map Reader.trackChunk) := by
  induction ts with
  | nil => rfl
  | cons t ts ih =>
    have ht : chunk t = .ok (Reader.trackChunk t.data) := by
      rw [chunk, h t (by simp)]
      rfl
    rw [mapM_cons, ht, ih fun u hu => h u (by simp [hu])]
    rfl

/-- A written track, read back with its ticks counted from an origin. -/
def Holds (origin : Nat) (qs : Reader.Told) (t : Track) : Prop :=
  t.length? = some t.data.length ∧ t.data.length < 2 ^ 32 ∧
    ∃ l : Reader.Timed, Reader.track t.data = some l ∧ l.told = Reader.fromOrigin origin qs

section Writing

variable {β : Type} {f : File} {bs : List β} {S : β → Reader.Told → Prop} {E : Fault → Prop}

theorem ends_close (hopen : f.closed = false)
    (hclose : List.Forall₂ (fun t b => Ends (do Track.close; Track.sortStream) t
      (fun _ u => ∃ qs, S b qs ∧ u.Settled qs E) fun x _ => E x) f.tracks.toList bs) :
    Ends close f (fun _ f' => ∃ (origin : Nat) (qss : List Reader.Told) (ts : List Track),
      f' = { f with tracks := ts.toArray, closed := true } ∧ (f.adjustOrigin = false → origin = 0) ∧
      List.Forall₂ S bs qss ∧ List.Forall₂ (Holds origin) qss ts) fun x _ => E x := by
  have hfirst := ends_forM_onTrack hclose
  rw [close, ends_bind, ends_get, if_neg (by rw [hopen]; simp), ends_bind, ends_get]
  refine hfirst.andThen ?_ fun _ _ hx => hx
  rintro _ f' ⟨us, rfl, hus⟩
  obtain ⟨qss, hqss, hsettled⟩ := forall₂_through hus
  have hsize : f.tracks.size = us.toArray.size := hclose.length_eq.trans hus.length_eq
  have hat : ∀ t ∈ us.toArray, ∀ i ∈ t.stream, ∃ n, (t.event i).At n := by
    intro t ht
    obtain ⟨qs, -, h⟩ := exists_of_forall₂ hsettled (mem_toArray.mp ht)
    exact h.stream_at
  obtain ⟨k, hk, hle⟩ := origin_int (f := { f with tracks := us.toArray }) hat
  rw [ends_bind, ends_get, ends_bind, (Gives.of_except hk _).ends, ends_bind, hsize]
  -- the origin the ticks are counted from
  obtain ⟨origin, horigin, hzero, hk'⟩ : ∃ origin : Nat,
      (if f.adjustOrigin = true then Datum.int k else .int 0) = .int origin ∧
        (f.adjustOrigin = false → origin = 0) ∧ origin ≤ k := by
    cases f.adjustOrigin with
    | true => exact ⟨k, rfl, fun h => absurd h (by simp), le_rfl⟩
    | false => exact ⟨0, rfl, fun _ => rfl, k.zero_le⟩
  have hwritten : List.Forall₂ (fun t qs => Ends (do Track.makeRelative (.int origin); Track.writeStream) t
      (fun _ => Holds origin qs) fun x _ => E x) us qss := by
    refine ((forall₂_and_left us qss).mpr ⟨fun t ht => ht, hsettled⟩).imp ?_
    rintro t qs ⟨ht, h⟩
    refine h.ends_written (h.le_of_head fun e he => ?_)
    exact hk'.trans (hle t (mem_toArray.mpr ht) e he)
  have hsecond := ends_forM_onTrack (f := { f with tracks := us.toArray }) hwritten
  rw [horigin]
  refine hsecond.mono ?_ fun _ _ hx => hx
  rintro _ f' ⟨ts, rfl, hts⟩
  exact ⟨origin, qss, ts, rfl, hzero, hqss, hts⟩

/-- A file whose tracks settle is written, and read back with the events of each track at
    their ticks, counted from an origin that is zero unless the file adjusts it. -/
theorem ends_write (hopen : f.closed = false) (hformat : f.format < 2 ^ 16) (hdivision : f.division < 2 ^ 16)
    (hsize : f.tracks.size < 2 ^ 16)
    (hclose : List.Forall₂ (fun t b => Ends (do Track.close; Track.sortStream) t
      (fun _ u => ∃ qs, S b qs ∧ u.Settled qs E) fun x _ => E x) f.tracks.toList bs) :
    Ends write f (fun bytes _ => ∃ (c : Reader.Content) (origin : Nat) (qss : List Reader.Told),
      Reader.file bytes = some c ∧ c.format = f.format ∧ c.division = f.division ∧
      (f.adjustOrigin = false → origin = 0) ∧ List.Forall₂ S bs qss ∧
      c.tracks.map Reader.Timed.told = qss.map (Reader.fromOrigin origin)) fun x _ => E x := by
  rw [write]
  refine (ends_close hopen hclose).andThen ?_ fun _ _ hx => hx
  rintro _ f' ⟨origin, qss, ts, rfl, hzero, hqss, hts⟩
  have hlengths : ∀ t ∈ ts, t.length? = some t.data.length := by
    intro t ht
    obtain ⟨qs, -, h⟩ := exists_of_forall₂ hts.flip ht
    exact h.1
  rw [ends_bind, ends_get, ends_bind, (Gives.of_except (mapM_chunk hlengths) _).ends, ends_pure]
  obtain ⟨ls, hls, htold⟩ : ∃ ls : List Reader.Timed,
      List.Forall₂ (fun t l => t.data.length < 2 ^ 32 ∧ Reader.track t.data = some l) ts ls ∧
      List.Forall₂ (fun qs l => Reader.Timed.told l = Reader.fromOrigin origin qs) qss ls :=
    forall₂_through (hts.flip.imp fun t qs h => h.2.2.imp fun l hl => ⟨⟨h.2.1, hl.1⟩, hl.2⟩)
  have hcount : f.tracks.size = ts.length := hclose.length_eq.trans (hqss.length_eq.trans hts.length_eq)
  refine ⟨{ format := f.format, division := f.division, tracks := ls }, origin, qss, ?_, rfl, rfl, hzero, hqss, ?_⟩
  · refine Reader.file_chunks (f := { f with tracks := ts.toArray, closed := true })
      (forall₂_map_left_iff.mpr hls) hformat hdivision (by simp) (by simpa [← hcount] using hsize)
  · rw [← forall₂_eq_eq_eq, forall₂_map_left_iff, forall₂_map_right_iff]
    exact htold.flip

end Writing

/-! ## Writing track by track -/

/-- What is left of writing a file when its tracks are closed. -/
def finish : Act File (List UInt8) := do
  let f ← get
  let origin ← liftM f.origin
  (List.range f.tracks.size).forM fun i => onTrack i do
    Track.makeRelative (if f.adjustOrigin then origin else .int 0)
    Track.writeStream
  modify fun f => { f with closed := true }
  let f ← get
  let chunks ← liftM (f.tracks.toList.mapM chunk)
  return f.header ++ chunks.flatten

theorem write_run {f : File} {us : List Track} (hopen : f.closed = false)
    (hus : List.Forall₂ (fun t u => Gives (do Track.close; Track.sortStream) t ⟨⟩ u) f.tracks.toList us) :
    write.run.run f = finish.run.run { f with tracks := us.toArray } := by
  have hloop := ends_forM_onTrack (R := fun u u' => u' = u) (E := fun _ => False)
    (hus.imp fun t u h => (h.ends (Q := fun _ u' => u' = u) (E := fun _ _ => False)).mpr rfl)
  obtain ⟨_, _, hgives, us', rfl, hus'⟩ := hloop.exists_gives
  have heq : us' = us := forall₂_eq_eq_eq ▸ hus'.flip
  subst heq
  have hsize : f.tracks.size = us'.length := hus.length_eq
  rw [write, close, bind_assoc, (Gives.of_get f).run_bind, if_neg (by rw [hopen]; simp), bind_assoc,
    (Gives.of_get f).run_bind, bind_assoc, hgives.run_bind, bind_assoc, (Gives.of_get _).run_bind, hsize, finish,
    (Gives.of_get _).run_bind]
  simp only [bind_assoc, size_toArray]

end File

end Plainsong.Midi
