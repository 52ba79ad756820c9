import Plainsong.Proofs.Midi.Closing
/- A melody in a MIDI track: notes that follow one another without a rest, some of
   them with a text. The events of the notes are added call by call, so the end of
   a note is added before the text and the beginning of the next one; in the track
   they stand by tick, the text first, then the end of the last note, then the
   beginning of the next (`messages`). The main statement is that a track the
   melody has been added to is ready to be written as those messages
   (`Track.ready_melody`), and the track of its tempos with it. -/
namespace Plainsong.Midi

open List

/-- A note of a melody: the text that begins with it, its key and its length. -/
structure Sung where
  text : Option (List UInt8)
  key : Nat
  beats : Nat
  deriving DecidableEq

namespace Melody

def beat : Nat := 480

/-- The volume of every note. -/
def loudness : Nat := 127

/-! ## What a melody says -/

/-- Each note with the tick it begins at, from a tick on. -/
def onsets : Nat → List Sung → List (Nat × Sung)
  | _, [] => []
  | tick, n :: rest => (tick, n) :: onsets (tick + beat * n.beats) rest

def beginning (n : Sung) : Reader.Message := .noteOn 0 (UInt8.ofNat n.key) (UInt8.ofNat loudness)

def ending (n : Sung) : Reader.Message := .noteOff 0 (UInt8.ofNat n.key) (UInt8.ofNat loudness)

/-- The messages of one note that begins at a tick: its text if it has one, its
    beginning, and its end. -/
def ofNote (p : Nat × Sung) : Reader.Timed :=
  (p.2.text.toList.map fun letters => (p.1, .text letters)) ++
    [(p.1, beginning p.2), (p.1 + beat * p.2.beats, ending p.2)]

/-- The messages of notes from a tick on, in the order of a track; `last` is the note
    that ends there. -/
def messages : Option Sung → Nat → List Sung → Reader.Timed
  | last, tick, [] => last.toList.map fun m => (tick, ending m)
  | last, tick, n :: rest =>
    (n.text.toList.map fun letters => (tick, .text letters)) ++ (last.toList.map fun m => (tick, ending m)) ++
      (tick, beginning n) :: messages (some n) (tick + beat * n.beats) rest

theorem messages_perm (last : Option Sung) (tick : Nat) (l : List Sung) :
    (messages last tick l).Perm ((last.toList.map fun m => (tick, ending m)) ++ (onsets tick l).flatMap ofNote) := by
  induction l generalizing last tick with
  | nil => simp [messages, onsets]
  | cons n rest ih =>
    have h := ih (some n) (tick + beat * n.beats)
    rw [messages, onsets, flatMap_cons, ofNote]
    simp only [Option.toList_some, map_cons, map_nil, append_assoc, cons_append,
      nil_append] at h ⊢
    refine (perm_append_comm_assoc _ _ _).trans (List.Perm.append_left _ (List.Perm.append_left _ ?_))
    exact h.cons _

/-- The whole track: its name, its instrument and the melody. -/
def track (name : List UInt8) (program : UInt8) (l : List Sung) : Reader.Timed :=
  (0, .trackName name) :: (0, .programChange 0 program) :: messages none 0 l

/-! ## The events of a melody -/

/-- How many calls a note takes: one for its tempo, one for itself and one for its text. -/
def calls (n : Sung) : Nat := 2 + n.text.toList.length

section Events

variable (order tick : Nat) (n : Sung)

def onEvent : Event :=
  { tick := .int tick, order := order + 1,
    deed := .noteOn (.int 0) (.int n.key) (.int (beat * n.beats : Nat)) (.int loudness) .none }

/-- The end of a note at a tick; the note has the number of its call with it. -/
def endEvent (last : Nat × Sung) : Event :=
  { tick := .int tick, order := last.1, deed := .noteOff (.int 0) (.int last.2.key) (.int loudness) .none }

def textEvents : List Event :=
  n.text.toList.map fun letters => { tick := .int tick, order := order + 2, deed := .text letters }

end Events

/-- The events of notes as they are added, from a number and a tick on. -/
def addedFrom : Nat → Nat → List Sung → List Event
  | _, _, [] => []
  | order, tick, n :: rest =>
    onEvent order tick n :: endEvent (tick + beat * n.beats) (order + 1, n) :: (textEvents order tick n ++
      addedFrom (order + calls n) (tick + beat * n.beats) rest)

/-- How many beats notes last together. -/
def totalBeats (l : List Sung) : Nat := (l.map Sung.beats).sum

/-- How many calls notes take together. -/
def totalCalls (l : List Sung) : Nat := (l.map calls).sum

theorem addedFrom_append (order tick : Nat) (l l' : List Sung) :
    addedFrom order tick (l ++ l') =
      addedFrom order tick l ++ addedFrom (order + totalCalls l) (tick + beat * totalBeats l) l' := by
  induction l generalizing order tick with
  | nil => simp [addedFrom, totalCalls, totalBeats]
  | cons n l ih =>
    simp only [cons_append, addedFrom, ih, append_assoc, totalCalls, totalBeats, map_cons,
      sum_cons, Nat.mul_add, Nat.add_assoc]

/-- The events of notes in order; `last` is the note that ends at the first tick. -/
def sortedFrom : Option (Nat × Sung) → Nat → Nat → List Sung → List Event
  | last, _, tick, [] => last.toList.map (endEvent tick)
  | last, order, tick, n :: rest =>
    textEvents order tick n ++ last.toList.map (endEvent tick) ++ onEvent order tick n ::
      sortedFrom (some (order + 1, n)) (order + calls n) (tick + beat * n.beats) rest

theorem sortedFrom_perm (last : Option (Nat × Sung)) (order tick : Nat) (l : List Sung) :
    (sortedFrom last order tick l).Perm (last.toList.map (endEvent tick) ++ addedFrom order tick l) := by
  induction l generalizing last order tick with
  | nil => simp [sortedFrom, addedFrom]
  | cons n rest ih =>
    have h := ih (some (order + 1, n)) (order + calls n) (tick + beat * n.beats)
    rw [sortedFrom, addedFrom]
    simp only [Option.toList_some, map_cons, map_nil, append_assoc, singleton_append] at h ⊢
    refine (perm_append_comm_assoc _ _ _).trans (List.Perm.append_left _ ?_)
    refine perm_middle.trans (List.Perm.cons _ ?_)
    exact (h.append_left _).trans perm_middle

/-! ## Order and doubles -/

/-- Neither of the events is taken for the other. -/
def Apart (a b : Event) : Prop := a.same b = false ∧ b.same a = false

variable {a b : Event} {c m n : Nat}

theorem apart_symm (h : Apart a b) : Apart b a := ⟨h.2, h.1⟩

theorem rank_eq_of_same {d d' : Deed} (h : d.same d' = true) : d.rank = d'.rank := by
  unfold Deed.same at h
  split at h <;> first | rfl | cases h

theorem apart_of_rank (h : a.rank ≠ b.rank) : Apart a b := by
  have hne : ∀ {d d' : Deed}, d.rank ≠ d'.rank → d.same d' = false := fun h =>
    Bool.eq_false_iff.mpr fun hs => h (rank_eq_of_same hs)
  constructor
  · rw [Event.same, hne h, Bool.and_false]
  · rw [Event.same, hne (Ne.symm h), Bool.and_false]

theorem apart_of_tick (ha : a.At m) (hb : b.At n) (h : m ≠ n) : Apart a b := by
  have hm : ¬ (m : Int) = n := by exact_mod_cast h
  have hn : ¬ (n : Int) = m := by exact_mod_cast Ne.symm h
  constructor
  · rw [Event.same, ha, hb, same_int, decide_eq_false hm, Bool.false_and]
  · rw [Event.same, ha, hb, same_int, decide_eq_false hn, Bool.false_and]

/-- One event stands before another, and they are not taken for one. -/
def Next (a b : Event) : Prop := a.Before b ∧ Apart a b

theorem next_of_tick (ha : a.At m) (hb : b.At n) (h : m < n) : Next a b :=
  ⟨⟨m, n, ha, hb, .inl h⟩, apart_of_tick ha hb (by omega)⟩

theorem next_of_rank (ha : a.At n) (hb : b.At n) (h : a.rank < b.rank) : Next a b :=
  ⟨⟨n, n, ha, hb, .inr ⟨rfl, .inl h⟩⟩, apart_of_rank (by omega)⟩

section Order

variable {order tick : Nat} {last : Option (Nat × Sung)} {n : Sung} {l : List Sung} {e : Event}

theorem rank_onEvent (order tick : Nat) (n : Sung) : (onEvent order tick n).rank = 3 := rfl

theorem of_mem_endEvents (h : e ∈ last.toList.map (endEvent tick)) : e.At tick ∧ e.rank = 2 := by
  obtain ⟨p, -, rfl⟩ := mem_map.mp h
  exact ⟨rfl, rfl⟩

theorem of_mem_textEvents (h : e ∈ textEvents order tick n) :
    e.At tick ∧ e.rank = 1 ∧ e.order = order + 2 ∧ ∃ letters, e.deed = .text letters := by
  obtain ⟨letters, -, rfl⟩ := mem_map.mp h
  exact ⟨rfl, rfl, rfl, letters, rfl⟩

theorem of_mem_sortedFrom (h : e ∈ sortedFrom last order tick l) :
    ∃ n ≥ tick, e.At n ∧ (2 ≤ e.rank ∨ e.rank = 1 ∧ order < e.order ∧ ∃ letters, e.deed = .text letters) := by
  induction l generalizing last order tick with
  | nil =>
    obtain ⟨hat, hrank⟩ := of_mem_endEvents h
    exact ⟨tick, Nat.le_refl _, hat, .inl (by omega)⟩
  | cons n rest ih =>
    rw [sortedFrom, append_assoc, mem_append, mem_append, mem_cons] at h
    rcases h with h | h | rfl | h
    · obtain ⟨hat, hrank, horder, htext⟩ := of_mem_textEvents h
      exact ⟨tick, Nat.le_refl _, hat, .inr ⟨hrank, by omega, htext⟩⟩
    · obtain ⟨hat, hrank⟩ := of_mem_endEvents h
      exact ⟨tick, Nat.le_refl _, hat, .inl (by omega)⟩
    · exact ⟨tick, Nat.le_refl _, rfl, .inl (by rw [rank_onEvent]; omega)⟩
    · obtain ⟨m, hm, hat, hor⟩ := ih h
      refine ⟨m, by omega, hat, hor.imp_right fun h => ⟨h.1, ?_, h.2.2⟩⟩
      have := h.2.1
      omega

theorem pairwise_sortedFrom (hbeats : ∀ n ∈ l, 0 < n.beats) : (sortedFrom last order tick l).Pairwise Next := by
  have honly : ∀ {α : Type} (o : Option α) (R : α → α → Prop), o.toList.Pairwise R := fun o R => by cases o <;> simp
  induction l generalizing last order tick with
  | nil => exact pairwise_map.mpr (honly last _)
  | cons n rest ih =>
    have hlater : ∀ e ∈ sortedFrom (some (order + 1, n)) (order + calls n) (tick + beat * n.beats) rest,
        ∀ a : Event, a.At tick → Next a e := by
      intro e he a ha
      obtain ⟨m, hm, hat, -⟩ := of_mem_sortedFrom he
      refine next_of_tick ha hat (Nat.lt_of_lt_of_le ?_ hm)
      have := hbeats n (by simp)
      unfold beat
      omega
    rw [sortedFrom, append_assoc, pairwise_append, pairwise_append, pairwise_cons]
    refine ⟨pairwise_map.mpr (honly n.text _), ⟨pairwise_map.mpr (honly last _),
      ⟨fun e he => hlater e he _ rfl, ih fun m hm => hbeats m (by simp [hm])⟩, ?_⟩, ?_⟩
    · intro a ha e he
      obtain ⟨hat, hrank⟩ := of_mem_endEvents ha
      rcases mem_cons.mp he with rfl | he
      · exact next_of_rank hat rfl (by rw [hrank, rank_onEvent]; omega)
      · exact hlater e he a hat
    · intro a ha e he
      obtain ⟨hat, hrank, -⟩ := of_mem_textEvents ha
      rcases mem_append.mp he with he | he
      · obtain ⟨hat', hrank'⟩ := of_mem_endEvents he
        exact next_of_rank hat hat' (by omega)
      · rcases mem_cons.mp he with rfl | he
        · exact next_of_rank hat rfl (by rw [hrank, rank_onEvent]; omega)
        · exact hlater e he a hat

theorem oneByOne_sortedFrom (last : Option (Nat × Sung)) (order tick : Nat) (l : List Sung) :
    Track.OneByOne (last.map fun p => Track.noteKey (.int p.2.key) (.int 0)) (sortedFrom last order tick l) := by
  have htexts : ∀ {sounding : Option String} {texts rest : List Event}, (∀ e ∈ texts, ∃ letters, e.deed = .text letters) →
      Track.OneByOne sounding rest → Track.OneByOne sounding (texts ++ rest) := by
    intro sounding texts rest htexts h
    induction texts with
    | nil => exact h
    | cons e texts ih =>
      obtain ⟨letters, he⟩ := htexts e (by simp)
      rw [cons_append, Track.OneByOne, he]
      exact ih fun e he => htexts e (by simp [he])
  induction l generalizing last order tick with
  | nil => cases last <;> simp [sortedFrom, Track.OneByOne, endEvent]
  | cons n rest ih =>
    rw [sortedFrom, append_assoc]
    refine htexts (fun e he => (of_mem_textEvents he).2.2.2) ?_
    have hrest : Track.OneByOne ((some (order + 1, n)).map fun p : Nat × Sung => Track.noteKey (.int p.2.key) (.int 0))
        (sortedFrom (some (order + 1, n)) (order + calls n) (tick + beat * n.beats) rest) := ih _ _ _
    cases last with
    | none => exact ⟨rfl, hrest⟩
    | some p => exact ⟨rfl, rfl, hrest⟩

end Order

/-! ## What the events say -/

theorem ok_bind {ε α β : Type} (a : α) (f : α → Except ε β) : (Except.ok a >>= f) = f a := rfl

theorem encodeDatum_nat (n : Nat) : VarLength.encodeDatum (.int n) = .ok (VarLength.encode n) := by
  show Except.ok (VarLength.encodeInt n) = _
  rw [VarLength.encodeInt, if_neg (by omega), Int.toNat_natCast]

theorem toByte_nat (h : n < 256) : Datum.toByte (.int n) = .ok (UInt8.ofNat n) := by
  show Datum.byte n = _
  simp only [Datum.byte]
  rw [if_pos (by simp; omega), Int.toNat_natCast]

theorem onChannel_eq (status : Nat) (hchannel : c < 16) :
    Datum.onChannel (status * 16) (.int c) = .ok ((status * 16 + c : Nat) : Int) := by
  have hor : status * 16 ||| c = status * 16 + c := by
    rw [Nat.mul_comm]
    exact (Nat.two_pow_add_eq_or_of_lt (i := 4) hchannel status).symm
  show Except.ok (((status * 16 ||| c : Nat)) : Int) = _
  rw [hor]

theorem mapM_toByte {data : List Nat} (h : ∀ a ∈ data, a < 128) :
    (data.map fun a : Nat => Datum.int a).mapM Datum.toByte = .ok (data.map UInt8.ofNat) := by
  induction data with
  | nil => rfl
  | cons a data ih =>
    rw [forall_mem_cons] at h
    rw [map_cons, mapM_cons, toByte_nat (by omega), ih h.2]
    rfl

/-- A message on a channel says its status and its values, if they are as many as it takes. -/
theorem says_channel {d : Deed} {status : Nat} (data : List Nat) (hstatus : 8 ≤ status ∧ status < 15) (hchannel : c < 16)
    (harity : data.length = Reader.arity status) (hdata : ∀ a ∈ data, a < 128)
    (hbytes : ∀ (tick : Datum) (order : Nat), ({ tick, order, deed := d } : Event).bytes =
      Event.channelMessage tick (.int c) (status * 16) (data.map fun a : Nat => .int a)) :
    Track.Says d (.voice status c (data.map UInt8.ofNat)) := by
  refine ⟨⟨hstatus.1, hstatus.2, hchannel, by rwa [length_map], fun v hv => ?_⟩, fun n order => ?_⟩
  · obtain ⟨a, ha, rfl⟩ := mem_map.mp hv
    have := hdata a ha
    rwa [Reader.toNat_ofNat (by omega)]
  · have hbyte : Datum.byte ((status * 16 + c : Nat) : Int) = .ok (UInt8.ofNat (status * 16 + c)) := toByte_nat (by omega)
    rw [hbytes, Event.channelMessage, onChannel_eq status hchannel, ok_bind, encodeDatum_nat, ok_bind, hbyte, ok_bind,
      mapM_toByte hdata, ok_bind, Reader.Message.bytes, append_assoc, singleton_append]
    rfl

theorem says_noteOn {n : Sung} (h : n.key < 128) (d : Datum) :
    Track.Says (.noteOn (.int 0) (.int n.key) d (.int loudness) .none) (beginning n) :=
  says_channel [n.key, loudness] (by omega) (by omega) rfl (by simp [h, loudness]) fun _ _ => rfl

theorem says_noteOff {n : Sung} (h : n.key < 128) :
    Track.Says (.noteOff (.int 0) (.int n.key) (.int loudness) .none) (ending n) :=
  says_channel [n.key, loudness] (by omega) (by omega) rfl (by simp [h, loudness]) fun _ _ => rfl

theorem says_programChange {program : Nat} (h : program < 128) :
    Track.Says (.programChange (.int 0) (.int program)) (.programChange 0 (UInt8.ofNat program)) :=
  says_channel [program] (by omega) (by omega) rfl (by simp [h]) fun _ _ => rfl

theorem textMessage_eq (n : Nat) (type : UInt8) (letters : List UInt8) :
    Event.textMessage (.int n) type letters = .ok (VarLength.encode n ++ (Reader.Message.silent type letters).bytes) := by
  rw [Event.textMessage, encodeDatum_nat, ok_bind, Reader.Message.bytes, append_assoc, append_assoc]
  rfl

theorem says_text (letters : List UInt8) : Track.Says (.text letters) (.text letters) :=
  ⟨by simp [Reader.Message.Valid, Reader.Message.text, Reader.Message.endOfTrack], fun _ _ => textMessage_eq _ _ _⟩

theorem says_trackName (letters : List UInt8) : Track.Says (.trackName letters) (.trackName letters) :=
  ⟨by simp [Reader.Message.Valid, Reader.Message.trackName, Reader.Message.endOfTrack], fun _ _ => textMessage_eq _ _ _⟩

/-- A tempo of three bytes; what does not fit in them is cut off at the top. -/
def tempoMessage (m : Nat) : Reader.Message :=
  .silent 0x51 [UInt8.ofNat (m / 65536), UInt8.ofNat (m / 256), UInt8.ofNat m]

theorem says_tempo (h : m < 2 ^ 32) : Track.Says (.tempo m) (tempoMessage m) := by
  refine ⟨by simp [Reader.Message.Valid, tempoMessage, Reader.Message.endOfTrack], fun n order => ?_⟩
  have hfits : ¬ ((m : Int) < 0 || Int.pow 2 32 ≤ (m : Int)) = true := by
    simp
    omega
  have hthree : VarLength.encode 3 = [3] := by
    rw [VarLength.encode, Reader.encodeOnto_zero]
    rfl
  simp only [Event.bytes, if_neg hfits, encodeDatum_nat, tempoMessage, Reader.Message.bytes, length_cons,
    length_nil, hthree]
  rfl

theorem spoken_sortedFrom (last : Option (Nat × Sung)) (hlast : ∀ p ∈ last, p.2.key < 128) (order tick : Nat)
    {l : List Sung} (hkeys : ∀ n ∈ l, n.key < 128) :
    List.Forall₂ Track.Spoken (sortedFrom last order tick l) (messages (last.map Prod.snd) tick l) := by
  have hend : List.Forall₂ Track.Spoken (last.toList.map (endEvent tick))
      ((last.map Prod.snd).toList.map fun m => (tick, ending m)) := by
    cases last with
    | none => exact .nil
    | some p => exact .cons ⟨rfl, says_noteOff (hlast p rfl)⟩ .nil
  induction l generalizing last order tick with
  | nil => exact hend
  | cons n rest ih =>
    have hn : n.key < 128 := hkeys n (by simp)
    have htext : List.Forall₂ Track.Spoken (textEvents order tick n)
        (n.text.toList.map fun letters => (tick, .text letters)) := by
      rw [textEvents]
      cases n.text with
      | none => exact .nil
      | some letters => exact .cons ⟨rfl, says_text letters⟩ .nil
    have hp : ∀ p ∈ some (order + 1, n), p.2.key < 128 := fun p hp => by cases hp; exact hn
    refine rel_append (rel_append htext hend) (.cons ⟨rfl, says_noteOn hn _⟩ ?_)
    exact ih _ hp _ _ (fun m hm => hkeys m (by simp [hm])) (.cons ⟨rfl, says_noteOff hn⟩ .nil)

end Melody

/-! ## Tracks by their events -/

namespace Track

/-- The open track that events have been added to, in this order. -/
def ofEvents (es : List Event) : Track :=
  { dropDuplicates := true, separateNotes := true, events := es.toArray, added := List.range es.length }

theorem add_ofEvents (es : List Event) (e : Event) : (ofEvents es).add e = ofEvents (es ++ [e]) := by
  simp [ofEvents, add, range_succ]

theorem addedEvents_ofEvents (es : List Event) : (List.range es.length).map (ofEvents es).event = es := by
  refine ext_getElem (by simp) fun i h _ => ?_
  have hi : i < es.length := by simpa using h
  simp [ofEvents, event, hi]

theorem at_of_spoken {es : List Event} {l : Reader.Timed} (h : List.Forall₂ Spoken es l) :
    ∀ e ∈ es, ∃ n, e.At n := by
  induction h with
  | nil => simp
  | @cons e p es l he _ ih =>
    intro e' he'
    rcases mem_cons.mp he' with rfl | he'
    · exact ⟨p.1, he.1⟩
    · exact ih e' he'

theorem ready_ofEvents {es : List Event} (sorted : List Event) {l : Reader.Timed} (hperm : sorted.Perm es)
    (hnext : sorted.Pairwise Melody.Next) (hone : OneByOne none sorted) (hspoken : List.Forall₂ Spoken sorted l) :
    (ofEvents es).Ready l := by
  have hevents := addedEvents_ofEvents es
  have hdistinct : (ofEvents es).distinct (ofEvents es).added = (ofEvents es).added := by
    refine distinct_eq _ ?_
    have hapart : es.Pairwise Melody.Apart :=
      (hperm.pairwise_iff fun h => Melody.apart_symm h).mp (hnext.imp fun h => h.2)
    rw [← hevents, pairwise_map] at hapart
    exact hapart.imp fun h => h.1
  -- the places of the events, in the order of the events
  obtain ⟨ids, hmap, hids⟩ : ∃ ids : List Nat, sorted = ids.map (ofEvents es).event ∧ ids.Perm (ofEvents es).added := by
    have hcomp := congrFun (congrFun (eq_map_comp_perm (ofEvents es).event) sorted) (ofEvents es).added
    exact hcomp.mpr (hevents.symm ▸ hperm)
  subst hmap
  refine ⟨rfl, rfl, rfl, rfl, fun i hi => ⟨?_, ?_⟩, ⟨ids, ?_, hnext.imp fun h => h.1, hone, hspoken⟩⟩
  · simpa [ofEvents] using hi
  · exact at_of_spoken hspoken _ (mem_map_of_mem (hids.mem_iff.mpr hi))
  · rw [hdistinct]
    exact hids

end Track

/-! ## The track of the melody -/

namespace Melody

def nameEvent (name : List UInt8) : Event := { tick := .int 0, order := 0, deed := .trackName name }

def programEvent (program : Nat) : Event :=
  { tick := .int 0, order := 2, deed := .programChange (.int 0) (.int program) }

theorem apart_programEvent {program : Nat} {e : Event} {letters : List UInt8} (h : e.deed = .text letters) :
    Apart (programEvent program) e := by
  constructor
  · rw [Event.same, h]
    exact Bool.and_false _
  · rw [Event.same, h]
    exact Bool.and_false _

theorem ready_track (name : List UInt8) {program : Nat} {l : List Sung} (hprogram : program < 128)
    (hkeys : ∀ n ∈ l, n.key < 128) (hbeats : ∀ n ∈ l, 0 < n.beats) :
    (Track.ofEvents (nameEvent name :: programEvent program :: addedFrom 3 0 l)).Ready
      (track name (UInt8.ofNat program) l) := by
  have hfirst : ∀ e ∈ sortedFrom none 3 0 l, Next (nameEvent name) e ∧ Next (programEvent program) e := by
    intro e he
    obtain ⟨n, -, hat, hor⟩ := of_mem_sortedFrom he
    rcases Nat.eq_zero_or_pos n with rfl | hn
    · refine ⟨next_of_rank rfl hat ?_, ?_⟩
      · show 0 < e.rank
        omega
      · rcases hor with hrank | ⟨hrank, horder, letters, hdeed⟩
        · refine next_of_rank rfl hat ?_
          show 1 < e.rank
          omega
        · exact ⟨⟨0, 0, rfl, hat, .inr ⟨rfl, .inr ⟨hrank.symm, Nat.lt_of_succ_lt horder⟩⟩⟩, apart_programEvent hdeed⟩
    · exact ⟨next_of_tick (m := 0) rfl hat hn, next_of_tick (m := 0) rfl hat hn⟩
  refine Track.ready_ofEvents (nameEvent name :: programEvent program :: sortedFrom none 3 0 l)
    (((sortedFrom_perm none 3 0 l).cons _).cons _) ?_ ?_ ?_
  · refine pairwise_cons.mpr ⟨fun e he => ?_, pairwise_cons.mpr ⟨fun e he => (hfirst e he).2,
      pairwise_sortedFrom hbeats⟩⟩
    rcases mem_cons.mp he with rfl | he
    · exact next_of_rank (n := 0) rfl rfl (show 0 < 1 by omega)
    · exact (hfirst e he).1
  · exact oneByOne_sortedFrom none 3 0 l
  · exact .cons ⟨rfl, says_trackName name⟩ (.cons ⟨rfl, says_programChange hprogram⟩
      (spoken_sortedFrom none (by simp) 3 0 hkeys))

end Melody

/-! ## Lengths -/

namespace Reader

theorem length_encodeOnto (n : Nat) (xs : List UInt8) :
    (VarLength.encodeOnto n xs).length = (Nat.digits 128 n).length + xs.length := by
  induction n, xs using VarLength.encodeOnto.induct with
  | case1 xs => simp [encodeOnto_zero]
  | case2 n xs h ih =>
    rw [encodeOnto_pos h, ih, Nat.digits_def' (n := n) (by omega) (by omega), length_cons, length_cons]
    omega

theorem length_quantity (n : Nat) : (VarLength.encode n).length = (Nat.digits 128 (n / 128)).length + 1 :=
  length_encodeOnto _ _

theorem length_quantity_zero : (VarLength.encode 0).length = 1 := by
  rw [length_quantity]
  rfl

theorem length_quantity_le_iff (n k : Nat) : (VarLength.encode n).length ≤ k + 1 ↔ n < 128 ^ (k + 1) := by
  rw [length_quantity, Nat.add_le_add_iff_right, Nat.digits_length_le_iff (by omega), Nat.pow_succ,
    Nat.div_lt_iff_lt_mul (by omega)]

theorem length_quantity_add (a b : Nat) :
    (VarLength.encode (a + b)).length ≤ (VarLength.encode a).length + (VarLength.encode b).length := by
  have hlow : ∀ n, ∃ k, (VarLength.encode n).length = k + 1 ∧ n < 128 ^ (k + 1) := fun n =>
    ⟨_, length_quantity n, (length_quantity_le_iff n _).mp (length_quantity n).le⟩
  obtain ⟨j, hj, ha⟩ := hlow a
  obtain ⟨k, hk, hb⟩ := hlow b
  rw [hj, hk, show j + 1 + (k + 1) = (j + 1 + k) + 1 by omega, length_quantity_le_iff,
    show j + 1 + k + 1 = (j + 1) + (k + 1) by omega, Nat.pow_add]
  have htwo : ∀ i, 2 ≤ 128 ^ (i + 1) := fun i => by
    have : 1 ≤ 128 ^ i := Nat.one_le_two_pow.trans (Nat.pow_le_pow_left (by omega) i)
    rw [Nat.pow_succ]
    omega
  nlinarith [htwo j, htwo k]

variable {tick t : Nat} {m : Message} {l l' : Timed}

theorem length_encode_cons :
    (encode tick ((t, m) :: l)).length = (VarLength.encode (t - tick)).length + m.bytes.length + (encode t l).length := by
  rw [encode, length_append, length_append]

theorem length_encode_now :
    (encode tick ((tick, m) :: l)).length = 1 + m.bytes.length + (encode tick l).length := by
  rw [length_encode_cons, Nat.sub_self, length_quantity_zero]

theorem length_encode_head (_h : tick ≤ t) :
    (encode tick ((t, m) :: l)).length + 1 = (encode t ((t, m) :: l)).length + (VarLength.encode (t - tick)).length := by
  rw [length_encode_cons, length_encode_cons, Nat.sub_self, length_quantity_zero]
  omega

theorem length_encode_earlier (h : tick ≤ t) (ho : Ordered t l) :
    (encode tick l).length ≤ (VarLength.encode (t - tick)).length + (encode t l).length := by
  cases l with
  | nil => exact Nat.le_add_left _ _
  | cons p l =>
    obtain ⟨t', m⟩ := p
    have ht : t ≤ t' := ho.1
    have hsum := length_quantity_add (t - tick) (t' - t)
    rw [show t - tick + (t' - t) = t' - tick by omega] at hsum
    rw [length_encode_cons, length_encode_cons]
    omega

theorem Ordered.of_le {tick t : Nat} {l : Timed} (h : Ordered t l) (hle : tick ≤ t) : Ordered tick l := by
  cases l with
  | nil => trivial
  | cons p l => exact ⟨hle.trans h.1, h.2⟩

theorem Ordered.sublist {tick : Nat} (hsub : l'.Sublist l) (ho : Ordered tick l) : Ordered tick l' := by
  induction hsub generalizing tick with
  | slnil => trivial
  | cons p _ ih => exact ih (ho.2.of_le ho.1)
  | cons_cons p _ ih => exact ⟨ho.1, ih ho.2⟩

theorem length_encode_sublist (hsub : l'.Sublist l) (ho : Ordered tick l) :
    (encode tick l').length ≤ (encode tick l).length := by
  induction hsub generalizing tick with
  | slnil => exact le_rfl
  | cons p hsub ih =>
    obtain ⟨t, m⟩ := p
    have hlater := length_encode_earlier ho.1 (ho.2.sublist hsub)
    have hrest := ih ho.2
    rw [length_encode_cons]
    omega
  | cons_cons p _ ih =>
    obtain ⟨t, m⟩ := p
    have hrest := ih ho.2
    rw [length_encode_cons, length_encode_cons]
    omega

end Reader

/-! ## The track of the tempos -/

namespace Melody

def tempoEvent (order tick m : Nat) : Event := { tick := .int tick, order, deed := .tempo m }

/-- The tempos of notes, from a number and a tick on. -/
def temposFrom : Nat → Nat → List (Sung × Nat) → List Event
  | _, _, [] => []
  | order, tick, (n, m) :: rest =>
    tempoEvent order tick m :: temposFrom (order + calls n) (tick + beat * n.beats) rest

theorem temposFrom_append (order tick : Nat) (ps ps' : List (Sung × Nat)) :
    temposFrom order tick (ps ++ ps') = temposFrom order tick ps ++
      temposFrom (order + totalCalls (ps.map Prod.fst)) (tick + beat * totalBeats (ps.map Prod.fst)) ps' := by
  induction ps generalizing order tick with
  | nil => simp [temposFrom, totalCalls, totalBeats]
  | cons p ps ih =>
    simp only [cons_append, temposFrom, ih, totalCalls, totalBeats, map_cons, sum_cons, Nat.mul_add,
      Nat.add_assoc]

/-- What the tempos of notes say. -/
def tempoMessages : Nat → List (Sung × Nat) → Reader.Timed
  | _, [] => []
  | tick, (n, m) :: rest => (tick, tempoMessage m) :: tempoMessages (tick + beat * n.beats) rest

section Tempos

variable {order tick : Nat} {ps : List (Sung × Nat)} {e : Event}

theorem of_mem_temposFrom (h : e ∈ temposFrom order tick ps) :
    ∃ t ≥ tick, e.At t ∧ order ≤ e.order ∧ ∃ m : Nat, e.deed = .tempo m := by
  induction ps generalizing order tick with
  | nil => cases h
  | cons p rest ih =>
    obtain ⟨n, m⟩ := p
    rcases mem_cons.mp h with rfl | h
    · exact ⟨tick, le_rfl, rfl, le_rfl, m, rfl⟩
    · obtain ⟨t, ht, hat, horder, hm⟩ := ih h
      exact ⟨t, by omega, hat, by omega, hm⟩

theorem before_temposFrom {order' m : Nat} (horder : order' < order) (h : e ∈ temposFrom order tick ps) {tick' : Nat}
    (htick : tick' ≤ tick) : (tempoEvent order' tick' m).Before e := by
  obtain ⟨t, ht, hat, hlater, k, hk⟩ := of_mem_temposFrom h
  have hrank : e.rank = 3 := by rw [Event.rank, hk]; rfl
  refine ⟨tick', t, rfl, hat, ?_⟩
  rcases Nat.lt_or_ge tick' t with hlt | hge
  · exact .inl hlt
  · exact .inr ⟨by omega, .inr ⟨hrank.symm, Nat.lt_of_lt_of_le horder hlater⟩⟩

theorem pairwise_temposFrom : (temposFrom order tick ps).Pairwise Event.Before := by
  induction ps generalizing order tick with
  | nil => exact .nil
  | cons p rest ih =>
    obtain ⟨n, m⟩ := p
    exact .cons (fun e he => before_temposFrom (by simp [calls]) he (by omega)) ih

theorem spoken_temposFrom (h : ∀ p ∈ ps, p.2 < 2 ^ 32) :
    List.Forall₂ Track.Spoken (temposFrom order tick ps) (tempoMessages tick ps) := by
  induction ps generalizing order tick with
  | nil => exact .nil
  | cons p rest ih =>
    obtain ⟨n, m⟩ := p
    exact .cons ⟨rfl, says_tempo (h (n, m) (by simp))⟩ (ih fun p hp => h p (by simp [hp]))

theorem oneByOne_of_tempos {es : List Event} (h : ∀ e ∈ es, ∃ m : Nat, e.deed = .tempo m) :
    Track.OneByOne none es := by
  induction es with
  | nil => trivial
  | cons e es ih =>
    obtain ⟨m, hm⟩ := h e (by simp)
    rw [Track.OneByOne, hm]
    exact ih fun e he => h e (by simp [he])

end Tempos

theorem messages_head (n : Sung) (tick : Nat) (l : List Sung) :
    ∃ m rest, messages (some n) tick l = (tick, m) :: rest := by
  cases l with
  | nil => exact ⟨_, _, rfl⟩
  | cons k l =>
    rw [messages]
    cases k.text with
    | none => exact ⟨_, _, rfl⟩
    | some letters => exact ⟨_, _, rfl⟩

theorem length_beginning (n : Sung) : (beginning n).bytes.length = 3 := rfl

theorem length_ending (n : Sung) : (ending n).bytes.length = 3 := rfl

theorem length_tempoMessage (m : Nat) : (tempoMessage m).bytes.length = 6 := by
  have h : (VarLength.encode 3).length = 1 := by
    rw [Reader.length_quantity]
    rfl
  rw [tempoMessage, Reader.Message.bytes, length_cons, length_cons, length_append]
  exact congrArg (· + 3 + 2) h

theorem length_tempos (last : Option Sung) (tick : Nat) (ps : List (Sung × Nat)) :
    (Reader.encode tick (tempoMessages tick ps)).length + 4 * last.toList.length ≤
      (Reader.encode tick (messages last tick (ps.map Prod.fst))).length := by
  induction ps generalizing last tick with
  | nil =>
    cases last with
    | none => exact le_rfl
    | some k =>
      rw [map_nil, messages, Option.toList_some, map_singleton, Reader.length_encode_now, length_ending]
      exact (Nat.add_comm _ _).le
  | cons p rest ih =>
    obtain ⟨n, m⟩ := p
    have hrest := ih (some n) (tick + beat * n.beats)
    obtain ⟨m', later, hlater⟩ := messages_head n (tick + beat * n.beats) (rest.map Prod.fst)
    have hway := Reader.length_encode_head (m := m') (l := later) (Nat.le_add_right tick (beat * n.beats))
    rw [← hlater] at hway
    have hpos : 0 < (VarLength.encode (tick + beat * n.beats - tick)).length := by
      rw [Reader.length_quantity]
      omega
    have htempos : (Reader.encode tick (tempoMessages (tick + beat * n.beats) rest)).length + 1 ≤
        (Reader.encode (tick + beat * n.beats) (tempoMessages (tick + beat * n.beats) rest)).length +
          (VarLength.encode (tick + beat * n.beats - tick)).length := by
      cases rest with
      | nil => exact Nat.add_le_add_left hpos _
      | cons q rest => exact (Reader.length_encode_head (Nat.le_add_right tick (beat * n.beats))).le
    rw [tempoMessages, map_cons, messages, Reader.length_encode_now, length_tempoMessage]
    simp only [Option.toList_some, length_singleton] at hrest
    cases n.text <;> cases last <;>
      simp only [Option.toList_none, Option.toList_some, map_nil, map_cons, nil_append,
        cons_append, length_nil, length_singleton, Reader.length_encode_now, length_beginning,
        length_ending] <;>
      omega

theorem exists_sublist_of_forall₂ {α β : Type} {R : α → β → Prop} {xs xs' : List α} {ys : List β}
    (hsub : xs'.Sublist xs) (h : List.Forall₂ R xs ys) : ∃ ys' : List β, ys'.Sublist ys ∧ List.Forall₂ R xs' ys' := by
  induction hsub generalizing ys with
  | slnil => exact ⟨[], nil_sublist _, .nil⟩
  | cons x _ ih =>
    cases h with
    | cons _ hrest =>
      obtain ⟨ys', hys, hall⟩ := ih hrest
      exact ⟨ys', hys.cons _, hall⟩
  | cons_cons x _ ih =>
    cases h with
    | cons hx hrest =>
      obtain ⟨ys', hys, hall⟩ := ih hrest
      exact ⟨_ :: ys', hys.cons_cons _, .cons hx hall⟩

theorem ready_tempos {m₀ : Nat} {ps : List (Sung × Nat)} (hm₀ : m₀ < 2 ^ 32) (hps : ∀ p ∈ ps, p.2 < 2 ^ 32)
    (name : List UInt8) (program : UInt8) :
    ∃ l, (Track.ofEvents (tempoEvent 1 0 m₀ :: temposFrom 3 0 ps)).Ready l ∧
      (Reader.encode 0 l).length ≤ (Reader.encode 0 (track name program (ps.map Prod.fst))).length := by
  set es := tempoEvent 1 0 m₀ :: temposFrom 3 0 ps with hes
  set t := Track.ofEvents es
  have hevents : t.added.map t.event = es := Track.addedEvents_ofEvents es
  have hkept : ((t.distinct t.added).map t.event).Sublist es := by
    rw [← hevents]
    exact (Track.distinct_sublist t t.added).map t.event
  have hbefore : es.Pairwise Event.Before :=
    .cons (fun e he => before_temposFrom (by omega) he (by omega)) pairwise_temposFrom
  have hspoken : List.Forall₂ Track.Spoken es ((0, tempoMessage m₀) :: tempoMessages 0 ps) :=
    .cons ⟨rfl, says_tempo hm₀⟩ (spoken_temposFrom hps)
  have htempo : ∀ e ∈ es, ∃ m : Nat, e.deed = .tempo m := by
    intro e he
    rcases mem_cons.mp he with rfl | he
    · exact ⟨m₀, rfl⟩
    · obtain ⟨-, -, -, -, h⟩ := of_mem_temposFrom he
      exact h
  obtain ⟨l, hl, hall⟩ := exists_sublist_of_forall₂ hkept hspoken
  refine ⟨l, ⟨rfl, rfl, rfl, rfl, fun i hi => ⟨?_, ?_⟩, ⟨_, List.Perm.refl _, hbefore.sublist hkept,
    oneByOne_of_tempos fun e he => htempo e (hkept.subset he), hall⟩⟩, ?_⟩
  · simpa [t, Track.ofEvents] using hi
  · refine Track.at_of_spoken hspoken _ ?_
    rw [← hevents]
    exact mem_map_of_mem hi
  -- the name and the instrument take no fewer bytes than the first tempo
  · have hsub := Reader.length_encode_sublist hl
      (Track.ordered_of_before hspoken (fun e _ => Nat.zero_le _) hbefore)
    have htempos := length_tempos none 0 ps
    rw [track, Reader.length_encode_now, Reader.length_encode_now]
    rw [Reader.length_encode_now, length_tempoMessage] at hsub
    have hname : 3 ≤ (Reader.Message.trackName name).bytes.length := by
      rw [Reader.Message.trackName, Reader.Message.bytes, length_cons, length_cons, length_append,
        Reader.length_quantity]
      omega
    have hprogram : (Reader.Message.programChange 0 program).bytes.length = 2 := rfl
    simp only [Option.toList_none, length_nil] at htempos
    omega

end Melody

end Plainsong.Midi
