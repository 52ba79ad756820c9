import Plainsong.Proofs.Midi.Refusal
/- Writing that fails. A file that calls have added events to has fresh tracks
   (`Reached.fresh`). Where writing it fails, nothing of its events has changed but
   their ticks, and no event is gone but doubles (`ends_close_retimed`). Where the ticks
   are whole and every note that ends has begun, the tracks are then all closed and one of
   them is stuck, and writing fails from there on (`ends_close_doomed`), though not
   always in the same way. -/
namespace Plainsong

open List

theorem Ends.forM_range {ε σ : Type} {n : Nat} {g : Nat → ExceptT ε (StateM σ) PUnit} {I : Nat → σ → Prop}
    {E : ε → σ → Prop} (h : ∀ i < n, ∀ s, I i s → Ends (g i) s (fun _ => I (i + 1)) E) {s : σ} (hs : I 0 s) :
    Ends ((List.range n).forM g) s (fun _ => I n) E := by
  induction n with
  | zero => exact hs
  | succ n ih =>
    have hlast : (List.range (n + 1)).forM g = (List.range n).forM g >>= fun _ => g n := by
      rw [range_succ, forM_eq_forM, forM_append, forM_cons, forM_nil, bind_pure_unit]
    rw [hlast]
    exact (ih fun i hi => h i (by omega)).seq fun _ s' hs' => h n (by omega) s' hs'

namespace Midi

namespace File

/-! ## Files that calls have added events to -/

/-- A call that adds events, with any arguments. -/
inductive Adder : Act File Unit → Prop
  | note (track channel pitch time duration volume remark : Datum) :
    Adder (addNote track channel pitch time duration volume remark)
  | trackName (track time name : Datum) : Adder (addTrackName track time name)
  | timeSignature (track time numerator denominator clocks notes : Datum) :
    Adder (addTimeSignature track time numerator denominator clocks notes)
  | tempo (track time tempo : Datum) : Adder (addTempo track time tempo)
  | copyright (track time notice : Datum) : Adder (addCopyright track time notice)
  | keySignature (track time accidentals kind mode : Datum) : Adder (addKeySignature track time accidentals kind mode)
  | text (track time text : Datum) : Adder (addText track time text)
  | programChange (track channel time program : Datum) : Adder (addProgramChange track channel time program)
  | channelPressure (track channel time pressure : Datum) : Adder (addChannelPressure track channel time pressure)
  | controller (track channel time number parameter : Datum) : Adder (addController track channel time number parameter)
  | pitchWheel (track channel time value : Datum) : Adder (addPitchWheel track channel time value)
  | parameter (p : Parameter) (track channel time high low dataHigh dataLow : Datum) (timeOrder : Bool) :
    Adder (setParameter p track channel time high low dataHigh dataLow timeOrder)
  | tuningBank (track channel time bank : Datum) (timeOrder : Bool) : Adder (changeTuningBank track channel time bank timeOrder)
  | tuningProgram (track channel time program : Datum) (timeOrder : Bool) :
    Adder (changeTuningProgram track channel time program timeOrder)
  | noteTuning (track tunings device realTime program : Datum) :
    Adder (changeNoteTuning track tunings device realTime program)
  | systemExclusive (track time manufacturer payload : Datum) : Adder (addSystemExclusive track time manufacturer payload)
  | universalExclusive (track time code subcode payload device realTime : Datum) :
    Adder (addUniversalExclusive track time code subcode payload device realTime)

/-- A file that calls have been made on since it was created, whether they failed or not. -/
inductive Reached : File → Prop
  | created {s : Settings} {f : File} (h : create s = .ok f) : Reached f
  | called {f : File} {act : Act File Unit} (hf : Reached f) (ha : Adder act) : Reached (act.run.run f).2

/-- An open file of open tracks; where times are not ticks the ticks are whole. -/
structure Fresh (timesAreTicks : Bool) (f : File) : Prop where
  times : f.timesAreTicks = timesAreTicks
  opened : f.closed = false
  tracks : ∀ t ∈ f.tracks, ∃ drop separate es, t = Track.fresh drop separate es ∧
    (timesAreTicks = false → ∀ e ∈ es, Event.Whole e)

/-- However the act ends, it leaves a fresh file fresh. -/
def Keeps {α : Type} (b : Bool) (act : Act File α) : Prop :=
  ∀ f, Fresh b f → Ends act f (fun _ => Fresh b) fun _ => Fresh b

namespace Keeps

variable {α β : Type} {b : Bool}

theorem bind {x : Act File α} {g : α → Act File β} (hx : Keeps b x) (hg : ∀ a, Keeps b (g a)) : Keeps b (x >>= g) := by
  intro f hf
  exact (hx f hf).seq fun a f' hf' => hg a f' hf'

theorem get_bind {g : File → Act File β} (hg : ∀ f : File, f.timesAreTicks = b → Keeps b (g f)) : Keeps b (get >>= g) := by
  intro f hf
  rw [ends_bind, ends_get]
  exact hg f hf.times f hf

theorem except_bind {e : Except Fault α} {g : α → Act File β} (hg : ∀ a, e = .ok a → Keeps b (g a)) :
    Keeps b (liftM e >>= g) := by
  intro f hf
  rw [ends_bind, ends_except]
  exact ⟨fun a ha => hg a ha f hf, fun _ _ => hf⟩

theorem count : Keeps b File.count := fun _ hf => ⟨hf.times, hf.opened, hf.tracks⟩

theorem put (i : Nat) {tick : Datum} (deed : Deed) (htick : b = false → ∃ n, tick = .int n) : Keeps b (File.put i tick deed) := by
  intro f hf
  rw [File.put, ends_bind, ends_get, ends_onTrack, ends_modify]
  refine ⟨hf.times, hf.opened, fun t ht => ?_⟩
  by_cases hi : i < f.tracks.size
  · rcases Array.mem_or_eq_of_mem_setIfInBounds ht with ht | rfl
    · exact hf.tracks t ht
    · have hmem : f.tracks.getD i default ∈ f.tracks := by
        rw [Array.getD_eq_getD_getElem?, Array.getElem?_eq_getElem hi]
        exact Array.getElem_mem hi
      obtain ⟨drop, separate, es, heq, hwhole⟩ := hf.tracks _ hmem
      refine ⟨drop, separate, es ++ [{ tick, order := f.counter, deed }], by rw [heq, Track.add_fresh], fun hb e he => ?_⟩
      rcases mem_append.mp he with he | he
      · exact hwhole hb e he
      · obtain ⟨n, rfl⟩ := htick hb
        obtain rfl := mem_singleton.mp he
        rfl
  · exact hf.tracks t (by simpa [Array.setIfInBounds, hi] using ht)

end Keeps

section Adders

variable {b : Bool}

theorem ticks_whole {f : File} {time tick : Datum} (hf : f.timesAreTicks = b) (h : f.ticks time = .ok tick) :
    b = false → ∃ n, tick = .int n := by
  intro hb
  rw [ticks, if_neg (by simp [hf, hb])] at h
  cases hq : f.quarterToTick time with
  | error x =>
    rw [hq] at h
    cases h
  | ok n =>
    rw [hq] at h
    exact ⟨n, (Except.ok.inj h).symm⟩

theorem add_whole {tick step sum : Datum} (htick : b = false → ∃ n, tick = .int n) (hstep : b = false → ∃ n, step = .int n)
    (h : tick.add step = .ok sum) : b = false → ∃ n, sum = .int n := by
  intro hb
  obtain ⟨m, rfl⟩ := htick hb
  obtain ⟨n, rfl⟩ := hstep hb
  exact ⟨m + n, (Except.ok.inj h).symm⟩

theorem keeps_putAt (place : Except Fault Nat) (time : Datum) (deed : Except Fault Deed) : Keeps b (putAt place time deed) :=
  .except_bind fun i _ => .get_bind fun _ hf => .except_bind fun _ htick => .except_bind fun d _ =>
    .bind (.put i d (ticks_whole hf htick)) fun _ => .count

theorem keeps_addNote (track channel pitch time duration volume remark : Datum) :
    Keeps b (addNote track channel pitch time duration volume remark) :=
  .get_bind fun _ hf => .except_bind fun i _ => .except_bind fun _ htick => .except_bind fun _ hlength =>
    .bind (.put i _ (ticks_whole hf htick)) fun _ => .except_bind fun _ hstop =>
      .bind (.put i _ (add_whole (ticks_whole hf htick) (ticks_whole hf hlength) hstop)) fun _ => .count

theorem keeps_putControllers (i : Nat) (channel : Datum) {step : Datum} (hstep : b = false → ∃ n, step = .int n)
    (all : List (Int × Datum)) {tick : Datum} (htick : b = false → ∃ n, tick = .int n) :
    Keeps b (putControllers i channel step tick all) := by
  induction all generalizing tick with
  | nil => exact fun _ hf => hf
  | cons p all ih =>
    obtain ⟨number, value⟩ := p
    exact .bind (.put i _ htick) fun _ => .bind .count fun _ => .except_bind fun _ hnext =>
      ih (add_whole htick hstep hnext)

theorem keeps_setParameter (p : Parameter) (track channel time high low dataHigh dataLow : Datum) (timeOrder : Bool) :
    Keeps b (setParameter p track channel time high low dataHigh dataLow timeOrder) :=
  .get_bind fun _ hf => .except_bind fun _ htick => .except_bind fun i _ =>
    keeps_putControllers i channel (fun _ => ⟨_, rfl⟩) _ (ticks_whole hf htick)

theorem Adder.keeps {act : Act File Unit} (h : Adder act) : Keeps b act := by
  cases h with
  | note => exact keeps_addNote _ _ _ _ _ _ _
  | trackName | timeSignature | tempo | copyright | keySignature | text | programChange | channelPressure | controller | pitchWheel =>
    exact .get_bind fun _ _ => keeps_putAt _ _ _
  | parameter => exact keeps_setParameter _ _ _ _ _ _ _ _ _
  | tuningBank => exact keeps_setParameter _ _ _ _ _ _ _ _ _
  | tuningProgram => exact keeps_setParameter _ _ _ _ _ _ _ _ _
  | noteTuning =>
    exact .get_bind fun _ _ => .except_bind fun i _ => .except_bind fun _ _ => .bind (.put i _ fun _ => ⟨0, rfl⟩) fun _ => .count
  | systemExclusive =>
    exact .get_bind fun _ hf => .except_bind fun _ htick => .except_bind fun i _ =>
      .bind (.put i _ (ticks_whole hf htick)) fun _ => .count
  | universalExclusive =>
    exact .get_bind fun _ hf => .except_bind fun _ htick => .except_bind fun i _ =>
      .bind (.put i _ (ticks_whole hf htick)) fun _ => .count

end Adders

variable {f g : File}

theorem fresh_of_create {s : Settings} (h : create s = .ok f) : Fresh f.timesAreTicks f := by
  obtain ⟨-, -, -, hopen, -, hlogged⟩ := of_create h
  refine ⟨rfl, hopen, fun t ht => ?_⟩
  rw [hlogged, logged, mem_toArray] at ht
  obtain ⟨i, -, rfl⟩ := mem_map.mp ht
  exact ⟨_, _, _, rfl, by simp [eventsAt]⟩

theorem Reached.fresh (h : Reached f) : Fresh f.timesAreTicks f := by
  induction h with
  | created h => exact fresh_of_create h
  | @called f act hf ha ih =>
    have hends := ha.keeps f ih
    have hfresh : Fresh f.timesAreTicks (act.run.run f).2 := by
      rw [Ends] at hends
      split at hends
      · next h => rwa [h]
      · next h => rwa [h]
    rwa [hfresh.times]

/-! ## Track by track -/

def track (f : File) (i : Nat) : Track := f.tracks.getD i default

theorem track_mem {i : Nat} (h : i < f.tracks.size) : f.track i ∈ f.tracks := by
  rw [track, Array.getD_eq_getD_getElem?, Array.getElem?_eq_getElem h]
  exact Array.getElem_mem h

theorem exists_track {t : Track} (h : t ∈ f.tracks) : ∃ i < f.tracks.size, f.track i = t := by
  obtain ⟨i, hi, rfl⟩ := Array.mem_iff_getElem.mp h
  exact ⟨i, hi, by simp [track, hi]⟩

theorem track_set {i j : Nat} (hi : i < f.tracks.size) (t : Track) :
    track { f with tracks := f.tracks.setIfInBounds i t } j = if i = j then t else f.track j := by
  by_cases hij : i = j
  · subst hij
    simp [track, hi]
  · simp [track, Array.getD_eq_getD_getElem?, hij]

theorem ends_forM_track {act : Act Track PUnit} {P R : Nat → Track → Prop} {E : Fault → Nat → Track → Prop}
    (h : ∀ i t, P i t → Ends act t (fun _ => R i) fun x => E x i) (hf : ∀ i < f.tracks.size, P i (f.track i)) :
    Ends ((List.range f.tracks.size).forM fun i => onTrack i act) f
      (fun _ g => g = { f with tracks := g.tracks } ∧ g.tracks.size = f.tracks.size ∧ ∀ i < f.tracks.size, R i (g.track i))
      fun x g => g = { f with tracks := g.tracks } ∧ g.tracks.size = f.tracks.size ∧
        ∃ k < f.tracks.size, E x k (g.track k) ∧ (∀ i < k, R i (g.track i)) ∧
          ∀ i, k < i → i < f.tracks.size → P i (g.track i) := by
  refine (Ends.forM_range (I := fun k g => g = { f with tracks := g.tracks } ∧ g.tracks.size = f.tracks.size ∧
    (∀ i < k, R i (g.track i)) ∧ ∀ i, k ≤ i → i < f.tracks.size → P i (g.track i)) ?_
    ⟨rfl, rfl, by simp, fun i _ hi => hf i hi⟩).mono (fun _ g hg => ⟨hg.1, hg.2.1, hg.2.2.1⟩) fun _ _ hg => hg
  rintro k hk g ⟨hframe, hsize, hdone, htodo⟩
  have hk' : k < g.tracks.size := by omega
  have hother : ∀ (t : Track) i, i ≠ k → track { g with tracks := g.tracks.setIfInBounds k t } i = g.track i :=
    fun t i hi => by rw [track_set hk', if_neg (Ne.symm hi)]
  have hself : ∀ t : Track, track { g with tracks := g.tracks.setIfInBounds k t } k = t :=
    fun t => by rw [track_set hk', if_pos rfl]
  rw [ends_onTrack]
  refine (h k (g.track k) (htodo k le_rfl hk)).mono (fun _ t ht => ?_) fun x t ht => ?_
  · refine ⟨by rw [hframe], by simpa using hsize, fun i hi => ?_, fun i hi hin => ?_⟩
    · by_cases hik : i = k
      · rw [hik, hself]
        exact ht
      · rw [hother t i hik]
        exact hdone i (by omega)
    · rw [hother t i (by omega)]
      exact htodo i (by omega) hin
  · refine ⟨by rw [hframe], by simpa using hsize, k, hk, by rwa [hself], fun i hi => ?_, fun i hi hin => ?_⟩
    · rw [hother t i (by omega)]
      exact hdone i hi
    · rw [hother t i (by omega)]
      exact htodo i (by omega) hin

/-! ## What a failure leaves -/

/-- A file that has changed in nothing but its tracks, each of which is related to the one before. -/
structure Trackwise (R : Track → Track → Prop) (f g : File) : Prop where
  frame : g = { f with tracks := g.tracks }
  size : g.tracks.size = f.tracks.size
  tracks : ∀ i < f.tracks.size, R (f.track i) (g.track i)

/-- A file whose tracks have changed in nothing but the ticks of events and the doubles among
    them, and which has changed in nothing else. -/
abbrev Retimed : File → File → Prop := Trackwise Track.Retimed

theorem Retimed.moved {h : File} (hfg : Retimed f g) (hgh : Trackwise Track.Moved g h) : Retimed f h where
  frame := by rw [hgh.frame, hfg.frame]
  size := hgh.size.trans hfg.size
  tracks i hi := Track.Retimed.moved _ _ _ (hfg.tracks i hi) (hgh.tracks i (by rw [hfg.size]; exact hi))

theorem within_forM_track {R : Track → Track → Prop} (hrefl : ∀ t, R t t) {act : Act Track PUnit}
    (h : ∀ t, Within R act t) (f : File) :
    Within (Trackwise R) ((List.range f.tracks.size).forM fun i => onTrack i act) f := by
  refine (ends_forM_track (P := fun i t => t = f.track i) (R := fun i => R (f.track i))
    (E := fun _ i => R (f.track i)) (fun i t ht => ht ▸ h t) fun _ _ => rfl).mono ?_ ?_
  · rintro _ g ⟨hframe, hsize, hg⟩
    exact ⟨hframe, hsize, hg⟩
  · rintro _ g ⟨hframe, hsize, k, -, hk, hdone, htodo⟩
    refine ⟨hframe, hsize, fun i hi => ?_⟩
    rcases Nat.lt_trichotomy i k with hlt | rfl | hgt
    · exact hdone i hlt
    · exact hk
    · rw [htodo i hgt hi]
      exact hrefl _

theorem ends_close_retimed (hopen : f.closed = false) :
    Ends close f (fun _ g => ∀ t ∈ g.tracks, t.length? = some t.data.length) fun _ => Retimed f := by
  rw [close, ends_bind, ends_get, if_neg (by simp [hopen]), ends_bind, ends_get]
  refine (within_forM_track (fun t => (Track.Moved.refl t).retimed) Track.within_close f).seq fun _ g hg => ?_
  rw [ends_bind, ends_get, ends_bind, ends_except]
  refine ⟨fun origin _ => ?_, fun _ _ => hg⟩
  have hwritten := ends_forM_track (f := g) (P := fun _ _ => True) (R := fun _ t => t.length? = some t.data.length)
    (E := fun _ _ _ => True) (fun _ t _ => Track.upon_rewrite (if g.adjustOrigin then origin else .int 0) t) fun _ _ => trivial
  rw [ends_bind, ← hg.size]
  refine ((within_forM_track Track.Moved.refl (Track.within_rewrite _) g).and hwritten).mono ?_ fun _ _ h => Retimed.moved hg h.1
  rintro _ g' ⟨hg', -, -, hlength⟩
  rw [ends_modify]
  intro t ht
  obtain ⟨i, hi, rfl⟩ := exists_track (f := g') ht
  exact hlength i (hg'.size ▸ hi)

theorem ends_write_of_close (hopen : f.closed = false) {Q : Prop} {E : Fault → File → Prop}
    (h : Ends close f (fun _ _ => Q) E) : Ends write f (fun _ _ => Q) E := by
  rw [write]
  refine ((ends_close_retimed hopen).and h).andThen ?_ fun _ _ h => h.2
  rintro _ g ⟨hlength, hQ⟩
  rw [ends_bind, ends_get, ends_bind, (Gives.of_except (mapM_chunk fun t ht => hlength t (Array.mem_toList_iff.mp ht)) _).ends]
  exact hQ

/-! ## Stuck tracks -/

/-- The tracks of an open file are closed, and one of them cannot be written. -/
structure Doomed (D : Deed → Prop) (f : File) : Prop where
  opened : f.closed = false
  shut : ∀ i < f.tracks.size, (f.track i).Shut D
  stuck : ∃ k < f.tracks.size, (f.track k).Stuck

/-- A way in which one of the deeds cannot be written, or the data of a track are too long. -/
def Refusal (D : Deed → Prop) (x : Fault) : Prop := x = .doesNotFit ∨ ∃ d, D d ∧ d.Refused x

theorem foldlM_earlier_whole {ticks : List Datum} (h : ∀ d ∈ ticks, ∃ n, d = .int n) (start : Int) :
    ∃ n, ticks.foldlM earlier (.int start) = .ok (.int n) := by
  induction ticks generalizing start with
  | nil => exact ⟨start, rfl⟩
  | cons d ticks ih =>
    obtain ⟨m, rfl⟩ := h d (by simp)
    obtain ⟨k, hk⟩ : ∃ k, earlier (.int start) (.int m) = .ok (.int k) := by
      rw [earlier, before?_int]
      by_cases hlt : m < start
      · exact ⟨m, by simp [hlt]⟩
      · exact ⟨start, by simp [hlt]⟩
    rw [foldlM_cons, hk]
    exact ih (fun d hd => h d (by simp [hd])) k

theorem origin_whole (h : ∀ t ∈ f.tracks, t.Sound t.stream) : ∃ n, f.origin = .ok (.int n) := by
  refine foldlM_earlier_whole (fun d hd => ?_) 100000000
  obtain ⟨t, ht, hd⟩ := mem_filterMap.mp hd
  obtain ⟨e, he, rfl⟩ := Option.map_eq_some_iff.mp hd
  obtain ⟨i, hi, rfl⟩ := mem_map.mp (mem_of_head? he)
  exact ⟨_, h t (Array.mem_toList_iff.mp ht) i hi⟩

section Doomed

variable {D : Deed → Prop} {f : File}

theorem ends_rewriteAll {S : Nat → Prop} (hopen : f.closed = false) (hshut : ∀ i < f.tracks.size, (f.track i).Shut D)
    (hstuck : ∀ i < f.tracks.size, S i → (f.track i).Stuck) (origin : Int) :
    Ends ((List.range f.tracks.size).forM fun i => onTrack i do Track.makeRelative (.int origin); Track.writeStream) f
      (fun _ _ => ∀ i < f.tracks.size, ¬ S i) fun x g => Doomed D g ∧ Refusal D x := by
  refine (ends_forM_track (P := fun i t => t.Shut D ∧ (S i → t.Stuck)) (R := fun i t => t.Shut D ∧ ¬ S i)
    (E := fun x _ t => t.Shut D ∧ t.Stuck ∧ Refusal D x) (fun i t ht => ?_) fun i hi => ⟨hshut i hi, hstuck i hi⟩).mono ?_ ?_
  · refine (ht.1.ends_rewrite origin).mono (fun _ u hu => ⟨hu.1, fun hS => hu.2 (ht.2 hS)⟩) fun _ _ h => h
  · rintro _ g ⟨-, -, hg⟩ i hi
    exact (hg i hi).2
  · rintro x g ⟨hframe, hsize, k, hk, ⟨hkshut, hkstuck, hx⟩, hdone, htodo⟩
    refine ⟨⟨by rw [hframe]; exact hopen, fun i hi => ?_, k, hsize ▸ hk, hkstuck⟩, hx⟩
    rcases Nat.lt_trichotomy i k with hlt | rfl | hgt
    · exact (hdone i hlt).1
    · exact hkshut
    · exact (htodo i hgt (hsize ▸ hi)).1

theorem ends_finish {S : Nat → Prop} (hopen : f.closed = false) (hshut : ∀ i < f.tracks.size, (f.track i).Shut D)
    (hstuck : ∀ i < f.tracks.size, S i → (f.track i).Stuck) :
    Ends (do
      let g ← get
      let origin ← liftM g.origin
      (List.range f.tracks.size).forM fun i => onTrack i do
        Track.makeRelative (if g.adjustOrigin then origin else .int 0)
        Track.writeStream
      modify fun f => { f with closed := true } : Act File Unit) f
      (fun _ _ => ∀ i < f.tracks.size, ¬ S i) fun x g => Doomed D g ∧ Refusal D x := by
  obtain ⟨n, hn⟩ : ∃ n, f.origin = .ok (.int n) := origin_whole fun t ht => by
    obtain ⟨i, hi, rfl⟩ := exists_track ht
    exact (hshut i hi).sound
  obtain ⟨origin, horigin⟩ : ∃ origin : Int, (if f.adjustOrigin then Datum.int n else .int 0) = .int origin := by
    split
    · exact ⟨n, rfl⟩
    · exact ⟨0, rfl⟩
  rw [ends_bind, ends_get, ends_bind, (Gives.of_except hn _).ends, horigin]
  exact (ends_rewriteAll hopen hshut hstuck origin).seq fun _ _ h => h

theorem ends_close_doomed (h : Doomed D f) : Ends close f (fun _ _ => False) fun x g => Doomed D g ∧ Refusal D x := by
  obtain ⟨k, hk, hstuck⟩ := h.stuck
  rw [close, ends_bind, ends_get, if_neg (by simp [h.opened]), ends_bind, ends_get, ends_bind]
  refine (ends_forM_track (P := fun i t => t.Shut D ∧ (i = k → t.Stuck)) (R := fun i t => t.Shut D ∧ (i = k → t.Stuck))
    (E := fun _ _ _ => False) (fun i t ht => ?_) fun i hi => ⟨h.shut i hi, fun hik => hik ▸ hstuck⟩).mono ?_ ?_
  · exact ht.1.ends_close.mono (fun _ u hu => ⟨hu.1, fun hik => hu.2 (ht.2 hik)⟩) fun _ _ h => h
  · rintro _ g ⟨hframe, hsize, hg⟩
    rw [← hsize]
    refine (ends_finish (D := D) (S := (· = k)) (by rw [hframe]; exact h.opened) (fun i hi => (hg i (hsize ▸ hi)).1)
      fun i hi => (hg i (hsize ▸ hi)).2).mono (fun _ _ hno => ?_) fun _ _ h => h
    exact hno k (hsize ▸ hk) rfl
  · rintro _ g ⟨-, -, _, -, hfalse, -⟩
    exact hfalse.elim

theorem ends_close_fresh (hf : Fresh f.timesAreTicks f) (hwhole : ∀ t ∈ f.tracks, t.Sound t.added)
    (hdeeds : ∀ t ∈ f.tracks, ∀ i ∈ t.added, D (t.event i).deed) :
    Ends close f (fun _ _ => True) fun x g => Track.Orphan x ∨ Doomed D g ∧ Refusal D x := by
  rw [close, ends_bind, ends_get, if_neg (by simp [hf.opened]), ends_bind, ends_get, ends_bind]
  refine (ends_forM_track (P := fun _ t => t ∈ f.tracks) (R := fun _ t => t.Shut D)
    (E := fun x _ _ => Track.Orphan x) (fun i t ht => ?_) fun i hi => track_mem hi).mono ?_ ?_
  · obtain ⟨drop, separate, es, rfl, -⟩ := hf.tracks t ht
    have hevents : (Track.fresh drop separate es).added.map (Track.fresh drop separate es).event = es :=
      Track.events_fresh drop separate es
    have hmem : ∀ e ∈ es, ∃ i ∈ (Track.fresh drop separate es).added, (Track.fresh drop separate es).event i = e := by
      intro e he
      rw [← hevents] at he
      exact mem_map.mp he
    refine Track.ends_close_fresh (fun e he => ?_) fun e he => ?_
    · obtain ⟨i, hi, rfl⟩ := hmem e he
      exact hwhole _ ht i hi
    · obtain ⟨i, hi, rfl⟩ := hmem e he
      exact hdeeds _ ht i hi
  · rintro _ g ⟨hframe, hsize, hg⟩
    rw [← hsize]
    exact (ends_finish (D := D) (S := fun _ => False) (by rw [hframe]; exact hf.opened) (fun i hi => hg i (hsize ▸ hi))
      fun _ _ h => h.elim).mono (fun _ _ _ => trivial) fun _ _ h => .inr h
  · rintro x g ⟨-, -, _, -, horphan, -⟩
    exact .inl horphan

end Doomed

/-! ## Writing again -/

/-- The file that an attempt to write it leaves. -/
def again (f : File) : File := (write.run.run f).2

/-- A way in which an event of the file cannot be written, or the data of a track are too long. -/
def Refuses (f : File) (x : Fault) : Prop := Refusal (fun d => ∃ t ∈ f.tracks, ∃ i ∈ t.added, (t.event i).deed = d) x

theorem doomed_again {D : Deed → Prop} (h : Doomed D g) (k : Nat) :
    Doomed D (again^[k] g) ∧ ∃ y, Fails write (again^[k] g) y ∧ Refusal D y := by
  have hstep : ∀ {g : File}, Doomed D g → ∃ y, Fails write g y ∧ Refusal D y ∧ Doomed D (again g) := by
    intro g h
    obtain ⟨y, g', hrun, hg', hy⟩ := (ends_write_of_close h.opened (ends_close_doomed h)).exists_error
    exact ⟨y, ⟨g', hrun⟩, hy, by rwa [again, hrun]⟩
  have hdoomed : Doomed D (again^[k] g) := by
    induction k with
    | zero => exact h
    | succ k ih =>
      rw [Function.iterate_succ_apply']
      obtain ⟨_, -, -, hnext⟩ := hstep ih
      exact hnext
  obtain ⟨y, hfails, hy, -⟩ := hstep hdoomed
  exact ⟨hdoomed, y, hfails, hy⟩

/-- Where closing or writing a file that calls have been made on fails, the file is not closed, and
    it has changed only in the ticks of its events and the doubles among them. If all ticks are whole, as they are
    unless times are given in ticks, and it is not a note that is ended without having begun, then it
    cannot be written from there on: every attempt fails, either as an event of it is refused or as
    something does not fit, and in the same way if nothing is refused but what does not fit. -/
theorem failed_write_stays_failed {f g : File} {x : Fault} (hf : Reached f)
    (h : close.run.run f = (.error x, g) ∨ write.run.run f = (.error x, g)) :
    f.Retimed g ∧ g.closed = false ∧
      ((f.timesAreTicks = false ∨ ∀ t ∈ f.tracks, t.Sound t.added) → ¬ Track.Orphan x →
        f.Refuses x ∧ ∀ k, ∃ y, Fails write (again^[k] g) y ∧ f.Refuses y ∧
          ((∀ z, f.Refuses z → z = .doesNotFit) → y = x)) := by
  have hfresh := hf.fresh
  have herror : ∀ {Q : Prop} {E : Fault → File → Prop}, Ends close f (fun _ _ => Q) E → E x g := by
    intro Q E hends
    rcases h with h | h
    · rwa [Ends, h] at hends
    · have hwrite := ends_write_of_close hfresh.opened hends
      rwa [Ends, h] at hwrite
  have hretimed : f.Retimed g :=
    herror ((ends_close_retimed hfresh.opened).mono (fun _ _ _ => trivial) fun _ _ h => h : Ends close f (fun _ _ => True) _)
  refine ⟨hretimed, by rw [hretimed.frame]; exact hfresh.opened, fun hticks horphan => ?_⟩
  have hwhole : ∀ t ∈ f.tracks, t.Sound t.added := by
    rcases hticks with hticks | hticks
    · intro t ht i hi
      obtain ⟨drop, separate, es, rfl, hes⟩ := hfresh.tracks t ht
      refine hes hticks _ ?_
      have hmem := List.mem_map_of_mem (f := (Track.fresh drop separate es).event) hi
      rwa [show (Track.fresh drop separate es).added.map _ = es from Track.events_fresh drop separate es] at hmem
    · exact hticks
  have hclose := ends_close_fresh (D := fun d => ∃ t ∈ f.tracks, ∃ i ∈ t.added, (t.event i).deed = d) hfresh hwhole
    fun t ht i hi => ⟨t, ht, i, hi, rfl⟩
  obtain ⟨hdoomed, hx⟩ := (herror hclose).resolve_left horphan
  refine ⟨hx, fun k => ?_⟩
  obtain ⟨-, y, hfails, hy⟩ := doomed_again hdoomed k
  exact ⟨y, hfails, hy, fun hfits => (hfits y hy).trans (hfits x hx).symm⟩

theorem failed_write_stays_failed_controller :
    let f := ((addController (.int 0) (.int 0) (.int 2) (.int 7) (.int 300)).run.run
      { format := 0, division := 960, adjustOrigin := false, timesAreTicks := false,
        tracks := #[{ dropDuplicates := true, separateNotes := true }] }).2
    Reached f ∧ Fails write f .doesNotFit ∧ f.timesAreTicks = false ∧ ¬ Track.Orphan .doesNotFit ∧
      ∀ k, ∃ y, Fails write (again^[k] (again f)) y := by
  intro f
  have hreached : Reached f := .called (.created (s := { format := .int 0 }) rfl) (.controller _ _ _ _ _)
  have hfails : (write.run.run f).1 = .error .doesNotFit := by cbv
  have horphan : ¬ Track.Orphan .doesNotFit := by simp [Track.Orphan]
  have hrun : write.run.run f = (.error .doesNotFit, again f) := Prod.ext hfails rfl
  obtain ⟨-, -, hagain⟩ := failed_write_stays_failed hreached (.inr hrun)
  refine ⟨hreached, ⟨_, hrun⟩, rfl, horphan, fun k => ?_⟩
  obtain ⟨y, hy, -⟩ := (hagain (.inl rfl) horphan).2 k
  exact ⟨y, hy⟩

/-- Two controllers of one track, the first with a value that does not fit and the second without
    a channel: writing fails at the first, and by then the second is the earlier one, so
    that writing fails at the second the next time. -/
theorem second_failure_differs :
    let f := ((do
      addController (.int 0) (.int 0) (.int 2) (.int 7) (.int 300)
      addController (.int 0) .none (.int 3) (.int 7) (.int 100) : Act File Unit).run.run
      { format := 0, division := 960, adjustOrigin := false, timesAreTicks := false,
        tracks := #[{ dropDuplicates := true, separateNotes := true }] }).2
    ((f.track 0).event 1).tick = .int 2880 ∧ (write.run.run f).1 = .error .doesNotFit ∧
      (((again f).track 0).event 1).tick = .int 960 ∧ (write.run.run (again f)).1 = .error .wrongKind := by
  intro f
  refine ⟨by cbv, by cbv, by cbv, by cbv⟩

end File

end Midi

end Plainsong
