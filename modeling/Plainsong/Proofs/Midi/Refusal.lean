import Plainsong.Proofs.Midi.Doubles
import Plainsong.Proofs.Midi.Unlacing
/- Tracks that cannot be written. Whether an event at a whole tick has bytes does not
   depend on the tick (`Steady.bytes`), so a deed that is refused once is refused
   wherever it is moved. The passes that close and write a track change nothing of its
   events but their ticks, however they end (`within_close`, `within_rewrite`). A
   closed track that could not be written is stuck (`Shut.ends_rewrite`), and it stays
   stuck however often it is put in order again (`Shut.ends_close`). -/
namespace Plainsong.Midi

open List

/-! ## What cannot be written -/

/-- Bytes put behind those of a time, or a failure, whatever the time is. -/
def Trailing (message : List UInt8 → Except Fault (List UInt8)) : Prop :=
  ∃ r : Except Fault (List UInt8), ∀ time, message time = r.map (time ++ ·)

namespace Trailing

theorem of_ok {message : List UInt8 → List UInt8} (rest : List UInt8) (h : ∀ time, message time = time ++ rest) :
    Trailing fun time => pure (message time) :=
  ⟨.ok rest, fun time => congrArg Except.ok (h time)⟩

theorem of_throw (x : Fault) : Trailing fun _ => throw x := ⟨.error x, fun _ => rfl⟩

theorem of_bind {α : Type} (x : Except Fault α) {message : α → List UInt8 → Except Fault (List UInt8)}
    (h : ∀ a, Trailing (message a)) : Trailing fun time => x >>= fun a => message a time := by
  cases x with
  | error e => exact ⟨.error e, fun _ => rfl⟩
  | ok a => exact h a

end Trailing

/-- The bytes behind the ticks, or the failure, are the same at every whole tick. -/
def Steady (message : Datum → Except Fault (List UInt8)) : Prop :=
  ∃ r : Except Fault (List UInt8), ∀ n : Int, message (.int n) = r.map (VarLength.encodeInt n ++ ·)

namespace Steady

theorem of_bind {α : Type} (x : Except Fault α) {message : α → Datum → Except Fault (List UInt8)}
    (h : ∀ a, Steady (message a)) : Steady fun tick => x >>= fun a => message a tick := by
  cases x with
  | error e => exact ⟨.error e, fun _ => rfl⟩
  | ok a => exact h a

theorem of_time {message : List UInt8 → Except Fault (List UInt8)} (h : Trailing message) :
    Steady fun tick => VarLength.encodeDatum tick >>= message := by
  obtain ⟨r, h⟩ := h
  exact ⟨r, fun n => h _⟩

theorem channelMessage (channel : Datum) (status : Nat) (values : List Datum) :
    Steady fun tick => Event.channelMessage tick channel status values :=
  of_bind _ fun _ => of_time (.of_bind _ fun _ => .of_bind _ fun _ => .of_ok _ fun _ => append_assoc ..)

theorem textMessage (type : UInt8) (letters : List UInt8) : Steady fun tick => Event.textMessage tick type letters :=
  of_time (.of_ok ([0xFF, type] ++ VarLength.encode letters.length ++ letters) fun _ => by simp)

theorem bytes (d : Deed) (order : Nat) : Steady fun tick => ({ tick, order, deed := d } : Event).bytes := by
  cases d with
  | noteOn channel pitch duration volume remark => exact channelMessage channel 0x90 [pitch, volume]
  | noteOff channel pitch volume remark => exact channelMessage channel 0x80 [pitch, volume]
  | tempo m =>
    by_cases hfits : (m < 0 || Int.pow 2 32 ≤ m) = true
    · simp only [Event.bytes, if_pos hfits]
      exact ⟨.error .doesNotFit, fun _ => rfl⟩
    · simp only [Event.bytes, if_neg hfits]
      exact of_time (.of_ok _ fun _ => rfl)
  | copyright notice =>
    by_cases hfits : 128 ≤ notice.length
    · simp only [Event.bytes, if_pos hfits]
      exact of_time (.of_throw .doesNotFit)
    · simp only [Event.bytes, if_neg hfits]
      exact of_time (.of_ok ([0xFF, 0x02] ++ VarLength.encode notice.length ++ notice) fun _ => by simp)
  | text letters => exact textMessage 0x01 letters
  | trackName letters => exact textMessage 0x03 letters
  | keySignature accidentals kind mode =>
    exact of_time (.of_bind _ fun _ => .of_bind _ fun _ => .of_bind _ fun _ => .of_ok _ fun _ => rfl)
  | programChange channel program => exact channelMessage channel 0xC0 [program]
  | systemExclusive manufacturer payload =>
    exact of_time (.of_bind _ fun _ => .of_bind _ fun _ => .of_bind _ fun _ => .of_ok _ fun _ => by
      simp only [append_assoc]; rfl)
  | universalExclusive realTime device code subcode payload =>
    exact of_time (.of_bind _ fun _ => .of_bind _ fun _ => .of_bind _ fun _ => .of_bind _ fun _ => .of_bind _ fun _ =>
      .of_ok _ fun _ => by simp only [append_assoc]; rfl)
  | controller channel number parameter => exact channelMessage channel 0xB0 [number, parameter]
  | channelPressure channel pressure => exact channelMessage channel 0xD0 [pressure]
  | pitchWheel channel value =>
    refine of_bind _ fun _ => of_time (.of_bind _ fun raised => ?_)
    cases raised with
    | int n => exact .of_bind _ fun _ => .of_bind _ fun _ => .of_bind _ fun _ => .of_ok _ fun _ => rfl
    | _ => exact .of_throw .wrongKind
  | timeSignature numerator denominator clocks notes =>
    exact of_time (.of_bind _ fun _ => .of_ok _ fun _ => append_assoc ..)

end Steady

namespace Deed

/-- The deed cannot be written, and fails in this way at every whole tick. -/
def Refused (d : Deed) (x : Fault) : Prop :=
  ∀ (n : Int) (order : Nat), ({ tick := .int n, order, deed := d } : Event).bytes = .error x

end Deed

theorem Event.Whole.refused {e : Event} (h : e.Whole) {x : Fault} (hx : e.bytes = .error x) : e.deed.Refused x := by
  obtain ⟨r, hr⟩ := Steady.bytes e.deed e.order
  have hself : e.bytes = r.map (VarLength.encodeInt e.instant ++ ·) := by
    rw [← hr e.instant, ← h]
  intro n order
  cases r with
  | ok b =>
    rw [hx] at hself
    cases hself
  | error y =>
    obtain rfl : x = y := by
      rw [hx] at hself
      exact Except.error.inj hself
    exact hr n

end Plainsong.Midi

namespace Plainsong

section Loops

variable {ε σ α β : Type} {R : σ → σ → Prop}

theorem Within.foldlM (hrefl : ∀ s, R s s) (htrans : ∀ a b c, R a b → R b c → R a c) {g : β → α → ExceptT ε (StateM σ) β}
    (h : ∀ b a s, Within R (g b a) s) (l : List α) (b : β) (s : σ) : Within R (l.foldlM g b) s := by
  induction l generalizing b s with
  | nil => exact hrefl s
  | cons a l ih =>
    rw [List.foldlM_cons]
    exact (h b a s).bind htrans fun b' s' _ => ih b' s'

theorem Within.forM (hrefl : ∀ s, R s s) (htrans : ∀ a b c, R a b → R b c → R a c) {g : α → ExceptT ε (StateM σ) PUnit}
    (h : ∀ a s, Within R (g a) s) (l : List α) (s : σ) : Within R (l.forM g) s := by
  induction l generalizing s with
  | nil => exact hrefl s
  | cons a l ih => exact (h a s).bind htrans fun _ s' _ => ih s'

end Loops

end Plainsong

namespace Plainsong.Midi

namespace Track

/-! ## Only ticks are changed -/

/-- The events of a track have changed in nothing but their ticks. -/
structure Ticked (t t' : Track) : Prop where
  drop : t'.dropDuplicates = t.dropDuplicates
  separate : t'.separateNotes = t.separateNotes
  size : t'.events.size = t.events.size
  deeds : ∀ i, (t'.event i).deed = (t.event i).deed ∧ (t'.event i).order = (t.event i).order

theorem Ticked.trans {a b c : Track} (hab : Ticked a b) (hbc : Ticked b c) : Ticked a c where
  drop := hbc.drop.trans hab.drop
  separate := hbc.separate.trans hab.separate
  size := hbc.size.trans hab.size
  deeds i := ⟨(hbc.deeds i).1.trans (hab.deeds i).1, (hbc.deeds i).2.trans (hab.deeds i).2⟩

/-- A track after passes that move its events and drop none. -/
structure Moved (t t' : Track) : Prop extends Ticked t t' where
  added : t'.added = t.added

namespace Moved

theorem refl (t : Track) : Moved t t := ⟨⟨rfl, rfl, rfl, fun _ => ⟨rfl, rfl⟩⟩, rfl⟩

theorem trans (a b c : Track) (hab : Moved a b) (hbc : Moved b c) : Moved a c :=
  ⟨hab.toTicked.trans hbc.toTicked, hbc.added.trans hab.added⟩

theorem of_frame (t : Track) (stream : List Nat) (data : List UInt8) (length? : Option Nat)
    (closed : Bool) : Moved t { t with stream, data, length?, closed } :=
  ⟨⟨rfl, rfl, rfl, fun _ => ⟨rfl, rfl⟩⟩, rfl⟩

theorem of_setTick (t : Track) (i : Nat) (tick : Datum) : Moved t (t.setTick i tick) := by
  refine ⟨⟨rfl, rfl, by simp [setTick], fun j => ?_⟩, rfl⟩
  by_cases hij : i = j
  · subst hij
    by_cases hi : i < t.events.size
    · rw [event_setTick_self hi]
      exact ⟨rfl, rfl⟩
    · simp [event, setTick, hi]
  · rw [event_setTick_of_ne hij]
    exact ⟨rfl, rfl⟩

end Moved

/-- A track after some of the passes that close and write it: events may have been dropped, each
    as the double of one that is kept, and the rest have changed in nothing but their ticks. -/
structure Retimed (t t' : Track) : Prop extends Ticked t t' where
  added : t'.added.Subperm t.added
  kept : ∀ i ∈ t.added, i ∉ t'.added → ∃ j ∈ t'.added, (t.event j).same (t.event i) = true
  all : t.dropDuplicates = false → t'.added = t.added

theorem Moved.retimed {t t' : Track} (h : Moved t t') : Retimed t t' :=
  ⟨h.toTicked, h.added ▸ .refl _, fun _ hi hgone => absurd (h.added ▸ hi) hgone, fun _ => h.added⟩

-- Doubles are told by their ticks too: this holds as they are dropped before a tick is changed.
theorem Retimed.moved (a b c : Track) (hab : Retimed a b) (hbc : Moved b c) : Retimed a c :=
  ⟨hab.toTicked.trans hbc.toTicked, hbc.added ▸ hab.added, hbc.added ▸ hab.kept, hbc.added ▸ hab.all⟩

theorem Retimed.of_closed {t t' : Track} (h : Retimed { t with closed := true } t') : Retimed t t' :=
  ⟨⟨h.drop, h.separate, h.size, h.deeds⟩, h.added, h.kept, h.all⟩

variable {ids : List Nat} {t : Track}

theorem sorted_perm {sorted : List Nat} (h : t.sorted ids = .ok sorted) : sorted.Perm ids := by
  cases ids with
  | nil =>
    cases h
    exact .refl _
  | cons i ids =>
    rw [Track.sorted] at h
    split at h
    · cases h
      exact List.mergeSort_perm _ _
    · cases h

theorem within_removeDuplicates (hdrop : t.dropDuplicates = true) : Within Retimed removeDuplicates t := by
  have hloop : Ends (t.added.forM fun i => discard (liftM (t.event i).fingerprint : Act Track Int)) t
      (fun _ u => u = t) fun _ u => u = t := by
    refine Ends.forM (fun i _ u hu => ?_) rfl
    rw [ends_discard, ends_except]
    exact ⟨fun _ _ => hu, fun _ _ => hu⟩
  have hkept : ∀ ids : List Nat, ids.Perm (t.distinct t.added) → Retimed t { t with added := ids } := by
    intro ids hids
    refine ⟨⟨rfl, rfl, rfl, fun _ => ⟨rfl, rfl⟩⟩, hids.subperm.trans (distinct_sublist t t.added).subperm,
      fun i hi hgone => ?_, fun h => absurd (hdrop.symm.trans h) (by simp)⟩
    obtain ⟨j, hj, hsame⟩ := exists_distinct t hi
    have hj : j ∈ ids := hids.mem_iff.mpr hj
    exact ⟨j, hj, hsame.resolve_left fun hji => hgone (hji ▸ hj)⟩
  rw [Within, removeDuplicates, ends_bind, ends_get]
  refine hloop.andThen ?_ fun _ u hu => hu ▸ (Moved.refl t).retimed
  rintro _ u rfl
  rw [ends_bind, ends_set, ends_bind, ends_get, ends_bind, ends_except]
  exact ⟨fun ids hids => hkept ids (sorted_perm hids), fun _ _ => hkept _ (.refl _)⟩

theorem within_sortStream (t : Track) : Within Moved sortStream t := by
  rw [Within, sortStream, ends_bind, ends_get, ends_bind, ends_except]
  exact ⟨fun ids _ => Moved.of_frame t ids _ _ _, fun _ _ => .refl t⟩

theorem within_separateOne (openNotes : OpenNotes) (i : Nat) (t : Track) : Within Moved (separateOne openNotes i) t := by
  rw [Within, separateOne, ends_bind, ends_get]
  cases hdeed : (t.event i).deed with
  | noteOff channel pitch volume remark =>
    simp only [hdeed]
    cases openNotes.find? (noteKey pitch channel) with
    | none => exact .refl t
    | some ticks =>
      cases ticks with
      | nil => exact .refl t
      | cons tick older =>
        cases older with
        | nil => exact .refl t
        | cons next older => exact .of_setTick t i tick
  | _ =>
    simp only [hdeed]
    exact .refl t

theorem within_separate (t : Track) : Within Moved separate t := by
  rw [Within, separate, ends_bind, ends_get]
  refine Within.bind Moved.trans (.foldlM Moved.refl Moved.trans within_separateOne t.stream [] t) fun _ u _ => ?_
  exact within_sortStream u

/-- What is left of closing once doubles are dropped. -/
def layStream : Act Track Unit := do
  modify fun t => { t with stream := t.added }
  sortStream
  if (← get).separateNotes then separate

theorem within_layStream (t : Track) : Within Moved layStream t := by
  refine Within.bind Moved.trans (Moved.of_frame t _ _ _ _) fun _ u _ => ?_
  refine Within.bind Moved.trans (within_sortStream u) fun _ u _ => ?_
  rw [Within, ends_bind, ends_get]
  split
  · exact within_separate u
  · exact .refl u

theorem within_close (t : Track) : Within Retimed (do close; sortStream) t := by
  refine Within.bind Retimed.moved ?_ fun _ u _ => within_sortStream u
  rw [Within, close, ends_bind, ends_get]
  split
  · exact (Moved.refl t).retimed
  · rw [ends_bind, ends_modify, ends_bind, ends_get]
    split
    · next hdrop =>
      exact ((within_removeDuplicates hdrop).bind Retimed.moved fun _ u _ => within_layStream u).mono
        (fun _ _ => Retimed.of_closed) fun _ _ => Retimed.of_closed
    · exact (within_layStream _).mono (fun _ _ h => h.retimed.of_closed) fun _ _ h => h.retimed.of_closed

theorem within_relativeStep (origin running : Datum) (i : Nat) (t : Track) : Within Moved (relativeStep origin running i) t := by
  rw [Within, relativeStep, ends_bind, ends_get, ends_bind, ends_except]
  refine ⟨fun adjusted _ => ?_, fun _ _ => .refl t⟩
  rw [ends_bind, ends_except]
  exact ⟨fun tick _ => .of_setTick t i tick, fun _ _ => .refl t⟩

theorem within_makeRelative (origin : Datum) (t : Track) : Within Moved (makeRelative origin) t := by
  rw [Within, makeRelative, ends_bind, ends_get]
  exact Within.bind Moved.trans
    (Within.foldlM Moved.refl Moved.trans (within_relativeStep origin) t.stream (Datum.int 0) t) fun _ u _ => .refl u

theorem within_writeOne (i : Nat) (t : Track) : Within Moved (writeOne i) t := by
  rw [Within, writeOne, ends_bind, ends_get, ends_bind, ends_except]
  exact ⟨fun _ _ => Moved.of_frame t _ _ _ _, fun _ _ => .refl t⟩

theorem within_writeStream (t : Track) : Within Moved writeStream t := by
  rw [Within, writeStream, ends_bind, ends_get]
  refine Within.bind Moved.trans (Within.forM Moved.refl Moved.trans within_writeOne t.stream t) fun _ u _ => ?_
  rw [Within, ends_bind, ends_modify, ends_bind, ends_get]
  dsimp only
  split
  · exact Moved.of_frame u _ _ _ _
  · exact Moved.of_frame u _ _ _ _

theorem within_rewrite (origin : Datum) (t : Track) : Within Moved (do makeRelative origin; writeStream) t :=
  Within.bind Moved.trans (within_makeRelative origin t) fun _ u _ => within_writeStream u

/-! ## Closed tracks -/

/-- A closed track with a stream of whole ticks, all of whose deeds are among those given. -/
structure Shut (D : Deed → Prop) (t : Track) : Prop where
  closed : t.closed = true
  sound : t.Sound t.stream
  deeds : ∀ i ∈ t.stream, D (t.event i).deed

/-- A track that cannot be written: one of its events is refused, or its data are too long. -/
def Stuck (t : Track) : Prop :=
  (∃ i ∈ t.stream, ∃ x, (t.event i).deed.Refused x) ∨ lengthLimit ≤ t.data.length

/-- A note is ended that has not begun. -/
def Orphan (x : Fault) : Prop := x = .missing ∨ x = .outOfRange

section Shut

variable {D : Deed → Prop} {t : Track}

theorem Shut.ordered (h : Shut D t) : Shut D { t with stream := t.ordered t.stream } :=
  ⟨h.closed, h.sound.ordered, fun i hi => h.deeds i ((t.ordered_perm t.stream).mem_iff.mp hi)⟩

theorem Shut.ends_close (h : Shut D t) :
    Ends (do close; sortStream) t (fun _ u => Shut D u ∧ (t.Stuck → u.Stuck)) fun _ _ => False := by
  rw [ends_bind, close, ends_bind, ends_get, if_pos h.closed, ends_pure, (sortStream_whole h.sound).ends]
  refine ⟨h.ordered, fun hstuck => hstuck.imp ?_ id⟩
  rintro ⟨i, hi, hrefused⟩
  exact ⟨i, (t.ordered_perm t.stream).mem_iff.mpr hi, hrefused⟩

theorem ends_separateOne_orphan (openNotes : OpenNotes) (i : Nat) (t : Track) :
    Ends (separateOne openNotes i) t (fun _ _ => True) fun x _ => Orphan x := by
  rw [separateOne, ends_bind, ends_get]
  cases hdeed : (t.event i).deed with
  | noteOff channel pitch volume remark =>
    simp only [hdeed]
    cases openNotes.find? (noteKey pitch channel) with
    | none => exact .inl rfl
    | some ticks =>
      cases ticks with
      | nil => exact .inr rfl
      | cons tick older => cases older <;> trivial
  | _ =>
    simp only [hdeed]
    trivial

theorem ends_foldlM_orphan (ids : List Nat) (openNotes : OpenNotes) (t : Track) :
    Ends (ids.foldlM separateOne openNotes) t (fun _ _ => True) fun x _ => Orphan x := by
  induction ids generalizing openNotes t with
  | nil => trivial
  | cons i ids ih =>
    rw [List.foldlM_cons]
    exact (ends_separateOne_orphan openNotes i t).seq fun openNotes' t' _ => ih openNotes' t'

theorem ends_close_fresh {drop separate : Bool} {es : List Event} (hwhole : ∀ e ∈ es, e.Whole) (hdeeds : ∀ e ∈ es, D e.deed) :
    Ends (do close; sortStream) (fresh drop separate es) (fun _ => Shut D) fun x _ => Orphan x := by
  obtain ⟨t, ht⟩ : ∃ t, t = fresh drop separate es := ⟨_, rfl⟩
  have hadded : t.added = List.range es.length := by rw [ht]; rfl
  have hevents : t.added.map t.event = es := by rw [hadded, ht]; exact events_fresh drop separate es
  have hmem : ∀ i ∈ t.added, t.event i ∈ es := fun i hi => hevents ▸ List.mem_map_of_mem hi
  have hsound : t.Sound t.added := fun i hi => hwhole _ (hmem i hi)
  have hsize : ∀ i ∈ t.laid.stream, i < t.events.size := fun i hi => by
    have hi := t.subperm_laid.subset hi
    rw [hadded, List.mem_range] at hi
    rwa [ht]
  have hshut : Shut D t.laid := ⟨rfl, hsound.laid, fun i hi => hdeeds _ (hmem i (t.subperm_laid.subset hi))⟩
  have hholds : Holds Datum.int ([] : OpenNotes) fun _ => [] := fun _ => rfl
  rw [ends_bind, ← ht]
  refine (ends_close (Q := fun _ => Shut D) (by rw [ht]; rfl) hsound ?_).mono
    (fun _ u hu => (sortStream_whole hu.sound).ends.mpr hu.ordered) fun _ _ h => h
  split
  · refine ends_separate (((ends_foldlM_separate (t := t.laid) (nodup_laid (hadded ▸ List.nodup_range)) hsize hshut.sound
      hholds).and (ends_foldlM_orphan _ _ _)).mono ?_ fun _ _ h => h.2)
    rintro _ u ⟨⟨hmoves, -⟩, -⟩
    have hmoved : Shut D u := by
      have hdeed : ∀ i, (u.event i).deed = (t.event i).deed := fun i => by rw [hmoves.event_eq i]; rfl
      have hwhole := hmoves.whole
      obtain ⟨events, -, rfl⟩ := hmoves.frame
      exact ⟨rfl, fun i hi => hwhole i (hshut.sound i hi), fun i hi => hdeed i ▸ hshut.deeds i hi⟩
    exact ⟨hmoved.sound, hmoved.ordered⟩
  · exact hshut

/-! ## Writing closed tracks -/

theorem whole_setTick {i j : Nat} (h : (t.event j).Whole) (n : Int) : ((t.setTick i (.int n)).event j).Whole := by
  by_cases hij : i = j
  · subst hij
    by_cases hi : i < t.events.size
    · rw [event_setTick_self hi]
      rfl
    · simpa [event, setTick, hi] using h
  · rwa [event_setTick_of_ne hij]

theorem ends_foldlM_relativeStep (h : t.Sound ids) (origin running : Int) :
    Ends (ids.foldlM (relativeStep (.int origin)) (.int running)) t
      (fun _ u => (∃ events, u = { t with events }) ∧ (∀ j, (t.event j).Whole → (u.event j).Whole) ∧
        ∀ j, (u.event j).deed = (t.event j).deed) fun _ _ => False := by
  induction ids generalizing t running with
  | nil => exact ⟨⟨t.events, rfl⟩, fun _ h => h, fun _ => rfl⟩
  | cons i ids ih =>
    have hfirst : (t.event i).tick.sub (.int origin) = .ok (.int ((t.event i).instant - origin)) := by
      rw [h i (by simp)]
      rfl
    rw [List.foldlM_cons, ends_bind, relativeStep, ends_bind, ends_get, ends_bind, (Gives.of_except hfirst _).ends, ends_bind,
      (Gives.of_except (sub_int _ running) _).ends, ends_bind, ends_modify, ends_pure]
    refine (ih (fun j hj => whole_setTick (h j (by simp [hj])) _) _).mono ?_ fun _ _ h => h
    rintro _ u ⟨⟨events, rfl⟩, hwhole, hdeed⟩
    exact ⟨⟨events, rfl⟩, fun j hj => hwhole j (whole_setTick hj _),
      fun j => (hdeed j).trans ((Moved.of_setTick t i _).deeds j).1⟩

theorem ends_forM_writeOne_refused (h : t.Sound ids) : Ends (ids.forM writeOne) t
      (fun _ u => (∃ bytes, u = { t with data := t.data ++ bytes }) ∧ ∀ i ∈ ids, ∀ x, ¬ (t.event i).deed.Refused x)
      fun x u => (∃ bytes, u = { t with data := t.data ++ bytes }) ∧ ∃ i ∈ ids, (t.event i).deed.Refused x := by
  induction ids generalizing t with
  | nil => exact ⟨⟨[], by simp⟩, by simp⟩
  | cons i ids ih =>
    have hi := h i (by simp)
    show Ends (writeOne i >>= fun _ => ids.forM writeOne) t _ _
    rw [ends_bind, writeOne, ends_bind, ends_get, ends_bind, ends_except]
    refine ⟨fun bytes hbytes => ?_, fun x hx => ⟨⟨[], by simp⟩, i, by simp, hi.refused hx⟩⟩
    have haccepted : ∀ x, ¬ (t.event i).deed.Refused x := by
      intro x hx
      have herror := hx (t.event i).instant (t.event i).order
      rw [← hi, hbytes] at herror
      cases herror
    rw [ends_modify]
    refine (ih (t := { t with data := t.data ++ bytes }) fun j hj => h j (by simp [hj])).mono ?_ ?_
    · rintro _ u ⟨⟨rest, rfl⟩, hrest⟩
      exact ⟨⟨bytes ++ rest, by simp⟩, List.forall_mem_cons.mpr ⟨haccepted, hrest⟩⟩
    · rintro x u ⟨⟨rest, rfl⟩, j, hj, hrefused⟩
      exact ⟨⟨bytes ++ rest, by simp⟩, j, by simp [hj], hrefused⟩

theorem Shut.ends_rewrite (h : Shut D t) (origin : Int) :
    Ends (do makeRelative (.int origin); writeStream) t (fun _ u => Shut D u ∧ ¬ t.Stuck)
      fun x u => Shut D u ∧ u.Stuck ∧ (x = .doesNotFit ∨ ∃ d, D d ∧ d.Refused x) := by
  rw [ends_bind, makeRelative, ends_bind, ends_get]
  refine (ends_foldlM_relativeStep h.sound origin 0).andThen ?_ fun _ _ h => h.elim
  rintro _ u ⟨⟨events, rfl⟩, hwhole, hdeed⟩
  have hshut : Shut D { t with events } :=
    ⟨h.closed, fun i hi => hwhole i (h.sound i hi), fun i hi => hdeed i ▸ h.deeds i hi⟩
  rw [ends_pure, writeStream, ends_bind, ends_get]
  refine (ends_forM_writeOne_refused hshut.sound).andThen ?_ ?_
  · rintro _ u ⟨⟨bytes, rfl⟩, haccepted⟩
    rw [ends_bind, ends_modify, ends_bind, ends_get]
    dsimp only
    split
    · next hlong => exact ⟨⟨hshut.closed, hshut.sound, hshut.deeds⟩, .inr hlong, .inl rfl⟩
    · next hshort =>
      refine ⟨⟨hshut.closed, hshut.sound, hshut.deeds⟩, ?_⟩
      rintro (⟨i, hi, x, hx⟩ | hlong)
      · exact haccepted i hi x (by rw [hdeed]; exact hx)
      · refine hshort (hlong.trans ?_)
        simp only [List.length_append]
        omega
  · rintro x u ⟨⟨bytes, rfl⟩, i, hi, hrefused⟩
    exact ⟨⟨hshut.closed, hshut.sound, hshut.deeds⟩, .inl ⟨i, hi, x, hrefused⟩, .inr ⟨_, hshut.deeds i hi, hrefused⟩⟩

theorem upon_rewrite (origin : Datum) (t : Track) :
    Upon (do makeRelative origin; writeStream) t fun _ u => u.length? = some u.data.length := by
  rw [Upon]
  refine (Upon.of_prop (x := makeRelative origin) trivial).seq fun _ u _ => ?_
  rw [writeStream, ends_bind, ends_get]
  refine (Upon.of_prop (x := u.stream.forM writeOne) trivial).seq fun _ v _ => ?_
  rw [ends_bind, ends_modify, ends_bind, ends_get]
  dsimp only
  split
  · trivial
  · rfl

end Shut

end Track

end Plainsong.Midi
