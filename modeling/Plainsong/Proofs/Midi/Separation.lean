import Plainsong.Proofs.Midi.Calls
import Plainsong.Proofs.Midi.Strokes
/- Closing a track that separates notes. The pass over the stream respaces the strokes of
   every key at once and moves nothing but ends of notes (`ends_foldlM_separate`), and it
   comes through wherever the strokes of each key can be respaced. Strokes at ticks that
   count from zero stay such strokes (`ends_foldlM_strokes`). -/
namespace Plainsong.Midi

open Strokes List

/-- Whether a deed is the beginning or the end of a note. -/
def Deed.isNote : Deed → Bool
  | noteOn .. => true
  | noteOff .. => true
  | _ => false

/-! ## Strokes as events -/

/-- The beginning or the end of a note. -/
structure Stroke where
  tick : Nat
  order : Nat
  begins : Bool
  channel : Fin 16
  pitch : Fin 128
  volume : Fin 128
  length : Datum
  remark : Datum
  deriving Inhabited

namespace Reader

/-- Whether a meaning is the beginning or the end of a note of this pitch on this channel. -/
def Sense.stroke? (channel pitch : Nat) : Sense → Option Bool
  | noteOn c p _ => if c = channel ∧ p = pitch then some true else none
  | noteOff c p _ => if c = channel ∧ p = pitch then some false else none
  | _ => none

/-- The beginnings and ends of notes of this pitch on this channel, in order. -/
def strokes (channel pitch : Nat) (l : Told) : List Bool := l.filterMap fun q => q.2.stroke? channel pitch

theorem length_encode_le {l : Timed} {width : Nat} (h : ∀ p ∈ l, p.1 < 128 ^ (width + 1) ∧ p.2.bytes.length = 3)
    (tick : Nat) : (encode tick l).length ≤ (width + 4) * l.length + 4 := by
  induction l generalizing tick with
  | nil => exact Nat.le_add_left 4 _
  | cons p l ih =>
    obtain ⟨t, m⟩ := p
    obtain ⟨hp, hl⟩ := forall_mem_cons.mp h
    obtain ⟨ht, hm⟩ : t < 128 ^ (width + 1) ∧ m.bytes.length = 3 := hp
    have hquantity : (VarLength.encode (t - tick)).length ≤ width + 1 :=
      (length_quantity_le_iff (t - tick) width).mpr (Nat.lt_of_le_of_lt (Nat.sub_le t tick) ht)
    have hrest := ih hl t
    rw [length_encode_cons, length_cons, Nat.mul_succ]
    omega

theorem ordered_of_pairwise {l : Timed} {tick : Nat} (hlow : ∀ p ∈ l, tick ≤ p.1)
    (hrising : l.Pairwise fun p q => p.1 ≤ q.1) : Ordered tick l := by
  induction l generalizing tick with
  | nil => trivial
  | cons p l ih =>
    obtain ⟨hhead, hrising⟩ := pairwise_cons.mp hrising
    exact ⟨hlow p (by simp), ih hhead hrising⟩

theorem strokes_fromOrigin (channel pitch origin : Nat) (l : Told) :
    strokes channel pitch (fromOrigin origin l) = strokes channel pitch l := by
  rw [strokes, strokes, fromOrigin, filterMap_map]
  rfl

end Reader

namespace Stroke

def event (x : Stroke) : Event where
  tick := .int x.tick
  order := x.order
  deed :=
    if x.begins then .noteOn (.int x.channel) (.int x.pitch) x.length (.int x.volume) x.remark
    else .noteOff (.int x.channel) (.int x.pitch) (.int x.volume) x.remark

def sense (x : Stroke) : Reader.Sense :=
  if x.begins then .noteOn x.channel x.pitch x.volume else .noteOff x.channel x.pitch x.volume

def message (x : Stroke) : Reader.Message :=
  .voice (if x.begins then 9 else 8) x.channel [UInt8.ofNat x.pitch, UInt8.ofNat x.volume]

/-- The key under which the notes that are open are kept. -/
def key (x : Stroke) : String := Track.noteKey (.int x.pitch) (.int x.channel)

/-- Where the stroke stands among those of its key. -/
def mark (x : Stroke) : Nat × Bool := (x.tick, x.begins)

/-- A stroke of a note of this pitch on this channel. -/
def Of (channel pitch : Nat) (x : Stroke) : Prop := (x.channel : Nat) = channel ∧ (x.pitch : Nat) = pitch

instance (channel pitch : Nat) (x : Stroke) : Decidable (x.Of channel pitch) := inferInstanceAs (Decidable (_ ∧ _))

/-- The ticks of the beginnings, or of the ends, of notes of this pitch on this channel. -/
def ticksOf (ss : List Stroke) (channel pitch : Nat) (begins : Bool) : Finset Nat :=
  ((ss.filter fun x => x.Of channel pitch ∧ x.begins = begins).map tick).toFinset

/-- Strokes of one key are of one note. -/
def KeysApart (ss : List Stroke) : Prop := ∀ x ∈ ss, ∀ y ∈ ss, x.key = y.key → x.Of y.channel y.pitch

/-- One stroke is taken for another. -/
def Doubles (x y : Stroke) : Prop :=
  x.tick = y.tick ∧ x.begins = y.begins ∧ x.channel = y.channel ∧ x.pitch = y.pitch

theorem Doubles.symm {x y : Stroke} (h : x.Doubles y) : y.Doubles x :=
  ⟨h.1.symm, h.2.1.symm, h.2.2.1.symm, h.2.2.2.symm⟩

theorem event_at (x : Stroke) : x.event.At x.tick := rfl

theorem rank_event (x : Stroke) : x.event.rank = if x.begins then 3 else 2 := by
  rw [Event.rank, event]
  cases x.begins <;> rfl

theorem heard_event (x : Stroke) : Track.Heard x.event (x.tick, x.sense) := by
  refine ⟨rfl, ?_⟩
  rw [event, sense]
  cases x.begins with
  | true => exact Track.voices_noteOn _ _ _ _ _
  | false => exact Track.voices_noteOff _ _ _ _

theorem spoken_event (x : Stroke) : Track.Spoken x.event (x.tick, x.message) := by
  refine ⟨rfl, ?_⟩
  rw [event, message]
  cases x.begins <;>
    exact Melody.says_channel [x.pitch, x.volume] (by decide) x.channel.isLt rfl (by simp) fun _ _ => rfl

theorem instant_event (x : Stroke) : x.event.instant = x.tick := rfl

theorem stroke?_sense (channel pitch : Nat) (x : Stroke) :
    x.sense.stroke? channel pitch = if x.Of channel pitch then some x.begins else none := by
  rw [sense]
  cases x.begins <;> rfl

theorem strokes_map_sense (channel pitch : Nat) (zs : List Stroke) :
    Reader.strokes channel pitch (zs.map fun z => (z.tick, z.sense)) = (zs.filter (·.Of channel pitch)).map (·.begins) := by
  rw [Reader.strokes, filterMap_map]
  induction zs with
  | nil => rfl
  | cons z zs ih =>
    by_cases h : z.Of channel pitch <;> simp [stroke?_sense, h] at ih ⊢ <;> exact ih

theorem same_event_iff (x y : Stroke) : x.event.same y.event = true ↔ x.Doubles y := by
  have htick : (x.tick : Int) = y.tick ↔ x.tick = y.tick := Int.ofNat_inj
  have hpitch : ((x.pitch : Nat) : Int) = (y.pitch : Nat) ↔ x.pitch = y.pitch := by
    rw [Int.ofNat_inj, Fin.val_inj]
  have hchannel : ((x.channel : Nat) : Int) = (y.channel : Nat) ↔ x.channel = y.channel := by
    rw [Int.ofNat_inj, Fin.val_inj]
  rw [Event.same, Doubles, event, event]
  cases hx : x.begins <;> cases hy : y.begins <;>
    simp [Deed.same, same_int, htick, hpitch, hchannel] <;> tauto

theorem upTo_event_iff (x y : Stroke) : x.event.upTo y.event = true ↔
    x.tick < y.tick ∨ x.tick = y.tick ∧ (x.event.rank < y.event.rank ∨ x.event.rank = y.event.rank ∧ x.order ≤ y.order) := by
  rw [Event.upTo, decide_eq_true_eq, (Event.Whole.of_int x.event_at).2, (Event.Whole.of_int y.event_at).2, Nat.cast_lt,
    Nat.cast_inj]
  rfl

theorem not_earlier_mark {x y : Stroke} (h : x.event.upTo y.event = true) : ¬ Strokes.Earlier y.mark x.mark := by
  rw [upTo_event_iff, rank_event, rank_event] at h
  rintro (hlt | ⟨heq, hy, hx⟩)
  · simp only [mark] at hlt
    omega
  · simp only [mark] at heq hy hx
    rw [hx, hy] at h
    simp at h
    omega

end Stroke

/-- The key of the note that a deed begins or ends, and whether it begins it. -/
def Deed.stroke? : Deed → Option (String × Bool)
  | noteOn channel pitch .. => some (Track.noteKey pitch channel, true)
  | noteOff channel pitch .. => some (Track.noteKey pitch channel, false)
  | _ => none

theorem Deed.stroke?_of_silent {d : Deed} (h : d.isNote = false) : d.stroke? = none := by
  cases d <;> first | rfl | cases h

theorem Deed.rank_of_stroke {d : Deed} {key : String} {begins : Bool} (h : d.stroke? = some (key, begins)) :
    d.rank = if begins then 3 else 2 := by
  cases d <;> cases h <;> rfl

namespace Event

/-- Where an event stands among the strokes of a key, if it is one of them. -/
def mark? (key : String) (e : Event) : Option (Int × Bool) :=
  e.deed.stroke?.bind fun s => if s.1 = key then some (e.instant, s.2) else none

/-- The strokes of a key among events. -/
def marks (key : String) (es : List Event) : Word Int := es.filterMap (mark? key)

/-- An event without its tick if it is the end of a note. -/
def timeless (e : Event) : Event :=
  match e.deed with
  | .noteOff .. => { e with tick := .none }
  | _ => e

section Mark

variable {e : Event} {key : String} {begins : Bool}

theorem mark?_of_stroke (h : e.deed.stroke? = some (key, begins)) : e.mark? key = some (e.instant, begins) := by
  simp [mark?, h]

theorem mark?_of_ne (h : e.deed.stroke? = some (key, begins)) {other : String} (hne : other ≠ key) :
    e.mark? other = none := by
  simp [mark?, h, Ne.symm hne]

theorem mark?_of_silent (h : e.deed.stroke? = none) (key : String) : e.mark? key = none := by
  simp [mark?, h]

theorem mark?_eq_some {p : Int × Bool} (h : e.mark? key = some p) :
    p.1 = e.instant ∧ e.deed.stroke? = some (key, p.2) := by
  obtain ⟨s, hs, hp⟩ := Option.bind_eq_some_iff.mp h
  obtain ⟨hkey, hp⟩ := Option.ite_none_right_eq_some.mp hp
  obtain rfl := Option.some.inj hp
  exact ⟨rfl, hkey ▸ hs⟩

theorem marks_cons (key : String) (e : Event) (es : List Event) :
    marks key (e :: es) = (e.mark? key).toList ++ marks key es := by
  rw [marks, filterMap_cons]
  cases e.mark? key <;> rfl

end Mark

theorem not_earlier_of_upTo {a b : Event} {key : String} {p q : Int × Bool} (h : a.upTo b = true)
    (ha : a.mark? key = some p) (hb : b.mark? key = some q) : ¬ Earlier q p := by
  obtain ⟨hp, hpstroke⟩ := mark?_eq_some ha
  obtain ⟨hq, hqstroke⟩ := mark?_eq_some hb
  rw [upTo, decide_eq_true_eq, ← hp, ← hq, rank, rank, Deed.rank_of_stroke hpstroke, Deed.rank_of_stroke hqstroke] at h
  rintro (hlt | ⟨heq, hfalse, htrue⟩)
  · omega
  · rw [hfalse, htrue] at h
    simp at h
    omega

theorem inOrder_marks {es : List Event} (h : es.Pairwise fun a b => a.upTo b = true) (key : String) :
    InOrder (marks key es) := by
  rw [InOrder, marks, pairwise_filterMap]
  exact h.imp fun hab p hp q hq => not_earlier_of_upTo hab hp hq

theorem respace_marks {e e' : Event} {key : String} {begins : Bool} (he : e.deed.stroke? = some (key, begins))
    (he' : e'.deed.stroke? = some (key, begins)) {opened : String → List Int} {ticks : List Int}
    (hself : ∀ w, respace (opened key) ((e.instant, begins) :: w) = (respace ticks w).map ((e'.instant, begins) :: ·))
    (other : String) (w : Word Int) :
    respace (opened other) ((e.mark? other).toList ++ w) =
      (respace (Function.update opened key ticks other) w).map ((e'.mark? other).toList ++ ·) := by
  by_cases hne : other = key
  · subst hne
    rw [Function.update_self, mark?_of_stroke he, mark?_of_stroke he']
    exact hself w
  · rw [Function.update_of_ne hne, mark?_of_ne he hne, mark?_of_ne he' hne]
    simp

end Event

theorem Stroke.stroke?_event (x : Stroke) : x.event.deed.stroke? = some (x.key, x.begins) := by
  rw [Stroke.event]
  cases x.begins <;> rfl

namespace Track

/-! ## One of each double -/

theorem pairwise_foldl_keep (t : Track) (ids : List Nat) {kept : List Nat}
    (h : kept.Pairwise fun i j => (t.event j).same (t.event i) = false) :
    (ids.foldl t.keep kept).Pairwise fun i j => (t.event j).same (t.event i) = false := by
  induction ids generalizing kept with
  | nil => exact h
  | cons i ids ih =>
    refine ih ?_
    rw [keep]
    split
    · exact h
    · next hnone =>
      refine pairwise_cons.mpr ⟨fun j hj => ?_, h⟩
      simp only [any_eq_true, not_exists, not_and] at hnone
      simpa using hnone j hj

theorem distinct_pairwise (t : Track) (ids : List Nat) :
    (t.distinct ids).Pairwise fun i j => (t.event i).same (t.event j) = false := by
  have hd : t.distinct ids = (ids.foldl t.keep []).reverse := rfl
  rw [hd, pairwise_reverse]
  exact pairwise_foldl_keep t ids .nil

theorem subset_foldl_keep (t : Track) (ids kept : List Nat) : kept ⊆ ids.foldl t.keep kept := by
  induction ids generalizing kept with
  | nil => exact fun _ h => h
  | cons i ids ih =>
    refine List.Subset.trans ?_ (ih (t.keep kept i))
    rw [keep]
    split
    · exact fun _ h => h
    · exact subset_cons_self i kept

theorem exists_distinct (t : Track) {ids : List Nat} {i : Nat} (hi : i ∈ ids) :
    ∃ j ∈ t.distinct ids, j = i ∨ (t.event j).same (t.event i) = true := by
  have hfold : ∀ (ids kept : List Nat), i ∈ ids →
      ∃ j ∈ ids.foldl t.keep kept, j = i ∨ (t.event j).same (t.event i) = true := by
    intro ids
    induction ids with
    | nil => exact fun _ h => absurd h (by simp)
    | cons k ids ih =>
      intro kept hmem
      rcases mem_cons.mp hmem with rfl | hmem
      · obtain ⟨j, hj, hsame⟩ : ∃ j ∈ t.keep kept i, j = i ∨ (t.event j).same (t.event i) = true := by
          rw [keep]
          split
          · next hany =>
            obtain ⟨j, hj, hsame⟩ := any_eq_true.mp hany
            exact ⟨j, hj, .inr hsame⟩
          · exact ⟨i, by simp, .inl rfl⟩
        exact ⟨j, subset_foldl_keep t ids _ hj, hsame⟩
      · exact ih (t.keep kept k) hmem
  obtain ⟨j, hj, hsame⟩ := hfold ids [] hi
  exact ⟨j, mem_reverse.mpr hj, hsame⟩

variable {openNotes : OpenNotes} {t t' : Track}

theorem removeDuplicates_whole (hsound : t.Sound t.added) :
    Gives removeDuplicates t ⟨⟩ { t with added := t.ordered (t.distinct t.added) } :=
  removeDuplicates_of_sorted hsound (sorted_whole fun i hi => hsound i ((distinct_sublist t t.added).subset hi))

/-- The table of open notes holds the beginnings still open of each key. -/
def Holds {T : Type} (tick : T → Datum) (openNotes : OpenNotes) (opened : String → List T) : Prop :=
  ∀ key, (openNotes.find? key).getD [] = (opened key).map tick

theorem Holds.put {T : Type} {tick : T → Datum} {opened : String → List T}
    (h : Holds tick openNotes opened) (key : String) (ticks : List T) :
    Holds tick (openNotes.put key (ticks.map tick)) (Function.update opened key ticks) := by
  intro k
  by_cases hk : key = k
  · subst hk
    rw [Table.find?_put_self, Function.update_self]
    rfl
  · rw [Table.find?_put_of_ne _ _ hk, Function.update_of_ne (Ne.symm hk)]
    exact h k

/-! ## The pass over the stream -/

/-- Nothing but ends of notes is moved, and what stood at whole ticks still does. -/
structure Moves (t t' : Track) : Prop where
  frame : ∃ events : Array Event, events.size = t.events.size ∧ t' = { t with events }
  timeless : ∀ i, (t'.event i).timeless = (t.event i).timeless
  whole : ∀ i, (t.event i).Whole → (t'.event i).Whole

theorem Moves.refl (t : Track) : Moves t t := ⟨⟨t.events, rfl, rfl⟩, fun _ => rfl, fun _ h => h⟩

theorem Moves.trans {t'' : Track} (h : Moves t t') (h' : Moves t' t'') : Moves t t'' := by
  obtain ⟨events, hsize, rfl⟩ := h.frame
  obtain ⟨events', hsize', rfl⟩ := h'.frame
  exact ⟨⟨events', hsize'.trans hsize, rfl⟩, fun i => (h'.timeless i).trans (h.timeless i),
    fun i hi => h'.whole i (h.whole i hi)⟩

theorem Moves.event_eq (h : Moves t t') (i : Nat) : t'.event i = { t.event i with tick := (t'.event i).tick } := by
  have htick : ∀ (e : Event) (tick : Datum), ({ e.timeless with tick } : Event) = { e with tick } := by
    intro e tick
    rw [Event.timeless]
    split <;> rfl
  rw [← htick (t.event i), ← h.timeless i, htick]

theorem Moves.size_eq (h : Moves t t') : t'.events.size = t.events.size := by
  obtain ⟨events, hsize, rfl⟩ := h.frame
  exact hsize

theorem moves_setTick {i : Nat} {channel pitch volume remark : Datum} (hi : i < t.events.size)
    (hdeed : (t.event i).deed = .noteOff channel pitch volume remark) (tick : Int) : Moves t (t.setTick i (.int tick)) := by
  refine ⟨⟨_, by simp, rfl⟩, fun j => ?_, fun j hj => ?_⟩
  · by_cases hij : i = j
    · subst hij
      rw [event_setTick_self hi, Event.timeless, Event.timeless, hdeed]
    · rw [event_setTick_of_ne hij]
  · by_cases hij : i = j
    · subst hij
      rw [event_setTick_self hi]
      rfl
    · rwa [event_setTick_of_ne hij]

theorem ends_separateOne_marks {i : Nat} {opened : String → List Int}
    (hi : i < t.events.size) (hwhole : (t.event i).Whole) (h : Holds Datum.int openNotes opened) :
    Ends (separateOne openNotes i) t
      (fun openNotes' t' => ∃ opened', Holds Datum.int openNotes' opened' ∧ Moves t t' ∧
        (∀ j, i ≠ j → t'.event j = t.event j) ∧
        ∀ key w, respace (opened key) (((t.event i).mark? key).toList ++ w) =
          (respace (opened' key) w).map (((t'.event i).mark? key).toList ++ ·))
      fun _ _ => ∃ key, ∀ w, respace (opened key) (((t.event i).mark? key).toList ++ w) = none := by
  rw [separateOne, ends_bind, ends_get]
  cases hdeed : (t.event i).deed with
  | noteOn channel pitch duration volume remark =>
    have hstroke : (t.event i).deed.stroke? = some (noteKey pitch channel, true) := by rw [hdeed]; rfl
    have hput := h.put (noteKey pitch channel) ((t.event i).instant :: opened (noteKey pitch channel))
    rw [map_cons, ← hwhole, ← h (noteKey pitch channel)] at hput
    simp only [hdeed]
    exact ⟨_, hput, .refl t, fun _ _ => rfl, Event.respace_marks hstroke hstroke fun w => rfl⟩
  | noteOff channel pitch volume remark =>
    have hstroke : (t.event i).deed.stroke? = some (noteKey pitch channel, false) := by rw [hdeed]; rfl
    have hfound := h (noteKey pitch channel)
    simp only [hdeed]
    cases hopened : opened (noteKey pitch channel) with
    | nil =>
      have hnone : ∃ key, ∀ w, respace (opened key) (((t.event i).mark? key).toList ++ w) = none :=
        ⟨noteKey pitch channel, fun w => by rw [Event.mark?_of_stroke hstroke, hopened]; rfl⟩
      rw [hopened] at hfound
      cases hfind : openNotes.find? (noteKey pitch channel) with
      | none => exact hnone
      | some l =>
        obtain rfl : l = [] := by simpa [hfind] using hfound
        exact hnone
    | cons tick older =>
      rw [hopened] at hfound
      obtain ⟨l, hl⟩ : ∃ l, openNotes.find? (noteKey pitch channel) = some l := by
        cases hfind : openNotes.find? (noteKey pitch channel) with
        | none => simp [hfind] at hfound
        | some l => exact ⟨l, rfl⟩
      rw [hl] at hfound ⊢
      cases older with
      | nil =>
        obtain rfl : l = [.int tick] := hfound
        exact ⟨_, h.put (noteKey pitch channel) [], .refl t, fun _ _ => rfl,
          Event.respace_marks hstroke hstroke fun w => by rw [hopened]; rfl⟩
      | cons next older =>
        obtain rfl : l = .int tick :: .int next :: older.map Datum.int := hfound
        refine ⟨_, h.put (noteKey pitch channel) (next :: older), moves_setTick hi hdeed tick,
          fun j hj => event_setTick_of_ne hj _, ?_⟩
        have hmoved : ({ t.event i with tick := .int tick } : Event).deed.stroke? = some (noteKey pitch channel, false) :=
          hstroke
        rw [event_setTick_self hi]
        exact Event.respace_marks hstroke hmoved fun w => by rw [hopened]; rfl
  | _ =>
    have hstroke : (t.event i).deed.stroke? = none := by rw [hdeed]; rfl
    simp only [hdeed]
    exact ⟨opened, h, .refl t, fun _ _ => rfl, fun key w => by rw [Event.mark?_of_silent hstroke]; simp⟩

theorem ends_foldlM_separate {ids : List Nat} {opened : String → List Int}
    (hnodup : ids.Nodup) (hsize : ∀ i ∈ ids, i < t.events.size) (hsound : t.Sound ids)
    (h : Holds Datum.int openNotes opened) :
    Ends (ids.foldlM separateOne openNotes) t
      (fun _ t' => Moves t t' ∧ (∀ j, j ∉ ids → t'.event j = t.event j) ∧
        ∀ key, respace (opened key) (Event.marks key (ids.map t.event)) = some (Event.marks key (ids.map t'.event)))
      fun _ _ => ∃ key, respace (opened key) (Event.marks key (ids.map t.event)) = none := by
  induction ids generalizing t openNotes opened with
  | nil => exact ⟨.refl t, fun _ _ => rfl, fun key => rfl⟩
  | cons i ids ih =>
    rw [nodup_cons] at hnodup
    rw [foldlM_cons]
    refine (ends_separateOne_marks (hsize i (by simp)) (hsound i (by simp)) h).andThen ?_ ?_
    · rintro openNotes' t' ⟨opened', hholds, hmoves, hother, hrespace⟩
      have hlater : ids.map t'.event = ids.map t.event := by
        refine map_congr_left fun j hj => hother j ?_
        rintro rfl
        exact hnodup.1 hj
      refine (ih hnodup.2 (fun j hj => ?_) (fun j hj => hmoves.whole j (hsound j (by simp [hj]))) hholds).mono ?_ ?_
      · rw [hmoves.size_eq]
        exact hsize j (by simp [hj])
      · rintro _ t'' ⟨hmoves', hrest, hmarks⟩
        refine ⟨hmoves.trans hmoves', fun j hj => ?_, fun key => ?_⟩
        · rw [mem_cons, not_or] at hj
          exact (hrest j hj.2).trans (hother j (Ne.symm hj.1))
        · rw [map_cons, map_cons, Event.marks_cons, Event.marks_cons, hrespace, ← hlater, hmarks key,
            hrest i hnodup.1]
          rfl
      · rintro _ _ ⟨key, hnone⟩
        refine ⟨key, ?_⟩
        rw [map_cons, Event.marks_cons, hrespace, ← hlater, hnone]
        rfl
    · rintro _ _ ⟨key, hnone⟩
      exact ⟨key, by rw [map_cons, Event.marks_cons, hnone]⟩

/-! ## Strokes that are passed -/

/-- The marks of the strokes of one key. -/
def marksOf (key : String) (xs : List Stroke) : Word Nat := (xs.filter (·.key = key)).map Stroke.mark

theorem marks_map_event (key : String) (xs : List Stroke) :
    Event.marks key (xs.map Stroke.event) = (marksOf key xs).map (Prod.map (Nat.cast : Nat → Int) id) := by
  induction xs with
  | nil => rfl
  | cons x xs ih =>
    rw [map_cons, Event.marks_cons, ih]
    by_cases hkey : x.key = key
    · simp [Event.mark?_of_stroke (hkey ▸ x.stroke?_event), marksOf, hkey, Stroke.mark, x.instant_event]
    · simp [Event.mark?_of_ne x.stroke?_event (Ne.symm hkey), marksOf, hkey]

/-- The strokes of each key are respaced, and nothing but ticks is changed. -/
structure Respaced (xs ys : List Stroke) : Prop where
  moved : List.Forall₂ (fun x y => ∃ tick, y = { x with tick }) xs ys
  marks : ∀ key, respace [] (marksOf key xs) = some (marksOf key ys)

theorem Respaced.tick_mem {xs ys : List Stroke} (h : Respaced xs ys) {y : Stroke} (hy : y ∈ ys) : ∃ x ∈ xs, x.tick = y.tick := by
  have hmark : y.mark ∈ marksOf y.key ys := mem_map_of_mem (mem_filter.mpr ⟨hy, by simp⟩)
  rcases mem_of_respace (h.marks y.key) _ hmark with hnil | hmem
  · cases hnil
  · obtain ⟨_, hp, htick⟩ := mem_map.mp hmem
    obtain ⟨x, hx, rfl⟩ := mem_map.mp hp
    exact ⟨x, mem_of_mem_filter hx, htick⟩

section Strokes

variable {t : Track} {ids : List Nat} {xs : List Stroke}

theorem exists_moved {u : Track} (hxs : ids.map t.event = xs.map Stroke.event)
    (h : ∀ i ∈ ids, ∀ x ∈ xs, t.event i = x.event → ∃ tick, u.event i = Stroke.event { x with tick }) :
    ∃ ys, ids.map u.event = ys.map Stroke.event ∧ List.Forall₂ (fun x y => ∃ tick, y = { x with tick }) xs ys := by
  induction ids generalizing xs with
  | nil =>
    obtain rfl : xs = [] := by simpa using hxs.symm
    exact ⟨[], rfl, .nil⟩
  | cons i ids ih =>
    cases xs with
    | nil => cases hxs
    | cons x xs =>
      obtain ⟨hx, hxs⟩ : t.event i = x.event ∧ ids.map t.event = xs.map Stroke.event := by simpa using hxs
      obtain ⟨tick, hmoved⟩ := h i (by simp) x (by simp) hx
      obtain ⟨ys, hys, hall⟩ := ih hxs fun j hj y hy => h j (by simp [hj]) y (by simp [hy])
      exact ⟨{ x with tick } :: ys, by rw [map_cons, hmoved, hys]; rfl, .cons ⟨tick, rfl⟩ hall⟩

theorem ends_foldlM_strokes (hnodup : ids.Nodup) (hsize : ∀ i ∈ ids, i < t.events.size)
    (hxs : ids.map t.event = xs.map Stroke.event) :
    Ends (ids.foldlM separateOne ([] : OpenNotes)) t
      (fun _ u => ∃ ys, Respaced xs ys ∧ ids.map u.event = ys.map Stroke.event ∧
        ∃ events, events.size = t.events.size ∧ u = { t with events })
      fun _ _ => ∃ x ∈ xs, respace [] (marksOf x.key xs) = none := by
  have hstroke : ∀ i ∈ ids, ∃ x ∈ xs, x.event = t.event i := fun i hi =>
    mem_map.mp (hxs ▸ mem_map_of_mem hi)
  have hsound : t.Sound ids := by
    intro i hi
    obtain ⟨x, -, hx⟩ := hstroke i hi
    exact hx ▸ (Event.Whole.of_int x.event_at).1
  have hholds : Holds Datum.int ([] : OpenNotes) fun _ => [] := fun _ => rfl
  have hmarks : ∀ key, respace [] (Event.marks key (ids.map t.event)) =
      (respace [] (marksOf key xs)).map (List.map (Prod.map Nat.cast id)) := by
    intro key
    rw [hxs, marks_map_event]
    exact respace_map Nat.cast [] (marksOf key xs)
  refine (ends_foldlM_separate hnodup hsize hsound hholds).mono ?_ ?_
  · rintro _ u ⟨hmoves, -, hrespace⟩
    have hmoved : ∀ i ∈ ids, ∀ x ∈ xs, t.event i = x.event → ∃ tick, u.event i = Stroke.event { x with tick } := by
      intro i hi x _ hx
      have heq := hmoves.event_eq i
      rw [hx] at heq
      have hwhole := hmoves.whole i (hsound i hi)
      have hsame : (u.event i).deed.stroke? = some (x.key, x.begins) := by rw [heq]; exact x.stroke?_event
      -- its tick is that of a stroke, so it counts from zero
      have hmark : ((u.event i).instant, x.begins) ∈ Event.marks x.key (ids.map u.event) :=
        mem_filterMap.mpr ⟨_, mem_map_of_mem hi, Event.mark?_of_stroke hsame⟩
      have hrespaced := (hmarks x.key).symm.trans (hrespace x.key)
      obtain ⟨w, -, hw⟩ := Option.map_eq_some_iff.mp hrespaced
      rw [← hw] at hmark
      obtain ⟨p, -, hp⟩ := mem_map.mp hmark
      have htick : (p.1 : Int) = (u.event i).instant := congrArg Prod.fst hp
      refine ⟨p.1, ?_⟩
      rw [heq, hwhole, ← htick]
      rfl
    obtain ⟨ys, hys, hall⟩ := exists_moved hxs hmoved
    refine ⟨ys, ⟨hall, fun key => ?_⟩, hys, hmoves.frame⟩
    have hkey := (hmarks key).symm.trans (hrespace key)
    rw [hys, marks_map_event] at hkey
    obtain ⟨w, hw, heq⟩ := Option.map_eq_some_iff.mp hkey
    rw [hw, map_injective_iff.mpr (Nat.cast_injective.prodMap Function.injective_id) heq]
  · rintro _ _ ⟨key, hnone⟩
    have hnone := Option.map_eq_none_iff.mp ((hmarks key).symm.trans hnone)
    have hne : xs.filter (·.key = key) ≠ [] := by
      intro hnil
      rw [marksOf, hnil] at hnone
      cases hnone
    obtain ⟨x, hx⟩ := exists_mem_of_ne_nil _ hne
    obtain ⟨hx, hkey⟩ := mem_filter.mp hx
    exact ⟨x, hx, by rwa [of_decide_eq_true hkey]⟩

end Strokes

/-! ## Closing -/

section Closing

variable {t : Track} {E : Fault → Track → Prop}

/-- The events that a track keeps. -/
def kept (t : Track) : List Nat := if t.dropDuplicates then t.ordered (t.distinct t.added) else t.added

/-- The track with what it keeps, in order. -/
def laid (t : Track) : Track := { t with closed := true, added := t.kept, stream := t.ordered t.kept }

theorem kept_subperm (t : Track) : t.kept.Subperm t.added := by
  rw [kept]
  split
  · exact (t.ordered_perm _).subperm.trans (distinct_sublist t t.added).subperm
  · exact .refl _

theorem subperm_laid (t : Track) : t.laid.stream.Subperm t.added := (t.ordered_perm _).subperm.trans t.kept_subperm

theorem nodup_laid (h : t.added.Nodup) : t.laid.stream.Nodup := by
  obtain ⟨l, hperm, hsub⟩ := t.subperm_laid
  exact hperm.nodup_iff.mp (h.sublist hsub)

theorem Sound.laid (h : t.Sound t.added) : t.laid.Sound t.laid.stream := fun i hi => h i (t.subperm_laid.subset hi)

theorem ends_close {Q : Unit → Track → Prop} (hopen : t.closed = false) (hsound : t.Sound t.added)
    (h : Ends (if t.separateNotes then separate else pure ()) t.laid Q E) : Ends close t Q E := by
  have hsort : ∀ u : Track, u.Sound u.added → Ends (if u.separateNotes then separate else pure ())
        { u with stream := u.ordered u.added } Q E →
      Ends (do
        modify fun t : Track => { t with stream := t.added }
        sortStream
        if (← get).separateNotes then separate) u Q E := by
    intro u hu hrest
    rw [ends_bind, ends_modify, ends_bind, (sortStream_whole (t := { u with stream := u.added }) hu).ends, ends_bind, ends_get]
    exact hrest
  rw [close, ends_bind, ends_get, if_neg (by simp [hopen]), ends_bind, ends_modify, ends_bind, ends_get]
  split
  next hdrop =>
    rw [ends_bind, (removeDuplicates_whole (t := { t with closed := true }) hsound).ends]
    refine hsort _ (fun i hi => hsound i ?_) ?_
    · exact (distinct_sublist t t.added).subset ((t.ordered_perm _).mem_iff.mp hi)
    · rw [laid, kept, if_pos (show t.dropDuplicates = true from hdrop)] at h
      exact h
  next hkeep =>
    refine hsort _ hsound ?_
    rw [laid, kept, if_neg (show ¬ t.dropDuplicates = true from hkeep)] at h
    exact h

theorem ends_separate {Q : Track → Prop} (h : Ends (t.stream.foldlM separateOne ([] : OpenNotes)) t
      (fun _ u => u.Sound u.stream ∧ Q { u with stream := u.ordered u.stream }) E) :
    Ends separate t (fun _ => Q) E := by
  rw [separate, ends_bind, ends_get]
  refine h.andThen ?_ fun _ _ he => he
  rintro _ u ⟨hu, hQ⟩
  exact (sortStream_whole hu).ends.mpr hQ

end Closing

end Track

end Plainsong.Midi
