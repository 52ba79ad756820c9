import Plainsong.Proofs.Midi.RoundTrip
import Plainsong.Proofs.Midi.Separation
/- Notes in a file that drops doubles and separates notes. Closing a track of notes keeps
   one of each group of doubles, puts the strokes in order, and respaces those of each
   key. The main statement is that such a file is written with the strokes of every pitch
   on every channel alternating exactly if in every track their beginnings and ends balance
   (`File.notes_alternate_iff`); the ends of two notes may be one, and then they do not
   (`File.note_left_sounding`). -/
namespace Plainsong.Midi

open List

namespace Track

/-! ## Strokes kept -/

/-- Strokes in order, one of each group of doubles of others. -/
structure Kept (ss xs : List Stroke) : Prop where
  short : xs.length ≤ ss.length
  ordered : xs.Pairwise fun x y => x.event.upTo y.event = true
  apart : xs.Pairwise fun x y => ¬ x.Doubles y
  covers : ∀ z ∈ ss, ∃ x ∈ xs, x.Doubles z
  within : ∀ x ∈ xs, ∃ z ∈ ss, z.Doubles x

variable {E : Fault → Prop} {ss xs ys zs : List Stroke}

theorem event_fresh (drop separate : Bool) {i : Nat} (hi : i ∈ List.range ss.length) :
    (fresh drop separate (ss.map Stroke.event)).event i = (ss.getD i default).event := by
  have hi : i < ss.length := mem_range.mp hi
  simp [fresh, event, hi]

theorem kept_laid (ss : List Stroke) {t : Track} (ht : t = fresh true true (ss.map Stroke.event)) :
    ∃ xs, t.laid.stream.map t.event = xs.map Stroke.event ∧ Kept ss xs := by
  have hstream : t.laid.stream = t.ordered (t.distinct t.added) := by
    rw [laid, kept, if_pos (by rw [ht]; rfl), ordered_ordered]
  rw [hstream]
  have hadded : t.added = List.range ss.length := by rw [ht]; simp [fresh]
  have hsub : ∀ i ∈ t.distinct t.added, i ∈ List.range ss.length := fun i hi =>
    hadded ▸ (distinct_sublist t t.added).subset hi
  have hperm := t.ordered_perm (t.distinct t.added)
  have hevent : ∀ i ∈ List.range ss.length, t.event i = (ss.getD i default).event := fun i hi => ht ▸ event_fresh true true hi
  have hmem : ∀ i ∈ List.range ss.length, ss.getD i default ∈ ss := fun i hi => by
    rw [getD_eq_getElem _ _ (mem_range.mp hi)]
    exact getElem_mem _
  refine ⟨(t.ordered (t.distinct t.added)).map fun i => ss.getD i default, ?_, ?_, ?_, ?_, ?_, ?_⟩
  · rw [map_map]
    exact map_congr_left fun i hi => hevent i (hsub i (hperm.mem_iff.mp hi))
  · have hlength := (distinct_sublist t t.added).length_le
    rw [length_map, hperm.length_eq]
    rwa [hadded, length_range, ← hadded] at hlength
  · rw [pairwise_map]
    refine (t.pairwise_ordered (t.distinct t.added)).imp_of_mem fun {i j} hi hj h => ?_
    rw [← hevent i (hsub i (hperm.mem_iff.mp hi)), ← hevent j (hsub j (hperm.mem_iff.mp hj))]
    exact h
  · rw [pairwise_map, hperm.pairwise_iff fun h hd => h hd.symm]
    refine (distinct_pairwise t t.added).imp_of_mem fun {i j} hi hj h hd => ?_
    rw [hevent i (hsub i hi), hevent j (hsub j hj), (Stroke.same_event_iff _ _).mpr hd] at h
    cases h
  · intro z hz
    obtain ⟨i, hi, rfl⟩ := mem_iff_getElem.mp hz
    have hrange : i ∈ List.range ss.length := mem_range.mpr hi
    obtain ⟨j, hj, hsame⟩ := exists_distinct t (hadded ▸ hrange)
    refine ⟨ss.getD j default, mem_map.mpr ⟨j, hperm.mem_iff.mpr hj, rfl⟩, ?_⟩
    have hself : ss.getD i default = ss[i] := getD_eq_getElem _ _ hi
    rcases hsame with rfl | hsame
    · rw [hself]
      exact ⟨rfl, rfl, rfl, rfl⟩
    · rwa [hevent i hrange, hevent j (hsub j hj), Stroke.same_event_iff, hself] at hsame
  · intro x hx
    obtain ⟨i, hi, rfl⟩ := mem_map.mp hx
    exact ⟨_, hmem i (hsub i (hperm.mem_iff.mp hi)), rfl, rfl, rfl, rfl⟩

/-! ## Balance of a track -/

namespace Kept

variable {ss xs : List Stroke}

theorem of_key (h : Kept ss xs) (hkeys : Stroke.KeysApart ss) {x y : Stroke}
    (hx : x ∈ xs) (hy : y ∈ xs) (hkey : x.key = y.key) : x.Of y.channel y.pitch := by
  obtain ⟨x', hx', -, -, hxc, hxp⟩ := h.within x hx
  obtain ⟨y', hy', -, -, hyc, hyp⟩ := h.within y hy
  have hof := hkeys x' hx' y' hy' (by rw [Stroke.key, Stroke.key, hxc, hxp, hyc, hyp]; exact hkey)
  rwa [Stroke.Of, hxc, hxp, hyc, hyp] at hof

theorem pairwise_marksOf (h : Kept ss xs) (hkeys : Stroke.KeysApart ss)
    (key : String) : (marksOf key xs).Pairwise Strokes.Earlier := by
  rw [marksOf, pairwise_map]
  refine ((h.ordered.and h.apart).filter _).imp_of_mem fun {x y} hx hy hpair => ?_
  obtain ⟨hordered, hapart⟩ := hpair
  obtain ⟨hx, hxkey⟩ : x ∈ xs ∧ x.key = key := by simpa using mem_filter.mp hx
  obtain ⟨hy, hykey⟩ : y ∈ xs ∧ y.key = key := by simpa using mem_filter.mp hy
  obtain ⟨hchannel, hpitch⟩ := h.of_key hkeys hx hy (hxkey.trans hykey.symm)
  by_contra hnot
  obtain ⟨htick, hbegins⟩ := Prod.mk.injEq .. ▸ Strokes.eq_of_not_earlier hnot (Stroke.not_earlier_mark hordered)
  exact hapart ⟨htick, hbegins, Fin.ext hchannel, Fin.ext hpitch⟩

theorem ticks_marksOf (h : Kept ss xs) (hkeys : Stroke.KeysApart ss)
    {x : Stroke} (hx : x ∈ xs) (begins : Bool) :
    Strokes.ticks begins (marksOf x.key xs) = Stroke.ticksOf ss x.channel x.pitch begins := by
  ext n
  have hmarks : n ∈ Strokes.ticks begins (marksOf x.key xs) ↔
      ∃ y ∈ xs, y.key = x.key ∧ y.tick = n ∧ y.begins = begins := by
    cases begins <;> simp [Strokes.ticks, marksOf, Stroke.mark, and_assoc]
  have hgiven : n ∈ Stroke.ticksOf ss x.channel x.pitch begins ↔
      ∃ z ∈ ss, z.Of x.channel x.pitch ∧ z.begins = begins ∧ z.tick = n := by
    simp [Stroke.ticksOf, and_assoc]
  rw [hmarks, hgiven]
  constructor
  · rintro ⟨y, hy, hkey, rfl, rfl⟩
    obtain ⟨z, hz, htick, hbegins, hchannel, hpitch⟩ := h.within y hy
    have hof := h.of_key hkeys hy hx hkey
    rw [Stroke.Of, ← hchannel, ← hpitch] at hof
    exact ⟨z, hz, hof, hbegins, htick⟩
  · rintro ⟨z, hz, hof, rfl, rfl⟩
    obtain ⟨y, hy, htick, hbegins, hchannel, hpitch⟩ := h.covers z hz
    refine ⟨y, hy, ?_, htick, hbegins⟩
    rw [Stroke.key, Stroke.key, hchannel, hpitch, hof.1, hof.2]

theorem balanced_iff_depth (h : Kept ss xs) (hkeys : Stroke.KeysApart ss)
    {x : Stroke} (hx : x ∈ xs) :
    Strokes.Balanced (Stroke.ticksOf ss x.channel x.pitch true) (Stroke.ticksOf ss x.channel x.pitch false) ↔
      Strokes.depth 0 (marksOf x.key xs) = some 0 := by
  rw [Strokes.depth_eq_zero_iff (h.pairwise_marksOf hkeys x.key), h.ticks_marksOf hkeys hx, h.ticks_marksOf hkeys hx]

end Kept

theorem alternates_iff_balanced (hkept : Kept ss xs) (hkeys : Stroke.KeysApart ss)
    (hrespaced : Respaced xs ys) (hperm : zs.Perm ys)
    (hsorted : zs.Pairwise fun x y => x.event.upTo y.event = true) (channel pitch : Nat) :
    Alternates false (Reader.strokes channel pitch (zs.map fun z => (z.tick, z.sense))) ↔
      Strokes.Balanced (Stroke.ticksOf ss channel pitch true) (Stroke.ticksOf ss channel pitch false) := by
  -- a stroke that is respaced is of the note and the key of one that was kept
  have hsource : ∀ z ∈ zs, ∃ x ∈ xs, z.key = x.key ∧ (∀ c p, z.Of c p ↔ x.Of c p) := by
    intro z hz
    obtain ⟨x, hx, tick, rfl⟩ := exists_of_forall₂ hrespaced.moved.flip (hperm.mem_iff.mp hz)
    exact ⟨x, hx, rfl, fun _ _ => Iff.rfl⟩
  rw [Stroke.strokes_map_sense]
  by_cases hex : ∃ x ∈ xs, x.Of channel pitch
  · obtain ⟨x, hx, rfl, rfl⟩ := hex
    have hfilter : zs.filter (·.Of x.channel x.pitch) = zs.filter (·.key = x.key) := by
      refine filter_congr fun z hz => decide_eq_decide.mpr ?_
      obtain ⟨y, hy, hkey, hof⟩ := hsource z hz
      rw [hof, hkey]
      exact ⟨fun h => by rw [Stroke.key, Stroke.key, h.1, h.2], hkept.of_key hkeys hy hx⟩
    have hmarks : (zs.filter (·.key = x.key)).map (·.begins) = (marksOf x.key zs).map Prod.snd := by
      rw [marksOf, map_map]
      rfl
    have hinOrder : Strokes.InOrder (marksOf x.key zs) :=
      pairwise_map.mpr ((hsorted.filter _).imp fun h => Stroke.not_earlier_mark h)
    rw [hkept.balanced_iff_depth hkeys hx, hfilter, hmarks]
    exact Strokes.alternates_iff_depth (hkept.pairwise_marksOf hkeys x.key) (hrespaced.marks x.key)
      ((hperm.filter _).map _) hinOrder
  · -- nothing is heard of a note that is not kept
    push Not at hex
    have hnone : zs.filter (·.Of channel pitch) = [] := by
      refine filter_eq_nil_iff.mpr fun z hz => ?_
      obtain ⟨x, hx, -, hof⟩ := hsource z hz
      simpa [hof] using hex x hx
    have hempty : ∀ begins, Stroke.ticksOf ss channel pitch begins = ∅ := by
      intro begins
      have hfilter : (ss.filter fun x => x.Of channel pitch ∧ x.begins = begins) = [] := by
        refine filter_eq_nil_iff.mpr fun z hz => ?_
        obtain ⟨x, hx, -, -, hchannel, hpitch⟩ := hkept.covers z hz
        have hnot := hex x hx
        rw [Stroke.Of, hchannel, hpitch] at hnot
        simp [Stroke.Of, hnot]
      rw [Stroke.ticksOf, hfilter]
      rfl
    rw [hnone, hempty, hempty]
    exact iff_of_true rfl (by decide)

theorem not_balanced_of_respace (hkept : Kept ss xs) (hkeys : Stroke.KeysApart ss) {x : Stroke}
    (hx : x ∈ xs) (hnone : Strokes.respace [] (marksOf x.key xs) = none) :
    ¬ Strokes.Balanced (Stroke.ticksOf ss x.channel x.pitch true) (Stroke.ticksOf ss x.channel x.pitch false) := by
  intro hbalanced
  have hsome := Strokes.isSome_respace [] (marksOf x.key xs)
  rw [hnone, length_nil, (hkept.balanced_iff_depth hkeys hx).mp hbalanced] at hsome
  cases hsome

theorem settled_strokes {t : Track} {width : Nat} (hempty : t.data = []) (hnodup : t.stream.Nodup)
    (hknown : ∀ i ∈ t.stream, i < t.events.size) (hstream : t.streamEvents = zs.map Stroke.event)
    (hsorted : zs.Pairwise fun x y => x.event.upTo y.event = true) (hticks : ∀ z ∈ zs, z.tick < 128 ^ (width + 1))
    (hfits : (width + 4) * zs.length + 4 < 2 ^ 32) : t.Settled (zs.map fun z => (z.tick, z.sense)) E := by
  have hrising : zs.Pairwise fun x y => x.tick ≤ y.tick := hsorted.imp fun {x y} h => by
    rcases (Stroke.upTo_event_iff x y).mp h with h | h <;> omega
  have hspoken : List.Forall₂ Spoken t.streamEvents (zs.map fun z => (z.tick, z.message)) := by
    rw [hstream, forall₂_map_left_iff, forall₂_map_right_iff]
    exact forall₂_same.mpr fun z _ => z.spoken_event
  have hbytes : ∀ origin, (∀ q ∈ zs.map fun z => (z.tick, z.sense), origin ≤ q.1) →
      ∃ parts, BytesOf (relative origin t.streamEvents) parts ∧ (parts.flatten ++ trailer).length < 2 ^ 32 := by
    intro origin hlow
    have hordered : Reader.Ordered origin (zs.map fun z => (z.tick, z.message)) := by
      refine Reader.ordered_of_pairwise ?_ (pairwise_map.mpr hrising)
      simpa using hlow
    obtain ⟨parts, hparts, hencode⟩ := bytes_relative hspoken hordered
    refine ⟨parts, hparts, ?_⟩
    have hthree : ∀ p ∈ zs.map fun z => (z.tick, z.message), p.1 < 128 ^ (width + 1) ∧ p.2.bytes.length = 3 := by
      simpa [Stroke.message, Reader.Message.bytes] using hticks
    have hlength := Reader.length_encode_le hthree origin
    rw [length_map] at hlength
    rw [hencode]
    omega
  refine ⟨hempty, hnodup, hknown, ?_, pairwise_map.mpr hrising, ?_, ?_⟩
  · rw [hstream, forall₂_map_left_iff, forall₂_map_right_iff]
    exact forall₂_same.mpr fun z _ => z.heard_event
  · intro origin hlow e he fault hfault
    obtain ⟨parts, hparts, -⟩ := hbytes origin hlow
    obtain ⟨bytes, -, hok⟩ := exists_of_forall₂ hparts he
    rw [hok] at hfault
    cases hfault
  · intro origin hlow parts hparts hlong
    obtain ⟨parts', hparts', hlt⟩ := hbytes origin hlow
    have hunique : Relator.RightUnique fun (e : Event) b => e.bytes = .ok b :=
      fun _ _ _ h h' => Except.ok.inj (h.symm.trans h')
    rw [right_unique_forall₂' hunique hparts hparts'] at hlong
    omega

/-- Beginnings and ends of this pitch on this channel balance. -/
def StrokesBalance (ss : List Stroke) (channel pitch : Nat) : Prop :=
  Strokes.Balanced (Stroke.ticksOf ss channel pitch true) (Stroke.ticksOf ss channel pitch false)

theorem Respaced.settles {u : Track} {width : Nat} (h : Respaced xs ys)
    (hkept : Kept ss xs) (hkeys : Stroke.KeysApart ss) (hticks : ∀ x ∈ ss, x.tick < 128 ^ (width + 1))
    (hfits : (width + 4) * ss.length + 4 < 2 ^ 32) (hempty : u.data = []) (hnodup : u.stream.Nodup)
    (hknown : ∀ i ∈ u.stream, i < u.events.size) (hys : u.stream.map u.event = ys.map Stroke.event) :
    u.Sound u.stream ∧
      ∃ qs, (∀ channel pitch, Alternates false (Reader.strokes channel pitch qs) ↔ StrokesBalance ss channel pitch) ∧
        Settled { u with stream := u.ordered u.stream } qs E := by
  have hperm := u.ordered_perm u.stream
  have hzs : (ys.mergeSort fun x y => x.event.upTo y.event).Perm ys := mergeSort_perm ys _
  have hsorted := pairwise_mergeSort
    (fun x y z : Stroke => Event.upTo_trans x.event y.event z.event)
    (fun x y => Event.upTo_total x.event y.event) ys
  have hyticks : ∀ y ∈ ys, y.tick < 128 ^ (width + 1) := by
    intro y hy
    obtain ⟨x, hx, hxy⟩ := h.tick_mem hy
    obtain ⟨z, hz, hzx, -⟩ := hkept.within x hx
    rw [← hxy, ← hzx]
    exact hticks z hz
  refine ⟨fun i hi => ?_, _, alternates_iff_balanced hkept hkeys h hzs hsorted,
    settled_strokes hempty (hperm.nodup_iff.mpr hnodup) (fun i hi => hknown i (hperm.mem_iff.mp hi)) ?_ hsorted
      (fun z hz => hyticks z (hzs.mem_iff.mp hz)) ?_⟩
  · have hmem := mem_map_of_mem (f := u.event) hi
    rw [hys] at hmem
    obtain ⟨y, -, hy⟩ := mem_map.mp hmem
    exact hy ▸ (Event.Whole.of_int y.event_at).1
  · refine (u.map_event_ordered u.stream).trans ?_
    rw [hys]
    symm
    exact map_mergeSort fun _ _ _ _ => rfl
  · rw [hzs.length_eq, ← h.moved.length_eq]
    have hle := Nat.mul_le_mul_left (width + 4) hkept.short
    omega

theorem ends_close_strokes {width : Nat} (hkeys : Stroke.KeysApart ss)
    (hticks : ∀ x ∈ ss, x.tick < 128 ^ (width + 1)) (hfits : (width + 4) * ss.length + 4 < 2 ^ 32)
    (hE : ∀ channel pitch, ¬ StrokesBalance ss channel pitch → ∀ fault, E fault) :
    Ends (do close; sortStream) (fresh true true (ss.map Stroke.event))
      (fun _ u => ∃ qs, (∀ channel pitch,
        Alternates false (Reader.strokes channel pitch qs) ↔ StrokesBalance ss channel pitch) ∧ u.Settled qs E)
      fun fault _ => E fault := by
  obtain ⟨t, ht⟩ : ∃ t, t = fresh true true (ss.map Stroke.event) := ⟨_, rfl⟩
  have hadded : t.added = List.range ss.length := by rw [ht]; simp [fresh]
  have hsize : t.events.size = ss.length := by rw [ht]; simp [fresh]
  have hempty : t.data = [] := by rw [ht]; rfl
  have hnodup : t.laid.stream.Nodup := nodup_laid (hadded ▸ nodup_range)
  have hknown : ∀ i ∈ t.laid.stream, i < t.events.size := fun i hi => by
    rw [hsize, ← mem_range, ← hadded]
    exact t.subperm_laid.subset hi
  have hsound : t.Sound t.added := fun i hi => by
    rw [ht, event_fresh true true (hadded ▸ hi)]
    exact (Event.Whole.of_int (Stroke.event_at _)).1
  obtain ⟨xs, hxs, hkept⟩ := kept_laid ss ht
  rw [← ht, ends_bind]
  refine ends_close (by rw [ht]; rfl) hsound ?_
  rw [if_pos (by rw [ht]; rfl)]
  refine ends_separate (Q := fun u => Ends sortStream u _ _) ((ends_foldlM_strokes (t := t.laid) hnodup hknown hxs).mono ?_ ?_)
  · rintro _ u ⟨ys, hrespaced, hys, events, hevents, rfl⟩
    obtain ⟨hwhole, hsettled⟩ := hrespaced.settles (u := { t.laid with events }) hkept hkeys hticks hfits hempty hnodup
      (fun i hi => by rw [hevents]; exact hknown i hi) hys
    exact ⟨hwhole, (sortStream_ordered hwhole).ends.mpr hsettled⟩
  · rintro fault _ ⟨x, hx, hnone⟩
    exact hE _ _ (not_balanced_of_respace hkept hkeys hx hnone) fault

end Track

/-! ## Notes -/

namespace Entry

/-- On this track, the beginnings and ends of notes of this pitch on this channel balance:
    as many of their ticks are beginnings as are ends, and before each end there are more
    beginnings than ends. -/
def Balance (entries : List Entry) (i channel pitch : Nat) : Prop :=
  Strokes.Balanced
    ((entries.filter fun e => e.place = i ∧ e.sense.stroke? channel pitch = some true).map tick).toFinset
    ((entries.filter fun e => e.place = i ∧ e.sense.stroke? channel pitch = some false).map tick).toFinset

instance (entries : List Entry) (i channel pitch : Nat) : Decidable (Balance entries i channel pitch) :=
  inferInstanceAs (Decidable (Strokes.Balanced _ _))

theorem balance_of_silent {entries : List Entry} {channel pitch : Nat}
    (h : ∀ e ∈ entries, e.sense.stroke? channel pitch = none) (i : Nat) : Balance entries i channel pitch := by
  have hnone : ∀ begins, (entries.filter fun e => e.place = i ∧ e.sense.stroke? channel pitch = some begins) = [] :=
    fun begins => filter_eq_nil_iff.mpr fun e he => by simp [h e he]
  rw [Balance, hnone, hnone]
  decide

/-- A stroke on a track, as an entry. -/
def ofStroke (p : Nat × Stroke) : Entry := { place := p.1, tick := p.2.tick, sense := p.2.sense }

/-- The strokes that went to a track. -/
def strokesAt (new : List (Nat × Stroke)) (i : Nat) : List Stroke := (new.filter (·.1 = i)).map Prod.snd

theorem eventsAt_strokes (new : List (Nat × Stroke)) (i : Nat) :
    eventsAt (new.map fun p => (p.1, p.2.event)) i = (strokesAt new i).map Stroke.event := by
  simp [eventsAt, strokesAt, filter_map, Function.comp_def]

theorem ticksOf_strokesAt (new : List (Nat × Stroke)) (i channel pitch : Nat) (begins : Bool) :
    Stroke.ticksOf (strokesAt new i) channel pitch begins =
      (((new.map ofStroke).filter fun e => e.place = i ∧ e.sense.stroke? channel pitch = some begins).map tick).toFinset := by
  ext n
  simp only [Stroke.ticksOf, strokesAt, ofStroke, mem_toFinset, mem_map, mem_filter, decide_eq_true_eq]
  constructor
  · rintro ⟨x, ⟨⟨p, ⟨hp, hi⟩, rfl⟩, hof, hbegins⟩, rfl⟩
    exact ⟨_, ⟨⟨p, hp, rfl⟩, hi, by rw [Stroke.stroke?_sense, if_pos hof, hbegins]⟩, rfl⟩
  · rintro ⟨e, ⟨⟨p, hp, rfl⟩, hi, hstroke⟩, rfl⟩
    rw [Stroke.stroke?_sense] at hstroke
    split at hstroke
    · next hof => exact ⟨p.2, ⟨⟨p, ⟨hp, hi⟩, rfl⟩, hof, Option.some.inj hstroke⟩, rfl⟩
    · cases hstroke

theorem balance_iff_strokes (new : List (Nat × Stroke)) (i channel pitch : Nat) :
    Balance (new.map ofStroke) i channel pitch ↔ Track.StrokesBalance (strokesAt new i) channel pitch := by
  rw [Track.StrokesBalance, ticksOf_strokesAt, ticksOf_strokesAt]
  rfl

end Entry

/-- A note to add to a file. -/
structure Note where
  track : Datum
  channel : Fin 16
  pitch : Fin 128
  time : Datum
  duration : Datum
  volume : Fin 128
  remark : Datum

namespace Note

def call (n : Note) : Call := .note n.track n.channel n.pitch n.time n.duration n.volume n.remark

/-- The key under which the note is kept while it is open. -/
def key (n : Note) : String := Track.noteKey (.int n.pitch) (.int n.channel)

/-- A stroke is one of the two of the note, on its track. -/
def Strikes (f : File) (n : Note) (p : Nat × Stroke) : Prop :=
  f.notePlace n.track = .ok p.1 ∧ p.2.channel = n.channel ∧ p.2.pitch = n.pitch

theorem attempt_strokes {f : File} {n : Note} (hn : n.call.Sound f) (drop separate : Bool) (log : List (Nat × Event))
    (k : Nat) :
    ∃ (new : List (Nat × Stroke)) (k' : Nat), n.call.adds f = new.map Entry.ofStroke ∧ (∀ p ∈ new, n.Strikes f p) ∧
      Gives n.call.attempt (f.logged drop separate log k) ⟨⟩
        (f.logged drop separate (log ++ new.map fun p => (p.1, p.2.event)) k') := by
  obtain ⟨track, channel, pitch, time, duration, volume, remark⟩ := n
  rcases File.addNote_cases track channel pitch volume remark hn.1 hn.2 with
    ⟨i, start, stop, length, hentries, hgives⟩ | ⟨x, hentries, hfails⟩
  · refine ⟨[(i, { tick := start, order := k, begins := true, channel, pitch, volume, length := .int length, remark }),
      (i, { tick := stop, order := k, begins := false, channel, pitch, volume, length := .int length, remark })], k + 1,
      ?_, ?_, ?_⟩
    · rw [call, Call.adds, hentries]
      rfl
    · have hplace : f.notePlace track = .ok i := by
        obtain ⟨place, hplace, h⟩ := bind_eq_ok.mp hentries
        obtain ⟨begin, -, h⟩ := bind_eq_ok.mp h
        obtain ⟨length', -, h⟩ := bind_eq_ok.mp h
        cases h
        exact hplace
      simp [Strikes, hplace]
    · rw [Gives, call, Call.attempt, run_tryCatch, Call.run, hgives drop separate log k]
      rfl
  · refine ⟨[], k, by rw [call, Call.adds, hentries]; rfl, by simp, ?_⟩
    obtain ⟨y, hy⟩ := hfails drop separate log k
    rw [Gives, call, Call.attempt, run_tryCatch, Call.run, hy, map_nil, append_nil]
    rfl

theorem forM_attempt_strokes {f : File} {notes : List Note} (hnotes : ∀ n ∈ notes, n.call.Sound f)
    (drop separate : Bool) (log : List (Nat × Event)) (k : Nat) :
    ∃ (new : List (Nat × Stroke)) (k' : Nat), (notes.map call).flatMap (Call.adds f) = new.map Entry.ofStroke ∧
      (∀ p ∈ new, ∃ n ∈ notes, n.Strikes f p) ∧
      Gives ((notes.map call).forM Call.attempt) (f.logged drop separate log k) ⟨⟩
        (f.logged drop separate (log ++ new.map fun p => (p.1, p.2.event)) k') := by
  induction notes generalizing log k with
  | nil =>
    refine ⟨[], k, rfl, by simp, ?_⟩
    rw [map_nil, map_nil, append_nil]
    exact Gives.of_pure _ _
  | cons n notes ih =>
    obtain ⟨hn, hnotes⟩ := forall_mem_cons.mp hnotes
    obtain ⟨new, k₁, hadds, hstrikes, hgives⟩ := attempt_strokes hn drop separate log k
    obtain ⟨new', k₂, hadds', hstrikes', hgives'⟩ := ih hnotes (log ++ new.map fun p => (p.1, p.2.event)) k₁
    refine ⟨new ++ new', k₂, ?_, fun p hp => ?_, ?_⟩
    · rw [map_cons, flatMap_cons, hadds, hadds', map_append]
    · rcases mem_append.mp hp with hp | hp
      · exact ⟨n, by simp, hstrikes p hp⟩
      · obtain ⟨m, hm, h⟩ := hstrikes' p hp
        exact ⟨m, by simp [hm], h⟩
    · rw [map_append, ← append_assoc]
      exact Gives.of_bind hgives hgives'

end Note

namespace File

/-- On every track the strokes of every pitch on every channel balance. -/
def StrokesBalance (f : File) (new : List (Nat × Stroke)) : Prop :=
  ∀ i < f.tracks.size, ∀ channel pitch, Track.StrokesBalance (Entry.strokesAt new i) channel pitch

theorem ends_write_strokes {f : File} {new : List (Nat × Stroke)} {width : Nat} (hopen : f.closed = false)
    (hformat : f.format < 2 ^ 16) (hdivision : f.division < 2 ^ 16) (hsize : f.tracks.size < 2 ^ 16)
    (hkeys : ∀ i, Stroke.KeysApart (Entry.strokesAt new i)) (hticks : ∀ p ∈ new, p.2.tick < 128 ^ (width + 1))
    (hfits : (width + 4) * new.length + 4 < 2 ^ 32) (k : Nat) :
    Ends write (f.logged true true (new.map fun p => (p.1, p.2.event)) k)
      (fun bytes _ => ∃ c, Reader.file bytes = some c ∧
        ((∀ l ∈ c.tracks, ∀ channel pitch, Alternates false (Reader.strokes channel pitch l.told)) ↔ f.StrokesBalance new))
      fun _ _ => ¬ f.StrokesBalance new := by
  obtain ⟨g, hg⟩ : ∃ g, g = f.logged true true (new.map fun p => (p.1, p.2.event)) k := ⟨_, rfl⟩
  have hclose : List.Forall₂ (fun t i => Ends (do Track.close; Track.sortStream) t
      (fun _ u => ∃ qs, (∀ channel pitch, Alternates false (Reader.strokes channel pitch qs) ↔
        Track.StrokesBalance (Entry.strokesAt new i) channel pitch) ∧ u.Settled qs fun _ => ¬ f.StrokesBalance new)
      fun _ _ => ¬ f.StrokesBalance new) g.tracks.toList (List.range f.tracks.size) := by
    rw [hg, logged, forall₂_map_left_iff, forall₂_same]
    intro i hi
    rw [Entry.eventsAt_strokes]
    have hmem : ∀ x ∈ Entry.strokesAt new i, x.tick < 128 ^ (width + 1) := by
      intro x hx
      obtain ⟨p, hp, rfl⟩ := mem_map.mp hx
      exact hticks p (mem_filter.mp hp).1
    have hlength : (Entry.strokesAt new i).length ≤ new.length := by
      rw [Entry.strokesAt, length_map]
      exact length_filter_le _ _
    have hle := Nat.mul_le_mul_left (width + 4) hlength
    exact Track.ends_close_strokes (hkeys i) hmem (by omega)
      fun channel pitch hnot _ hbalance => hnot (hbalance i (mem_range.mp hi) channel pitch)
  rw [← hg]
  refine (ends_write (f := g) (by rw [hg]; exact hopen) (by rw [hg]; exact hformat) (by rw [hg]; exact hdivision)
    (by rw [hg]; simpa [logged] using hsize) hclose).mono ?_ fun _ _ hx => hx
  rintro bytes _ ⟨c, origin, qss, hfile, -, -, -, hqss, htold⟩
  refine ⟨c, hfile, ?_, ?_⟩
  · -- every track is among those that are read
    intro halternate i hi channel pitch
    obtain ⟨qs, hqs, hiff⟩ := exists_of_forall₂ hqss (mem_range.mpr hi)
    have hmem : Reader.fromOrigin origin qs ∈ c.tracks.map Reader.Timed.told := htold ▸ mem_map_of_mem hqs
    obtain ⟨l, hl, htold⟩ := mem_map.mp hmem
    have hl := halternate l hl channel pitch
    rw [htold, Reader.strokes_fromOrigin] at hl
    exact (hiff channel pitch).mp hl
  · -- and every track that is read is one of them
    intro hbalance l hl channel pitch
    have hmem : l.told ∈ qss.map (Reader.fromOrigin origin) := htold ▸ mem_map_of_mem hl
    obtain ⟨qs, hqs, htold⟩ := mem_map.mp hmem
    obtain ⟨i, hi, hiff⟩ := exists_of_forall₂ hqss.flip hqs
    rw [← htold, Reader.strokes_fromOrigin]
    exact (hiff channel pitch).mpr (hbalance i (mem_range.mp hi) channel pitch)

theorem keysApart_of_strikes {f : File} {notes : List Note} {new : List (Nat × Stroke)}
    (hkeys : ∀ n ∈ notes, ∀ m ∈ notes, f.notePlace n.track = f.notePlace m.track → n.key = m.key →
      n.channel = m.channel ∧ n.pitch = m.pitch)
    (hstrikes : ∀ p ∈ new, ∃ n ∈ notes, n.Strikes f p) (i : Nat) : Stroke.KeysApart (Entry.strokesAt new i) := by
  have hsource : ∀ x ∈ Entry.strokesAt new i, ∃ n ∈ notes,
      f.notePlace n.track = .ok i ∧ x.channel = n.channel ∧ x.pitch = n.pitch := by
    intro x hx
    obtain ⟨p, hp, rfl⟩ := mem_map.mp hx
    obtain ⟨hp, hi⟩ := mem_filter.mp hp
    obtain ⟨n, hn, hplace, hsame⟩ := hstrikes p hp
    exact ⟨n, hn, of_decide_eq_true hi ▸ hplace, hsame⟩
  intro x hx y hy hkey
  obtain ⟨n, hn, hnplace, hnchannel, hnpitch⟩ := hsource x hx
  obtain ⟨m, hm, hmplace, hmchannel, hmpitch⟩ := hsource y hy
  have hsame : n.key = m.key := by
    rw [Note.key, Note.key, ← hnchannel, ← hnpitch, ← hmchannel, ← hmpitch]
    exact hkey
  obtain ⟨hchannel, hpitch⟩ := hkeys n hn m hm (hnplace.trans hmplace.symm) hsame
  rw [Stroke.Of, hnchannel, hnpitch, hmchannel, hmpitch, hchannel, hpitch]
  exact ⟨rfl, rfl⟩

/-- Notes added to a file that drops doubles and separates notes, where no two notes of a
    track are kept under one key and no track grows too long: the file is written and the
    strokes of every pitch on every channel alternate from a beginning to an end, exactly
    if on every track they balance. -/
theorem notes_alternate_iff {s : Settings} {f : File} {notes : List Note} (width : Nat) (hcreate : create s = .ok f)
    (hdrop : s.dropDuplicates = true) (hseparate : s.separateNotes = true) (hsound : ∀ n ∈ notes, n.call.Sound f)
    (hkeys : ∀ n ∈ notes, ∀ m ∈ notes, f.notePlace n.track = f.notePlace m.track → n.key = m.key →
      n.channel = m.channel ∧ n.pitch = m.pitch)
    (hticks : ∀ e ∈ (notes.map Note.call).flatMap (Call.adds f), e.tick < 128 ^ (width + 1))
    (hfits : (width + 4) * ((notes.map Note.call).flatMap (Call.adds f)).length + 4 < 2 ^ 32) :
    (∃ bytes f' c, Gives (do (notes.map Note.call).forM Call.attempt; write) f bytes f' ∧ Reader.file bytes = some c ∧
      ∀ l ∈ c.tracks, ∀ channel pitch, Alternates false (Reader.strokes channel pitch l.told)) ↔
    ∀ i < f.tracks.size, ∀ channel pitch, Entry.Balance ((notes.map Note.call).flatMap (Call.adds f)) i channel pitch := by
  obtain ⟨hformat, hdivision, hsize, hopen, -, hlogged⟩ := of_create hcreate
  rw [hdrop, hseparate] at hlogged
  obtain ⟨new, k, hadds, hstrikes, hcalls⟩ := Note.forM_attempt_strokes hsound true true [] 0
  rw [← hlogged, List.nil_append] at hcalls
  rw [hadds, List.forall_mem_map] at hticks
  rw [hadds, List.length_map] at hfits
  have hwrite := ends_write_strokes hopen hformat hdivision hsize (keysApart_of_strikes hkeys hstrikes) hticks hfits k
  rw [hadds]
  simp only [Entry.balance_iff_strokes]
  constructor
  · rintro ⟨bytes, f', c, hgives, hfile, halternate⟩
    rw [Gives, hcalls.run_bind] at hgives
    obtain ⟨c', hfile', hiff⟩ := hwrite.of_gives hgives
    obtain rfl : c = c' := Option.some.inj (hfile.symm.trans hfile')
    exact hiff.mp halternate
  · intro hbalance
    obtain ⟨bytes, f', hgives, c, hfile, hiff⟩ :=
      (hwrite.mono (fun _ _ h => h) fun _ _ hnot => hnot hbalance).exists_gives
    exact ⟨bytes, f', c, Gives.of_bind hcalls hgives, hfile, hiff.mpr hbalance⟩

/-- A new file of one track, with notes added to it. -/
def noted (counter : Nat) (es : List Event) : File where
  format := 1
  division := 960
  adjustOrigin := false
  timesAreTicks := false
  tracks := #[Track.fresh true true [], Track.fresh true true es]
  counter

/-- A note of a key on the only track, with a time and a duration in quarters. -/
def quarters (channel : Fin 16) (pitch volume : Fin 128) (time duration : Nat) : Note where
  track := .int 0
  channel
  pitch
  time := .int time
  duration := .int duration
  volume
  remark := .none

theorem sound_quarters (channel : Fin 16) (pitch volume : Fin 128) (time duration : Nat) :
    (quarters channel pitch volume time duration).call.Sound (noted 0 []) := by
  refine ⟨?_, fun h => (by cases h), ?_⟩
  · rw [Fair, if_neg (by simp [noted])]
    simp [quarters, before?_int]
  · rintro start length ⟨⟩ ⟨⟩
    positivity

/-- Two notes that interleave, the second of them twice, and one on another channel. -/
def interleaved (channel other : Fin 16) (pitch volume : Fin 128) : List Note :=
  [quarters channel pitch volume 0 2, quarters channel pitch volume 1 2, quarters channel pitch volume 1 2,
    quarters other pitch volume 0 2]

theorem interleaved_alternate : create {} = .ok (noted 0 []) ∧
    ∃ bytes f' c, Gives (do ((interleaved 0 1 60 100).map Note.call).forM Call.attempt; write) (noted 0 []) bytes f' ∧
      Reader.file bytes = some c ∧ ∀ l ∈ c.tracks, ∀ channel pitch, Alternates false (Reader.strokes channel pitch l.told) := by
  have hcreate : create {} = .ok (noted 0 []) := rfl
  refine ⟨hcreate, (notes_alternate_iff 3 hcreate rfl rfl ?_ ?_ ?_ ?_).mpr ?_⟩
  · simp only [interleaved, List.forall_mem_cons]
    exact ⟨sound_quarters _ _ _ _ _, sound_quarters _ _ _ _ _, sound_quarters _ _ _ _ _, sound_quarters _ _ _ _ _, by simp⟩
  · decide
  · decide
  · decide
  · intro i hi channel pitch
    by_cases hkey : pitch = 60 ∧ (channel = 0 ∨ channel = 1)
    · revert i
      rcases hkey with ⟨rfl, rfl | rfl⟩ <;> decide
    · refine Entry.balance_of_silent ?_ i
      rw [show ((interleaved 0 1 60 100).map Note.call).flatMap (Call.adds (noted 0 [])) =
        [⟨1, 0, .noteOn 0 60 100⟩, ⟨1, 1920, .noteOff 0 60 100⟩, ⟨1, 960, .noteOn 0 60 100⟩, ⟨1, 2880, .noteOff 0 60 100⟩,
          ⟨1, 960, .noteOn 0 60 100⟩, ⟨1, 2880, .noteOff 0 60 100⟩, ⟨1, 0, .noteOn 1 60 100⟩,
          ⟨1, 1920, .noteOff 1 60 100⟩] from rfl]
      have hfirst : ¬ (0 = channel ∧ 60 = pitch) := by omega
      have hsecond : ¬ (1 = channel ∧ 60 = pitch) := by omega
      simp [Reader.Sense.stroke?, hfirst, hsecond]

/-- Of two notes that end together one is left sounding: the double of their end is dropped. -/
theorem note_left_sounding : create {} = .ok (noted 0 []) ∧
    ∃ bytes f' c, Gives (do ([quarters 0 60 100 0 2, quarters 0 60 100 1 1].map Note.call).forM Call.attempt; write) (noted 0 [])
      bytes f' ∧ Reader.file bytes = some c ∧
      c.tracks.map Reader.Timed.told = [[], [(0, .noteOn 0 60 100), (960, .noteOff 0 60 100), (960, .noteOn 0 60 100)]] ∧
      ¬ Alternates false (Reader.strokes 0 60 [(0, .noteOn 0 60 100), (960, .noteOff 0 60 100), (960, .noteOn 0 60 100)]) := by
  have hcalls : Gives (([quarters 0 60 100 0 2, quarters 0 60 100 1 1].map Note.call).forM Call.attempt) (noted 0 []) ⟨⟩
      (noted 2 [Event.beginning 0 0 1920 0 60 100 .none, Event.ending 0 1920 0 60 100 .none,
        Event.beginning 1 960 960 0 60 100 .none, Event.ending 1 1920 0 60 100 .none]) := rfl
  have hclose : List.Forall₂ (fun t u => Gives (do Track.close; Track.sortStream) t ⟨⟩ u)
      (noted 2 [Event.beginning 0 0 1920 0 60 100 .none, Event.ending 0 1920 0 60 100 .none,
        Event.beginning 1 960 960 0 60 100 .none, Event.ending 1 1920 0 60 100 .none]).tracks.toList
      [{ Track.fresh true true [] with closed := true },
        { Track.fresh true true [Event.beginning 0 0 1920 0 60 100 .none, Event.ending 0 960 0 60 100 .none,
          Event.beginning 1 960 960 0 60 100 .none, Event.ending 1 1920 0 60 100 .none] with
          closed := true
          added := [0, 2, 1]
          stream := [0, 1, 2] }] :=
    .cons (by cbv) (.cons (by cbv) .nil)
  refine ⟨rfl, _, _, _, Gives.of_bind hcalls ((write_run rfl hclose).trans (Gives.of_toOption
    (Option.some_get (by decide +kernel)).symm)), (Option.some_get (by decide +kernel)).symm, by decide +kernel, ?_⟩
  rintro ⟨-, -, -, h⟩
  cases h

end File

end Plainsong.Midi
