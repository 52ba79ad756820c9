import Plainsong.Proofs.Midi.Overlap
import Plainsong.Proofs.Midi.RoundTrip
import Plainsong.Proofs.Midi.Separation
/- Notes that overlap in a track that keeps doubles and separates notes. The main statement is
   that a track of notes that start apart is closed with every key in runs
   (`close_unlaces`). -/
namespace Plainsong.Midi

open Strokes List

/-! ## Notes -/

/-- A note of a track. -/
structure Tone where
  channel : Datum
  pitch : Datum
  start : Int
  length : Int
  volume : Datum
  remark : Datum
  order : Nat

namespace Tone

def key (y : Tone) : String := Track.noteKey y.pitch y.channel

def span (y : Tone) : Span := { start := y.start, stop := y.start + y.length }

/-- The beginning and the end of a note. -/
def events (y : Tone) : List Event :=
  [{ tick := .int y.start, order := y.order, deed := .noteOn y.channel y.pitch (.int y.length) y.volume y.remark },
    { tick := .int (y.start + y.length), order := y.order, deed := .noteOff y.channel y.pitch y.volume y.remark }]

/-- The notes of a key, from where to where they sound. -/
def spansOf (tones : List Tone) (key : String) : List Span := (tones.filter (·.key = key)).map span

theorem marks_events (key : String) (y : Tone) :
    Event.marks key y.events = if y.key = key then y.span.strokes else [] := by
  by_cases h : y.key = key
  · have h' : Track.noteKey y.pitch y.channel = key := h
    simp [events, Event.marks, Event.mark?, Deed.stroke?, Event.instant, h, h', span, Span.strokes]
  · have h' : ¬ Track.noteKey y.pitch y.channel = key := h
    simp [events, Event.marks, Event.mark?, Deed.stroke?, h, h']

theorem marks_flatMap_events (key : String) (tones : List Tone) :
    Event.marks key (tones.flatMap events) = (spansOf tones key).flatMap Span.strokes := by
  induction tones with
  | nil => rfl
  | cons y tones ih =>
    have happend : Event.marks key (y.events ++ tones.flatMap events) =
        Event.marks key y.events ++ Event.marks key (tones.flatMap events) := filterMap_append
    rw [flatMap_cons, happend, ih, marks_events]
    by_cases h : y.key = key <;> simp [spansOf, h]

end Tone

namespace Track

/-- Notes among events that are none: at whole ticks, each longer than nothing, and of those of
    one key no two starting together. -/
structure Laced (others : List Event) (tones : List Tone) (es : List Event) : Prop where
  all : es.Perm (others ++ tones.flatMap Tone.events)
  silent : ∀ e ∈ others, e.Whole ∧ e.deed.isNote = false
  lasting : ∀ y ∈ tones, 0 < y.length
  apart : tones.Pairwise fun y z => y.key = z.key → y.start ≠ z.start

namespace Laced

variable {others : List Event} {tones : List Tone} {es : List Event}

theorem whole (h : Laced others tones es) : ∀ e ∈ es, e.Whole := by
  intro e he
  rcases mem_append.mp (h.all.mem_iff.mp he) with he | he
  · exact (h.silent e he).1
  · obtain ⟨y, -, hy⟩ := mem_flatMap.mp he
    simp only [Tone.events, mem_cons, not_mem_nil, or_false] at hy
    rcases hy with rfl | rfl <;> rfl

theorem marks_perm (h : Laced others tones es) (key : String) :
    (Event.marks key es).Perm ((Tone.spansOf tones key).flatMap Span.strokes) := by
  have hsilent : Event.marks key others = [] :=
    filterMap_eq_nil_iff.mpr fun e he => Event.mark?_of_silent (Deed.stroke?_of_silent (h.silent e he).2) key
  have happend : Event.marks key (others ++ tones.flatMap Tone.events) =
      Event.marks key others ++ Event.marks key (tones.flatMap Tone.events) := filterMap_append
  have hperm : (Event.marks key es).Perm (Event.marks key (others ++ tones.flatMap Tone.events)) := h.all.filterMap _
  rwa [happend, hsilent, nil_append, Tone.marks_flatMap_events] at hperm

theorem nodup_starts (h : Laced others tones es) (key : String) : ((Event.marks key es).filter (·.2)).Nodup := by
  rw [((h.marks_perm key).filter _).nodup_iff, filter_flatMap]
  have hstarts : ((Tone.spansOf tones key).flatMap fun x => x.strokes.filter (·.2)) =
      (Tone.spansOf tones key).map fun x => (x.start, true) := by
    rw [map_eq_flatMap]
    rfl
  rw [hstarts, Tone.spansOf, map_map, List.Nodup, pairwise_map]
  refine (h.apart.filter _).imp_of_mem fun {y z} hy hz hne heq => ?_
  have hykey : y.key = key := by simpa using (mem_filter.mp hy).2
  have hzkey : z.key = key := by simpa using (mem_filter.mp hz).2
  exact hne (hykey.trans hzkey.symm) (congrArg Prod.fst heq)

theorem runs (h : Laced others tones es) {sorted : List Event} (hperm : sorted.Perm es)
    (hsorted : sorted.Pairwise fun a b => a.upTo b = true) (key : String) :
    (Event.marks key sorted).Pairwise Follows ∧ depth 0 (Event.marks key sorted) = some 0 ∧
      ∃ runs, Span.Grouped (Tone.spansOf tones key) runs ∧
        flat 0 (Event.marks key sorted) = runs.flatMap Span.Run.strokes := by
  have hmarks : (Event.marks key sorted).Perm (Event.marks key es) := hperm.filterMap _
  have hw := follows_of_inOrder (Event.inOrder_marks hsorted key) ((hmarks.filter _).nodup_iff.mpr (h.nodup_starts key))
  refine ⟨hw, Span.exists_runs hw (hmarks.trans (h.marks_perm key)) ?_⟩
  intro x hx
  obtain ⟨y, hy, rfl⟩ := mem_map.mp hx
  have := h.lasting y (mem_of_mem_filter hy)
  simp only [Tone.span]
  omega

end Laced

/-- A track of notes that start apart is closed, and nothing but ends of notes is moved. The notes
    of each key are grouped into runs of those that overlap; the strokes of the runs stand one behind
    the other, and beginnings and ends take turns. -/
theorem ends_close_laced {others : List Event} {tones : List Tone} {es : List Event} (h : Laced others tones es) :
    Ends close (fresh false true es)
      (fun _ t => (t.streamEvents.map Event.timeless).Perm (es.map Event.timeless) ∧
        ∀ key, Alternates false ((Event.marks key t.streamEvents).map Prod.snd) ∧
          ∃ runs, Span.Grouped (Tone.spansOf tones key) runs ∧
            Event.marks key t.streamEvents = runs.flatMap Span.Run.strokes)
      fun _ _ => False := by
  obtain ⟨t, ht⟩ : ∃ t, t = fresh false true es := ⟨_, rfl⟩
  have hadded : t.added = List.range es.length := by rw [ht]; rfl
  have hsize : t.events.size = es.length := by rw [ht]; rfl
  have hevents : t.added.map t.event = es := by rw [hadded, ht]; exact events_fresh false true es
  have hstream : t.laid.stream = t.ordered t.added := by rw [laid, kept, if_neg (by rw [ht]; exact Bool.false_ne_true)]
  have hperm : (t.laid.stream.map t.event).Perm es := by
    rw [hstream, ← hevents]
    exact (t.ordered_perm t.added).map t.event
  have hsound : t.Sound t.added := fun i hi => h.whole _ (hevents ▸ mem_map_of_mem hi)
  have hnodup : t.laid.stream.Nodup := nodup_laid (hadded ▸ nodup_range)
  have hknown : ∀ i ∈ t.laid.stream, i < t.events.size := fun i hi => by
    rw [hsize, ← mem_range, ← hadded]
    exact t.subperm_laid.subset hi
  have hruns := h.runs hperm (by rw [hstream]; exact pairwise_map.mpr (t.pairwise_ordered t.added))
  have hholds : Holds Datum.int ([] : OpenNotes) fun _ => [] := fun _ => rfl
  rw [← ht]
  refine ends_close (by rw [ht]; rfl) hsound ?_
  rw [if_pos (by rw [ht]; rfl)]
  refine ends_separate ((ends_foldlM_separate (t := t.laid) hnodup hknown hsound.laid hholds).mono ?_ ?_)
  · rintro _ u ⟨hmoves, -, hrespace⟩
    have hstill : u.stream = t.laid.stream := by
      obtain ⟨events, -, rfl⟩ := hmoves.frame
      rfl
    have hagain : (u.ordered u.stream).Perm t.laid.stream := hstill ▸ u.ordered_perm u.stream
    have hin : ((u.ordered u.stream).map u.event).Pairwise fun a b => a.upTo b = true :=
      pairwise_map.mpr (u.pairwise_ordered u.stream)
    refine ⟨fun i hi => hmoves.whole i (hsound.laid i (hstill ▸ hi)), ?_, fun key => ?_⟩
    · have htimeless : (t.laid.stream.map u.event).map Event.timeless = (t.laid.stream.map t.event).map Event.timeless := by
        rw [map_map, map_map]
        exact map_congr_left fun i _ => hmoves.timeless i
      exact ((hagain.map u.event).map _).trans (htimeless ▸ hperm.map _)
    · obtain ⟨hw, hzero, runs, hgrouped, hflat⟩ := hruns key
      have heq : Event.marks key ((u.ordered u.stream).map u.event) =
          flat 0 (Event.marks key (t.laid.stream.map t.event)) :=
        eq_flat hw (hrespace key) hzero ((hagain.map u.event).filterMap _) (Event.inOrder_marks hin key)
      have hshow : ({ u with stream := u.ordered u.stream } : Track).streamEvents = (u.ordered u.stream).map u.event := rfl
      rw [hshow, heq]
      exact ⟨flat_alternates hzero, runs, hgrouped, hflat⟩
  · rintro _ _ ⟨key, hnone⟩
    have hsome := isSome_respace [] (Event.marks key (t.laid.stream.map t.event))
    rw [length_nil, (hruns key).2.1] at hsome
    rw [show respace [] (Event.marks key (t.laid.stream.map t.event)) = none from hnone] at hsome
    cases hsome

/-- Notes of any channel and pitch among events that are no notes, in any order, each note longer
    than nothing, those of one pitch on one channel starting at different ticks, and those that
    differ in one of them having different keys: the track is closed, nothing but ends of notes is
    moved, and for each key beginnings and ends take turns. The notes of the key fall into runs of
    notes that overlap, in which each note is ended where the next one starts and the last one where
    the last of them ended. -/
theorem close_unlaces (others : List Event) (tones : List Tone) (es : List Event)
    (hes : es.Perm (others ++ tones.flatMap Tone.events)) (hothers : ∀ e ∈ others, e.Whole ∧ e.deed.isNote = false)
    (hlasting : ∀ y ∈ tones, 0 < y.length)
    (hstarts : tones.Pairwise fun y z => y.pitch = z.pitch → y.channel = z.channel → y.start ≠ z.start)
    (hkeys : ∀ y ∈ tones, ∀ z ∈ tones, y.key = z.key → y.pitch = z.pitch ∧ y.channel = z.channel) :
    ∃ t, Gives close (fresh false true es) ⟨⟩ t ∧ (t.streamEvents.map Event.timeless).Perm (es.map Event.timeless) ∧
      ∀ key, Alternates false ((Event.marks key t.streamEvents).map Prod.snd) ∧
        ∃ runs, Span.Grouped (Tone.spansOf tones key) runs ∧
          Event.marks key t.streamEvents = runs.flatMap Span.Run.strokes := by
  have hapart : tones.Pairwise fun y z => y.key = z.key → y.start ≠ z.start := by
    refine hstarts.imp_of_mem fun {y z} hy hz hne hkey => ?_
    obtain ⟨hpitch, hchannel⟩ := hkeys y hy z hz hkey
    exact hne hpitch hchannel
  obtain ⟨_, t, hgives, ht⟩ := (ends_close_laced ⟨hes, hothers, hlasting, hapart⟩).exists_gives
  exact ⟨t, hgives, ht⟩

theorem close_unlaces_chain :
    let tones : List Tone := [⟨.int 0, .int 60, 0, 30, .int 100, .none, 1⟩, ⟨.int 0, .int 60, 10, 10, .int 100, .none, 2⟩,
      ⟨.int 0, .int 60, 25, 15, .int 100, .none, 3⟩]
    (∀ y ∈ tones, 0 < y.length) ∧
      (tones.Pairwise fun y z => y.pitch = z.pitch → y.channel = z.channel → y.start ≠ z.start) ∧
      (∀ y ∈ tones, ∀ z ∈ tones, y.key = z.key → y.pitch = z.pitch ∧ y.channel = z.channel) ∧
      ∃ t, Gives close (fresh false true (tones.flatMap Tone.events)) ⟨⟩ t ∧
        Alternates false ((Event.marks "600" t.streamEvents).map Prod.snd) := by
  intro tones
  have hlasting : ∀ y ∈ tones, 0 < y.length := by simp [tones]
  have hstarts : tones.Pairwise fun y z => y.pitch = z.pitch → y.channel = z.channel → y.start ≠ z.start := by
    simp [tones]
  have hkeys : ∀ y ∈ tones, ∀ z ∈ tones, y.key = z.key → y.pitch = z.pitch ∧ y.channel = z.channel := by
    simp [tones]
  obtain ⟨t, hgives, -, hkey⟩ := close_unlaces [] tones _ (.refl _) (by simp) hlasting hstarts hkeys
  exact ⟨hlasting, hstarts, hkeys, t, hgives, (hkey "600").1⟩

end Track

end Plainsong.Midi
