import Plainsong.Proofs.Midi.Strokes
/- Notes of one key that overlap. Notes of which each starts while one before it
   still sounds make a run (`Run`). In a run every note is ended where the next one
   starts, and the last one where the last of the original ends is (`Run.strokes`).
   The main statement is that the strokes of notes, respaced and put in order, are
   those of their runs one behind the other (`exists_runs`). The invariant is that of
   a sweep along the ticks, which keeps of the notes that are open only when the last
   of them ends (`Sounds`). -/
namespace Plainsong.Midi

open Strokes List

/-- From where to where a note sounds. -/
structure Span where
  start : Int
  stop : Int
  deriving DecidableEq

namespace Span

def strokes (x : Span) : Word Int := [(x.start, true), (x.stop, false)]

/-- Where the last of some notes ends, one of which ends at `stop`. -/
def latest (stop : Int) (rest : List Span) : Int := rest.foldl (fun last x => max last x.stop) stop

/-- Each note starts before all notes in front of it have ended, the last of which ends at
    `stop`. -/
def Linked : Int → List Span → Prop
  | _, [] => True
  | stop, x :: rest => x.start < stop ∧ Linked (max stop x.stop) rest

/-- Each note starts where the one before it is made to end. -/
def relays (rest : List Span) : Word Int := rest.flatMap fun x => [(x.start, false), (x.start, true)]

/-- Notes that overlap, by their starts. -/
structure Run where
  first : Span
  rest : List Span

namespace Run

def spans (r : Run) : List Span := r.first :: r.rest

def stop (r : Run) : Int := latest r.first.stop r.rest

/-- The strokes of the notes of a run when they do not overlap any more. -/
def strokes (r : Run) : Word Int := (r.first.start, true) :: (relays r.rest ++ [(r.stop, false)])

end Run

/-- Notes grouped into runs: the notes of a run overlap, and those of two runs do not. -/
structure Grouped (xs : List Span) (runs : List Run) : Prop where
  all : (runs.flatMap Run.spans).Perm xs
  rising : (runs.flatMap Run.spans).Pairwise (·.start < ·.start)
  linked : ∀ r ∈ runs, Linked r.first.stop r.rest
  apart : runs.Pairwise fun r s => r.stop ≤ s.first.start

/-! ## The sweep -/

/-- Strokes of notes that start one after the other; of the notes that are open before them the
    last ends at the given tick. -/
inductive Sounds : Option Int → List Span → Word Int → Prop
  | silent : Sounds none [] []
  | start {x : Span} {xs : List Span} {w : Word Int} (h : Sounds (some x.stop) xs w) :
    Sounds none (x :: xs) ((x.start, true) :: w)
  | relay {last : Int} {x : Span} {xs : List Span} {w : Word Int} (hlt : x.start < last)
    (h : Sounds (some (max last x.stop)) xs w) : Sounds (some last) (x :: xs) ((x.start, false) :: (x.start, true) :: w)
  | stop {last : Int} {xs : List Span} {w : Word Int} (hle : ∀ x ∈ xs, last ≤ x.start) (h : Sounds none xs w) :
    Sounds (some last) xs ((last, false) :: w)

/-- The strokes that are left of a sweep: the ends of the notes that are open, and both strokes of
    the notes that have not begun. -/
def remaining (pending : List Int) (xs : List Span) : Word Int := pending.map (·, false) ++ xs.flatMap strokes

section Remaining

variable {pending : List Int} {xs : List Span} {w : Word Int} {tick : Int}

theorem mem_remaining_begins : (tick, true) ∈ remaining pending xs ↔ ∃ x ∈ xs, x.start = tick := by
  simp [remaining, strokes, eq_comm]

theorem mem_remaining_ends : (tick, false) ∈ remaining pending xs ↔ tick ∈ pending ∨ ∃ x ∈ xs, x.stop = tick := by
  simp [remaining, strokes, eq_comm]

theorem remaining_start (pending : List Int) (before after : List Span) (x : Span) :
    (remaining pending (before ++ x :: after)).Perm
      ((x.start, true) :: remaining (x.stop :: pending) (before ++ after)) := by
  have hmiddle : (before ++ x :: after).Perm (x :: (before ++ after)) := perm_middle
  have hflat := (hmiddle.flatMap_right strokes).append_left (pending.map (·, false))
  refine hflat.trans ?_
  rw [flatMap_cons]
  exact perm_append_comm_assoc _ _ _

theorem remaining_stop (before after : List Int) (tick : Int) (xs : List Span) :
    (remaining (before ++ tick :: after) xs).Perm ((tick, false) :: remaining (before ++ after) xs) := by
  have hmiddle : (before ++ tick :: after).Perm (tick :: (before ++ after)) := perm_middle
  exact (hmiddle.map (·, false)).append_right _

theorem follows_remaining {a : Int × Bool} (hw : (a :: w).Pairwise Follows) (hperm : w.Perm (remaining pending xs)) :
    (∀ x ∈ xs, Follows a (x.start, true)) ∧ ∀ tick ∈ pending, Follows a (tick, false) := by
  constructor
  · intro x hx
    exact rel_of_pairwise_cons hw (hperm.mem_iff.mpr (mem_remaining_begins.mpr ⟨x, hx, rfl⟩))
  · intro tick htick
    exact rel_of_pairwise_cons hw (hperm.mem_iff.mpr (mem_remaining_ends.mpr (.inl htick)))

theorem mem_pending (hw : ((tick, false) :: w).Pairwise Follows) (hperm : ((tick, false) :: w).Perm (remaining pending xs))
    (hpos : ∀ x ∈ xs, x.start < x.stop) : tick ∈ pending := by
  rcases mem_remaining_ends.mp (hperm.mem_iff.mp (mem_cons_self ..)) with h | ⟨x, hx, rfl⟩
  · exact h
  · have hbegin : (x.start, true) ∈ (x.stop, false) :: w := hperm.mem_iff.mpr (mem_remaining_begins.mpr ⟨x, hx, rfl⟩)
    have hlater : (x.start, true) ∈ w := by simpa using hbegin
    exact absurd (rel_of_pairwise_cons hw hlater).le (not_le.mpr (hpos x hx))

end Remaining

section Step

variable {pending opened : List Int} {ys : List Span} {w : Word Int}

theorem Sounds.of_begin {x : Span} (h : Sounds (x.stop :: pending).max? ys (flat (pending.length + 1) w))
    (hlt : ∀ tick ∈ pending, x.start < tick) :
    Sounds pending.max? (x :: ys) (flat pending.length ((x.start, true) :: w)) := by
  cases hmax : pending.max? with
  | none =>
    obtain rfl : pending = [] := List.max?_eq_none_iff.mp hmax
    exact .start h
  | some last =>
    rw [List.max?_cons, hmax] at h
    cases pending with
    | nil => cases hmax
    | cons p pending => exact .relay (hlt last (List.max?_mem hmax)) (max_comm x.stop last ▸ h)

theorem Sounds.of_end {tick : Int} (h : Sounds pending.max? ys (flat pending.length w)) (hpending : ∀ p ∈ pending, tick ≤ p)
    (hys : ∀ y ∈ ys, tick ≤ y.start) (hperm : opened.Perm (tick :: pending)) :
    Sounds opened.max? ys (flat opened.length ((tick, false) :: w)) := by
  rw [hperm.length_eq, length_cons]
  cases hmax : pending.max? with
  | none =>
    obtain rfl : pending = [] := List.max?_eq_none_iff.mp hmax
    obtain rfl : opened = [tick] := perm_singleton.mp hperm
    exact .stop hys h
  | some last =>
    obtain ⟨hlast, hmost⟩ := List.max?_eq_some_iff.mp hmax
    have hsame : opened.max? = some last := by
      rw [List.max?_eq_some_iff]
      refine ⟨hperm.mem_iff.mpr (mem_cons_of_mem _ hlast), fun p hp => ?_⟩
      rcases mem_cons.mp (hperm.mem_iff.mp hp) with rfl | hp
      · exact hpending last hlast
      · exact hmost p hp
    rw [hsame, ← hmax]
    cases pending with
    | nil => cases hlast
    | cons p pending => exact h

end Step

theorem exists_sounds {w : Word Int} {pending : List Int} {xs : List Span} (hw : w.Pairwise Follows)
    (hperm : w.Perm (remaining pending xs)) (hpos : ∀ x ∈ xs, x.start < x.stop) :
    depth pending.length w = some 0 ∧ ∃ ys : List Span, ys.Perm xs ∧ ys.Pairwise (·.start < ·.start) ∧
      Sounds pending.max? ys (flat pending.length w) := by
  induction w generalizing pending xs with
  | nil =>
    have hnil := hperm.symm.eq_nil
    obtain ⟨hpending, hxs⟩ : pending = [] ∧ ∀ x ∈ xs, x.strokes = [] := by simpa [remaining] using hnil
    obtain rfl : xs = [] := eq_nil_iff_forall_not_mem.mpr fun x hx => absurd (hxs x hx) (by simp [strokes])
    subst hpending
    exact ⟨rfl, [], .refl _, .nil, .silent⟩
  | cons a w ih =>
    obtain ⟨tick, begins⟩ := a
    cases begins with
    | true =>
      obtain ⟨x, hx, rfl⟩ := mem_remaining_begins.mp (hperm.mem_iff.mp (mem_cons_self ..))
      obtain ⟨before, after, rfl⟩ := mem_iff_append.mp hx
      have hrest : w.Perm (remaining (x.stop :: pending) (before ++ after)) :=
        (hperm.trans (remaining_start pending before after x)).cons_inv
      have hmiddle : (before ++ x :: after).Perm (x :: (before ++ after)) := perm_middle
      obtain ⟨hdepth, ys, hys, hrising, hsounds⟩ := ih hw.of_cons hrest fun y hy =>
        hpos y (hmiddle.mem_iff.mpr (mem_cons_of_mem x hy))
      obtain ⟨hstarts, hends⟩ := follows_remaining hw hrest
      have hlater : ∀ y ∈ ys, x.start < y.start := fun y hy => (hstarts y (hys.mem_iff.mp hy)).lt
      have hopen : ∀ stop ∈ pending, x.start < stop := fun stop hstop => (hends stop (mem_cons_of_mem _ hstop)).lt
      exact ⟨hdepth, x :: ys, (hys.cons x).trans hmiddle.symm, pairwise_cons.mpr ⟨hlater, hrising⟩,
        hsounds.of_begin hopen⟩
    | false =>
      obtain ⟨before, after, rfl⟩ := mem_iff_append.mp (mem_pending hw hperm hpos)
      have hrest : w.Perm (remaining (before ++ after) xs) := (hperm.trans (remaining_stop before after tick xs)).cons_inv
      have hmiddle : (before ++ tick :: after).Perm (tick :: (before ++ after)) := perm_middle
      obtain ⟨hdepth, ys, hys, hrising, hsounds⟩ := ih hw.of_cons hrest hpos
      obtain ⟨hstarts, hends⟩ := follows_remaining hw hrest
      refine ⟨?_, ys, hys, hrising, hsounds.of_end (fun stop hstop => (hends stop hstop).le)
        (fun y hy => (hstarts y (hys.mem_iff.mp hy)).le) hmiddle⟩
      rw [hmiddle.length_eq]
      exact hdepth

/-! ## Runs -/

theorem Sounds.split {last? : Option Int} {ys : List Span} {w : Word Int} (h : Sounds last? ys w) :
    ∃ (rest : List Span) (runs : List Run), ys = rest ++ runs.flatMap Run.spans ∧
      (∀ r ∈ runs, Linked r.first.stop r.rest) ∧ (runs.Pairwise fun r s => r.stop ≤ s.first.start) ∧
      (last? = none → rest = [] ∧ w = runs.flatMap Run.strokes) ∧
      ∀ last, last? = some last → Linked last rest ∧ (∀ r ∈ runs, latest last rest ≤ r.first.start) ∧
        w = relays rest ++ (latest last rest, false) :: runs.flatMap Run.strokes := by
  induction h with
  | silent => exact ⟨[], [], rfl, by simp, .nil, fun _ => ⟨rfl, rfl⟩, by simp⟩
  | @start x xs w _ ih =>
    obtain ⟨rest, runs, rfl, hlinked, hapart, -, hopen⟩ := ih
    obtain ⟨hrest, hlater, rfl⟩ := hopen x.stop rfl
    refine ⟨[], ⟨x, rest⟩ :: runs, by simp [Run.spans], ?_, pairwise_cons.mpr ⟨hlater, hapart⟩,
      fun _ => ⟨rfl, by simp [Run.strokes, Run.stop]⟩, by simp⟩
    exact forall_mem_cons.mpr ⟨hrest, hlinked⟩
  | @relay last x xs w hlt _ ih =>
    obtain ⟨rest, runs, rfl, hlinked, hapart, -, hopen⟩ := ih
    obtain ⟨hrest, hlater, rfl⟩ := hopen _ rfl
    refine ⟨x :: rest, runs, rfl, hlinked, hapart, by simp, fun last' heq => ?_⟩
    obtain rfl : last = last' := Option.some.inj heq
    exact ⟨⟨hlt, hrest⟩, hlater, rfl⟩
  | @stop last xs w hle _ ih =>
    obtain ⟨rest, runs, rfl, hlinked, hapart, hclosed, -⟩ := ih
    obtain ⟨rfl, rfl⟩ := hclosed rfl
    refine ⟨[], runs, rfl, hlinked, hapart, by simp, fun last' heq => ?_⟩
    obtain rfl : last = last' := Option.some.inj heq
    refine ⟨trivial, fun r hr => hle r.first ?_, rfl⟩
    exact mem_flatMap.mpr ⟨r, hr, mem_cons_self ..⟩

theorem exists_runs {w : Word Int} {xs : List Span} (hw : w.Pairwise Follows) (hperm : w.Perm (xs.flatMap strokes))
    (hpos : ∀ x ∈ xs, x.start < x.stop) :
    depth 0 w = some 0 ∧ ∃ runs, Grouped xs runs ∧ flat 0 w = runs.flatMap Run.strokes := by
  have hremaining : w.Perm (remaining [] xs) := hperm
  obtain ⟨hdepth, ys, hys, hrising, hsounds⟩ := exists_sounds hw hremaining hpos
  obtain ⟨rest, runs, rfl, hlinked, hapart, hclosed, -⟩ := hsounds.split
  obtain ⟨rfl, hflat⟩ := hclosed rfl
  exact ⟨hdepth, runs, ⟨hys, hrising, hlinked, hapart⟩, hflat⟩

end Span

end Plainsong.Midi
