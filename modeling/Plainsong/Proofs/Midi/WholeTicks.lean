import Plainsong.Midi.Track
import Plainsong.Proofs.Outcome
/- Events at whole ticks, be they below zero or not. They can all be compared, by
   tick, then rank, then number (`upTo`), so any list of them can be put in order
   (`sorted_whole`) and none of the passes that close a track can fail on them
   before the notes are separated. -/
namespace Plainsong.Midi

open Gives

theorem same_int (m n : Int) : (Datum.int m).same (.int n) = decide (m = n) := by
  have h : compare m n = .eq ↔ m = n := Int.compare_eq_eq
  by_cases hmn : m = n
  · simp [Datum.same, Datum.compare?, Datum.whole?, hmn]
  · simp [Datum.same, Datum.compare?, Datum.whole?, h, hmn]

theorem before?_int (m n : Int) : (Datum.int m).before? (.int n) = some (decide (m < n)) := by
  have h : compare m n = .lt ↔ m < n := Int.compare_eq_lt
  by_cases hmn : m < n
  · simp [Datum.before?, Datum.compare?, Datum.whole?, h.mpr hmn, hmn]
  · have : ¬ compare m n = .lt := fun hc => hmn (h.mp hc)
    simp [Datum.before?, Datum.compare?, Datum.whole?, this, hmn]

theorem add_int (m n : Int) : (Datum.int m).add (.int n) = .ok (.int (m + n)) := rfl

theorem sub_int (m n : Int) : (Datum.int m).sub (.int n) = .ok (.int (m - n)) := rfl

namespace Event

/-- The tick as a whole number. -/
def instant (e : Event) : Int :=
  match e.tick with
  | .int n => n
  | _ => 0

/-- The event is at a whole tick. -/
def Whole (e : Event) : Prop := e.tick = .int e.instant

theorem Whole.of_int {e : Event} {n : Int} (h : e.tick = .int n) : e.Whole ∧ e.instant = n := by
  have hn : e.instant = n := by rw [instant, h]
  exact ⟨by rw [Whole, hn, h], hn⟩

/-- The order of events by tick, rank and number. -/
def upTo (a b : Event) : Bool :=
  decide (a.instant < b.instant ∨
    a.instant = b.instant ∧ (a.rank < b.rank ∨ a.rank = b.rank ∧ a.order ≤ b.order))

theorem upTo_trans (a b c : Event) (hab : a.upTo b = true) (hbc : b.upTo c = true) : a.upTo c = true := by
  simp only [upTo, decide_eq_true_eq] at *
  omega

theorem upTo_total (a b : Event) : (a.upTo b || b.upTo a) = true := by
  simp only [upTo, Bool.or_eq_true, decide_eq_true_eq]
  omega

section Whole

variable {a b : Event} (ha : a.Whole) (hb : b.Whole)
include ha hb

theorem Whole.le_eq : a.le b = a.upTo b := by
  rw [Bool.eq_iff_iff, le, upTo, decide_eq_true_eq, ha, hb, same_int, before?_int]
  by_cases h : a.instant = b.instant
  · simp [h]
  · simp only [decide_eq_true_eq, if_neg h]
    simp [h]

theorem Whole.comparable : a.comparable b = true := by
  rw [Event.comparable, ha, hb, before?_int]
  simp

theorem Whole.same_eq : a.same b = (decide (a.instant = b.instant) && a.deed.same b.deed) := by
  rw [Event.same, ha, hb, same_int]

end Whole

theorem Whole.fingerprint {e : Event} (h : e.Whole) : ∃ k, e.fingerprint = .ok k := by
  rw [Event.fingerprint, h]
  exact ⟨_, rfl⟩

end Event

theorem mergeSort_congr {α : Type} {l : List α} {r s : α → α → Bool} (h : ∀ a ∈ l, ∀ b ∈ l, r a b = s a b) :
    l.mergeSort r = l.mergeSort s := by
  simpa only [List.map_id] using List.map_mergeSort (f := id) h

namespace Track

/-! ## Order -/

def ordered (t : Track) (ids : List Nat) : List Nat := ids.mergeSort fun i j => (t.event i).upTo (t.event j)

theorem ordered_perm (t : Track) (ids : List Nat) : (t.ordered ids).Perm ids := List.mergeSort_perm _ _

theorem pairwise_ordered (t : Track) (ids : List Nat) :
    (t.ordered ids).Pairwise fun i j => (t.event i).upTo (t.event j) = true :=
  List.pairwise_mergeSort (fun i j k => Event.upTo_trans (t.event i) (t.event j) (t.event k))
    (fun i j => Event.upTo_total (t.event i) (t.event j)) ids

theorem ordered_ordered (t : Track) (ids : List Nat) : t.ordered (t.ordered ids) = t.ordered ids :=
  List.mergeSort_of_pairwise (t.pairwise_ordered ids)

theorem map_event_ordered (t : Track) (ids : List Nat) : (t.ordered ids).map t.event = (ids.map t.event).mergeSort Event.upTo :=
  List.map_mergeSort fun _ _ _ _ => rfl

/-- All these events are at whole ticks. -/
def Sound (t : Track) (ids : List Nat) : Prop := ∀ i ∈ ids, (t.event i).Whole

variable {ids : List Nat} {t : Track}

theorem Sound.ordered (h : t.Sound ids) : t.Sound (t.ordered ids) :=
  fun i hi => h i ((t.ordered_perm ids).mem_iff.mp hi)

theorem sorted_whole (h : t.Sound ids) : t.sorted ids = .ok (t.ordered ids) := by
  cases ids with
  | nil => simp [Track.sorted, Track.ordered]
  | cons first rest =>
    have hcomparable : ((first :: rest).all fun i => (t.event first).comparable (t.event i)) = true :=
      List.all_eq_true.mpr fun i hi => (h first (by simp)).comparable (h i hi)
    rw [Track.sorted, if_pos hcomparable, mergeSort_congr fun i hi j hj => (h i hi).le_eq (h j hj)]
    rfl

theorem sortStream_whole (h : t.Sound t.stream) : Gives sortStream t ⟨⟩ { t with stream := t.ordered t.stream } :=
  of_bind (of_get t) (of_bind (of_except (sorted_whole h) t) (of_set _ _))

theorem sortStream_ordered (h : t.Sound t.stream) :
    Gives sortStream { t with stream := t.ordered t.stream } ⟨⟩ { t with stream := t.ordered t.stream } := by
  have hsame : Track.ordered { t with stream := t.ordered t.stream } (t.ordered t.stream) = t.ordered t.stream :=
    t.ordered_ordered _
  have hsort := sortStream_whole (t := { t with stream := t.ordered t.stream }) h.ordered
  rwa [hsame] at hsort

theorem removeDuplicates_of_sorted (h : t.Sound t.added)
    (hsorted : t.sorted (t.distinct t.added) = .ok ids) : Gives removeDuplicates t ⟨⟩ { t with added := ids } := by
  have hloop : Gives (t.added.forM fun i => discard (liftM (t.event i).fingerprint : Act Track Int)) t ⟨⟩ t := by
    refine of_forM fun i hi => ?_
    obtain ⟨k, hk⟩ := (h i hi).fingerprint
    rw [hk]
    rfl
  have hsorted : Track.sorted { t with added := t.distinct t.added } (t.distinct t.added) = .ok ids := hsorted
  exact of_bind (of_get t) (of_bind hloop (of_bind (of_set _ _)
    (of_bind (of_get _) (of_bind (of_except hsorted _) (of_set _ _)))))

end Track

end Plainsong.Midi
