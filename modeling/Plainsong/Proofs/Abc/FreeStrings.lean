import Mathlib
import Plainsong.Abc.Strings
/- Strings that are asked for. The notes of a staff are dealt out to its strings: a string is asked
   whether it is free for a span of time (`take`) or is given the span in any case (`force`), and
   each voice searches anew from the start (`rewind`). A `Desk` keeps beside the strings what each
   of them has been given and when the span it was last asked for begins. What stands before the
   place from which a search goes on has ended by then, so that a search from there finds what a
   search from the start would (`take_eq`). While nothing is forced, a string is free just if
   nothing that it was given overlaps (`take_iff_free`). A span that is forced may begin inside
   another one and hide it from the searches for earlier times; but a search goes wrong in no
   other way (`taken_before_hidden`). -/
namespace Plainsong.Abc

open List

namespace Span

/-- The spans have a moment in common. -/
def Overlaps (x y : Span) : Prop := x.start < y.stop ∧ y.start < x.stop

instance (x y : Span) : Decidable (x.Overlaps y) := inferInstanceAs (Decidable (_ ∧ _))

/-- The span begins while the other sounds, and not at its start. -/
def BeginsInside (y x : Span) : Prop := x.start < y.start ∧ y.start < x.stop

end Span

namespace Strings

def isOver (t : Int) (x : Span) : Bool := decide (x.stop ≤ t)

variable {new x : Span} {xs : List Span} {k c : Nat}

/-! ## The spans of one string -/

/-- The first span that is not over when the new one begins does not begin before the new one ends. -/
def isFree (new : Span) (xs : List Span) : Bool :=
  (xs.dropWhile (isOver new.start)).head?.all fun y => decide (new.stop ≤ y.start)

theorem squeeze_eq (new : Span) (xs : List Span) :
    squeeze new xs = xs.takeWhile (isOver new.start) ++ new :: xs.dropWhile (isOver new.start) := by
  induction xs with
  | nil => rfl
  | cons x xs ih =>
    by_cases hx : x.stop ≤ new.start
    · simp [squeeze, isOver, hx, ih]
    · simp [squeeze, isOver, hx]

theorem squeeze_perm (new : Span) (xs : List Span) : (squeeze new xs).Perm (new :: xs) := by
  rw [squeeze_eq]
  exact perm_middle.trans (by rw [takeWhile_append_dropWhile])

theorem fit_eq (hnew : new.start < new.stop) (xs : List Span) (i : Nat) :
    fit new xs i = (i + (xs.takeWhile (isOver new.start)).length, if isFree new xs then some (squeeze new xs) else none) := by
  induction xs generalizing i with
  | nil => rfl
  | cons x xs ih =>
    by_cases hx : x.stop ≤ new.start
    · have hfree : isFree new (x :: xs) = isFree new xs := by simp [isFree, isOver, hx]
      rw [fit, if_pos hx, ih, hfree]
      refine Prod.ext (by simp [isOver, hx]; omega) ?_
      by_cases hf : isFree new xs = true <;> simp [hf, squeeze, hx]
    · have hfree : isFree new (x :: xs) = decide (new.stop ≤ x.start) := by simp [isFree, isOver, hx]
      rw [fit, if_neg hx, hfree]
      by_cases hstart : x.start < new.stop
      · simp [isOver, hx, hstart]
      · have hlate : ¬ x.start ≤ new.start := by omega
        simp [isOver, hx, hstart, hlate, squeeze, Int.not_lt.mp hstart]

theorem search_from {p : Span → Bool} (h : c ≤ (xs.takeWhile p).length) :
    (xs.drop c).takeWhile p = (xs.takeWhile p).drop c ∧ (xs.drop c).dropWhile p = xs.dropWhile p ∧
      xs.take c = (xs.takeWhile p).take c := by
  induction xs generalizing c with
  | nil => simp
  | cons x xs ih =>
    cases c with
    | zero => simp
    | succ c =>
      by_cases hx : p x = true
      · simp only [takeWhile_cons, hx, if_true, length_cons, Nat.add_le_add_iff_right] at h
        simpa [hx] using ih h
      · simp [hx] at h

theorem place?_lt {n : Nat} {i : Int} (h : place? n i = some k) : k < n := by
  unfold place? at h
  split_ifs at h <;> · cases h; omega

/-- A search may go on from a place that only spans stand before that are over. -/
theorem take_eq {s : Strings} {string : Int} (hk : place? s.busy.length string = some k)
    (hcursors : s.cursor.length = s.busy.length) (hnew : new.start < new.stop)
    (hpassed : s.cursor.getD k 0 ≤ ((s.busy.getD k []).takeWhile (isOver new.start)).length) :
    s.take string new = .ok (isFree new (s.busy.getD k []),
      { s with
        cursor := s.cursor.set k ((s.busy.getD k []).takeWhile (isOver new.start)).length
        busy := if isFree new (s.busy.getD k []) then s.busy.set k (squeeze new (s.busy.getD k [])) else s.busy }) := by
  generalize hxs : s.busy.getD k [] = xs at hpassed ⊢
  generalize hc : s.cursor.getD k 0 = c at hpassed
  obtain ⟨htake, hdrop, hfront⟩ := search_from hpassed
  have hle : c ≤ xs.length := hpassed.trans (takeWhile_sublist _).length_le
  have hfree : isFree new (xs.drop c) = isFree new xs := by rw [isFree, hdrop, isFree]
  have hfit : fit new (xs.drop c) (min c xs.length) = ((xs.takeWhile (isOver new.start)).length,
      if isFree new xs then some (squeeze new (xs.drop c)) else none) := by
    rw [fit_eq hnew, htake, hfree, length_drop, Nat.min_eq_left hle, Nat.add_sub_cancel' hpassed]
  have hsqueeze : xs.take c ++ squeeze new (xs.drop c) = squeeze new xs := by
    rw [squeeze_eq, squeeze_eq, htake, hdrop, hfront, ← append_assoc, take_append_drop]
  rw [take, hcursors, hk]
  dsimp only
  rw [hxs, hc, hfit]
  by_cases hf : isFree new xs = true
  · simp only [hf, if_true, hsqueeze]
  · simp only [hf, Bool.false_eq_true, if_false]

/-- What stands before the spans that a new one was put before, and what stands behind. -/
theorem pairwise_squeeze {R : Span → Span → Prop} (h : xs.Pairwise R)
    (hbefore : ∀ x ∈ xs.takeWhile (isOver new.start), R x new)
    (hbehind : ∀ y ∈ xs.dropWhile (isOver new.start), R new y) : (squeeze new xs).Pairwise R := by
  rw [← takeWhile_append_dropWhile (p := isOver new.start) (l := xs), pairwise_append] at h
  rw [squeeze_eq, pairwise_append]
  refine ⟨h.1, pairwise_cons.mpr ⟨hbehind, h.2.1⟩, fun x hx y hy => ?_⟩
  rcases mem_cons.mp hy with rfl | hy
  · exact hbefore x hx
  · exact h.2.2 x hx y hy

theorem over_of_mem {t : Int} (h : x ∈ xs.takeWhile (isOver t)) : x.stop ≤ t := by
  simpa [isOver] using mem_takeWhile_imp h

/-- Behind the spans that are over stands first one that is not. -/
theorem behind_cases {t : Int} (h : x ∈ xs.dropWhile (isOver t)) :
    ∃ y rest, xs.dropWhile (isOver t) = y :: rest ∧ y ∈ xs ∧ t < y.stop := by
  obtain ⟨y, rest, hrest⟩ := exists_cons_of_ne_nil (ne_nil_of_mem h)
  have hy := head_dropWhile_not (isOver t) (l := xs) (by rw [hrest]; exact cons_ne_nil _ _)
  simp only [hrest, head_cons, isOver, decide_eq_false_iff_not, Int.not_le] at hy
  exact ⟨y, rest, hrest, (dropWhile_sublist _).subset (hrest ▸ mem_cons_self), hy⟩

theorem behind_of_overlaps (hx : x ∈ xs) (h : new.Overlaps x) : x ∈ xs.dropWhile (isOver new.start) := by
  rw [← takeWhile_append_dropWhile (p := isOver new.start) (l := xs), mem_append] at hx
  exact hx.resolve_left fun hover => absurd h.1 (Int.not_lt.mpr (over_of_mem hover))

theorem stop_le_of_isFree {y : Span} {rest : List Span} (h : isFree new xs = true)
    (hrest : xs.dropWhile (isOver new.start) = y :: rest) : new.stop ≤ y.start := by
  simpa [isFree, hrest] using h

theorem isFree_of_disjoint (h : ∀ x ∈ xs, ¬ new.Overlaps x) : isFree new xs = true := by
  rw [isFree]
  cases hrest : xs.dropWhile (isOver new.start) with
  | nil => rfl
  | cons x rest =>
    obtain ⟨y, rest', hy, hmem, hstop⟩ := behind_cases (hrest ▸ mem_cons_self : x ∈ xs.dropWhile (isOver new.start))
    obtain rfl : x = y := (cons.inj (hrest.symm.trans hy)).1
    simpa using Int.not_lt.mp fun hlt => h x hmem ⟨hstop, hlt⟩

/-! ### Spans one behind the other -/

def Apart (xs : List Span) : Prop := xs.Pairwise fun x y => x.stop ≤ y.start

/-- A span for which there is room comes before all that are not over. -/
theorem Apart.stop_le (h : Apart xs) (hproper : ∀ x ∈ xs, x.start < x.stop) (hfree : isFree new xs = true)
    (hx : x ∈ xs.dropWhile (isOver new.start)) : new.stop ≤ x.start := by
  obtain ⟨y, rest, hrest, hy, -⟩ := behind_cases hx
  have hstop := stop_le_of_isFree hfree hrest
  have hpairs := h.sublist (dropWhile_sublist (isOver new.start))
  rw [hrest] at hx hpairs
  rcases mem_cons.mp hx with rfl | hx
  · exact hstop
  · have hbefore := (pairwise_cons.mp hpairs).1 x hx
    have := hproper y hy
    omega

theorem Apart.isFree_iff (h : Apart xs) (hproper : ∀ x ∈ xs, x.start < x.stop) :
    isFree new xs = true ↔ ∀ x ∈ xs, ¬ new.Overlaps x := by
  refine ⟨fun hfree x hx hover => ?_, isFree_of_disjoint⟩
  have := h.stop_le hproper hfree (behind_of_overlaps hx hover)
  exact absurd hover.2 (by omega)

theorem Apart.squeeze (h : Apart xs) (hproper : ∀ x ∈ xs, x.start < x.stop) (hfree : isFree new xs = true) :
    Apart (Strings.squeeze new xs) :=
  pairwise_squeeze h (fun _ hx => over_of_mem hx) fun _ hx => h.stop_le hproper hfree hx

/-! ### Spans that may overlap -/

/-- Some span goes on at the time, and has begun before. -/
def Covers (xs : List Span) (t : Int) : Prop := ∃ x ∈ xs, x.start < t ∧ t < x.stop

/-- Where a span stands before one that begins earlier, the times from the one start to the other
    are covered. -/
def Covered (xs : List Span) : Prop := xs.Pairwise fun x y => ∀ t, y.start < t → t ≤ x.start → Covers xs t

theorem Covered.behind (h : Covered xs) {y : Span} {rest : List Span} {t u : Int}
    (hrest : xs.dropWhile (isOver u) = y :: rest) (hx : x ∈ y :: rest) (hstart : x.start < t) (hle : t ≤ y.start) :
    Covers xs t := by
  have hpairs := h.sublist (dropWhile_sublist (isOver u))
  rw [hrest] at hpairs
  rcases mem_cons.mp hx with rfl | hx
  · omega
  · exact (pairwise_cons.mp hpairs).1 x hx t hstart hle

theorem Covered.squeeze (h : Covered xs) (hproper : ∀ x ∈ xs, x.start < x.stop) : Covered (Strings.squeeze new xs) := by
  have hkept : ∀ t, Covers xs t → Covers (Strings.squeeze new xs) t := by
    rintro t ⟨x, hx, ht⟩
    exact ⟨x, (squeeze_perm new xs).symm.subset (mem_cons_of_mem _ hx), ht⟩
  refine pairwise_squeeze (h.imp fun hxy t hy hx => hkept t (hxy t hy hx)) (fun x hx t hstart hle => ?_)
    fun x hx t hstart hle => hkept t ?_
  · have := over_of_mem hx
    have := hproper x ((takeWhile_sublist _).subset hx)
    omega
  · -- the first that is not over goes on when the new one begins
    obtain ⟨y, rest, hrest, hy, hstop⟩ := behind_cases hx
    by_cases hlt : y.start < t
    · exact ⟨y, hy, hlt, by omega⟩
    · exact h.behind hrest (hrest ▸ hx) hstart (by omega)

/-- If there seems to be room in spite of a span that overlaps, the search ended at a later one that
    begins inside another. -/
theorem Covered.hidden (h : Covered xs) (hfree : isFree new xs = true) (hx : x ∈ xs) (hover : new.Overlaps x) :
    ∃ y ∈ xs, new.stop ≤ y.start ∧ ∃ z ∈ xs, y.BeginsInside z := by
  have hbehind := behind_of_overlaps hx hover
  obtain ⟨y, rest, hrest, hy, -⟩ := behind_cases hbehind
  have hstop := stop_le_of_isFree hfree hrest
  have hstart : x.start < y.start := lt_of_lt_of_le hover.2 hstop
  exact ⟨y, hy, hstop, h.behind hrest (hrest ▸ hbehind) hstart le_rfl⟩

end Strings

/-! ## What the strings have been asked for -/

inductive Request where
  | rewind
  | turnTo (count : Int) (staff : StaffName)
  | take (string : Int) (new : Span)
  | force (string : Int) (new : Span)

def Request.isForce : Request → Bool
  | .force _ _ => true
  | _ => false

/-- The strings of a staff, what each of them has been given since the staff was turned to, and when
    the span that it was last asked for in this search begins. -/
structure Desk where
  strings : Strings := {}
  given : Nat → List Span := fun _ => []
  latest : Nat → Option Int := fun _ => none

namespace Desk

open Strings (isOver isFree squeeze Apart Covered)

variable {d : Desk} {P : List Span → Prop} {new : Span} {string : Int} {k : Nat}

/-- What stands on a string. -/
abbrev held (d : Desk) (k : Nat) : List Span := d.strings.busy.getD k []

abbrev place (d : Desk) (string : Int) : Option Nat := Strings.place? d.strings.busy.length string

def record (d : Desk) (strings : Strings) (k : Nat) (new : Span) (isGiven : Bool) : Desk where
  strings := strings
  given := if isGiven then Function.update d.given k (new :: d.given k) else d.given
  latest := Function.update d.latest k (some new.start)

def after (d : Desk) : Request → Desk
  | .rewind => { d with strings := d.strings.rewind, latest := fun _ => none }
  | .turnTo count staff => if staff = d.strings.staff then d else { strings := d.strings.turnTo count staff }
  | .take string new =>
    match d.place string, d.strings.take string new with
    | some k, .ok (answer, strings) => d.record strings k new answer
    | _, _ => d
  | .force string new =>
    match d.place string, d.strings.force string new with
    | some k, .ok strings => d.record strings k new true
    | _, _ => d

/-- The span has a length, and the string was not asked for a later one in this search. -/
def IsNext (d : Desk) (string : Int) (new : Span) : Prop :=
  new.start < new.stop ∧ ∀ k ∈ d.place string, ∀ t ∈ d.latest k, t ≤ new.start

instance (d : Desk) (string : Int) (new : Span) : Decidable (d.IsNext string new) := inferInstanceAs (Decidable (_ ∧ _))

def Fair (d : Desk) : Request → Prop
  | .take string new | .force string new => d.IsNext string new
  | _ => True

instance (d : Desk) : (q : Request) → Decidable (d.Fair q)
  | .take string new | .force string new => inferInstanceAs (Decidable (d.IsNext string new))
  | .rewind | .turnTo _ _ => .isTrue trivial

def Orderly (d : Desk) : List Request → Prop
  | [] => True
  | q :: qs => d.Fair q ∧ (d.after q).Orderly qs

instance (d : Desk) : (qs : List Request) → Decidable (d.Orderly qs)
  | [] => .isTrue trivial
  | q :: qs =>
    have := instDecidableOrderly (d.after q) qs
    inferInstanceAs (Decidable (_ ∧ _))

/-- The strings after these requests. -/
def asked (qs : List Request) : Desk := qs.foldl after {}

/-- The strings hold what they were given, and before the place from which a search goes on all is over. -/
structure Kept (P : List Span → Prop) (d : Desk) : Prop where
  cursors : d.strings.cursor.length = d.strings.busy.length
  given : ∀ k, (d.held k).Perm (d.given k)
  proper : ∀ k, ∀ x ∈ d.held k, x.start < x.stop
  passed : ∀ k t, (∀ u ∈ d.latest k, u ≤ t) → d.strings.cursor.getD k 0 ≤ ((d.held k).takeWhile (isOver t)).length
  holds : ∀ k, P (d.held k)

theorem getD_set {α : Type} {l : List α} (hk : k < l.length) (a b : α) (j : Nat) :
    (l.set k a).getD j b = if j = k then a else l.getD j b := by
  by_cases hj : j = k
  · simp [hj, hk]
  · simp [hj, getElem?_set_ne (Ne.symm hj)]

theorem length_le_takeWhile {p : Span → Bool} {front rest : List Span} (h : ∀ x ∈ front, p x = true) :
    front.length ≤ ((front ++ rest).takeWhile p).length := by
  rw [takeWhile_append_of_pos h, length_append]
  exact Nat.le_add_right _ _

/-- One string was asked for a span, and perhaps has got it. -/
theorem Kept.record (h : Kept P d) (hk : k < d.strings.busy.length) (hnew : new.start < new.stop)
    {strings : Strings} {isGiven : Bool} {c : Nat}
    (hbusy : strings.busy = if isGiven then d.strings.busy.set k (squeeze new (d.held k)) else d.strings.busy)
    (hcursor : strings.cursor = d.strings.cursor.set k c) (hc : c ≤ ((d.held k).takeWhile (isOver new.start)).length)
    (hP : isGiven = true → P (squeeze new (d.held k))) : Kept P (d.record strings k new isGiven) := by
  have hheld : ∀ j, (d.record strings k new isGiven).held j =
      if j = k ∧ isGiven = true then squeeze new (d.held k) else d.held j := by
    intro j
    show strings.busy.getD j [] = _
    rw [hbusy]
    cases isGiven with
    | false => simp
    | true => rw [if_pos rfl, getD_set hk]; simp
  constructor
  case cursors =>
    show strings.cursor.length = strings.busy.length
    rw [hcursor, hbusy]
    split_ifs <;> simp [h.cursors]
  case given =>
    intro j
    rw [hheld]
    cases isGiven with
    | false => simpa [Desk.record] using h.given j
    | true =>
      by_cases hj : j = k
      · subst hj
        simpa [Desk.record] using (Strings.squeeze_perm new _).trans ((h.given j).cons new)
      · simpa [Desk.record, hj] using h.given j
  case proper =>
    intro j x hx
    rw [hheld] at hx
    split_ifs at hx with hj
    · rcases mem_cons.mp ((Strings.squeeze_perm new _).subset hx) with rfl | hx
      · exact hnew
      · exact h.proper k x hx
    · exact h.proper j x hx
  case passed =>
    intro j t ht
    rw [hheld]
    show strings.cursor.getD j 0 ≤ _
    rw [hcursor, getD_set (h.cursors ▸ hk)]
    by_cases hj : j = k
    · subst hj
      have hstart : new.start ≤ t := ht new.start (by simp [Desk.record])
      have hover : ∀ x ∈ (d.held j).takeWhile (isOver new.start), isOver t x = true := fun x hx =>
        decide_eq_true ((Strings.over_of_mem hx).trans hstart)
      rw [if_pos rfl]
      refine hc.trans ?_
      split_ifs
      · rw [Strings.squeeze_eq]
        exact length_le_takeWhile hover
      · conv_rhs => rw [← takeWhile_append_dropWhile (p := isOver new.start) (l := d.held j)]
        exact length_le_takeWhile hover
    · simp only [hj, if_false, false_and]
      exact h.passed j t fun u hu => ht u (by simpa [Desk.record, hj] using hu)
  case holds =>
    intro j
    rw [hheld]
    split_ifs with hj
    · exact hP hj.2
    · exact h.holds j

theorem Kept.take_eq (h : Kept P d) (hk : d.place string = some k) (hnext : d.IsNext string new) :
    d.strings.take string new = .ok (isFree new (d.held k),
      { d.strings with
        cursor := d.strings.cursor.set k ((d.held k).takeWhile (isOver new.start)).length
        busy := if isFree new (d.held k) then d.strings.busy.set k (squeeze new (d.held k)) else d.strings.busy }) :=
  Strings.take_eq hk h.cursors hnext.1 (h.passed k new.start (hnext.2 k hk))

theorem set_getD_self {α : Type} (l : List α) (k : Nat) (a : α) : l.set k (l.getD k a) = l := by
  refine ext_getElem? fun j => ?_
  rw [getElem?_set]
  split_ifs with hj hlt
  · subst hj
    simp [hlt]
  · subst hj
    simp_all
  · rfl

theorem Kept.after {q : Request} (hnil : P [])
    (htake : ∀ {new xs}, P xs → (∀ x ∈ xs, x.start < x.stop) → isFree new xs = true → P (squeeze new xs))
    (hforce : q.isForce = true → ∀ {new xs}, P xs → (∀ x ∈ xs, x.start < x.stop) → P (squeeze new xs))
    (h : Kept P d) (hfair : d.Fair q) : Kept P (d.after q) := by
  cases q with
  | rewind =>
    exact ⟨by simp [Desk.after, Strings.rewind], h.given, h.proper,
      fun k t _ => by simp [Desk.after, Strings.rewind, getD_eq_getElem?_getD], h.holds⟩
  | turnTo count staff =>
    rw [Desk.after]
    split_ifs with hstaff
    · exact h
    have hheld : ∀ k, (d.strings.turnTo count staff).busy.getD k [] = [] := fun k => by
      simp only [Strings.turnTo, hstaff, if_false, Strings.rewind, getD_eq_getElem?_getD, getElem?_replicate]
      split <;> rfl
    have hcursor : ∀ k, (d.strings.turnTo count staff).cursor.getD k 0 = 0 := fun k => by
      simp [Strings.turnTo, hstaff, Strings.rewind, getD_eq_getElem?_getD]
    constructor <;> simp only [held, hheld, hcursor, hnil, Perm.refl, not_mem_nil, Nat.zero_le, implies_true, false_imp_iff]
    simp [Strings.turnTo, hstaff, Strings.rewind]
  | take string new =>
    rw [Desk.after]
    cases hk : d.place string with
    | none => exact h
    | some k =>
      rw [h.take_eq hk hfair]
      exact h.record (Strings.place?_lt hk) hfair.1 rfl rfl le_rfl (htake (h.holds k) (h.proper k))
  | force string new =>
    rw [Desk.after]
    cases hk : d.place string with
    | none => exact h
    | some k =>
      have hgiven : d.strings.force string new = .ok { d.strings with busy := d.strings.busy.set k (squeeze new (d.held k)) } := by
        rw [Strings.force, show Strings.place? _ string = some k from hk]
      rw [hgiven]
      exact h.record (Strings.place?_lt hk) hfair.1 rfl (set_getD_self _ k 0).symm (h.passed k new.start (hfair.2 k hk))
        fun _ => hforce rfl (h.holds k) (h.proper k)

theorem Kept.run {qs : List Request} (hnil : P [])
    (htake : ∀ {new xs}, P xs → (∀ x ∈ xs, x.start < x.stop) → isFree new xs = true → P (squeeze new xs))
    (hforce : (∃ q ∈ qs, q.isForce = true) → ∀ {new xs}, P xs → (∀ x ∈ xs, x.start < x.stop) → P (squeeze new xs))
    (h : Kept P d) (horderly : d.Orderly qs) : Kept P (qs.foldl Desk.after d) := by
  induction qs generalizing d with
  | nil => exact h
  | cons q qs ih =>
    refine ih (fun hq => hforce (hq.imp fun q hq => ⟨mem_cons_of_mem _ hq.1, hq.2⟩)) ?_ horderly.2
    exact h.after hnil htake (fun hq => hforce ⟨q, mem_cons_self, hq⟩) horderly.1

theorem kept_start (hnil : P []) : Kept P {} :=
  ⟨rfl, fun _ => .refl _, fun _ _ hx => absurd hx not_mem_nil, fun _ _ _ => Nat.le_refl _, fun _ => hnil⟩

variable {qs : List Request}

theorem apart_asked (h : Orderly {} qs) (hfree : ∀ q ∈ qs, q.isForce = false) : Kept Apart (asked qs) := by
  refine (kept_start .nil).run .nil Apart.squeeze ?_ h
  rintro ⟨q, hq, hforce⟩
  exact absurd ((hfree q hq).symm.trans hforce) Bool.false_ne_true

theorem covered_asked (h : Orderly {} qs) : Kept Covered (asked qs) :=
  (kept_start .nil).run .nil (fun hxs hproper _ => hxs.squeeze hproper) (fun _ => Covered.squeeze) h

/-- Where nothing was forced, the spans of a string stand one behind the other, and it takes a further
    one just if that overlaps none of those that it was given. -/
theorem take_iff_free (qs : List Request) (h : Orderly {} qs) (hunforced : ∀ q ∈ qs, q.isForce = false) (hk : (asked qs).place string = some k)
    (hnext : (asked qs).IsNext string new) :
    (∀ j, ((asked qs).held j).Perm ((asked qs).given j) ∧ (∀ x ∈ (asked qs).held j, x.start < x.stop) ∧
      ((asked qs).held j).Pairwise fun x y => x.stop ≤ y.start) ∧
      ∃ answer strings, (asked qs).strings.take string new = .ok (answer, strings) ∧
        (answer = true ↔ ∀ x ∈ (asked qs).given k, ¬ new.Overlaps x) ∧
        (answer = true → (strings.busy.getD k []).Perm (new :: (asked qs).held k) ∧
          ∀ j ≠ k, strings.busy.getD j [] = (asked qs).held j) ∧
        (answer = false → strings.busy = (asked qs).strings.busy) := by
  have hkept := apart_asked h hunforced
  generalize asked qs = d at hkept hk hnext
  refine ⟨fun j => ⟨hkept.given j, hkept.proper j, hkept.holds j⟩, _, _, hkept.take_eq hk hnext, ?_, fun htrue => ?_, fun hfalse => ?_⟩
  · rw [(hkept.holds k).isFree_iff (hkept.proper k)]
    exact forall_congr' fun x => by rw [(hkept.given k).mem_iff]
  · simp only [htrue, if_true, getD_set (Strings.place?_lt hk)]
    exact ⟨Strings.squeeze_perm new _, fun j hj => if_neg hj⟩
  · simp only [hfalse, Bool.false_eq_true, if_false]

/-- Two notes stand on the first string, and a second voice asks for the time between. -/
def gapped : List Request := [.turnTo 2 (.number 1), .take 0 ⟨0, 4⟩, .take 0 ⟨6, 8⟩, .rewind]

theorem take_iff_free_gapped :
    Orderly {} gapped ∧ (asked gapped).IsNext (-2) ⟨4, 6⟩ ∧ (asked gapped).given 0 = [⟨6, 8⟩, ⟨0, 4⟩] ∧
      ∃ answer strings, (asked gapped).strings.take (-2) ⟨4, 6⟩ = .ok (answer, strings) ∧
        (answer = true ↔ ∀ x ∈ (asked gapped).given 0, ¬ Span.Overlaps ⟨4, 6⟩ x) := by
  have hnext : (asked gapped).IsNext (-2) ⟨4, 6⟩ := by decide
  obtain ⟨answer, strings, htake, hiff, -⟩ := (take_iff_free gapped (k := 0) (by decide) (by decide) (by decide) hnext).2
  exact ⟨by decide, hnext, by decide, answer, strings, htake, hiff⟩

/-- A string that is asked refuses only what overlaps; what overlaps, it takes only where a span
    that begins later still begins inside another. -/
theorem taken_before_hidden (qs : List Request) (h : Orderly {} qs) (hk : (asked qs).place string = some k)
    (hnext : (asked qs).IsNext string new) :
    ∃ answer strings, (asked qs).strings.take string new = .ok (answer, strings) ∧
      (answer = false → ∃ x ∈ (asked qs).given k, new.Overlaps x) ∧
      (answer = true → (∃ x ∈ (asked qs).given k, new.Overlaps x) →
        ∃ y ∈ (asked qs).given k, new.stop ≤ y.start ∧ ∃ z ∈ (asked qs).given k, y.BeginsInside z) := by
  have hkept := covered_asked h
  have hmem : ∀ x, x ∈ (asked qs).given k ↔ x ∈ (asked qs).held k := fun x => (hkept.given k).mem_iff.symm
  refine ⟨_, _, hkept.take_eq hk hnext, fun hfalse => ?_, ?_⟩
  · by_contra hnone
    have hfree := Strings.isFree_of_disjoint fun x hx hover => hnone ⟨x, (hmem x).mpr hx, hover⟩
    exact Bool.false_ne_true (hfalse.symm.trans hfree)
  · rintro hfree ⟨x, hx, hover⟩
    simp only [hmem] at hx ⊢
    exact (hkept.holds k).hidden hfree hx hover

/-- Two spans were forced upon a string, one inside the other, and the search begins anew. -/
def enclosed : List Request := [.turnTo 1 (.number 1), .force 0 ⟨0, 10⟩, .force 0 ⟨5, 6⟩, .rewind]

theorem taken_before_hidden_enclosed :
    Orderly {} enclosed ∧ (asked enclosed).IsNext 0 ⟨3, 4⟩ ∧
      ∃ answer strings, (asked enclosed).strings.take 0 ⟨3, 4⟩ = .ok (answer, strings) ∧
        (answer = true → (∃ x ∈ (asked enclosed).given 0, Span.Overlaps ⟨3, 4⟩ x) →
          ∃ y ∈ (asked enclosed).given 0, 4 ≤ y.start ∧ ∃ z ∈ (asked enclosed).given 0, y.BeginsInside z) := by
  have hnext : (asked enclosed).IsNext 0 ⟨3, 4⟩ := by decide
  obtain ⟨answer, strings, htake, -, hhidden⟩ := taken_before_hidden enclosed (k := 0) (by decide) (by decide) hnext
  exact ⟨by decide, hnext, answer, strings, htake, hhidden⟩

/-- The inner span stands first, and a search for an earlier time ends there: the outer one is not seen. -/
theorem overlapping_span_taken :
    ((asked enclosed).strings.take 0 ⟨3, 4⟩).toOption.map Prod.fst = some true ∧
      ⟨0, 10⟩ ∈ (asked enclosed).given 0 ∧ Span.Overlaps ⟨3, 4⟩ ⟨0, 10⟩ := by
  decide

end Desk

end Plainsong.Abc
