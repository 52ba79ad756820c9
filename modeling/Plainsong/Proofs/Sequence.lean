import Mathlib
/- Lists side by side and lists put in order. Sorting is stable, so it does to two
   lists that are compared alike the same thing (`forall₂_mergeSort`), and a
   comparison that goes by place on a tie sorts as one that leaves ties alone
   (`mergeSort_eq_of_ties`). -/
namespace Plainsong

open List

variable {α β γ : Type}

/-! ## Side by side -/

section Related

variable {R : α → β → Prop} {as : List α} {bs : List β}

theorem exists_of_forall₂ (h : List.Forall₂ R as bs) {a : α} (ha : a ∈ as) : ∃ b ∈ bs, R a b := by
  induction h with
  | nil => cases ha
  | @cons c b as bs hcb _ ih =>
    rcases mem_cons.mp ha with rfl | ha
    · exact ⟨b, by simp, hcb⟩
    · obtain ⟨b', hb', hab⟩ := ih ha
      exact ⟨b', by simp [hb'], hab⟩

theorem forall₂_through {P : α → γ → Prop} {Q : β → γ → Prop}
    (h : List.Forall₂ (fun a b => ∃ c, P a c ∧ Q b c) as bs) :
    ∃ cs, List.Forall₂ P as cs ∧ List.Forall₂ Q bs cs := by
  induction h with
  | nil => exact ⟨[], .nil, .nil⟩
  | cons hab _ ih =>
    obtain ⟨c, ha, hb⟩ := hab
    obtain ⟨cs, has, hbs⟩ := ih
    exact ⟨c :: cs, .cons ha has, .cons hb hbs⟩

theorem forall₂_iff_pairs : List.Forall₂ R as bs ↔
    ∃ l : List (α × β), l.map Prod.fst = as ∧ l.map Prod.snd = bs ∧ ∀ p ∈ l, R p.1 p.2 := by
  constructor
  · intro h
    induction h with
    | nil => exact ⟨[], rfl, rfl, by simp⟩
    | @cons a b as bs hab _ ih =>
      obtain ⟨l, rfl, rfl, hl⟩ := ih
      exact ⟨(a, b) :: l, rfl, rfl, forall_mem_cons.mpr ⟨hab, hl⟩⟩
  · rintro ⟨l, rfl, rfl, hl⟩
    rw [forall₂_map_left_iff, forall₂_map_right_iff, forall₂_same]
    exact hl

/-! ## In order -/

theorem forall₂_mergeSort {r : α → α → Bool} {s : β → β → Bool}
    (hrs : ∀ a b a' b', R a b → R a' b' → r a a' = s b b') (h : List.Forall₂ R as bs) :
    List.Forall₂ R (as.mergeSort r) (bs.mergeSort s) := by
  obtain ⟨l, rfl, rfl, hl⟩ := forall₂_iff_pairs.mp h
  have hleft := map_mergeSort (r := fun p q : α × β => r p.1 q.1) (s := r) (f := Prod.fst) (l := l)
    fun _ _ _ _ => rfl
  have hright := map_mergeSort (r := fun p q : α × β => r p.1 q.1) (s := s) (f := Prod.snd) (l := l)
    fun p hp q hq => hrs _ _ _ _ (hl p hp) (hl q hq)
  rw [← hleft, ← hright]
  exact forall₂_iff_pairs.mpr ⟨_, rfl, rfl, fun p hp => hl p ((mergeSort_perm _ _).mem_iff.mp hp)⟩

end Related

theorem mergeSort_eq_of_ties {r s : α → α → Bool} (hr : ∀ a b, (r a b || r b a) = true)
    (hs : ∀ a b, (s a b || s b a) = true) {l : List α} (h : l.Pairwise fun a b => r a b = s a b) :
    l.mergeSort r = l.mergeSort s := by
  -- with the places at hand a tie is no tie, and then the two comparisons are one
  have hforward : ∀ {le : α → α → Bool} {a b : α} {i j : Nat}, i < j →
      List.zipIdxLE le (a, i) (b, j) = le a b := by
    intro le a b i j hij
    simp only [List.zipIdxLE, decide_eq_true hij.le]
    split <;> simp_all
  have hback : ∀ {le : α → α → Bool} {a b : α} {i j : Nat}, (le a b || le b a) = true → i < j →
      List.zipIdxLE le (b, j) (a, i) = !le a b := by
    intro le a b i j htotal hij
    simp only [List.zipIdxLE, decide_eq_false (Nat.not_le.mpr hij)]
    cases hab : le a b <;> simp_all
  have hself : ∀ {le : α → α → Bool} {a : α} {i : Nat}, (le a a || le a a) = true →
      List.zipIdxLE le (a, i) (a, i) = true := by
    intro le a i htotal
    have : le a a = true := by simpa using htotal
    simp [List.zipIdxLE, this]
  have hsame := map_mergeSort (r := List.zipIdxLE r) (s := List.zipIdxLE s) (f := id) (l := l.zipIdx) (by
    rintro ⟨a, i⟩ ha ⟨b, j⟩ hb
    simp only [mem_zipIdx_iff_getElem?] at ha hb
    obtain ⟨hi, rfl⟩ := List.getElem?_eq_some_iff.mp ha
    obtain ⟨hj, rfl⟩ := List.getElem?_eq_some_iff.mp hb
    rw [pairwise_iff_getElem] at h
    rcases Nat.lt_trichotomy i j with hij | rfl | hij
    · rw [hforward hij, id, id, hforward hij]
      exact h i j hi hj hij
    · rw [hself (hr _ _), id, hself (hs _ _)]
    · rw [hback (hr _ _) hij, id, id, hback (hs _ _) hij, h j i hj hi hij])
  rw [map_id, map_id] at hsame
  rw [← mergeSort_zipIdx, hsame, mergeSort_zipIdx]

end Plainsong
