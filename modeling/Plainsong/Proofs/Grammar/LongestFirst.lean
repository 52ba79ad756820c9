import Mathlib
import Plainsong.Grammar.Library
/- Texts in an order in which they can be tried. A text must not stand before a longer one that begins with it, or the
   longer one would never be found. The loop that orders them looks at the first text that has no place yet: it settles
   there, or a repetition of it is dropped, or a text that begins with it is moved before it (`Turn`). Each turn lowers
   a weight, so the loop ends (`turns_longestFirst`); and each turn keeps the texts that are settled in order and one
   of every text (`Ordered`). -/
namespace Plainsong.Grammar

open List

variable {fold : String → String} {s t : String} {rest others texts : List String} {x y : List String × List String}

/-- Compared by `fold`, the second text begins with the first. -/
def Masks (fold : String → String) (s t : String) : Prop := (fold s).toList <+: (fold t).toList

/-- What stands in the way of a text among others. -/
def Clash.Among (fold : String → String) (s : String) (rest : List String) : Option Clash → Prop
  | none => ∀ t ∈ rest, ¬Masks fold s t
  | some (.repeated others) => ∃ t, rest ~ t :: others ∧ fold t = fold s
  | some (.longer t others) => rest ~ t :: others ∧ Masks fold s t ∧ fold t ≠ fold s

theorem among_clash? (fold : String → String) (s : String) (rest : List String) : Clash.Among fold s rest (clash? fold s rest) := by
  fun_induction clash? fold s rest with
  | case1 => exact fun _ ht => absurd ht not_mem_nil
  | case2 t rest h => exact ⟨t, .rfl, eq_of_beq h⟩
  | case3 t rest hne h => exact ⟨.rfl, String.startsWith_string_iff.mp h, by simpa using hne⟩
  | case4 t rest hne h hclash ih =>
    rw [hclash] at ih
    exact forall_mem_cons.mpr ⟨fun hmask => h (String.startsWith_string_iff.mpr hmask), ih⟩
  | case5 t rest hne h others hclash ih =>
    rw [hclash] at ih
    obtain ⟨u, hrest, hu⟩ := ih
    exact ⟨u, (hrest.cons t).trans (.swap ..), hu⟩
  | case6 t rest hne h u others hclash ih =>
    rw [hclash] at ih
    exact ⟨(ih.1.cons t).trans (.swap ..), ih.2⟩

/-- One turn of the loop, with the texts that have their place and those that are left. -/
inductive Turn (fold : String → String) : List String × List String → List String × List String → Prop
  | settle {done rest : List String} {s : String} (h : clash? fold s rest = none) : Turn fold (done, s :: rest) (done ++ [s], rest)
  | drop {done rest others : List String} {s : String} (h : clash? fold s rest = some (.repeated others)) :
      Turn fold (done, s :: rest) (done, s :: others)
  | move {done rest others : List String} {s t : String} (h : clash? fold s rest = some (.longer t others)) :
      Turn fold (done, s :: rest) (done, t :: s :: others)

/-! ## The loop ends -/

/-- Bounds the turns to come: a turn shortens the list, or leaves fewer texts that are longer than the first. -/
def weight (fold : String → String) (todo : List String) : Nat :=
  todo.length ^ 2 + todo.tail.countP fun t => todo.head?.any fun s => (fold s).length < (fold t).length

theorem weight_le (todo : List String) : weight fold todo ≤ todo.length ^ 2 + todo.length :=
  Nat.add_le_add_left (countP_le_length.trans (by simp)) _

theorem weight_lt {a b : List String} (h : b.length < a.length) : weight fold b < weight fold a := calc
  weight fold b ≤ b.length ^ 2 + b.length := weight_le b
  _ < (b.length + 1) ^ 2 := by ring_nf; omega
  _ ≤ a.length ^ 2 := Nat.pow_le_pow_left h 2
  _ ≤ weight fold a := Nat.le_add_right _ _

theorem Turn.weight_lt (h : Turn fold x y) : weight fold y.2 < weight fold x.2 := by
  cases h with
  | settle => exact Grammar.weight_lt (by simp)
  | @drop done rest others s h =>
    obtain ⟨t, hrest, -⟩ := h ▸ among_clash? fold s rest
    exact Grammar.weight_lt (by simp [hrest.length_eq])
  | @move done rest others s t h =>
    obtain ⟨hrest, hmasks, hne⟩ := h ▸ among_clash? fold s rest
    have hlt : (fold s).length < (fold t).length := by
      rw [← String.length_toList, ← String.length_toList]
      exact hmasks.length_le.lt_of_ne fun heq => hne (String.toList_injective (hmasks.eq_of_length heq)).symm
    have hothers : others.countP (fun u => (fold t).length < (fold u).length) ≤ others.countP fun u => (fold s).length < (fold u).length :=
      countP_mono_left fun u _ hu => by simp at hu ⊢; omega
    simp [weight, hrest.length_eq, hrest.countP_eq, hlt, hlt.le]
    omega

theorem turns_longestFirstAt {n : Nat} {todo : List String} (h : weight fold todo ≤ n) (done : List String) :
    Relation.ReflTransGen (Turn fold) (done, todo) (done ++ longestFirstAt fold n todo, []) := by
  induction n generalizing done todo with
  | zero =>
    obtain ⟨rfl, -⟩ : todo = [] ∧ _ := by simpa [weight] using h
    simpa [longestFirstAt] using .refl
  | succ n ih =>
    cases todo with
    | nil => simpa [longestFirstAt] using .refl
    | cons s rest =>
      have hstep : ∀ {y}, Turn fold (done, s :: rest) y → weight fold y.2 ≤ n := fun hy => Nat.le_of_lt_succ (hy.weight_lt.trans_le h)
      rw [longestFirstAt]
      split
      next hclash => simpa using (ih (hstep (.settle hclash)) (done ++ [s])).head (.settle hclash)
      next others hclash => exact (ih (hstep (.drop hclash)) done).head (.drop hclash)
      next t others hclash => exact (ih (hstep (.move hclash)) done).head (.move hclash)

theorem turns_longestFirst (fold : String → String) (texts : List String) :
    Relation.ReflTransGen (Turn fold) ([], texts) (longestFirst fold texts, []) :=
  turns_longestFirstAt ((weight_le texts).trans (by ring_nf; omega)) []

/-! ## What the turns keep -/

/-- The texts in place are in order and stay so, and of each text that was given one is left. -/
structure Ordered (fold : String → String) (texts : List String) (x : List String × List String) : Prop where
  apart : x.1.Pairwise fun s t => ¬Masks fold s t
  ahead : ∀ s ∈ x.1, ∀ t ∈ x.2, ¬Masks fold s t
  given : ∀ t ∈ x.1 ++ x.2, t ∈ texts
  kept : ∀ t ∈ texts, ∃ u ∈ x.1 ++ x.2, fold u = fold t

theorem Ordered.turn (hx : Ordered fold texts x) (h : Turn fold x y) : Ordered fold texts y := by
  obtain ⟨hapart, hahead, hgiven, hkept⟩ := hx
  cases h with
  | @settle done rest s h =>
    have hs := h ▸ among_clash? fold s rest
    refine ⟨pairwise_append.mpr ⟨hapart, pairwise_singleton .., fun a ha b hb => ?_⟩, fun a ha b hb => ?_, by simpa using hgiven, by simpa using hkept⟩
    · exact hahead a ha b (mem_singleton.mp hb ▸ mem_cons_self)
    · rcases mem_append.mp ha with ha | ha
      · exact hahead a ha b (mem_cons_of_mem _ hb)
      · exact mem_singleton.mp ha ▸ hs b hb
  | @drop done rest others s h =>
    obtain ⟨t, hrest, ht⟩ := h ▸ among_clash? fold s rest
    have hmem : ∀ u, u ∈ rest ↔ u = t ∨ u ∈ others := fun u => hrest.mem_iff.trans mem_cons
    refine ⟨hapart, fun a ha b hb => hahead a ha b (by grind), fun u hu => hgiven u (by grind), fun u hu => ?_⟩
    obtain ⟨v, hv, hfold⟩ := hkept u hu
    grind
  | @move done rest others s t h =>
    obtain ⟨hrest, -, -⟩ := h ▸ among_clash? fold s rest
    have hmem : ∀ u, u ∈ rest ↔ u = t ∨ u ∈ others := fun u => hrest.mem_iff.trans mem_cons
    refine ⟨hapart, fun a ha b hb => hahead a ha b (by grind), fun u hu => hgiven u (by grind), fun u hu => ?_⟩
    obtain ⟨v, hv, hfold⟩ := hkept u hu
    exact ⟨v, by grind, hfold⟩

theorem ordered_longestFirst (fold : String → String) (texts : List String) : Ordered fold texts (longestFirst fold texts, []) := by
  have hstart : Ordered fold texts ([], texts) := ⟨.nil, by simp, by simp, fun t ht => ⟨t, by simpa using ht, rfl⟩⟩
  have hturns := turns_longestFirst fold texts
  generalize (longestFirst fold texts, ([] : List String)) = x at hturns ⊢
  induction hturns with
  | refl => exact hstart
  | tail _ h ih => exact ih.turn h

/-- Of the texts of which some property holds, if the shorter of any two begins the longer, the first in order is as
    long as any. -/
theorem find?_longestFirst {P : String → Prop} [DecidablePred P] (hP : ∀ u v, P u → P v → (fold u).length ≤ (fold v).length → Masks fold u v)
    (hfold : ∀ u v, fold u = fold v → P u → P v) (ht : t ∈ texts) (hoccurs : P t)
    (hlongest : ∀ u ∈ texts, P u → (fold u).length ≤ (fold t).length) :
    ∃ u ∈ texts, (longestFirst fold texts).find? P = some u ∧ fold u = fold t := by
  obtain ⟨hapart, -, hgiven, hkept⟩ := ordered_longestFirst fold texts
  simp only [append_nil] at hgiven hkept
  obtain ⟨v, hv, heq⟩ := hkept t ht
  have hoccurs := hfold t v heq.symm hoccurs
  obtain ⟨u, hu⟩ := Option.isSome_iff_exists.mp (find?_isSome (p := fun u => decide (P u)).mpr ⟨v, hv, decide_eq_true hoccurs⟩)
  obtain ⟨hPu, before, behind, hsplit, hbefore⟩ := find?_eq_some_iff_append.mp hu
  have hmem : u ∈ texts := hgiven u (mem_of_find?_eq_some hu)
  refine ⟨u, hmem, hu, ?_⟩
  have hmasks := hP u v (of_decide_eq_true hPu) hoccurs (heq ▸ hlongest u hmem (of_decide_eq_true hPu))
  rw [hsplit] at hv hapart
  rcases mem_append.mp hv with hv | hv
  · simpa [hoccurs] using hbefore v hv
  · rcases mem_cons.mp hv with rfl | hv
    · exact heq
    · exact absurd hmasks ((pairwise_cons.mp (pairwise_append.mp hapart).2.1).1 v hv)

end Plainsong.Grammar
