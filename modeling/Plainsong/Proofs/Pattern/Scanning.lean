import Mathlib
import Plainsong.Pattern.Basic
/- Where patterns match. A place in a text is told by what stands from there on, so the rules
   below take the text as a list and say `l.drop i = ..`. A character that has to come first and
   is not there rules a match out (`Matcher.matchAt_of_notMem`), and a run of characters up to one
   that cannot belong to it is taken whole or not at all: there is nothing to go back to
   (`Pattern.run_delimited`). Of a search it is enough to know that it passes over the places before
   the match, and of a replacement without matches that it leaves the text as it is. -/
namespace Plainsong

open List

/-! ## One pattern -/

namespace Pattern

theorem test_single (a c : Char) : (CharClass.single a false).test c = decide (c = a) := by
  simp only [CharClass.test, CharClass.single, Member.test, any_cons, any_nil, Bool.false_and, Bool.or_false,
    Bool.bne_false, ← Bool.decide_and]
  exact decide_eq_decide.mpr ⟨fun h => le_antisymm h.2 h.1, fun h => h ▸ ⟨le_rfl, le_rfl⟩⟩

variable {c : CharClass} {l mid rest skip : List Char}

theorem getElem?_of_drop {i : Nat} (h : l.drop i = rest) : l.toArray[i]? = rest.head? := by
  rw [List.getElem?_toArray, ← h, List.head?_drop]

theorem drop_succ_of_drop {i : Nat} {x : Char} (h : l.drop i = x :: rest) : l.drop (i + 1) = rest := by
  rw [← tail_drop, h, tail_cons]

theorem drop_add_of_drop {i : Nat} (h : l.drop i = skip ++ rest) : l.drop (i + skip.length) = rest := by
  rw [← drop_drop, h, drop_left]

theorem exists_drop_of_lt {i j : Nat} (h : l.drop i = skip ++ rest) (hi : i ≤ j)
    (hj : j < i + skip.length) : ∃ x later, (∀ y ∈ x :: later, y ∈ skip) ∧ l.drop j = x :: later ++ rest := by
  have hm : j - i < skip.length := by omega
  refine ⟨skip[j - i], skip.drop (j - i + 1), ?_, ?_⟩
  · rw [← drop_eq_getElem_cons hm]
    exact fun y hy => mem_of_mem_drop hy
  · rw [← drop_eq_getElem_cons hm, ← drop_append_of_le_length hm.le, ← h, drop_drop,
      Nat.add_sub_cancel' hi]

variable {α : Type} {l : List Char} {i : Nat} {caps : Captures} {k : Nat → Captures → Option α}

theorem run_one {x : Char} (c : CharClass) (h : l.drop i = x :: rest) :
    run l.toArray (.one c) i caps k = if c.test x = true then k (i + 1) caps else none := by
  rw [run, getElem?_of_drop h]
  rfl

theorem run_one_end (c : CharClass) (h : l.drop i = []) : run l.toArray (.one c) i caps k = none := by
  rw [run, getElem?_of_drop h]
  rfl

theorem run_seq (text : Chars) (p q : Pattern) :
    run text (.seq p q) i caps k = run text p i caps fun j caps => run text q j caps k := by
  rw [run]

theorem spanLength_eq (c : CharClass) (n : Nat) (i : Nat) :
    spanLength c l.toArray i n = (((l.drop i).take n).takeWhile c.test).length := by
  induction n generalizing i with
  | zero => rfl
  | succ n ih =>
    rw [spanLength]
    cases hrest : l.drop i with
    | nil =>
      rw [getElem?_of_drop hrest]
      rfl
    | cons x rest =>
      rw [getElem?_of_drop hrest, List.head?_cons, take_succ_cons, takeWhile_cons]
      dsimp only
      split
      · rw [ih, drop_succ_of_drop hrest, length_cons]
      · rfl

/-- How many characters a greedy run takes at most of what is left. -/
def reach (c : CharClass) (b : Bounds) (rest : List Char) : Nat := ((rest.take (b.most.getD rest.length)).takeWhile c.test).length

theorem run_span (c : CharClass) (b : Bounds) : run l.toArray (.span c b true) i caps k =
    if reach c b (l.drop i) < b.least then none else firstDown (fun j => k j caps) (i + b.least) (reach c b (l.drop i) - b.least) := by
  obtain ⟨least, most⟩ := b
  cases most with
  | none => simp [run, spanLength_eq, reach]
  | some m =>
    have htake : (l.drop i).take (min m (l.length - i)) = (l.drop i).take m := take_eq_take_iff.mpr (by simp)
    simp [run, spanLength_eq, reach, htake]

theorem run_star (c : CharClass) : run l.toArray (.span c ⟨0, none⟩ true) i caps k =
    firstDown (fun j => k j caps) i ((l.drop i).takeWhile c.test).length := by
  simp [run_span, reach, take_of_length_le]

theorem firstDown_top {f : Nat → Option α} {lo : Nat} {n : Nat} (h : ∀ m < n, f (lo + m) = none) :
    firstDown f lo n = f (lo + n) := by
  induction n with
  | zero => rfl
  | succ n ih =>
    rw [firstDown]
    cases htop : f (lo + n + 1) with
    | some r => rfl
    | none =>
      dsimp only
      rw [ih fun m hm => h m (by omega), h n (by omega)]

/-- A run of characters of one class and then one of another. -/
def delimited (c d : CharClass) : Pattern := .seq (.span c ⟨0, none⟩ true) (.one d)

theorem length_takeWhile_run (hmid : ∀ x ∈ mid, c.test x = true)
    (hrest : ∀ x ∈ rest.head?, c.test x = false) : ((mid ++ rest).takeWhile c.test).length = mid.length := by
  rw [takeWhile_append_of_pos hmid]
  cases rest with
  | nil => simp
  | cons x rest => simp [hrest x rfl]

theorem run_delimited {d : CharClass} (hdisjoint : ∀ x, c.test x = true → d.test x = false)
    (h : l.drop i = mid ++ rest) (hmid : ∀ x ∈ mid, c.test x = true) (hrest : ∀ x ∈ rest.head?, c.test x = false) :
    run l.toArray (delimited c d) i caps k = run l.toArray (.one d) (i + mid.length) caps k := by
  rw [delimited, run_seq, run_star, h, length_takeWhile_run hmid hrest]
  refine firstDown_top fun m hm => ?_
  obtain ⟨x, later, hlater, hdrop⟩ := exists_drop_of_lt h (Nat.le_add_right i m) (by omega)
  rw [run_one d hdrop, hdisjoint _ (hmid _ (hlater x mem_cons_self))]
  rfl

/-- The class of the character that a match begins with, if the pattern says it. -/
def opener? : Pattern → Option CharClass
  | .one c => some c
  | .seq (.anchor _) p => p.opener?
  | .seq p _ => p.opener?
  | .group _ p => p.opener?
  | _ => none

theorem run_opener {p : Pattern} (hp : p.opener? = some c) (hc : ∀ x ∈ (l.drop i).head?, c.test x = false) :
    run l.toArray p i caps k = none := by
  fun_induction opener? p generalizing k with
  | case1 d =>
    cases hp
    cases hrest : l.drop i with
    | nil => exact run_one_end c hrest
    | cons x rest => rw [run_one c hrest, hc x (by simp [hrest]), if_neg Bool.false_ne_true]
  | case2 a p ih =>
    rw [run_seq, run]
    split
    · exact ih hp
    · rfl
  | case3 p q _ ih =>
    rw [run_seq]
    exact ih hp
  | case4 n p ih =>
    rw [run]
    exact ih hp
  | case5 => cases hp

theorem run_optional {p : Pattern} {x : Char} (h : l.drop i = x :: rest)
    (hback : c.test x = true → run l.toArray p i caps k = none) :
    run l.toArray (.seq (.span c ⟨0, some 1⟩ true) p) i caps k =
      run l.toArray p (if c.test x = true then i + 1 else i) caps k := by
  have hreach : reach c ⟨0, some 1⟩ (x :: rest) = if c.test x = true then 1 else 0 := by
    simp only [reach, Option.getD_some, take_succ_cons, take_zero, takeWhile_cons]
    split <;> rfl
  rw [run_seq, run_span, h, hreach]
  split
  next hx => exact firstDown_top fun m hm => by rw [Nat.lt_one_iff.mp hm]; exact hback hx
  next => rfl

end Pattern

/-! ## Searching -/

namespace Matcher

variable {m : Matcher} {text : Chars} {i : Nat}

theorem searchFrom_eq_none (h : ∀ j, i ≤ j → j ≤ text.size → m.matchAt text j false = none) (hi : i ≤ text.size) :
    m.searchFrom text false i (text.size - i) = none := by
  obtain ⟨n, hn⟩ : ∃ n, n = text.size - i := ⟨_, rfl⟩
  rw [← hn]
  induction n generalizing i with
  | zero => exact h i le_rfl hi
  | succ n ih =>
    rw [searchFrom, h i le_rfl hi]
    exact ih (fun j hj => h j (by omega)) (by omega) (by omega)

theorem searchFrom_eq_some {j : Nat} {f : Found} (hskip : ∀ j', i ≤ j' → j' < j → m.matchAt text j' false = none)
    (hf : m.matchAt text j false = some f) (hi : i ≤ j) (hj : j ≤ text.size) :
    m.searchFrom text false i (text.size - i) = some f := by
  obtain ⟨n, hn⟩ : ∃ n, n = text.size - i := ⟨_, rfl⟩
  rw [← hn]
  induction n generalizing i with
  | zero =>
    obtain rfl : i = j := by omega
    exact hf
  | succ n ih =>
    rw [searchFrom]
    rcases hi.eq_or_lt with rfl | hlt
    · rw [hf]
    · rw [hskip i le_rfl hlt]
      exact ih (fun j' hj' => hskip j' (by omega)) hlt (by omega)

theorem allFrom_eq_nil (h : ∀ j, i ≤ j → j ≤ text.size → m.matchAt text j false = none) (hi : i ≤ text.size)
    (fuel : Nat) : m.allFrom text fuel i false = [] := by
  cases fuel with
  | zero => rfl
  | succ fuel => rw [allFrom, searchFrom_eq_none h hi]

theorem allFrom_eq_cons {j : Nat} {f : Found} (hskip : ∀ j', i ≤ j' → j' < j → m.matchAt text j' false = none)
    (hf : m.matchAt text j false = some f) (hi : i ≤ j) (hj : j ≤ text.size) (hstop : f.start < f.stop) (fuel : Nat) :
    m.allFrom text (fuel + 1) i false = f :: m.allFrom text fuel f.stop false := by
  rw [allFrom, searchFrom_eq_some hskip hf hi hj]
  dsimp only
  rw [beq_eq_false_iff_ne.mpr hstop.ne']

/-- A match begins with its opener, so there is none where another character stands. -/
theorem matchAt_of_notMem {c : Char} {l : List Char} (hm : m.pattern.opener? = some (.single c false)) (hc : c ∉ (l.drop i).head?) :
    m.matchAt l.toArray i false = none := by
  rw [matchAt, size_toArray]
  split
  · rfl
  · refine Pattern.run_opener hm fun x hx => ?_
    rw [Pattern.test_single, decide_eq_false_iff_not]
    rintro rfl
    exact hc hx

theorem matchAt_of_notMem_drop {c : Char} {l : List Char} (hm : m.pattern.opener? = some (.single c false)) (hc : c ∉ l.drop i) {j : Nat}
    (hj : i ≤ j) : m.matchAt l.toArray j false = none := by
  refine matchAt_of_notMem hm fun hmem => hc (mem_of_mem_drop (i := j - i) ?_)
  rw [drop_drop, Nat.add_sub_cancel' hj]
  exact mem_of_mem_head? hmem

theorem replace_of_notMem {c : Char} {s : String} (hm : m.pattern.opener? = some (.single c false)) (hc : c ∉ s.toList)
    (f : Chars → Found → String) : m.replace s f = s := by
  have hall : m.all s.toList.toArray = [] :=
    allFrom_eq_nil (fun j hj _ => matchAt_of_notMem_drop hm (by rwa [drop_zero]) hj) (Nat.zero_le _) _
  rw [replace, hall]
  simp

end Matcher

theorem Found.whole_eq {l skip rest : List Char} {f : Found} (h : l.drop f.start = skip ++ rest)
    (hstop : f.stop = f.start + skip.length) : f.whole l.toArray = String.ofList skip := by
  rw [whole, hstop]
  simp [h]

end Plainsong
