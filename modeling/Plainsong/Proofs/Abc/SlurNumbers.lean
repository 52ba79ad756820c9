import Mathlib
import Plainsong.Abc.Slurs
/- The numbers of open slurs. A part remembers its open slurs overlay by overlay;
   beside that stands the list of all of them by their starts (`Part.opened`),
   and the two agree after any starts and ends (`agrees_after`). So an end has the
   number of the latest slur of its overlay. As a start counts the slurs that are
   open, the numbers are those from one on as long as slurs are nested over all
   overlays, and the first one that is not makes two slurs share a number. -/
namespace Plainsong.Abc.Slurs

open List

/-- A slur starts or ends in an overlay. -/
inductive Act
  | start (overlay : Int)
  | stop (overlay : Int)
  deriving DecidableEq

structure Slur where
  overlay : Int
  number : Int
  deriving DecidableEq

/-- The slurs that are open by overlay, and all of them with the numbers they were given, the latest first. -/
structure Part where
  slurs : Slurs := []
  opened : List Slur := []

namespace Part

/-- The latest slur that is open in an overlay. -/
def latest? (p : Part) (overlay : Int) : Option Slur := p.opened.find? (·.overlay = overlay)

def act (p : Part) : Act → Part
  | .start o => { slurs := (p.slurs.start o).2, opened := ⟨o, (p.slurs.start o).1⟩ :: p.opened }
  | .stop o =>
    match p.slurs.stop? o with
    | some (_, slurs) => { slurs, opened := p.opened.eraseP (·.overlay = o) }
    | none => p

/-- Each end is one of the latest slur that is open at all, if it is one of any slur. -/
def Nested : Part → List Act → Prop
  | _, [] => True
  | p, .start o :: rest => Nested (p.act (.start o)) rest
  | p, .stop o :: rest => (p.latest? o = none ∨ p.latest? o = p.opened.head?) ∧ Nested (p.act (.stop o)) rest

/-- The stacks of the overlays are what the list of all slurs has of them. -/
structure Agrees (p : Part) : Prop where
  numbers : ∀ o, (Table.find? o p.slurs).getD [] = ((p.opened.filter (·.overlay = o)).map Slur.number).reverse
  count : p.slurs.count = p.opened.length

/-- The open slurs are numbered from one on. -/
def Numbered (p : Part) : Prop := p.opened.map Slur.number = ((List.range p.opened.length).map fun (n : Nat) => (n : Int) + 1).reverse

end Part

/-- A part after some starts and ends. -/
def after (acts : List Act) : Part := acts.foldl Part.act {}

variable {p : Part} {o : Int}

/-! ## Counting -/

theorem count_eq_sum (s : Slurs) : s.count = (s.map (·.2.length)).sum := by
  rw [count, sum_eq_foldl, foldl_map]

theorem count_put (s : Slurs) (o : Int) (ns : List Int) :
    count (Table.put o ns s) + ((Table.find? o s).getD []).length = s.count + ns.length := by
  simp only [count_eq_sum]
  induction s with
  | nil => simp [Table.put, Table.find?]
  | cons q rest ih =>
    obtain ⟨k, v⟩ := q
    by_cases hk : k = o <;> simp [Table.put, Table.find?, hk] <;> omega

/-! ## The two records agree -/

theorem find?_put (s : Slurs) (o o' : Int) (ns : List Int) :
    (Table.find? o' (Table.put o ns s)).getD [] = if o = o' then ns else (Table.find? o' s).getD [] := by
  split
  next h => rw [h, Table.find?_put_self, Option.getD_some]
  next h => rw [Table.find?_put_of_ne ns s h]

theorem Part.Agrees.stop? (h : p.Agrees) (o : Int) : (p.slurs.stop? o).map Prod.fst = (p.latest? o).map Slur.number := by
  simp only [Slurs.stop?, Option.map_map, h.numbers o, List.getLast?_reverse, List.head?_map, List.head?_filter, latest?]
  cases p.opened.find? (·.overlay = o) <;> rfl

theorem filter_eraseP_self (xs : List Slur) (o : Int) :
    (xs.eraseP (·.overlay = o)).filter (·.overlay = o) = (xs.filter (·.overlay = o)).tail := by
  induction xs with
  | nil => rfl
  | cons x rest ih => by_cases hx : x.overlay = o <;> simp [hx, ih]

theorem filter_eraseP_of_ne (xs : List Slur) {o o' : Int} (h : o ≠ o') :
    (xs.eraseP (·.overlay = o)).filter (·.overlay = o') = xs.filter (·.overlay = o') := by
  induction xs with
  | nil => rfl
  | cons x rest ih => by_cases hx : x.overlay = o <;> simp [filter_cons, hx, ih, h]

theorem Part.Agrees.start (h : p.Agrees) (o : Int) : (p.act (.start o)).Agrees where
  numbers o' := by
    by_cases ho : o = o' <;> simp [act, Slurs.start, find?_put, ho, h.numbers]
  count := by
    have := count_put p.slurs o ((Table.find? o p.slurs).getD [] ++ [(p.slurs.count : Int) + 1])
    simp [act, Slurs.start, ← h.count] at this ⊢
    omega

theorem Part.Agrees.act_stop_none (h : p.Agrees) (hlatest : p.latest? o = none) : p.act (.stop o) = p := by
  have hstop : p.slurs.stop? o = none := by simpa [hlatest] using h.stop? o
  simp only [act, hstop]

theorem Part.Agrees.act_stop_some {x : Slur} (h : p.Agrees) (hlatest : p.latest? o = some x) : p.act (.stop o) =
    { slurs := Table.put o ((Table.find? o p.slurs).getD []).dropLast p.slurs, opened := p.opened.eraseP (·.overlay = o) } := by
  obtain ⟨⟨n, slurs⟩, hstop, -⟩ : ∃ q, p.slurs.stop? o = some q ∧ q.1 = x.number := by simpa [hlatest] using h.stop? o
  obtain ⟨_, -, heq⟩ := Option.map_eq_some_iff.mp hstop
  obtain rfl : Table.put o ((Table.find? o p.slurs).getD []).dropLast p.slurs = slurs := congrArg Prod.snd heq
  simp only [act, hstop]

theorem Part.Agrees.stop (h : p.Agrees) (o : Int) : (p.act (.stop o)).Agrees := by
  cases hlatest : p.latest? o with
  | none => rwa [h.act_stop_none hlatest]
  | some x =>
    rw [h.act_stop_some hlatest]
    refine ⟨fun o' => ?_, ?_⟩
    · rw [find?_put]
      split
      next ho => rw [← ho, h.numbers, filter_eraseP_self, map_tail, dropLast_reverse]
      next ho => rw [filter_eraseP_of_ne _ ho, h.numbers]
    · have hx := List.find?_some hlatest
      have hmem := mem_of_find?_eq_some hlatest
      have hcount := count_put p.slurs o ((Table.find? o p.slurs).getD []).dropLast
      have hlen : ((Table.find? o p.slurs).getD []).length = (p.opened.filter (·.overlay = o)).length := by simp [h.numbers o]
      have hpos : 0 < (p.opened.filter (·.overlay = o)).length := length_pos_of_mem (mem_filter.mpr ⟨hmem, hx⟩)
      have herase : (p.opened.eraseP (·.overlay = o)).length = _ := length_eraseP_of_mem hmem hx
      have hopened := h.count
      have hsome : 0 < p.opened.length := length_pos_of_mem hmem
      rw [length_dropLast] at hcount
      dsimp only
      omega

theorem agrees_after (acts : List Act) : (after acts).Agrees := by
  induction acts using List.reverseRecOn with
  | nil => exact ⟨fun _ => rfl, rfl⟩
  | append_singleton acts a ih =>
    rw [after, foldl_append]
    cases a with
    | start o => exact ih.start o
    | stop o => exact ih.stop o

/-! ## Nested slurs -/

theorem Part.Numbered.start (h : p.Numbered) (ha : p.Agrees) (o : Int) : (p.act (.start o)).Numbered := by
  simp [Numbered, act, Slurs.start, ha.count, range_succ, h.symm]

theorem Part.Numbered.stop (h : p.Numbered) (ha : p.Agrees) (hlatest : p.latest? o = none ∨ p.latest? o = p.opened.head?) :
    (p.act (.stop o)).Numbered := by
  cases hfound : p.latest? o with
  | none => rwa [ha.act_stop_none hfound]
  | some x =>
    obtain ⟨rest, hopened⟩ : ∃ rest, p.opened = x :: rest := by
      rw [hfound] at hlatest
      exact List.head?_eq_some_iff.mp (by simpa [eq_comm] using hlatest)
    have hx : x.overlay = o := by simpa using List.find?_some hfound
    rw [ha.act_stop_some hfound]
    simp only [Numbered, hopened, map_cons, length_cons, range_succ, map_append, reverse_append] at h
    simpa [Numbered, hopened, hx] using (List.cons.inj h).2

theorem Part.Numbered.shared (h : p.Numbered) (ha : p.Agrees) {x : Slur} (hfound : p.latest? o = some x)
    (hnot : p.opened.head? ≠ some x) (o' : Int) : ¬ (((p.act (.stop o)).act (.start o')).opened.map Slur.number).Nodup := by
  cases hopened : p.opened with
  | nil => simp [latest?, hopened] at hfound
  | cons y rest =>
    have hy : y.overlay ≠ o := by
      intro hy
      simp_all [latest?]
    have hmem : x ∈ rest := by
      have := mem_of_find?_eq_some hfound
      grind
    have hx : x.overlay = o := by simpa using List.find?_some hfound
    have hnumber : y.number = rest.length + 1 := by
      simp only [Numbered, hopened, map_cons, length_cons, range_succ, map_append, reverse_append] at h
      exact (List.cons.inj h).1
    have hlen : (rest.eraseP (·.overlay = o)).length = _ := length_eraseP_of_mem hmem (by simpa using hx)
    have hpos : 0 < rest.length := length_pos_of_mem hmem
    have hcount := (ha.stop o).count
    rw [ha.act_stop_some hfound] at hcount ⊢
    simp [act, Slurs.start, hopened, hy] at hcount ⊢
    omega

theorem Part.Nested.numbered {acts : List Act} (hnested : p.Nested acts) (h : p.Numbered) (ha : p.Agrees) : (acts.foldl Part.act p).Numbered := by
  induction acts generalizing p with
  | nil => exact h
  | cons a rest ih =>
    cases a with
    | start o => exact ih hnested (h.start ha o) (ha.start o)
    | stop o => exact ih hnested.2 (h.stop ha hnested.1) (ha.stop o)

theorem Part.Numbered.nodup (h : p.Numbered) : (p.opened.map Slur.number).Nodup := by
  rw [h, nodup_reverse]
  exact nodup_range.map fun a b hab => by simpa using hab

/-- After any starts and ends in any overlays, an end has the number of the latest slur that is open in its overlay.
    If slurs are nested over all overlays, those that are open have different numbers, from one on. If then
    another slur ends than the latest one, the next one that starts shares its number with one that is open. -/
theorem numbers_of_open_slurs (acts : List Act) :
    (∀ o, ((after acts).slurs.stop? o).map Prod.fst = ((after acts).latest? o).map Slur.number) ∧
    (Part.Nested {} acts →
      (after acts).Numbered ∧ ((after acts).opened.map Slur.number).Nodup ∧
      ∀ o x, (after acts).latest? o = some x → (after acts).opened.head? ≠ some x →
        ∀ o', ¬ ((after (acts ++ [.stop o, .start o'])).opened.map Slur.number).Nodup) := by
  have hagrees := agrees_after acts
  refine ⟨hagrees.stop?, fun hnested => ?_⟩
  have hnumbered : (after acts).Numbered := hnested.numbered rfl ⟨fun _ => rfl, rfl⟩
  refine ⟨hnumbered, hnumbered.nodup, fun o x hfound hnot o' => ?_⟩
  rw [after, List.foldl_append]
  exact hnumbered.shared hagrees hfound hnot o'

/-- Slurs of two overlays have different numbers until the first one ends and another one starts. -/
theorem numbers_of_open_slurs_two : ((after [.start 0, .start 1]).opened.map Slur.number).Nodup ∧
    ¬ ((after [.start 0, .start 1, .stop 0, .start 0]).opened.map Slur.number).Nodup := by
  have h := (numbers_of_open_slurs [.start 0, .start 1]).2 trivial
  exact ⟨h.2.1, h.2.2 0 ⟨0, 1⟩ (by decide) (by decide) 0⟩

/-- A slur of the first overlay ends while one of the second is open: the next one has the number of that. -/
theorem open_slurs_share_number : (after [.start 0, .start 1, .stop 0, .start 0]).opened = [⟨0, 2⟩, ⟨1, 2⟩] := by
  decide

end Plainsong.Abc.Slurs
