import Mathlib
/- The strokes of one key: the ticks at which a note of one pitch on one channel
   begins and ends, in order. Where a note begins while the same one still sounds,
   the next end is moved back to that beginning (`respace`). The ends come out of
   order, but put in order again they are what a walk along the strokes gives that
   only counts how many notes are open (`flat`), and in that walk beginnings and ends
   alternate. The main statement is that respaced strokes alternate exactly if every
   end finds a note open and none is open at last (`alternates_iff_depth`), which is a
   matter of how many begin and end before each end (`depth_eq_zero_iff`). -/
namespace Plainsong.Midi

/-- Beginnings and ends take turns, from a beginning to an end; `sounding` tells whether a
    note has begun. -/
def Alternates : Bool → List Bool → Prop
  | sounding, [] => sounding = false
  | sounding, begins :: rest => begins = !sounding ∧ Alternates begins rest

theorem Alternates.count_eq {sounding : Bool} {l : List Bool} (h : Alternates sounding l) :
    l.count true + sounding.toNat = l.count false := by
  induction l generalizing sounding with
  | nil =>
    have h : sounding = false := h
    simp [h]
  | cons begins rest ih =>
    obtain ⟨rfl, hrest⟩ := h
    have := ih hrest
    cases sounding <;> simp_all

namespace Strokes

/-- Strokes of one key: the tick, and whether a note begins there. -/
abbrev Word (T : Type) := List (T × Bool)

section Counting

variable {T : Type}

/-- Moves each end that leaves a note open to the beginning of the last note opened; the
    beginnings still open are given, the last one first. -/
def respace : List T → Word T → Option (Word T)
  | _, [] => some []
  | opened, (tick, true) :: w => (respace (tick :: opened) w).map ((tick, true) :: ·)
  | [], (_, false) :: _ => none
  | [_], (tick, false) :: w => (respace [] w).map ((tick, false) :: ·)
  | last :: next :: opened, (_, false) :: w => (respace (next :: opened) w).map ((last, false) :: ·)

/-- How many notes are open at last; there is no answer where a note ends that has not
    begun. -/
def depth : Nat → Word T → Option Nat
  | d, [] => some d
  | d, (_, true) :: w => depth (d + 1) w
  | 0, (_, false) :: _ => none
  | d + 1, (_, false) :: w => depth d w

/-- The strokes in order: a beginning while a note is open ends that note first, and of
    the ends only the last is left. -/
def flat : Nat → Word T → Word T
  | _, [] => []
  | 0, (tick, true) :: w => (tick, true) :: flat 1 w
  | d + 1, (tick, true) :: w => (tick, false) :: (tick, true) :: flat (d + 2) w
  | 0, (_, false) :: w => flat 0 w
  | 1, (tick, false) :: w => (tick, false) :: flat 0 w
  | d + 2, (_, false) :: w => flat (d + 1) w

/-! ## Depth -/

variable {opened : List T} {w w' : Word T}

theorem count_of_depth {d r : Nat} (h : depth d w = some r) :
    d + (w.map Prod.snd).count true = r + (w.map Prod.snd).count false := by
  fun_induction depth d w with
  | case1 d => simp_all
  | case2 d tick w ih =>
    have := ih h
    simp only [List.map_cons, List.count_cons]
    simp
    omega
  | case3 => cases h
  | case4 d tick w ih =>
    have := ih h
    simp only [List.map_cons, List.count_cons]
    simp
    omega

/-! ## Respacing -/

theorem isSome_respace (opened : List T) (w : Word T) : (respace opened w).isSome = (depth opened.length w).isSome := by
  fun_induction respace opened w with
  | case1 => rfl
  | case2 opened tick w ih => simpa [depth] using ih
  | case3 => rfl
  | case4 opened tick w ih => simpa [depth] using ih
  | case5 last next opened tick w ih => simpa [depth] using ih

theorem mem_of_respace (h : respace opened w = some w') : ∀ p ∈ w', p.1 ∈ opened ∨ p.1 ∈ w.map Prod.fst := by
  fun_induction respace opened w generalizing w' with
  | case1 opened => simp_all
  | case3 tick w => cases h
  | case2 opened tick w ih | case4 last tick w ih | case5 last next opened tick w ih =>
    obtain ⟨w', hw, rfl⟩ := Option.map_eq_some_iff.mp h
    have := ih hw
    simp only [List.mem_cons, List.map_cons] at this ⊢
    grind

theorem respace_map {U : Type} (f : T → U) (opened : List T) (w : Word T) :
    respace (opened.map f) (w.map (Prod.map f id)) = (respace opened w).map (List.map (Prod.map f id)) := by
  fun_induction respace opened w with
  | case1 opened => rfl
  | case3 tick w => rfl
  | case2 opened tick w ih | case4 last tick w ih | case5 last next opened tick w ih =>
    simp only [List.map_cons, List.map_nil, Prod.map_apply, id_eq, respace, Option.map_map] at ih ⊢
    rw [ih, Option.map_map]
    rfl

theorem map_snd_respace (h : respace opened w = some w') : w'.map Prod.snd = w.map Prod.snd := by
  fun_induction respace opened w generalizing w' with
  | case1 => cases h; rfl
  | case2 opened tick w ih =>
    obtain ⟨v, hv, rfl⟩ := Option.map_eq_some_iff.mp h
    simp [ih hv]
  | case3 => cases h
  | case4 opened tick w ih =>
    obtain ⟨v, hv, rfl⟩ := Option.map_eq_some_iff.mp h
    simp [ih hv]
  | case5 last next opened tick w ih =>
    obtain ⟨v, hv, rfl⟩ := Option.map_eq_some_iff.mp h
    simp [ih hv]

theorem respace_perm (h : respace opened w = some w') (hzero : depth opened.length w = some 0) :
    w'.Perm (flat opened.length w ++ opened.dropLast.map (·, false)) := by
  fun_induction respace opened w generalizing w' with
  | case1 opened =>
    cases h
    have hnil : opened = [] := List.length_eq_zero_iff.mp (Option.some.inj hzero)
    simp [hnil, flat]
  | case2 opened tick w ih =>
    obtain ⟨v, hv, rfl⟩ := Option.map_eq_some_iff.mp h
    have hperm := ih hv hzero
    cases opened with
    | nil => simpa [flat] using hperm
    | cons last opened =>
      -- the end at this beginning is still to come, but the flat strokes have it here
      have hmiddle : v.Perm ((tick, false) :: (flat (opened.length + 2) w ++ (last :: opened).dropLast.map (·, false))) :=
        hperm.trans List.perm_middle
      exact (hmiddle.cons (tick, true)).trans (List.Perm.swap _ _ _)
  | case3 => cases h
  | case4 opened tick w ih =>
    obtain ⟨v, hv, rfl⟩ := Option.map_eq_some_iff.mp h
    have hperm := ih hv hzero
    simpa [flat] using hperm
  | case5 last next opened tick w ih =>
    obtain ⟨v, hv, rfl⟩ := Option.map_eq_some_iff.mp h
    have hperm := ih hv hzero
    exact (hperm.cons (last, false)).trans List.perm_middle.symm

/-! ## Flat strokes -/

theorem flat_alternates {d : Nat} (hzero : depth d w = some 0) :
    Alternates (decide (d ≠ 0)) ((flat d w).map Prod.snd) := by
  fun_induction flat d w with
  | case1 d =>
    have hd : d = 0 := Option.some.inj hzero
    simp [hd, Alternates]
  | case2 tick w ih => exact ⟨rfl, ih hzero⟩
  | case3 d tick w ih => exact ⟨by simp, rfl, ih hzero⟩
  | case4 => cases hzero
  | case5 tick w ih => exact ⟨by simp, ih hzero⟩
  | case6 d tick w ih => exact ih hzero

theorem exists_of_mem_flat {d : Nat} {a : T × Bool} (h : a ∈ flat d w) : ∃ b ∈ w, b.1 = a.1 := by
  have hlater : ∀ {b : T × Bool} {w : Word T}, (∃ c ∈ w, c.1 = a.1) → ∃ c ∈ b :: w, c.1 = a.1 :=
    fun ⟨c, hc, heq⟩ => ⟨c, by simp [hc], heq⟩
  fun_induction flat d w with
  | case1 => cases h
  | case2 tick w ih =>
    rcases List.mem_cons.mp h with rfl | h
    · exact ⟨_, by simp, rfl⟩
    · exact hlater (ih h)
  | case3 d tick w ih =>
    simp only [List.mem_cons] at h
    rcases h with rfl | rfl | h
    · exact ⟨(tick, true), by simp, rfl⟩
    · exact ⟨_, by simp, rfl⟩
    · exact hlater (ih h)
  | case4 tick w ih => exact hlater (ih h)
  | case5 tick w ih =>
    rcases List.mem_cons.mp h with rfl | h
    · exact ⟨_, by simp, rfl⟩
    · exact hlater (ih h)
  | case6 d tick w ih => exact hlater (ih h)

end Counting

section Order

variable {T : Type} [LinearOrder T]

/-! ## Order -/

/-- The order of strokes: by tick, and within a tick the end comes first. -/
def Earlier (a b : T × Bool) : Prop := a.1 < b.1 ∨ a.1 = b.1 ∧ a.2 = false ∧ b.2 = true

/-- Where a stroke may stand behind another: at a later tick, or behind an end. -/
def Follows (a b : T × Bool) : Prop := a.1 < b.1 ∨ a.1 = b.1 ∧ a.2 = false

variable {a b : T × Bool} {sorted w w' : Word T}

theorem Earlier.follows (h : Earlier a b) : Follows a b := h.imp id fun h => ⟨h.1, h.2.1⟩

theorem Follows.le (h : Follows a b) : a.1 ≤ b.1 := by
  rcases h with h | ⟨h, -⟩
  · exact h.le
  · exact h.le

theorem Follows.lt {tick : T} (h : Follows (tick, true) b) : tick < b.1 := by
  rcases h with h | ⟨-, hfalse⟩
  · exact h
  · cases hfalse

/-- The strokes before a tick. -/
def below (tick : T) (w : Word T) : Word T := w.filter (·.1 < tick)

theorem below_cons_of_earlier (h : Earlier a b) (hb : b.2 = false) (w : Word T) :
    below b.1 (a :: w) = a :: below b.1 w := by
  have hlt : a.1 < b.1 := by
    rcases h with h | ⟨-, -, h⟩
    · exact h
    · rw [hb] at h
      cases h
  rw [below, List.filter_cons_of_pos (by simpa using hlt)]
  rfl

theorem below_self (h : (a :: w).Pairwise Earlier) : below a.1 (a :: w) = [] := by
  rw [below, List.filter_eq_nil_iff]
  intro b hb
  rcases List.mem_cons.mp hb with rfl | hb
  · simp
  · rcases List.rel_of_pairwise_cons h hb with hlt | ⟨heq, -⟩
    · simpa using hlt.le
    · simpa using heq.le

theorem isSome_depth_iff {d : Nat} (hw : w.Pairwise Earlier) : (depth d w).isSome ↔ ∀ tick, (tick, false) ∈ w →
      ((below tick w).map Prod.snd).count false < d + ((below tick w).map Prod.snd).count true := by
  have hstep : ∀ {a : T × Bool} {w : Word T} {tick : T}, (a :: w).Pairwise Earlier → (tick, false) ∈ w →
      below tick (a :: w) = a :: below tick w := fun {a w tick} hw htick =>
    below_cons_of_earlier (b := (tick, false)) (List.rel_of_pairwise_cons hw htick) rfl w
  fun_induction depth d w with
  | case1 d => simp
  | case2 d tick w ih =>
    refine (ih hw.of_cons).trans (forall_congr' fun e => ?_)
    have hmem : (e, false) ∈ (tick, true) :: w ↔ (e, false) ∈ w := by simp
    rw [hmem]
    refine imp_congr_right fun he => ?_
    rw [hstep hw he]
    simp
    omega
  | case3 tick w =>
    refine iff_of_false (by simp) fun h => ?_
    have := h tick (by simp)
    rw [below_self hw] at this
    simp at this
  | case4 d tick w ih =>
    refine (ih hw.of_cons).trans ⟨?_, ?_⟩
    · intro h e he
      rcases List.mem_cons.mp he with heq | he
      · obtain rfl : e = tick := congrArg Prod.fst heq
        rw [below_self hw]
        simp
      · rw [hstep hw he]
        have := h e he
        simp
        omega
    · intro h e he
      have := h e (by simp [he])
      rw [hstep hw he] at this
      simp at this
      omega

theorem lt_of_mem_flat {d : Nat} {tick : T} (hw : ((tick, true) :: w).Pairwise Follows) (h : a ∈ flat d w) : tick < a.1 := by
  obtain ⟨b, hb, heq⟩ := exists_of_mem_flat h
  exact heq ▸ (List.rel_of_pairwise_cons hw hb).lt

theorem pairwise_flat {d : Nat} (hw : w.Pairwise Follows) (hzero : depth d w = some 0) :
    (flat d w).Pairwise Earlier := by
  fun_induction flat d w with
  | case1 => exact .nil
  | case2 tick w ih =>
    exact List.pairwise_cons.mpr ⟨fun a ha => .inl (lt_of_mem_flat hw ha), ih hw.of_cons hzero⟩
  | case3 d tick w ih =>
    refine List.pairwise_cons.mpr ⟨fun a ha => ?_, List.pairwise_cons.mpr ⟨fun a ha => .inl (lt_of_mem_flat hw ha),
      ih hw.of_cons hzero⟩⟩
    rcases List.mem_cons.mp ha with rfl | ha
    · exact .inr ⟨rfl, rfl, rfl⟩
    · exact .inl (lt_of_mem_flat hw ha)
  | case4 => cases hzero
  | case5 tick w ih =>
    refine List.pairwise_cons.mpr ⟨fun a ha => ?_, ih hw.of_cons hzero⟩
    -- with no note open the next stroke can only be a beginning
    cases w with
    | nil => cases ha
    | cons b w =>
      obtain ⟨next, begins⟩ := b
      cases begins with
      | false => cases hzero
      | true =>
        have hnext := List.rel_of_pairwise_cons hw (List.mem_cons_self)
        rcases List.mem_cons.mp ha with rfl | ha
        · exact hnext.imp id fun h => ⟨h.1, rfl, rfl⟩
        · have hlater := lt_of_mem_flat hw.of_cons ha
          exact .inl (hnext.le.trans_lt hlater)
  | case6 d tick w ih => exact ih hw.of_cons hzero

/-! ## Respaced strokes in order -/

theorem Earlier.asymm (h : Earlier a b) : ¬ Earlier b a := by
  rintro (h' | ⟨h', hb, ha⟩)
  · rcases h with h | ⟨h, -⟩
    · exact h.asymm h'
    · exact h'.ne h.symm
  · rcases h with h | ⟨-, hfalse, -⟩
    · exact h.ne h'.symm
    · rw [hfalse] at ha
      cases ha

theorem eq_of_not_earlier (h : ¬ Earlier a b) (h' : ¬ Earlier b a) : a = b := by
  obtain ⟨m, x⟩ := a
  obtain ⟨n, y⟩ := b
  simp only [Earlier, not_or, not_and, not_lt] at h h'
  obtain rfl : m = n := h'.1.antisymm h.1
  cases x <;> cases y <;> simp_all

/-- The strokes that stand in an order where none is before the one in front of it. -/
def InOrder (w : Word T) : Prop := w.Pairwise fun a b => ¬ Earlier b a

theorem follows_of_inOrder (h : InOrder w) (hstarts : (w.filter (·.2)).Nodup) : w.Pairwise Follows := by
  refine (h.and (List.pairwise_filter.mp hstarts)).imp fun {a b} hab => ?_
  obtain ⟨hnot, hne⟩ := hab
  simp only [Earlier, not_or, not_and, not_lt] at hnot
  rcases hnot.1.lt_or_eq with hlt | heq
  · exact .inl hlt
  · refine .inr ⟨heq, ?_⟩
    by_contra ha
    have ha : a.2 = true := by simpa using ha
    rcases Bool.eq_false_or_eq_true b.2 with hb | hb
    · exact hne ha hb (Prod.ext heq (ha.trans hb.symm))
    · exact hnot.2 heq.symm hb ha

theorem eq_flat (hw : w.Pairwise Follows) (h : respace [] w = some w')
    (hzero : depth 0 w = some 0) (hperm : sorted.Perm w') (hsorted : InOrder sorted) : sorted = flat 0 w := by
  refine List.Perm.eq_of_pairwise (fun _ _ _ _ hab hba => eq_of_not_earlier hba hab) hsorted
    ((pairwise_flat hw hzero).imp Earlier.asymm) (hperm.trans ?_)
  simpa using respace_perm h hzero

theorem alternates_iff_depth (hw : w.Pairwise Earlier) (h : respace [] w = some w')
    (hperm : sorted.Perm w') (hsorted : InOrder sorted) :
    Alternates false (sorted.map Prod.snd) ↔ depth 0 w = some 0 := by
  constructor
  · intro halt
    obtain ⟨r, hr⟩ : ∃ r, depth 0 w = some r := Option.isSome_iff_exists.mp (by
      have := isSome_respace [] w
      rw [h] at this
      exact this.symm)
    have hcount := halt.count_eq
    have hends := count_of_depth hr
    have hpermSnd := hperm.map Prod.snd
    rw [hpermSnd.count_eq, hpermSnd.count_eq, map_snd_respace h] at hcount
    have : r = 0 := by
      simp at hcount
      omega
    rw [hr, this]
  · intro hzero
    rw [eq_flat (hw.imp Earlier.follows) h hzero hperm hsorted]
    exact flat_alternates hzero

end Order

/-! ## Beginnings and ends as sets -/

/-- The ticks of the beginnings, or of the ends. -/
def ticks (begins : Bool) (w : Word Nat) : Finset Nat := ((w.filter (·.2 = begins)).map Prod.fst).toFinset

/-- As many notes begin as end, and before each end more begin than end. -/
def Balanced (starts ends : Finset Nat) : Prop :=
  starts.card = ends.card ∧ ∀ tick ∈ ends, (ends.filter (· < tick)).card < (starts.filter (· < tick)).card

instance (starts ends : Finset Nat) : Decidable (Balanced starts ends) := inferInstanceAs (Decidable (_ ∧ _))

theorem card_ticks {w : Word Nat} (hw : w.Pairwise Earlier) (begins : Bool) :
    (ticks begins w).card = (w.map Prod.snd).count begins := by
  have hnodup : ((w.filter (·.2 = begins)).map Prod.fst).Nodup := by
    rw [List.Nodup, List.pairwise_map]
    refine (hw.sublist List.filter_sublist).imp_of_mem fun {a b} ha hb h => ?_
    have ha : a.2 = begins := by simpa using (List.mem_filter.mp ha).2
    have hb : b.2 = begins := by simpa using (List.mem_filter.mp hb).2
    rcases h with h | ⟨-, hfalse, htrue⟩
    · exact Nat.ne_of_lt h
    · exact absurd (hfalse.symm.trans (ha.trans (hb.symm.trans htrue))) (by simp)
  rw [ticks, List.toFinset_card_of_nodup hnodup, List.length_map, List.count, List.countP_map, List.countP_eq_length_filter]
  refine congrArg List.length (List.filter_congr fun a _ => ?_)
  simp [beq_eq_decide]

theorem filter_ticks (begins : Bool) (w : Word Nat) (tick : Nat) :
    (ticks begins w).filter (· < tick) = ticks begins (below tick w) := by
  ext n
  simp only [ticks, below, Finset.mem_filter, List.mem_toFinset, List.mem_map, List.mem_filter, decide_eq_true_eq]
  constructor
  · rintro ⟨⟨a, ⟨ha, hbegins⟩, rfl⟩, hlt⟩
    exact ⟨a, ⟨⟨ha, hlt⟩, hbegins⟩, rfl⟩
  · rintro ⟨a, ⟨⟨ha, hlt⟩, hbegins⟩, rfl⟩
    exact ⟨⟨a, ⟨ha, hbegins⟩, rfl⟩, hlt⟩

theorem depth_eq_zero_iff {w : Word Nat} (hw : w.Pairwise Earlier) :
    depth 0 w = some 0 ↔ Balanced (ticks true w) (ticks false w) := by
  have hbelow : ∀ tick, (below tick w).Pairwise Earlier := fun _ => hw.sublist List.filter_sublist
  have hmem : ∀ tick, tick ∈ ticks false w ↔ (tick, false) ∈ w := by
    intro tick
    simp [ticks]
  simp only [Balanced, filter_ticks, card_ticks hw, card_ticks (hbelow _), hmem]
  have hsome := isSome_depth_iff (d := 0) hw
  simp only [Nat.zero_add] at hsome
  rw [← hsome]
  constructor
  · intro hzero
    have := count_of_depth hzero
    exact ⟨by omega, by rw [hzero]; rfl⟩
  · rintro ⟨hcount, hisSome⟩
    obtain ⟨r, hr⟩ := Option.isSome_iff_exists.mp hisSome
    have := count_of_depth hr
    rw [hr]
    congr 1
    omega

end Strokes

end Plainsong.Midi
