import Plainsong.Proofs.Chant.Layout
/- Clefs among the letters of a code. A clef is a family, a flat or none, and a line; it is
   looked for from the left, and where two could begin the earlier one counts (`firstClef?`).
   The pattern that a neume is read with finds just this clef: it finds none where there is
   none (`Act.texts?_eq_none_of_clefFree`), and where only one stands in a code the pieces around
   it are the letters before and behind it (`Act.split_of_firstClef?`). -/
namespace Plainsong.Chant

open Pattern List

/-! ## Clefs -/

def isFamily (c : Char) : Bool := c = 'c' || c = 'f'

def isLine (c : Char) : Bool := '1' ≤ c && c ≤ '4'

/-- The line at the head of letters, and the letters behind it. -/
def lineHead? : List Char → Option (List Char × List Char)
  | [] => none
  | c :: rest => if isLine c then some ([c], rest) else none

/-- The line at the head of letters with its flat, if it has one. -/
def flatHead? : List Char → Option (List Char × List Char)
  | [] => none
  | c :: rest => if c = 'b' then (lineHead? rest).map fun r => (c :: r.1, r.2) else lineHead? (c :: rest)

/-- The clef at the head of letters, and the letters behind it. -/
def clefHead? : List Char → Option (List Char × List Char)
  | [] => none
  | c :: rest => if isFamily c then (flatHead? rest).map fun r => (c :: r.1, r.2) else none

/-- The letters before the first clef, the clef, and the letters behind it. -/
def firstClef? : List Char → Option (List Char × List Char × List Char)
  | [] => none
  | c :: rest =>
    match clefHead? (c :: rest) with
    | some (clef, back) => some ([], clef, back)
    | none => (firstClef? rest).map fun (front, clef, back) => (c :: front, clef, back)

/-- No clef stands among the letters of a code. -/
def ClefFree (code : String) : Prop := firstClef? code.toList = none

instance (code : String) : Decidable (ClefFree code) := inferInstanceAs (Decidable (_ = none))

/-- Behind the first clef there is no other. -/
def AtMostOneClef (code : String) : Prop := ∀ r ∈ firstClef? code.toList, firstClef? r.2.2 = none

instance (code : String) : Decidable (AtMostOneClef code) :=
  inferInstanceAs (Decidable (∀ r ∈ firstClef? code.toList, firstClef? r.2.2 = none))

variable {back clef l line : List Char}

theorem lineHead?_eq_some (h : lineHead? l = some (line, back)) : l = line ++ back := by
  cases l with
  | nil => cases h
  | cons c rest =>
    rw [lineHead?] at h
    split at h
    · cases h
      rfl
    · cases h

theorem flatHead?_eq_some (h : flatHead? l = some (line, back)) : l = line ++ back := by
  cases l with
  | nil => cases h
  | cons c rest =>
    rw [flatHead?] at h
    split at h
    · obtain ⟨r, hr, hmap⟩ := Option.map_eq_some_iff.mp h
      cases hmap
      rw [lineHead?_eq_some hr, cons_append]
    · exact lineHead?_eq_some h

theorem clefHead?_eq_some (h : clefHead? l = some (clef, back)) : l = clef ++ back ∧ 0 < clef.length := by
  cases l with
  | nil => cases h
  | cons c rest =>
    rw [clefHead?] at h
    split at h
    · obtain ⟨r, hr, hmap⟩ := Option.map_eq_some_iff.mp h
      cases hmap
      rw [flatHead?_eq_some hr, cons_append]
      exact ⟨rfl, by simp⟩
    · cases h

theorem clefHead?_drop_of_firstClef?_eq_none (h : firstClef? l = none) (j : Nat) : clefHead? (l.drop j) = none := by
  induction l generalizing j with
  | nil => simp [clefHead?]
  | cons c rest ih =>
    rw [firstClef?] at h
    split at h
    next => cases h
    next hhead =>
      cases j with
      | zero => exact hhead
      | succ j =>
        rw [drop_succ_cons]
        exact ih (Option.map_eq_none_iff.mp h) j

theorem firstClef?_eq_none_of_lineless (h : ∀ c ∈ l, isLine c = false) : firstClef? l = none := by
  have hline : ∀ l : List Char, (∀ c ∈ l, isLine c = false) → lineHead? l = none := by
    intro l hl
    cases l with
    | nil => rfl
    | cons c rest => rw [lineHead?, if_neg (by simp [hl c])]
  have hflat : ∀ l : List Char, (∀ c ∈ l, isLine c = false) → flatHead? l = none := by
    intro l hl
    cases l with
    | nil => rfl
    | cons c rest =>
      rw [flatHead?, hline _ hl, hline rest fun d hd => hl d (by simp [hd])]
      split <;> rfl
  induction l with
  | nil => rfl
  | cons c rest ih =>
    have hrest : ∀ d ∈ rest, isLine d = false := fun d hd => h d (by simp [hd])
    have hhead : clefHead? (c :: rest) = none := by
      rw [clefHead?, hflat rest hrest]
      split <;> rfl
    rw [firstClef?, hhead, ih hrest]
    rfl

theorem firstClef?_eq_some {front : List Char} (h : firstClef? l = some (front, clef, back)) :
    l = front ++ (clef ++ back) ∧ clefHead? (clef ++ back) = some (clef, back) ∧
      ∀ j < front.length, clefHead? (l.drop j) = none := by
  induction l generalizing front with
  | nil => cases h
  | cons c rest ih =>
    rw [firstClef?] at h
    split at h
    next hhead =>
      cases h
      have hsplit := (clefHead?_eq_some hhead).1
      refine ⟨hsplit, hsplit ▸ hhead, ?_⟩
      intro j hj
      cases hj
    next hhead =>
      obtain ⟨⟨front', clef', back'⟩, hrest, hmap⟩ := Option.map_eq_some_iff.mp h
      cases hmap
      obtain ⟨hsplit, hclef, hbefore⟩ := ih hrest
      refine ⟨by rw [hsplit, cons_append], hclef, ?_⟩
      intro j hj
      cases j with
      | zero => exact hhead
      | succ j => exact hbefore j (by simpa using hj)

/-! ## The pattern of clefs -/

/-- The letters of families, the flat and the lines, as classes of letters. -/
def familyClass : CharClass := ⟨[.range 'c' 'c', .range 'f' 'f'], false, false⟩

def flatClass : CharClass := ⟨[.range 'b' 'b'], false, false⟩

def lineClass : CharClass := ⟨[.range '1' '4'], false, false⟩

theorem test_familyClass (c : Char) : familyClass.test c = isFamily c := by
  have hone : ∀ a : Char, (decide (a ≤ c) && decide (c ≤ a)) = decide (c = a) := by
    intro a
    rw [← Bool.decide_and]
    exact decide_eq_decide.mpr ⟨fun h => le_antisymm h.2 h.1, fun h => h ▸ ⟨le_rfl, le_rfl⟩⟩
  simp [CharClass.test, familyClass, Member.test, isFamily, hone]

theorem test_flatClass (c : Char) : flatClass.test c = decide (c = 'b') := test_single 'b' c

theorem test_lineClass (c : Char) : lineClass.test c = isLine c := by
  simp [CharClass.test, lineClass, Member.test, isLine]

namespace Act

theorem clefMatcher_eq : clefMatcher.pattern =
    .seq (.one familyClass) (.seq (.span flatClass ⟨0, some 1⟩ true) (.one lineClass)) ∧ clefMatcher.groups = 1 := by
  decide +kernel

section Run

variable {α : Type} {l : List Char} {i : Nat} {caps : Captures} {k : Nat → Captures → Option α}

theorem run_line : run l.toArray (.one lineClass) i caps k =
    (lineHead? (l.drop i)).bind fun r => k (i + r.1.length) caps := by
  cases hrest : l.drop i with
  | nil =>
    rw [run_one_end _ hrest]
    rfl
  | cons c rest =>
    rw [run_one _ hrest, test_lineClass, lineHead?]
    split <;> rfl

theorem run_flat : run l.toArray (.seq (.span flatClass ⟨0, some 1⟩ true) (.one lineClass)) i caps k =
    (flatHead? (l.drop i)).bind fun r => k (i + r.1.length) caps := by
  cases hrest : l.drop i with
  | nil =>
    rw [run_seq, run_span, hrest]
    exact run_one_end _ hrest
  | cons c rest =>
    -- a flat is no line, so it is never given back
    have hback : flatClass.test c = true → run l.toArray (.one lineClass) i caps k = none := by
      intro hc
      rw [test_flatClass, decide_eq_true_iff] at hc
      rw [run_one _ hrest, test_lineClass, hc]
      rfl
    rw [run_optional hrest hback, test_flatClass, run_line, flatHead?]
    by_cases hc : c = 'b'
    · simp only [hc, decide_true, if_true]
      rw [drop_succ_of_drop hrest, Option.bind_map]
      refine Option.bind_congr fun r _ => ?_
      simp [Nat.add_assoc, Nat.add_comm 1]
    · simp [hc, hrest]

end Run

theorem matchAt_clefMatcher {i : Nat} (hi : i ≤ l.length) : clefMatcher.matchAt l.toArray i false =
      (clefHead? (l.drop i)).map fun r => ⟨i, i + r.1.length, Array.replicate 1 none⟩ := by
  rw [Matcher.matchAt, size_toArray, if_neg (by omega), clefMatcher_eq.1, clefMatcher_eq.2, run_seq]
  cases hrest : l.drop i with
  | nil => rw [run_one_end _ hrest]; rfl
  | cons c rest =>
    rw [run_one _ hrest, test_familyClass, run_flat, drop_succ_of_drop hrest, clefHead?]
    split
    · rw [Option.map_map]
      cases flatHead? rest with
      | none => rfl
      | some r => simp [Nat.add_assoc, Nat.add_comm 1]
    · rfl

/-! ## Searching a code -/

theorem texts?_eq_none_of_clefFree {code : String} (h : ClefFree code) : clefMatcher.texts? code = none := by
  have hsearch : clefMatcher.search code.toList.toArray = none := by
    refine Matcher.searchFrom_eq_none (fun j _ hj => ?_) (Nat.zero_le _)
    rw [matchAt_clefMatcher (by simpa using hj), clefHead?_drop_of_firstClef?_eq_none h]
    rfl
  rw [Matcher.texts?, hsearch]
  rfl

section FirstClef

variable {code : String} {front clef back : List Char}

/-- What the pattern finds first. -/
def foundClef (front clef : List Char) : Plainsong.Found :=
  ⟨front.length, front.length + clef.length, Array.replicate 1 none⟩

theorem matchAt_firstClef (h : firstClef? code.toList = some (front, clef, back)) :
    (∀ j < front.length, clefMatcher.matchAt code.toList.toArray j false = none) ∧
      clefMatcher.matchAt code.toList.toArray front.length false = some (foundClef front clef) := by
  obtain ⟨hsplit, hclef, hbefore⟩ := firstClef?_eq_some h
  have hlength : front.length ≤ code.toList.length := by
    rw [hsplit, length_append]
    exact Nat.le_add_right _ _
  constructor
  · intro j hj
    rw [matchAt_clefMatcher (by omega), hbefore j hj]
    rfl
  · rw [matchAt_clefMatcher hlength, hsplit, drop_left, hclef]
    rfl

theorem whole_foundClef (h : code.toList = front ++ (clef ++ back)) :
    (foundClef front clef).whole code.toList.toArray = String.ofList clef := by
  have hdrop : code.toList.drop front.length = clef ++ back := by rw [h, drop_left]
  exact Plainsong.Found.whole_eq hdrop rfl

theorem texts?_of_firstClef? (h : firstClef? code.toList = some (front, clef, back)) :
    clefMatcher.texts? code = some #[String.ofList clef] := by
  obtain ⟨hskip, hfound⟩ := matchAt_firstClef h
  obtain ⟨hsplit, -, -⟩ := firstClef?_eq_some h
  have hsearch : clefMatcher.search code.toList.toArray = some (foundClef front clef) := by
    refine Matcher.searchFrom_eq_some (fun j _ hj => hskip j hj) hfound (Nat.zero_le _) ?_
    rw [size_toArray, hsplit, length_append]
    exact Nat.le_add_right _ _
  rw [Matcher.texts?, hsearch, clefMatcher_eq.2, Option.map_some]
  simp [Plainsong.Found.group?, whole_foundClef hsplit, Array.range, Array.ofFn_succ]

theorem split_of_firstClef? (h : firstClef? code.toList = some (front, clef, back)) (hback : firstClef? back = none) :
    clefMatcher.split code = [String.ofList front, String.ofList back] := by
  obtain ⟨hskip, hfound⟩ := matchAt_firstClef h
  obtain ⟨hsplit, hclef, -⟩ := firstClef?_eq_some h
  have hsize : code.toList.toArray.size = front.length + clef.length + back.length := by
    rw [size_toArray, hsplit, length_append, length_append, Nat.add_assoc]
  have hdrop : code.toList.drop (front.length + clef.length) = back := by
    rw [hsplit, ← drop_drop, drop_left, drop_left]
  have hall : clefMatcher.all code.toList.toArray = [foundClef front clef] := by
    rw [Matcher.all, Matcher.allFrom_eq_cons (fun j _ hj => hskip j hj) hfound (Nat.zero_le _) (by omega)
      (Nat.lt_add_of_pos_right (clefHead?_eq_some hclef).2)]
    refine congrArg _ (Matcher.allFrom_eq_nil (fun j hj hsize => ?_) (by rw [hsize]; exact Nat.le_add_right _ _) _)
    have hj' : front.length + clef.length ≤ j := hj
    rw [matchAt_clefMatcher (by simpa using hsize), ← Nat.add_sub_cancel' hj', ← drop_drop, hdrop,
      clefHead?_drop_of_firstClef?_eq_none hback]
    rfl
  rw [Matcher.split, hall, clefMatcher_eq.2]
  have hrest : front.length + (clef.length + back.length) - (front.length + clef.length) = back.length := by omega
  simp [foundClef, hsplit, hrest]

end FirstClef

/-! ## A neume to be read -/

/-- A word begun under the clef on the fourth line, with a neume that has no signs yet. -/
def underC4 : Score where
  title := ""
  signs := #[{ kind := .clef, code := "c4", neume := 0, before := none }]
  neumes := #[{ syllable := 0, signs := [0] }, { syllable := 1 }]
  syllables := #[{ word := 0, text := "", before := none }, { word := 1, text := "A", neume := 1, before := none }]
  words := #[{ before := none, syllables := [0], clef := some 0 }, { before := some 0, syllables := [1] }]
  text := [0]

end Act

end Plainsong.Chant
