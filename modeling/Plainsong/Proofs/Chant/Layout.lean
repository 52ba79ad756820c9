import Plainsong.Proofs.Chant.Reading
import Plainsong.Proofs.Pattern.Scanning
/- The layout of a chant and what is read from it. A body is laid out as a row of items, each a
   text and behind it the code of a neume in brackets (`layout`). Two patterns take it apart, one
   for the texts and one for the neumes, and neither knows of the other; yet on a layout without
   brackets, percent signs or line feeds in its texts and codes they find the same items, each
   its own part of them (`Source.syllables?_layout`). So reading undoes the layout: the words,
   the syllables and the figures of the score are those of the items (`read_layout`). -/
namespace Plainsong.Chant

open Pattern List

/-- The items of a body, written out. -/
def layout : List (String × String) → String
  | [] => ""
  | (text, neume) :: rest => text ++ "(" ++ neume ++ ")" ++ layout rest

/-- No letter has a meaning of its own in the layout. -/
def Plain (s : String) : Prop := ∀ c ∈ s.toList, c ∉ ['(', ')', '[', ']', '%', '\n']

instance (s : String) : Decidable (Plain s) := List.decidableBAll _ s.toList

/-- Text and code of every item are plain. -/
def PlainItems (items : List (String × String)) : Prop := ∀ item ∈ items, Plain item.1 ∧ Plain item.2

theorem toList_layout_cons (text neume : String) (items : List (String × String)) :
    (layout ((text, neume) :: items)).toList =
      text.toList ++ '(' :: (neume.toList ++ ')' :: (layout items).toList) := by
  simp [layout]

variable {items : List (String × String)}

theorem not_mem_layout (h : PlainItems items) {c : Char} (hc : c ∈ ['[', ']', '%', '\n']) :
    c ∉ (layout items).toList := by
  induction items with
  | nil => exact not_mem_nil
  | cons item items ih =>
    obtain ⟨htext, hneume⟩ := h item mem_cons_self
    have hc' : c ∈ ['(', ')', '[', ']', '%', '\n'] := mem_cons_of_mem _ (mem_cons_of_mem _ hc)
    have hopen : c ≠ '(' := by rintro rfl; exact absurd hc (by decide)
    have hclose : c ≠ ')' := by rintro rfl; exact absurd hc (by decide)
    rw [toList_layout_cons]
    simp only [mem_append, mem_cons, hopen, hclose, false_or, not_or]
    exact ⟨fun hmem => htext c hmem hc', fun hmem => hneume c hmem hc', ih fun item' h' => h item' (mem_cons_of_mem _ h')⟩

theorem length_le_length_layout (items : List (String × String)) : items.length ≤ (layout items).toList.length := by
  induction items with
  | nil => exact Nat.zero_le _
  | cons item items ih =>
    rw [toList_layout_cons]
    simp only [length_cons, length_append]
    omega

/-! ## Brackets -/

/-- All but the two brackets. -/
def outside : CharClass := { members := [.range '(' ')'], negated := true, caseless := false }

theorem test_outside (c : Char) : outside.test c = decide (c ≠ '(' ∧ c ≠ ')') := by
  have hrange : ('(' ≤ c ∧ c ≤ ')') ↔ ¬ (c ≠ '(' ∧ c ≠ ')') := by
    constructor
    · rintro ⟨hlo, hhi⟩ ⟨hopen, hclose⟩
      have hlo' : 40 ≤ c.toNat := hlo
      have hhi' : c.toNat ≤ 41 := hhi
      have hopen' : c.toNat ≠ 40 := fun h => hopen (Char.toNat_inj.mp h)
      have hclose' : c.toNat ≠ 41 := fun h => hclose (Char.toNat_inj.mp h)
      omega
    · intro h
      by_cases hopen : c = '('
      · subst hopen
        decide
      · obtain rfl : c = ')' := by
          by_contra hclose
          exact h ⟨hopen, hclose⟩
        decide
  simp only [CharClass.test, outside, Member.test, any_cons, any_nil, Bool.false_and, Bool.or_false,
    ← Bool.decide_and, hrange, decide_not, Bool.bne_true, Bool.not_not]

/-- No bracket is among the letters. -/
def Free (letters : List Char) : Prop := ∀ c ∈ letters, c ≠ '(' ∧ c ≠ ')'

theorem Plain.free {s : String} (h : Plain s) : Free s.toList := by
  refine fun c hc => ⟨?_, ?_⟩ <;> rintro rfl <;> exact h _ hc (by decide)

section Run

variable {α : Type} {l mid rest : List Char} {i : Nat} {caps : Captures} {k : Nat → Captures → Option α}

theorem run_bracket {d : Char} (hd : d = '(' ∨ d = ')') (h : l.drop i = mid ++ rest) (hmid : Free mid)
    (hrest : ∀ x ∈ rest.head?, x = '(' ∨ x = ')') :
    run l.toArray (delimited outside (.single d false)) i caps k =
      if rest.head? = some d then k (i + mid.length + 1) caps else none := by
  have hdisjoint : ∀ x, outside.test x = true → (CharClass.single d false).test x = false := by
    intro x hx
    rw [test_outside, decide_eq_true_iff] at hx
    rw [test_single, decide_eq_false_iff_not]
    rintro rfl
    rcases hd with rfl | rfl
    · exact hx.1 rfl
    · exact hx.2 rfl
  have hstop : ∀ x ∈ rest.head?, outside.test x = false := by
    intro x hx
    rw [test_outside, decide_eq_false_iff_not]
    rintro ⟨hopen, hclose⟩
    rcases hrest x hx with hx | hx
    · exact hopen hx
    · exact hclose hx
  have hin : ∀ x ∈ mid, outside.test x = true := by
    intro x hx
    rw [test_outside, decide_eq_true_iff]
    exact hmid x hx
  rw [run_delimited hdisjoint h hin hstop]
  cases rest with
  | nil => rw [run_one_end _ (drop_add_of_drop h)]; rfl
  | cons x rest =>
    rw [run_one _ (drop_add_of_drop h), test_single, List.head?_cons]
    simp only [decide_eq_true_eq, Option.some_inj]

end Run

/-! ## The patterns -/

namespace Source

/-- The patterns that take a source apart, as they are read. -/
structure Patterns : Prop where
  textPart : Source.textPart.pattern =
    .seq (.span (.single ')' false) ⟨0, some 1⟩ true) (delimited outside (.single '(' false))
  neumePart : Source.neumePart.pattern = .seq (.one (.single '(' false)) (delimited outside (.single ')' false))
  order : Source.order.pattern.opener? = some (.single '[' false)
  comment : Source.comment.pattern.opener? = some (.single '%' false)
  sectionMark : Source.sectionMark.pattern = .seq (.one (.single '%' false)) (.seq (.one (.single '%' false))
    (.seq (.span (.single '\r' false) ⟨0, some 1⟩ true) (.one (.single '\n' false))))
  groups : Source.sectionMark.groups = 1

theorem patterns : Patterns := by
  constructor <;> decide +kernel

variable {l mid rest : List Char} {i : Nat}

theorem matchAt_neumePart (h : l.drop i = '(' :: (mid ++ ')' :: rest)) (hmid : Free mid) :
    ∃ caps, neumePart.matchAt l.toArray i false = some ⟨i, i + (mid.length + 2), caps⟩ := by
  have hi : ¬ l.length < i := fun hlt => by simp [drop_eq_nil_of_le hlt.le] at h
  refine ⟨Array.replicate neumePart.groups none, ?_⟩
  rw [Matcher.matchAt, size_toArray, if_neg hi, patterns.neumePart, run_seq, run_one _ h, test_single,
    if_pos (by decide), run_bracket (.inr rfl) (drop_succ_of_drop h) hmid (by simp), List.head?_cons, if_pos rfl,
    Bool.false_and, if_neg Bool.false_ne_true, show i + 1 + mid.length + 1 = i + (mid.length + 2) by omega]

theorem matchAt_textPart_behind (h : l.drop i = ')' :: (mid ++ rest)) (hmid : Free mid)
    (hrest : ∀ x ∈ rest.head?, x = '(' ∨ x = ')') :
    ∃ caps, textPart.matchAt l.toArray i false =
      if rest.head? = some '(' then some ⟨i, i + (mid.length + 2), caps⟩ else none := by
  have hi : ¬ l.length < i := fun hlt => by simp [drop_eq_nil_of_le hlt.le] at h
  refine ⟨Array.replicate textPart.groups none, ?_⟩
  rw [Matcher.matchAt, size_toArray, if_neg hi, patterns.textPart, run_optional h, test_single, if_pos (by decide),
    run_bracket (.inl rfl) (drop_succ_of_drop h) hmid hrest, Bool.false_and, if_neg Bool.false_ne_true,
    show i + 1 + mid.length + 1 = i + (mid.length + 2) by omega]
  intro _
  have hhere : l.drop i = [] ++ ')' :: (mid ++ rest) := h
  rw [run_bracket (.inl rfl) hhere (fun _ hc => absurd hc not_mem_nil) (by simp), List.head?_cons,
    if_neg (by decide)]

theorem matchAt_textPart (h : l.drop i = mid ++ rest) (hmid : Free mid) (hi : i ≤ l.length)
    (hrest : ∀ x ∈ rest.head?, x = '(' ∨ x = ')') (hfirst : ')' ∉ (mid ++ rest).head?) :
    ∃ caps, textPart.matchAt l.toArray i false =
      if rest.head? = some '(' then some ⟨i, i + (mid.length + 1), caps⟩ else none := by
  refine ⟨Array.replicate textPart.groups none, ?_⟩
  rw [Matcher.matchAt, size_toArray, if_neg (by omega), patterns.textPart]
  have hrun : ∀ {α : Type} {caps : Captures} {k : Nat → Captures → Option α},
      run l.toArray (.seq (.span (.single ')' false) ⟨0, some 1⟩ true) (delimited outside (.single '(' false))) i caps k =
        run l.toArray (delimited outside (.single '(' false)) i caps k := by
    intro α caps k
    cases hhead : mid ++ rest with
    | nil =>
      rw [run_seq, run_span, h, hhead]
      rfl
    | cons x later =>
      rw [hhead, List.head?_cons, Option.mem_some_iff] at hfirst
      have hx : (CharClass.single ')' false).test x = false := by rw [test_single]; simpa using hfirst
      rw [run_optional (h.trans hhead) (fun htest => absurd htest (by rw [hx]; decide)), hx, if_neg Bool.false_ne_true]
  rw [hrun, run_bracket (.inl rfl) h hmid hrest, Bool.false_and, if_neg Bool.false_ne_true, Nat.add_assoc]

/-! ## Texts and neumes of a layout -/

theorem withoutBrackets_ofList {open? close? : List Char} (hmid : Free mid) (hopen : ∀ c ∈ open?, c = '(' ∨ c = ')')
    (hclose : ∀ c ∈ close?, c = '(' ∨ c = ')') :
    withoutBrackets (String.ofList (open? ++ mid ++ close?)) = String.ofList mid := by
  have hbracket : ∀ letters : List Char, (∀ c ∈ letters, c = '(' ∨ c = ')') →
      (letters.filter fun c => c ≠ '(' && c ≠ ')') = [] := by
    intro letters h
    refine filter_eq_nil_iff.mpr fun c hc => ?_
    rcases h c hc with rfl | rfl <;> decide
  have hfree : (mid.filter fun c => c ≠ '(' && c ≠ ')') = mid := by
    refine filter_eq_self.mpr fun c hc => ?_
    simpa using hmid c hc
  rw [withoutBrackets, String.toList_ofList, filter_append, filter_append, hbracket _ hopen, hbracket _ hclose,
    hfree, nil_append, append_nil]

theorem map_allFrom_cons {m : Matcher} {j : Nat} {first last : List Char} (hmid : Free mid)
    (hfirst : ∀ c ∈ first, c = '(' ∨ c = ')') (hlast : ∀ c ∈ last, c = '(' ∨ c = ')') (hne : last ≠ [])
    (h : l.drop j = first ++ mid ++ last ++ rest) (hi : i ≤ j)
    (hskip : ∀ j', i ≤ j' → j' < j → m.matchAt l.toArray j' false = none)
    (hmatch : ∃ caps, m.matchAt l.toArray j false = some ⟨j, j + (first ++ mid ++ last).length, caps⟩) (fuel : Nat) :
    (m.allFrom l.toArray (fuel + 1) i false).map (fun f => withoutBrackets (f.whole l.toArray)) =
      String.ofList mid :: (m.allFrom l.toArray fuel (j + (first ++ mid ++ last).length) false).map
        (fun f => withoutBrackets (f.whole l.toArray)) := by
  obtain ⟨caps, hmatch⟩ := hmatch
  have hpos : 0 < (first ++ mid ++ last).length := by
    have := length_pos_iff.mpr hne
    simp only [length_append]
    omega
  have hj : j ≤ l.toArray.size := by
    have := congrArg List.length h
    rw [length_drop, length_append] at this
    rw [size_toArray]
    omega
  rw [Matcher.allFrom_eq_cons hskip hmatch hi hj (Nat.lt_add_of_pos_right hpos), map_cons, Found.whole_eq h rfl,
    withoutBrackets_ofList hmid hfirst hlast]

theorem matchAt_textPart_within {j : Nat} (h : l.drop i = mid ++ ')' :: rest) (hmid : Free mid) (hi : i ≤ j)
    (hj : j < i + mid.length) : textPart.matchAt l.toArray j false = none := by
  obtain ⟨x, later, hlater, hdrop⟩ := exists_drop_of_lt h hi hj
  have hfree : Free (x :: later) := fun c hc => hmid c (hlater c hc)
  have hj' : j ≤ l.length := by
    by_contra hlt
    rw [drop_eq_nil_of_le (by omega)] at hdrop
    simp at hdrop
  obtain ⟨caps, hmatch⟩ := matchAt_textPart hdrop hfree hj' (by simp) (by simpa using (hfree x (by simp)).2)
  rw [hmatch, List.head?_cons, if_neg (by decide)]

theorem matchAt_textPart_end (h : l.drop i = []) (hi : i ≤ l.length) : textPart.matchAt l.toArray i false = none := by
  have hend : l.drop i = [] ++ [] := h
  obtain ⟨caps, hmatch⟩ := matchAt_textPart hend (fun _ hc => absurd hc not_mem_nil) hi (by simp) (by simp)
  rw [hmatch, List.head?_nil, if_neg (by decide)]

theorem texts_behind (hitems : PlainItems items) (hmid : Free mid)
    (h : l.drop i = mid ++ ')' :: (layout items).toList) {fuel : Nat} (hfuel : items.length ≤ fuel) :
    (textPart.allFrom l.toArray fuel i false).map (fun f => withoutBrackets (f.whole l.toArray)) = items.map (·.1) := by
  induction items generalizing i mid fuel with
  | nil =>
    have hlast : l.drop (i + mid.length) = ')' :: ([] ++ []) := drop_add_of_drop h
    have hlength : l.length = i + mid.length + 1 := by
      have := congrArg List.length hlast
      simp only [length_drop, length_append, length_cons, length_nil] at this
      omega
    have hnone : ∀ j, i ≤ j → j ≤ l.toArray.size → textPart.matchAt l.toArray j false = none := by
      intro j hij hj
      rw [size_toArray] at hj
      rcases Nat.lt_trichotomy j (i + mid.length) with hlt | rfl | hgt
      · exact matchAt_textPart_within h hmid hij hlt
      · obtain ⟨caps, hmatch⟩ := matchAt_textPart_behind hlast (fun _ hc => absurd hc not_mem_nil) (by simp)
        rw [hmatch, List.head?_nil, if_neg (by decide)]
      · exact matchAt_textPart_end (drop_eq_nil_of_le (by omega)) hj
    rw [Matcher.allFrom_eq_nil hnone (by rw [size_toArray]; omega)]
    rfl
  | cons item items ih =>
    obtain ⟨text, neume⟩ := item
    obtain ⟨fuel, rfl⟩ := Nat.exists_eq_add_one.mpr (Nat.lt_of_lt_of_le (Nat.zero_lt_succ items.length) hfuel)
    obtain ⟨htext, hneume⟩ := hitems _ mem_cons_self
    have hplace : l.drop (i + mid.length) = ')' :: (text.toList ++ '(' :: (neume.toList ++ ')' :: (layout items).toList)) := by
      rw [drop_add_of_drop h, toList_layout_cons]
    have hfound : l.drop (i + mid.length) = [')'] ++ text.toList ++ ['('] ++ (neume.toList ++ ')' :: (layout items).toList) := by
      rw [hplace]
      simp
    obtain ⟨caps, hmatch⟩ := matchAt_textPart_behind hplace htext.free (by simp)
    rw [List.head?_cons, if_pos rfl] at hmatch
    rw [map_allFrom_cons htext.free (by simp) (by simp) (by simp) hfound (by omega)
        (fun j => matchAt_textPart_within h hmid) ⟨caps, by rw [hmatch]; simp⟩,
      String.ofList_toList, map_cons,
      ih (fun item' h' => hitems item' (mem_cons_of_mem _ h')) hneume.free (drop_add_of_drop hfound)
        (Nat.le_of_succ_le_succ hfuel)]

theorem length_lt_fuel (items : List (String × String)) :
    items.length < 2 * (layout items).toList.toArray.size + 2 := by
  have := length_le_length_layout items
  rw [size_toArray]
  omega

theorem parts_textPart_layout (hitems : PlainItems items) : parts textPart (layout items) = items.map (·.1) := by
  rw [parts, Matcher.all]
  have hfuel := length_lt_fuel items
  generalize 2 * (layout items).toList.toArray.size + 2 = fuel at hfuel ⊢
  cases items with
  | nil =>
    have hnone : ∀ j, 0 ≤ j → j ≤ ([] : List Char).toArray.size → textPart.matchAt ([] : List Char).toArray j false = none :=
      fun j _ hj => matchAt_textPart_end drop_nil hj
    rw [show (layout []).toList = [] from rfl, Matcher.allFrom_eq_nil hnone le_rfl]
    rfl
  | cons item items =>
    obtain ⟨text, neume⟩ := item
    obtain ⟨fuel, rfl⟩ := Nat.exists_eq_add_one.mpr (Nat.zero_lt_of_lt hfuel)
    obtain ⟨htext, hneume⟩ := hitems _ mem_cons_self
    generalize hl : (layout ((text, neume) :: items)).toList = l
    have hplace : l.drop 0 = text.toList ++ '(' :: (neume.toList ++ ')' :: (layout items).toList) := by
      rw [drop_zero, ← hl, toList_layout_cons]
    have hfound : l.drop 0 = [] ++ text.toList ++ ['('] ++ (neume.toList ++ ')' :: (layout items).toList) := by
      rw [hplace]
      simp
    have hfirst : ')' ∉ (text.toList ++ '(' :: (neume.toList ++ ')' :: (layout items).toList)).head? := by
      cases hletters : text.toList with
      | nil => simp
      | cons x later => simpa using (htext.free x (by rw [hletters]; exact mem_cons_self)).2
    obtain ⟨caps, hmatch⟩ := matchAt_textPart hplace htext.free (Nat.zero_le _) (by simp) hfirst
    rw [List.head?_cons, if_pos rfl] at hmatch
    rw [map_allFrom_cons htext.free (by simp) (by simp) (by simp) hfound le_rfl
        (fun j _ hj => absurd hj (Nat.not_lt_zero j)) ⟨caps, by rw [hmatch]; simp⟩,
      String.ofList_toList, map_cons,
      texts_behind (fun item' h' => hitems item' (mem_cons_of_mem _ h')) hneume.free (drop_add_of_drop hfound)
        (by rw [length_cons] at hfuel; omega)]

theorem neumes_from (hitems : PlainItems items)
    (h : l.drop i = (layout items).toList) (hi : i ≤ l.length) {fuel : Nat} (hfuel : items.length ≤ fuel) :
    (neumePart.allFrom l.toArray fuel i false).map (fun f => withoutBrackets (f.whole l.toArray)) = items.map (·.2) := by
  induction items generalizing i fuel with
  | nil =>
    have hnone : ∀ j, i ≤ j → j ≤ l.toArray.size → neumePart.matchAt l.toArray j false = none := by
      intro j hij _
      refine Matcher.matchAt_of_notMem (congrArg opener? patterns.neumePart) ?_
      rw [← Nat.add_sub_cancel' hij, ← drop_drop, h]
      simp [layout]
    rw [Matcher.allFrom_eq_nil hnone (by rw [size_toArray]; exact hi)]
    rfl
  | cons item items ih =>
    obtain ⟨text, neume⟩ := item
    obtain ⟨fuel, rfl⟩ := Nat.exists_eq_add_one.mpr (Nat.lt_of_lt_of_le (Nat.zero_lt_succ items.length) hfuel)
    obtain ⟨htext, hneume⟩ := hitems _ mem_cons_self
    rw [toList_layout_cons] at h
    -- within the text no neume is found, for it has no bracket
    have hskip : ∀ j, i ≤ j → j < i + text.toList.length → neumePart.matchAt l.toArray j false = none := by
      intro j hij hj
      obtain ⟨x, later, hlater, hdrop⟩ := exists_drop_of_lt h hij hj
      refine Matcher.matchAt_of_notMem (congrArg opener? patterns.neumePart) ?_
      rw [hdrop]
      simpa using (htext.free x (hlater x (by simp))).1
    have hplace := drop_add_of_drop h
    have hfound : l.drop (i + text.toList.length) = ['('] ++ neume.toList ++ [')'] ++ (layout items).toList := by
      rw [hplace]
      simp
    have hend : i + text.toList.length + (['('] ++ neume.toList ++ [')']).length ≤ l.length := by
      have := congrArg List.length hfound
      simp only [length_drop, length_append, length_cons, length_nil] at this ⊢
      omega
    obtain ⟨caps, hmatch⟩ := matchAt_neumePart hplace hneume.free
    rw [map_allFrom_cons hneume.free (by simp) (by simp) (by simp) hfound (by omega) hskip
        ⟨caps, by rw [hmatch]; simp⟩,
      String.ofList_toList, map_cons,
      ih (fun item' h' => hitems item' (mem_cons_of_mem _ h')) (drop_add_of_drop hfound) hend
        (Nat.le_of_succ_le_succ hfuel)]

theorem parts_neumePart_layout (hitems : PlainItems items) : parts neumePart (layout items) = items.map (·.2) :=
  neumes_from hitems drop_zero (Nat.zero_le _) (length_lt_fuel items).le

/-! ## The whole source -/

theorem matchAt_sectionMark (h : l = '%' :: '%' :: '\n' :: rest) :
    ∃ caps, sectionMark.matchAt l.toArray 0 false = some ⟨0, 3, caps⟩ := by
  have h₀ : l.drop 0 = '%' :: '%' :: '\n' :: rest := h
  have h₁ := drop_succ_of_drop h₀
  have h₂ := drop_succ_of_drop h₁
  refine ⟨Array.replicate sectionMark.groups none, ?_⟩
  rw [Matcher.matchAt, if_neg (Nat.not_lt_zero _), patterns.sectionMark, run_seq, run_one _ h₀, test_single,
    if_pos (by decide), run_seq, run_one _ h₁, test_single, if_pos (by decide),
    run_optional h₂ fun htest => absurd htest (by decide), test_single, if_neg (by decide), run_one _ h₂, test_single,
    if_pos (by decide)]
  rfl

theorem sections_of_mark {body : String} (h : '%' ∉ body.toList) : sections ("%%\n" ++ body) = ["", body] := by
  have hl : ("%%\n" ++ body).toList = '%' :: '%' :: '\n' :: body.toList := by
    rw [String.toList_append]
    rfl
  obtain ⟨caps, hmatch⟩ := matchAt_sectionMark hl
  have hall : sectionMark.all ("%%\n" ++ body).toList.toArray = [⟨0, 3, caps⟩] := by
    rw [Matcher.all, Matcher.allFrom_eq_cons (fun j _ hj => absurd hj (Nat.not_lt_zero j)) hmatch le_rfl (Nat.zero_le _)
      (Nat.zero_lt_succ 2), Matcher.allFrom_eq_nil fun j hj _ => Matcher.matchAt_of_notMem_drop (congrArg opener? patterns.sectionMark) (by rwa [hl]) hj]
    rw [hl]
    simp
  rw [sections, Matcher.split, hall, patterns.groups]
  simp

theorem body?_of_mark {body : String} (hmark : '%' ∉ body.toList) (hline : '\n' ∉ body.toList) :
    body? ("%%\n" ++ body) = some body := by
  have hcomment := Matcher.replace_of_notMem patterns.comment hmark fun _ _ => ""
  have hmap : (body.toList.map fun c => if c = '\n' then ' ' else c) = body.toList := by
    refine (map_congr_left fun c hc => ?_).trans (map_id _)
    rw [if_neg, id]
    rintro rfl
    exact hline hc
  rw [body?, sections_of_mark hmark, List.getElem?_cons_succ, List.getElem?_cons_zero, Option.map_some, hcomment, hmap,
    String.ofList_toList]

theorem moveAgain_eq_self {n : Nat} {texts : Array String} (hn : i + n = texts.size)
    (h : ∀ text ∈ texts.toList, again.occursIn text = false) : moveAgain n i texts = some texts := by
  induction n generalizing i with
  | zero => rfl
  | succ n ih =>
    have hi : i < texts.size := by omega
    have hnone : again.texts? (texts.getD i "") = none := by
      have hmem : texts.getD i "" ∈ texts.toList := by
        rw [Array.getD, dif_pos hi]
        exact Array.getElem_mem_toList hi
      have hsearch := h _ hmem
      rw [Matcher.occursIn, Option.isSome_eq_false_iff, Option.isNone_iff_eq_none] at hsearch
      rw [Matcher.texts?, hsearch]
      rfl
    rw [moveAgain]
    simp only [hnone]
    exact ih (by omega)

theorem syllables?_layout (hitems : PlainItems items)
    (hagain : ∀ item ∈ items, again.occursIn item.1 = false) : syllables? (layout items) = some items := by
  have horder := Matcher.replace_of_notMem patterns.order (not_mem_layout hitems (by decide)) fun _ _ => ""
  have hmove : moveAgain (items.map (·.1)).toArray.size 0 (items.map (·.1)).toArray = some (items.map (·.1)).toArray :=
    moveAgain_eq_self (Nat.zero_add _) (by simpa using hagain)
  have hzip : (items.map (·.1)).zip (items.map (·.2)) = items := by
    rw [zip_map', map_id'']
    exact fun _ => rfl
  rw [syllables?, horder, parts_textPart_layout hitems, parts_neumePart_layout hitems, hmove, Option.bind_eq_bind, Option.bind_some, hzip]
  rfl

end Source

/-! ## Words -/

/-- The items of a word: the first one opens it, and no other opens one. -/
def IsWord (word : List (String × String)) : Prop :=
  ∃ first rest, word = first :: rest ∧ opensWord first.1 = true ∧ ∀ item ∈ rest, opensWord item.1 = false

theorem exists_split_eq (word items : List (String × String)) :
    ∃ words, split word items = (word.reverse ++ items.takeWhile fun item => !opensWord item.1) :: words ∧
      words.flatten = items.dropWhile (fun item => !opensWord item.1) ∧ ∀ word ∈ words, IsWord word := by
  induction items generalizing word with
  | nil => exact ⟨[], by simp [split], rfl, fun _ hw => absurd hw not_mem_nil⟩
  | cons item rest ih =>
    by_cases hopens : opensWord item.1 = true
    · obtain ⟨words, hsplit, hflatten, hwords⟩ := ih [item]
      refine ⟨split [item] rest, by simp [split, hopens], ?_, ?_⟩
      · rw [hsplit, flatten_cons, hflatten, append_assoc, takeWhile_append_dropWhile]
        simp [hopens]
      · rw [hsplit, forall_mem_cons]
        refine ⟨⟨item, _, rfl, hopens, fun other hother => ?_⟩, hwords⟩
        simpa using mem_takeWhile_imp hother
    · rw [Bool.not_eq_true] at hopens
      obtain ⟨words, hsplit, hflatten, hwords⟩ := ih (item :: word)
      refine ⟨words, ?_, ?_, hwords⟩
      · simp [split, hopens, hsplit]
      · simp [hopens, hflatten]

theorem Score.allSyllables_eq (s : Score) : s.allSyllables = s.order.map s.syllable := by
  rw [Score.allSyllables, Score.order, map_flatMap]
  rfl

theorem Score.Reads.map_entry {words : List (List (String × String))} {s : Score} (h : s.Reads words) :
    s.order.map s.entry = words.flatten.map entryOf := by
  have hentries := congrArg List.flatten h.entries
  rw [Score.entries, ← flatMap_def, ← map_flatten] at hentries
  rw [Score.order, map_flatMap]
  exact hentries

/-- Reading undoes the layout. If the score is read, its first word is empty and the others
    are the items cut before each one that opens a word; syllable by syllable it has the texts
    of the items and the figures of their codes, and each syllable comes behind the one that
    stands before it. -/
theorem read_layout {items : List (String × String)} (hitems : PlainItems items)
    (hagain : ∀ item ∈ items, Source.again.occursIn item.1 = false)
    (hfirst : ∀ item ∈ items.head?, opensWord item.1 = true) {transposition : Option Int} {s : Score}
    (hread : Score.read ("%%\n" ++ layout items) transposition = (.ok (), s)) :
    s.allSyllables.map (·.text) = items.map (·.1) ∧
    s.music.map (·.map (·.figure)) = items.map (fun item => figuresOf item.2) ∧
    (∃ words : List (List (String × String)), s.entries = [] :: words.map (·.map entryOf) ∧ words.flatten = items ∧
      ∀ word ∈ words, IsWord word) ∧
    Along (fun earlier k => (s.syllable k).before = earlier.getLast?) s.order := by
  obtain ⟨body, items', hbody, hitems', hreads⟩ := Score.read_items hread
  rw [Source.body?_of_mark (not_mem_layout hitems (by decide)) (not_mem_layout hitems (by decide))] at hbody
  cases hbody
  rw [Source.syllables?_layout hitems hagain] at hitems'
  cases hitems'
  obtain ⟨words, hsplit, hflatten, hwords⟩ := exists_split_eq [] items
  have hnone : items.takeWhile (fun item => !opensWord item.1) = [] := by
    cases items with
    | nil => rfl
    | cons item rest => simp [hfirst item rfl]
  have hall : items.dropWhile (fun item => !opensWord item.1) = items := by
    cases items with
    | nil => rfl
    | cons item rest => simp [hfirst item rfl]
  rw [hnone, List.reverse_nil, List.nil_append] at hsplit
  rw [hall] at hflatten
  rw [hsplit] at hreads
  have hentry : s.order.map s.entry = items.map entryOf := by
    rw [hreads.map_entry, List.flatten_cons, List.nil_append, hflatten]
  refine ⟨?_, ?_, ⟨words, hreads.entries, hflatten, hwords⟩, ?_⟩
  · have htexts := congrArg (List.map Prod.fst) hentry
    rw [List.map_map, List.map_map] at htexts
    rw [Score.allSyllables_eq, List.map_map]
    exact htexts
  · have hfigures := congrArg (List.map Prod.snd) hentry
    rw [List.map_map, List.map_map] at hfigures
    rw [Score.music, Score.allSyllables_eq, List.map_map, List.map_map]
    refine Eq.trans (List.map_congr_left fun k _ => ?_) hfigures
    simp [Score.signsOf, Score.entry, Score.figures]
  · have hlinked := hreads.linked
    simpa only [Score.Linked, Option.or_none] using hlinked

/-- A word of two syllables between a clef and a bar. -/
theorem read_layout_amen :
    ∃ s, Score.read ("%%\n" ++ layout [("", "c4"), (" A", "gxg"), ("men,", "h."), (" *", ";")]) none = (.ok (), s) ∧
      s.allSyllables.map (·.text) = ["", " A", "men,", " *"] ∧
      s.music.map (·.map (·.figure)) =
        [[(.clef, "c4")], [(.accidental, "gx"), (.note, "g")], [(.note, "h"), (.rhythm, ".")], [(.bar, ";")]] := by
  have hread : ∃ s, Score.read ("%%\n" ++ layout [("", "c4"), (" A", "gxg"), ("men,", "h."), (" *", ";")]) none = (.ok (), s) :=
    ⟨_, Score.read_of_isOk (by decide +kernel)⟩
  obtain ⟨s, hread⟩ := hread
  obtain ⟨htexts, hfigures, -⟩ := read_layout (by unfold PlainItems; decide +kernel) (by decide +kernel)
    (by decide +kernel) hread
  refine ⟨s, hread, htexts, hfigures.trans ?_⟩
  decide +kernel

end Plainsong.Chant
