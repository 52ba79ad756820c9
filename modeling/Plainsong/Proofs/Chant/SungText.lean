import Plainsong.Chant.Lyric
import Plainsong.Proofs.Chant.Layout
/- The text of a syllable in lyrics. For ABC the blank before it goes, other blanks and stars
   become letters, and marks and hyphens are taken away. What is left of a text without marks
   and hyphens are letters of a syllable only (`Syllable.isSyllabic_abc`), and something is left
   of every text that does not open a word (`Syllable.abc_ne_empty`). -/
namespace Plainsong.Chant

open Pattern List

/-- Letters that syllables are made of in a line of lyrics. -/
def isSyllabic (c : Char) : Bool := !"*-_| \t\n\\]".toList.contains c

/-- Letters that the text for ABC takes over as they are. -/
def isSung (c : Char) : Bool := isSyllabic c && !"<\x7b\x7d".toList.contains c

/-- Letters of a text without hyphens and without marks. -/
def isLyric (c : Char) : Bool := isSung c || c = ' ' || c = '*'

theorem not_mem_replaceFrom {a : Char} {new : List Char} (ha : a ∉ new) (text : List Char) :
    a ∉ Text.replaceFrom [a] new 0 text := by
  induction text with
  | nil => exact not_mem_nil
  | cons c rest ih =>
    rw [Text.replaceFrom]
    split
    next => exact not_mem_append ha ih
    next hne =>
      refine not_mem_cons_of_ne_of_not_mem ?_ ih
      rintro rfl
      exact hne (by simp)

theorem replaceFrom_ne_nil {old new text : List Char} (hnew : new ≠ []) (htext : text ≠ []) :
    Text.replaceFrom old new 0 text ≠ [] := by
  cases text with
  | nil => exact absurd rfl htext
  | cons c rest =>
    rw [Text.replaceFrom]
    split
    · exact append_ne_nil_of_left_ne_nil hnew _
    · exact cons_ne_nil _ _

variable {s : String}

theorem replace_eq_self {old new : String} {c : Char} (hold : c ∈ old.toList.head?) (hc : c ∉ s.toList) :
    Text.replace old new s = s := by
  obtain ⟨rest, hold⟩ := List.head?_eq_some_iff.mp hold
  have hself : Text.replaceFrom (c :: rest) new.toList 0 (s.toList ++ []) = s.toList ++ Text.replaceFrom _ _ 0 [] :=
    replaceFrom_append hc
  rw [append_nil, Text.replaceFrom, append_nil] at hself
  rw [Text.replace, hold, hself, String.ofList_toList]

theorem replaceEach_eq_self {pairs : List (String × String)} (h : ∀ pair ∈ pairs, ∃ c ∈ pair.1.toList.head?, c ∉ s.toList) : replaceEach pairs s = s := by
  induction pairs with
  | nil => rfl
  | cons pair pairs ih =>
    obtain ⟨old, new⟩ := pair
    obtain ⟨c, hc, hs⟩ := h (old, new) mem_cons_self
    have hpair : Text.replace old new s = s := replace_eq_self hc hs
    show pairs.foldl _ (Text.replace old new s) = s
    rw [hpair]
    exact ih fun other hother => h other (mem_cons_of_mem _ hother)

theorem toList_replace (old new s : String) :
    (Text.replace old new s).toList = Text.replaceFrom old.toList new.toList 0 s.toList := by
  rw [Text.replace, String.toList_ofList]

theorem opener_verbatim : verbatim.pattern.opener? = some (.single '<' false) := by
  decide +kernel

theorem isSyllabic_of_isSung {c : Char} (h : isSung c = true) : isSyllabic c = true := (Bool.and_eq_true_iff.mp h).1

theorem not_mem_of_isSung {s : List Char} (h : ∀ c ∈ s, isSung c = true) {c : Char} (hc : isSung c = false) : c ∉ s := by
  intro hmem
  rw [h c hmem] at hc
  cases hc

/-- What happens to blanks, hyphens and stars in a text for ABC. -/
def spelled (s : String) : String := replaceEach [(" ", "~"), ("-", ""), ("*", "~✶"), ("~~", "~")] s

theorem spelled_eq (h : ∀ c ∈ s.toList, isLyric c = true) :
    spelled s = Text.replace "~~" "~" (Text.replace "*" "~✶" (Text.replace " " "~" s)) := by
  have hhyphen : '-' ∉ (Text.replace " " "~" s).toList := by
    rw [toList_replace]
    intro hmem
    rcases mem_replaceFrom hmem with hmem | hmem
    · exact absurd hmem (by decide)
    · exact absurd (h _ hmem) (by decide)
  have heq : spelled s = Text.replace "~~" "~" (Text.replace "*" "~✶" (Text.replace "-" "" (Text.replace " " "~" s))) := rfl
  have hself : Text.replace "-" "" (Text.replace " " "~" s) = Text.replace " " "~" s := replace_eq_self rfl hhyphen
  rw [heq, hself]

theorem isSung_spelled (h : ∀ c ∈ s.toList, isLyric c = true) : ∀ c ∈ (spelled s).toList, isSung c = true := by
  have hblank : ∀ c ∈ (Text.replace " " "~" s).toList, isSung c = true ∨ c = '*' := by
    intro c hc
    rw [toList_replace] at hc
    have hne : c ≠ ' ' := by
      rintro rfl
      exact not_mem_replaceFrom (by decide) _ hc
    rcases mem_replaceFrom hc with hc | hc
    · obtain rfl : c = '~' := mem_singleton.mp hc
      exact Or.inl (by decide)
    · simpa [isLyric, hne] using h c hc
  have hstar : ∀ c ∈ (Text.replace "*" "~✶" (Text.replace " " "~" s)).toList, isSung c = true := by
    intro c hc
    rw [toList_replace] at hc
    have hne : c ≠ '*' := by
      rintro rfl
      exact not_mem_replaceFrom (by decide) _ hc
    rcases mem_replaceFrom hc with hc | hc
    · exact all_eq_true.mp (show "~✶".toList.all isSung = true by decide) c hc
    · exact (hblank c hc).resolve_right hne
  intro c hc
  rw [spelled_eq h, toList_replace] at hc
  rcases mem_replaceFrom hc with hc | hc
  · obtain rfl : c = '~' := mem_singleton.mp hc
    decide
  · exact hstar c hc

theorem spelled_ne_empty (h : ∀ c ∈ s.toList, isLyric c = true) (hne : s ≠ "") : spelled s ≠ "" := by
  have hreplace : ∀ old new t : String, new ≠ "" → t ≠ "" → Text.replace old new t ≠ "" := by
    intro old new t hnew ht heq
    rw [← String.toList_eq_nil_iff, toList_replace] at heq
    exact replaceFrom_ne_nil (fun h => hnew (String.toList_eq_nil_iff.mp h)) (fun h => ht (String.toList_eq_nil_iff.mp h)) heq
  rw [spelled_eq h]
  exact hreplace _ _ _ (by decide) (hreplace _ _ _ (by decide) (hreplace _ _ _ (by decide) hne))

namespace Syllable

variable {y : Syllable}

/-- The text as it is sung: without the blank before it. -/
def sung (y : Syllable) : String :=
  match y.text.toList with
  | ' ' :: rest => String.ofList rest
  | _ => y.text

theorem abc_eq (h : ∀ c ∈ y.text.toList, isLyric c = true) :
    (∀ c ∈ y.sung.toList, isLyric c = true) ∧ y.abc = spelled y.sung := by
  have hsung : ∀ c ∈ y.sung.toList, isLyric c = true := by
    rw [sung]
    split
    next rest heq =>
      rw [String.toList_ofList]
      exact fun c hc => h c (heq ▸ mem_cons_of_mem _ hc)
    next => exact h
  refine ⟨hsung, ?_⟩
  have hverbatim : verbatim.replace y.sung (fun _ _ => "") = y.sung := by
    refine Matcher.replace_of_notMem opener_verbatim (fun hmem => ?_) _
    exact absurd (hsung _ hmem) (by decide)
  have hmarks : ∀ pairs, (∀ pair ∈ pairs, (pair : String × String).1.toList.head?.any (!isSung ·) = true) →
      replaceEach pairs (spelled y.sung) = spelled y.sung := by
    intro pairs hpairs
    refine replaceEach_eq_self fun pair hpair => ?_
    obtain ⟨c, hc, hsung'⟩ := (Option.any_eq_true _ _).mp (hpairs pair hpair)
    exact ⟨c, hc, not_mem_of_isSung (isSung_spelled hsung) (by simpa using hsung')⟩
  have heq : y.abc = replaceEach specialLetters (replaceEach styleMarks (spelled (verbatim.replace y.sung fun _ _ => ""))) := rfl
  rw [heq, hverbatim, hmarks styleMarks (by decide +kernel), hmarks specialLetters (by decide +kernel)]

theorem isSyllabic_abc (h : ∀ c ∈ y.text.toList, isLyric c = true) : ∀ c ∈ y.abc.toList, isSyllabic c = true := by
  obtain ⟨hsung, heq⟩ := abc_eq h
  rw [heq]
  exact fun c hc => isSyllabic_of_isSung (isSung_spelled hsung c hc)

theorem abc_ne_empty (h : ∀ c ∈ y.text.toList, isLyric c = true) (hopens : opensWord y.text = false) : y.abc ≠ "" := by
  obtain ⟨hsung, heq⟩ := abc_eq h
  rw [heq]
  refine spelled_ne_empty hsung ?_
  rw [sung]
  rw [opensWord] at hopens
  split at hopens
  · cases hopens
  · cases hopens
  next hnil hblank =>
    split
    next heq' => exact absurd heq' (hblank _)
    next => exact fun hempty => hnil (by rw [hempty]; rfl)

end Syllable

end Plainsong.Chant
