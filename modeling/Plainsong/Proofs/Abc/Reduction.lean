import Plainsong.Abc.Tunes
import Plainsong.Proofs.Xml.Look
import Plainsong.Proofs.Abc.Broken
/- Reducing the durations of a score. The divisor divides every duration and 21; so where what
   durations are counted in is a multiple of 21 and stands at one place, both are divided exactly
   and by the same number, and nothing else of the score changes (`reduce_keeps_rhythm`).
   What a part that stands at two places counts in is divided twice. -/
namespace Plainsong

open List

/-! ## Numerals -/

namespace Text

theorem readDigits_eq {cs : List Char} (h : ∀ c ∈ cs, c.isDigit) (hcs : cs ≠ []) (n : Nat) (b : Bool) :
    readDigits cs n b = some (Nat.ofDigitChars 10 cs n) := by
  induction cs generalizing n b with
  | nil => exact absurd rfl hcs
  | cons c cs ih =>
    have hc : c.isDigit := h c (by simp)
    have hne : c ≠ '_' := fun h => by simp [h] at hc
    simp only [readDigits, decimalDigit?, if_neg hne, hc, if_true]
    rw [Nat.ofDigitChars_cons, mul_comm 10 n]
    cases cs with
    | nil => rfl
    | cons d ds => exact ih (fun c hc => h c (by simp [hc])) (by simp) _ _

theorem readInt_toString (n : Int) : readInt (toString n).toList = some n := by
  have hdigits (k : Nat) : readDigits (Nat.toDigits 10 k) 0 false = some k := by
    rw [readDigits_eq (fun c hc => Nat.isDigit_of_mem_toDigits (by decide) (by decide) hc) Nat.toDigits_ne_nil]
    simp
  cases n with
  | negSucc k => simp [toString, Int.repr, readInt, Nat.repr_eq_ofList_toDigits, hdigits, Int.negSucc_eq]
  | ofNat k =>
    have hread : readInt (Nat.toDigits 10 k) = (readDigits (Nat.toDigits 10 k) 0 false).map Int.ofNat := by
      have hsign : ∀ c ∈ Nat.toDigits 10 k, c ≠ '-' ∧ c ≠ '+' := fun c hc => by
        have := Nat.isDigit_of_mem_toDigits (by decide) (by decide) hc
        constructor <;> rintro rfl <;> simp at this
      unfold readInt
      split <;> simp_all
    simp [toString, Int.repr, Nat.repr_eq_ofList_toDigits, hread, hdigits]

end Text

/-! ## Texts of a tree -/

namespace Xml.Tree

variable {t t' : Tree} {text : Nat → String} {ids : List Nat}

/-- The second tree is the first but for the texts of its elements. -/
structure Alike (t t' : Tree) : Prop where
  size : t'.elements.size = t.elements.size
  but_text : ∀ id, t'.get id = { t.get id with text := (t'.get id).text }

theorem withTag_alike (h : Alike t t') (root : Nat) (tag : String) : t'.withTag root tag = t.withTag root tag := by
  rw [withTag, withTag, h.size]
  generalize t.elements.size = depth
  induction depth generalizing root with
  | zero => rfl
  | succ depth ih =>
    rw [withTagAt, withTagAt, h.but_text root]
    simp only [funext ih]

theorem tag_of_mem_withTag {root id : Nat} {tag : String} (h : id ∈ t.withTag root tag) : (t.get id).tag = tag := by
  rw [withTag] at h
  generalize t.elements.size = depth at h
  induction depth generalizing root with
  | zero => cases h
  | succ depth ih =>
    rw [withTagAt] at h
    have hbelow : id ∈ (t.get root).children.toList.flatMap (withTagAt t tag depth) → (t.get id).tag = tag := by
      intro hmem
      obtain ⟨c, -, hc⟩ := mem_flatMap.mp hmem
      exact ih hc
    split_ifs at h with hroot
    · rcases mem_cons.mp h with rfl | hmem
      · exact eq_of_beq hroot
      · exact hbelow hmem
    · exact hbelow h

/-- Gives elements new texts one after the other. -/
def setTexts (text : Nat → String) (ids : List Nat) (t : Tree) : Tree :=
  ids.foldl (fun t id => t.change id fun e => { e with text := some (text id) }) t

theorem size_setTexts : (setTexts text ids t).elements.size = t.elements.size := by
  induction ids generalizing t with
  | nil => rfl
  | cons id ids ih => exact ih.trans (size_change ..)

theorem get_setTexts (k : Nat) : (setTexts text ids t).get k =
    if k ∈ ids ∧ k < t.elements.size then { t.get k with text := some (text k) } else t.get k := by
  induction ids generalizing t with
  | nil => simp [setTexts]
  | cons id ids ih =>
    refine (ih (t := t.change id _)).trans ?_
    rw [get_change, size_change]
    grind

theorem alike_setTexts : Alike t (setTexts text ids t) where
  size := size_setTexts
  but_text k := by
    rw [get_setTexts]
    split_ifs <;> rfl

/-- Where no element comes twice, a text that is made of the element's own is made of the one it had at the start. -/
theorem foldl_eq_setTexts (f : Element → String) (h : ids.Nodup) :
    ids.foldl (fun t id => t.change id fun e => { e with text := some (f (t.get id)) }) t = setTexts (fun id => f (t.get id)) ids t := by
  induction ids generalizing t with
  | nil => rfl
  | cons id ids ih =>
    obtain ⟨hid, hids⟩ := nodup_cons.mp h
    rw [foldl_cons, ih hids]
    refine foldl_ext _ _ _ fun t' k hk => ?_
    have hne : k ≠ id := fun heq => hid (heq ▸ hk)
    simp only [get_change, hne, false_and, if_false]

end Xml.Tree

namespace Abc

open Xml Xml.Tree

/-! ## The divisor -/

theorem foldl_commonDivisor_dvd (d : Int) (ds : List Int) : ds.foldl commonDivisor d ∣ d ∧ ∀ x ∈ ds, ds.foldl commonDivisor d ∣ x := by
  induction ds generalizing d with
  | nil => simp
  | cons e ds ih =>
    obtain ⟨hd, hds⟩ := ih (commonDivisor d e)
    have hgcd : commonDivisor d e ∣ Int.gcd d e := Int.dvd_natAbs_self.trans (by rw [(commonDivisor_spec d e).1])
    exact ⟨(hd.trans hgcd).trans (Int.gcd_dvd_left ..), forall_mem_cons.mpr ⟨(hd.trans hgcd).trans (Int.gcd_dvd_right ..), hds⟩⟩

theorem durationDivisor_spec (ds : List Int) : 0 < durationDivisor ds ∧ ∀ x ∈ ds ++ [21], durationDivisor ds ∣ x := by
  cases ds with
  | nil => decide
  | cons d ds =>
    obtain ⟨hd, hds⟩ := foldl_commonDivisor_dvd d (ds ++ [21])
    refine ⟨?_, forall_mem_cons.mpr ⟨hd, hds⟩⟩
    simp only [durationDivisor, cons_append, foldl_append]
    exact (commonDivisor_spec _ 21).2 (by decide)

/-! ## Reduced scores -/

namespace Sheetmusic

def durations (m : Sheetmusic) : List Nat := m.tree.withTag m.root "duration"

/-- The elements that say what a part counts its durations in. -/
def divisions (m : Sheetmusic) : List Nat := m.tree.withTag m.root "divisions"

def divisor (m : Sheetmusic) : Int := durationDivisor (m.durations.map (elementInt m.tree))

/-- The number of an element, divided, as a text. -/
def quotientText (d : Int) (e : Element) : String := toString (((Text.readInt (e.text.getD "").toList).getD 0).fdiv d)

def counted (m : Sheetmusic) (id : Nat) : String := quotientText m.divisor (m.tree.get id)

theorem notMem_durations {m : Sheetmusic} {k : Nat} (hk : k ∈ m.divisions) : k ∉ m.durations := fun hk' => by
  have htag := (tag_of_mem_withTag hk).symm.trans (tag_of_mem_withTag hk')
  simp at htag

theorem reduce_tree (m : Sheetmusic) (honce : m.divisions.Nodup) :
    m.reduce.tree = setTexts m.counted m.divisions (setTexts m.counted m.durations m.tree) := by
  have hunits : (setTexts m.counted m.durations m.tree).withTag m.root "divisions" = m.divisions := withTag_alike alike_setTexts ..
  refine (congrArg (List.foldl _ _) hunits).trans ((foldl_eq_setTexts (quotientText m.divisor) honce).trans ?_)
  refine foldl_ext _ _ _ fun t k hk => ?_
  have hget : (setTexts m.counted m.durations m.tree).get k = m.tree.get k := by
    rw [get_setTexts, if_neg fun h => notMem_durations hk h.1]
  exact congrArg (fun e : Element => t.change k fun e' => { e' with text := some (quotientText m.divisor e) }) hget

theorem get_reduce (m : Sheetmusic) (honce : m.divisions.Nodup) (k : Nat) : m.reduce.tree.get k =
    if k ∈ m.durations ++ m.divisions then { m.tree.get k with text := some (m.counted k) } else m.tree.get k := by
  have hlt : k ∈ m.durations ++ m.divisions → k < m.tree.elements.size := by
    intro hk
    by_contra hsize
    have hget := get_of_size_le (Nat.not_lt.mp hsize)
    rcases mem_append.mp hk with hk | hk <;>
      simpa [hget] using tag_of_mem_withTag hk
  rw [m.reduce_tree honce, get_setTexts, get_setTexts, size_setTexts]
  grind

theorem elementInt_reduce {m : Sheetmusic} (honce : m.divisions.Nodup) (hdivisions : ∀ v ∈ m.divisions, 21 ∣ elementInt m.tree v) {k : Nat}
    (hk : k ∈ m.durations ++ m.divisions) : elementInt m.tree k = m.divisor * elementInt m.reduce.tree k := by
  obtain ⟨hpos, hdvd⟩ := durationDivisor_spec (m.durations.map (elementInt m.tree))
  have hexact : m.divisor ∣ elementInt m.tree k := by
    rcases mem_append.mp hk with hk | hk
    · exact hdvd _ (mem_append_left _ (mem_map_of_mem hk))
    · exact (hdvd 21 (by simp)).trans (hdivisions k hk)
  have hnew : elementInt m.reduce.tree k = (elementInt m.tree k).fdiv m.divisor := by
    simp only [elementInt, m.get_reduce honce, if_pos hk, counted, quotientText, Option.getD_some, Text.readInt_toString]
  rw [hnew, Int.mul_fdiv_cancel_of_dvd hexact]

/-- Reducing changes nothing but the texts of durations and of what they are counted in, and divides these exactly and all by one
    number, so that each duration is the same part of what it is counted in. -/
theorem reduce_keeps_rhythm (m : Sheetmusic) (honce : m.divisions.Nodup) (hdivisions : ∀ v ∈ m.divisions, 21 ∣ elementInt m.tree v) :
    m.reduce.root = m.root ∧ Alike m.tree m.reduce.tree ∧
      (∀ k, k ∉ m.durations ++ m.divisions → m.reduce.tree.get k = m.tree.get k) ∧
      (0 < m.divisor ∧ ∀ k ∈ m.durations ++ m.divisions, elementInt m.tree k = m.divisor * elementInt m.reduce.tree k) ∧
      ∀ k ∈ m.durations, ∀ v ∈ m.divisions, (elementInt m.reduce.tree k / elementInt m.reduce.tree v : ℚ) = elementInt m.tree k / elementInt m.tree v := by
  have hpos : 0 < m.divisor := (durationDivisor_spec _).1
  have hexact {k : Nat} := elementInt_reduce honce hdivisions (k := k)
  refine ⟨rfl, ?_, fun k hk => by rw [m.get_reduce honce, if_neg hk], ⟨hpos, fun k => hexact⟩, fun k hk v hv => ?_⟩
  · refine ⟨?_, fun k => ?_⟩
    · rw [m.reduce_tree honce, size_setTexts, size_setTexts]
    · rw [m.get_reduce honce]
      split_ifs <;> rfl
  · rw [hexact (List.mem_append_left _ hk), hexact (List.mem_append_right _ hv)]
    push_cast
    rw [mul_div_mul_left _ _ (by exact_mod_cast hpos.ne')]

/-- A score of parts, by their numbers; the one part there is has a duration of half of what it counts in, and another of all. -/
def ofParts (parts : Array Nat) : Sheetmusic where
  root := 0
  tree := { elements := #[{ tag := "score-partwise", children := parts }, { tag := "part", children := #[2, 3, 4] },
    { tag := "divisions", text := some "2520" }, { tag := "duration", text := some "1260" }, { tag := "duration", text := some "2520" }] }

theorem reduce_keeps_rhythm_once : (ofParts #[1]).divisions.Nodup ∧ elementInt (ofParts #[1]).reduce.tree 2 = 120 ∧
    (elementInt (ofParts #[1]).reduce.tree 3 / elementInt (ofParts #[1]).reduce.tree 2 : ℚ) = 1260 / 2520 := by
  refine ⟨by decide +kernel, by decide +kernel, ?_⟩
  exact ((reduce_keeps_rhythm (ofParts #[1]) (by decide +kernel) (by decide +kernel)).2.2.2.2 3 (by decide +kernel) 2 (by decide +kernel)).trans
    (by decide +kernel)

/-- What a part that stands at two places counts in is divided twice. -/
theorem reduce_shared_part : (ofParts #[1, 1]).divisor = 21 ∧ elementInt (ofParts #[1, 1]).reduce.tree 2 = 5 ∧
    (elementInt (ofParts #[1, 1]).reduce.tree 3 / elementInt (ofParts #[1, 1]).reduce.tree 2 : ℚ) ≠ 1260 / 2520 := by
  decide +kernel

end Sheetmusic

end Abc

end Plainsong
