import Plainsong.Proofs.Pattern.Scanning
/- A character at the end of a text. A pattern none of whose classes takes the character finds
   the same in the text with it as in the text without, provided that it takes some character
   at all; so a replacement leaves the character where it is (`Matcher.replace_ending`). -/
namespace Plainsong

open List

namespace Pattern

/-- No class of the pattern takes the character. Only patterns that go on from greedy steps are looked at. -/
def shuns (x : Char) : Pattern → Bool
  | .one c => !c.test x
  | .seq p q => p.shuns x && q.shuns x
  | .group _ p => p.shuns x
  | .span c _ greedy => greedy && !c.test x
  | .behind p _ negated => negated && p.shuns x
  | _ => false

/-- The least number of characters that are known to be taken, up to one for each part. -/
def least : Pattern → Nat
  | .one _ => 1
  | .seq p q => p.least + q.least
  | .group _ p => p.least
  | .span _ b _ => b.least
  | _ => 0

/-- The places of all groups lie in a text of this length. -/
def Captures.Within (n : Nat) (caps : Captures) : Prop := ∀ a b, some (a, b) ∈ caps → b ≤ n

variable {l : List Char} {x : Char} {p : Pattern} {i : Nat} {caps : Captures}

theorem getElem?_ending (h : i < l.length) : (l ++ [x]).toArray[i]? = l.toArray[i]? := by
  simp [List.getElem?_append_left h]

variable {α : Type}

theorem firstDown_congr {f g : Nat → Option α} {lo n : Nat} (h : ∀ j ≤ lo + n, f j = g j) : firstDown f lo n = firstDown g lo n := by
  induction n with
  | zero => exact h lo le_rfl
  | succ n ih => rw [firstDown, firstDown, h (lo + n + 1) le_rfl, ih fun j hj => h j (by omega)]

theorem exists_of_firstDown {f : Nat → Option α} {lo n : Nat} {r : α} (h : firstDown f lo n = some r) :
    ∃ j, lo ≤ j ∧ j ≤ lo + n ∧ f j = some r := by
  induction n with
  | zero => exact ⟨lo, le_rfl, le_rfl, h⟩
  | succ n ih =>
    rw [firstDown] at h
    split at h
    next r' hr =>
      cases h
      exact ⟨_, by omega, le_rfl, hr⟩
    next =>
      obtain ⟨j, hlo, hj, hf⟩ := ih h
      exact ⟨j, hlo, by omega, hf⟩

theorem takeWhile_take_ending {c : CharClass} (hx : c.test x = false) (l : List Char) (n : Nat) :
    ((l ++ [x]).take n).takeWhile c.test = (l.take n).takeWhile c.test := by
  induction l generalizing n with
  | nil => cases n <;> simp [hx]
  | cons y l ih => cases n <;> simp [takeWhile_cons, ih]

theorem reach_le (c : CharClass) (b : Bounds) (rest : List Char) : reach c b rest ≤ rest.length :=
  (takeWhile_sublist _).length_le.trans (by simp)

theorem reach_ending {c : CharClass} (hx : c.test x = false) (b : Bounds) (rest : List Char) : reach c b (rest ++ [x]) = reach c b rest := by
  rw [reach, takeWhile_take_ending hx, reach]
  cases b.most <;> simp [take_of_length_le]

theorem run_ending (hp : p.shuns x = true) (hi : i ≤ l.length) {k k' : Nat → Captures → Option α}
    (hk : ∀ j ≤ l.length, ∀ caps, k j caps = k' j caps) : run (l ++ [x]).toArray p i caps k = run l.toArray p i caps k' := by
  induction p generalizing α i caps k k' with
  | one c =>
    have hx : c.test x = false := by simpa [shuns] using hp
    rw [run, run]
    rcases hi.lt_or_eq with hlt | rfl
    · rw [getElem?_ending hlt, hk _ hlt]
    · simp [hx]
  | seq p q ihp ihq =>
    obtain ⟨hp, hq⟩ := Bool.and_eq_true_iff.mp hp
    rw [run_seq, run_seq]
    exact ihp hp hi fun j hj caps => ihq hq hj hk
  | group n p ih =>
    rw [run, run]
    exact ih hp hi fun j hj caps => hk j hj _
  | span c b greedy =>
    obtain ⟨rfl, hx⟩ : greedy = true ∧ c.test x = false := by simpa [shuns] using hp
    have hle := reach_le c b (l.drop i)
    rw [length_drop] at hle
    rw [run_span, run_span, drop_append_of_le_length hi, reach_ending hx]
    split
    · rfl
    · exact firstDown_congr fun j hj => hk j (by omega) caps
  | behind p width negated ih =>
    obtain ⟨rfl, hp⟩ := Bool.and_eq_true_iff.mp hp
    rw [run, run, ih hp (by omega) fun j _ caps => rfl, hk i hi]
    simp only [run.look, hk i hi]
  | _ => cases hp

theorem exists_of_run (hp : p.shuns x = true) (hi : i ≤ l.length) (hcaps : caps.Within l.length) {k : Nat → Captures → Option α}
    {r : α} (h : run l.toArray p i caps k = some r) : ∃ j caps', i + p.least ≤ j ∧ j ≤ l.length ∧ caps'.Within l.length ∧ k j caps' = some r := by
  induction p generalizing i caps k with
  | one c =>
    rw [run] at h
    split at h
    next y hy =>
      have hlt : i < l.length := by simpa using (Array.getElem?_eq_some_iff.mp hy).1
      split_ifs at h
      exact ⟨i + 1, caps, le_rfl, hlt, hcaps, h⟩
    next => cases h
  | seq p q ihp ihq =>
    obtain ⟨hp, hq⟩ := Bool.and_eq_true_iff.mp hp
    obtain ⟨j, caps', hj, hjl, hcaps', h⟩ := ihp hp hi hcaps (run_seq .. ▸ h)
    obtain ⟨j', caps'', hj', hjl', hcaps'', h⟩ := ihq hq hjl hcaps' h
    exact ⟨j', caps'', by simp only [least]; omega, hjl', hcaps'', h⟩
  | group n p ih =>
    rw [run] at h
    obtain ⟨j, caps', hj, hjl, hcaps', h⟩ := ih hp hi hcaps h
    refine ⟨j, _, hj, hjl, fun a b hab => ?_, h⟩
    rcases Array.mem_or_eq_of_mem_setIfInBounds hab with hmem | heq
    · exact hcaps' a b hmem
    · cases heq
      exact hjl
  | span c b greedy =>
    obtain ⟨rfl, -⟩ : greedy = true ∧ c.test x = false := by simpa [shuns] using hp
    have hle := reach_le c b (l.drop i)
    rw [length_drop] at hle
    rw [run_span] at h
    split at h
    · cases h
    · obtain ⟨j, hlo, hj, h⟩ := exists_of_firstDown h
      exact ⟨j, caps, hlo, by omega, hcaps, h⟩
  | behind p width negated ih =>
    obtain ⟨rfl, -⟩ := Bool.and_eq_true_iff.mp hp
    rw [run] at h
    refine ⟨i, caps, le_rfl, hi, hcaps, ?_⟩
    simp only [run.look, if_true] at h
    split_ifs at h
    · exact h
    · split at h
      · cases h
      · exact h
  | _ => cases hp

end Pattern

open Pattern

/-- The match lies in a text of this length, and so do its groups. -/
structure Found.Within (n : Nat) (f : Found) : Prop where
  start_lt : f.start < f.stop
  stop_le : f.stop ≤ n
  groups : f.groups.Within n

theorem extract_ending {l : List Char} (x : Char) {a b : Nat} (h : b ≤ l.length) : (l ++ [x]).toArray.extract a b = l.toArray.extract a b := by
  apply Array.ext'
  simp only [extract_toArray, extract_eq_take_drop]
  rcases le_total a l.length with ha | ha
  · rw [drop_append_of_le_length ha, take_append_of_le_length (by simp; omega)]
  · rw [Nat.sub_eq_zero_of_le (h.trans ha), take_zero, take_zero]

theorem Found.Within.group?_ending {f : Found} {l : List Char} (h : f.Within l.length) (x : Char) (n : Nat) :
    f.group? (l ++ [x]).toArray n = f.group? l.toArray n := by
  rw [group?, group?, whole, whole, extract_ending x h.stop_le]
  split_ifs
  · rfl
  · split
    next a b hab => rw [extract_ending x (h.groups a b (Array.mem_of_getElem? hab))]
    next => rfl

namespace Matcher

/-- The matcher takes at least one character and never this one. -/
def Shuns (m : Matcher) (x : Char) : Prop := m.pattern.shuns x = true ∧ 0 < m.pattern.least

variable {m : Matcher} {l : List Char} {x : Char} {i n : Nat} {advance : Bool} {f : Found}

theorem matchAt_ending (hm : m.Shuns x) (hi : i ≤ l.length) : m.matchAt (l ++ [x]).toArray i advance = m.matchAt l.toArray i advance := by
  simp only [matchAt, size_toArray, length_append, length_singleton, if_neg (Nat.not_lt.mpr hi), if_neg (Nat.not_lt.mpr (hi.trans (Nat.le_succ _)))]
  exact run_ending hm.1 hi fun _ _ _ => rfl

theorem within_of_matchAt (hm : m.Shuns x) (h : m.matchAt l.toArray i advance = some f) : i ≤ f.start ∧ f.Within l.length := by
  rw [matchAt, size_toArray] at h
  split_ifs at h with hi
  obtain ⟨j, caps, hj, hjl, hcaps, h⟩ := exists_of_run hm.1 (Nat.not_lt.mp hi) (fun a b hab => by simp at hab) h
  split_ifs at h
  cases h
  exact ⟨le_rfl, (Nat.lt_add_of_pos_right hm.2).trans_le hj, hjl, hcaps⟩

theorem within_of_searchFrom (hm : m.Shuns x) (h : m.searchFrom l.toArray advance i n = some f) : i ≤ f.start ∧ f.Within l.length := by
  induction n generalizing i advance with
  | zero => exact within_of_matchAt hm h
  | succ n ih =>
    rw [searchFrom] at h
    split at h
    next f' hf =>
      cases h
      exact within_of_matchAt hm hf
    next => exact (ih h).imp_left Nat.le_of_succ_le

theorem searchFrom_ending (hm : m.Shuns x) (hi : i ≤ l.length) :
    m.searchFrom (l ++ [x]).toArray advance i (l.length + 1 - i) = m.searchFrom l.toArray advance i (l.length - i) := by
  obtain ⟨n, hn⟩ : ∃ n, n = l.length - i := ⟨_, rfl⟩
  rw [← hn, show l.length + 1 - i = n + 1 by omega]
  induction n generalizing i advance with
  | zero =>
    -- Behind the last character nothing is left to take.
    have hend : m.matchAt (l ++ [x]).toArray (i + 1) false = none := by
      by_contra hsome
      obtain ⟨f, hf⟩ := Option.ne_none_iff_exists'.mp hsome
      obtain ⟨hstart, hlt, hle, -⟩ := within_of_matchAt hm hf
      rw [length_append, length_singleton] at hle
      omega
    simp only [searchFrom, matchAt_ending hm hi, hend]
    cases m.matchAt l.toArray i advance <;> rfl
  | succ n ih =>
    have hrest : m.searchFrom (l ++ [x]).toArray false (i + 1) (n + 1) = m.searchFrom l.toArray false (i + 1) n := ih (by omega) (by omega)
    rw [searchFrom, matchAt_ending hm hi, hrest, searchFrom]

theorem within_of_mem_allFrom {fuel : Nat} (hm : m.Shuns x) (h : f ∈ m.allFrom l.toArray fuel i advance) : f.Within l.length := by
  induction fuel generalizing i advance with
  | zero => cases h
  | succ fuel ih =>
    rw [allFrom] at h
    split at h
    · cases h
    next f' hf =>
      rcases mem_cons.mp h with rfl | h
      · exact (within_of_searchFrom hm hf).2
      · exact ih h

theorem allFrom_ending {fuel fuel' : Nat} (hm : m.Shuns x) (hi : i ≤ l.length) (hfuel : l.length < fuel + i) (hfuel' : l.length < fuel' + i) :
    m.allFrom (l ++ [x]).toArray fuel i advance = m.allFrom l.toArray fuel' i advance := by
  induction fuel generalizing fuel' i advance with
  | zero => omega
  | succ fuel ih =>
    obtain ⟨fuel', rfl⟩ : ∃ n, fuel' = n + 1 := ⟨fuel' - 1, by omega⟩
    rw [allFrom, allFrom, size_toArray, length_append, length_singleton, searchFrom_ending hm hi, size_toArray]
    split
    · rfl
    next f hf =>
      obtain ⟨hstart, hlt, hle, -⟩ := within_of_searchFrom hm hf
      exact congrArg _ (ih hle (by omega) (by omega))

/-- What a replacement writes from a place on, behind what it has written before. -/
def written (g : Chars → Found → String) (text : Chars) (fs : List Found) (acc : List String × Nat) : String :=
  let acc := fs.foldl (fun acc f => (g text f :: String.ofList (text.extract acc.2 f.start).toList :: acc.1, f.stop)) acc
  String.join (String.ofList (text.extract acc.2 text.size).toList :: acc.1).reverse

theorem written_ending {g : Chars → Found → String} {fs : List Found} (hfs : ∀ f ∈ fs, f.Within l.length ∧ g (l ++ [x]).toArray f = g l.toArray f)
    {acc : List String × Nat} (hacc : acc.2 ≤ l.length) : written g (l ++ [x]).toArray fs acc = (written g l.toArray fs acc).push x := by
  induction fs generalizing acc with
  | nil =>
    apply String.toList_injective
    simp [written, extract_eq_take_drop, drop_append_of_le_length hacc, take_of_length_le, Nat.sub_add_comm hacc]
  | cons f fs ih =>
    obtain ⟨⟨hf, hg⟩, hfs⟩ := forall_mem_cons.mp hfs
    simp only [written, foldl_cons, hg, extract_ending x (hf.start_lt.le.trans hf.stop_le)]
    exact ih hfs hf.stop_le

/-- A replacement goes by the character at the end. -/
theorem replace_ending (hm : m.Shuns x) (s : String) {g : Chars → Found → String}
    (hg : ∀ f, f.Within s.toList.length → g (s.toList ++ [x]).toArray f = g s.toList.toArray f) :
    m.replace (s.push x) g = (m.replace s g).push x := by
  have hall : m.all (s.toList ++ [x]).toArray = m.all s.toList.toArray :=
    allFrom_ending hm (Nat.zero_le _) (by simp; omega) (by simp; omega)
  calc m.replace (s.push x) g
      = written g (s.toList ++ [x]).toArray (m.all (s.toList ++ [x]).toArray) ([], 0) := by rw [replace, String.toList_push]; rfl
    _ = (m.replace s g).push x := by
      rw [hall]
      exact written_ending (fun f hf => ⟨within_of_mem_allFrom hm hf, hg f (within_of_mem_allFrom hm hf)⟩) (Nat.zero_le _)

end Matcher

end Plainsong
