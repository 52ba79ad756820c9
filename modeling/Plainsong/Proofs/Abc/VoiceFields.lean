import Plainsong.Abc.Source
import Plainsong.Proofs.Pattern.Ending
/- The fields that name voices. A text in which each voice field is followed by music without
   brackets is split into the fields and the pieces of music behind them (`cut_voiceField`), and
   dealing these to voices gives each voice its pieces in their order (`dealVoices_eq`). -/
namespace Plainsong.Abc

open Pattern List

def voiceMark (voice : String) : String := "[V:" ++ voice ++ "]"

/-! ## Patterns -/

def others : CharClass := ⟨[.range ']' ']'], true, false⟩

/-- The patterns of lines and fields, as they are read. -/
structure Patterns : Prop where
  groups : voiceField.groups = 2 ∧ voiceName.groups = 2
  directive : directive.pattern.opener? = some (.single '%' false)
  comment : comment.pattern.opener? = some (.single '%' false)
  fieldLine : fieldLine.pattern = .alt (.seq (.anchor .textStart) (.group 1 (.seq (.one ⟨[.range 'A' 'Z', .range 'w' 'w'], false, false⟩)
      (.seq (.one (.single ':' false)) (.seq (.span (.dot false) ⟨0, none⟩ true) (.anchor .lastLineEnd))))))
    (.seq (.one (.single '[' false)) (.seq (.one ⟨[.range 'A' 'Z', .range 'w' 'w'], false, false⟩) (.seq (.one (.single ':' false))
      (.seq (.span others ⟨0, none⟩ true) (.seq (.one (.single ']' false)) (.anchor .lastLineEnd))))))
  voiceField : voiceField.pattern = .group 1 (.seq (.one (.single '[' false)) (.seq (.one (.single 'V' false))
    (.seq (.one (.single ':' false)) (delimited others (.single ']' false)))))
  voiceName : voiceName.pattern = .seq (.one (.single '[' false)) (.seq (.one (.single 'V' false)) (.seq (.one (.single ':' false))
    (.seq (.span ⟨[.short .space false], false, false⟩ ⟨0, none⟩ true) (.seq (.group 1 (.span ⟨[.short .space true], false, false⟩ ⟨0, none⟩ true))
      (.one ⟨[.range ' ' ' ', .range ']' ']'], false, false⟩)))))

theorem patterns : Patterns := by
  constructor <;> decide +kernel

theorem test_others (c : Char) : others.test c = !decide (c = ']') := by
  rw [← test_single ']' c]
  simp [CharClass.test, CharClass.single, others]

section Run

variable {α : Type} {l rest voice : List Char} {i : Nat} {caps : Captures} {k : Nat → Captures → Option α}

theorem run_voice {c : CharClass} (hc : c.test 'V' = true) (h : l.drop i = '[' :: 'V' :: ':' :: rest) (p : Pattern) :
    run l.toArray (.seq (.one (.single '[' false)) (.seq (.one c) (.seq (.one (.single ':' false)) p))) i caps k = run l.toArray p (i + 3) caps k := by
  have h' := drop_succ_of_drop h
  rw [run_seq, run_one _ h, test_single, if_pos (by decide), run_seq, run_one _ h', if_pos hc, run_seq,
    run_one _ (drop_succ_of_drop h'), test_single, if_pos (by decide)]

theorem run_upToBracket (hvoice : ']' ∉ voice) (h : l.drop i = voice ++ ']' :: rest) :
    run l.toArray (delimited others (.single ']' false)) i caps k = k (i + voice.length + 1) caps := by
  rw [run_delimited (fun x hx => ?_) h (fun x hx => ?_) (fun x hx => ?_), run_one _ (drop_add_of_drop h), test_single, if_pos (by decide)]
  · rw [test_others] at hx
    rw [test_single]
    simpa using hx
  · rw [test_others]
    simp only [Bool.not_eq_true', decide_eq_false_iff_not]
    rintro rfl
    exact hvoice hx
  · cases hx
    exact test_others ']'

theorem run_upToBracket_seq (hvoice : ']' ∉ voice) (h : l.drop i = voice ++ ']' :: rest) (p : Pattern) :
    run l.toArray (.seq (.span others ⟨0, none⟩ true) (.seq (.one (.single ']' false)) p)) i caps k = run l.toArray p (i + voice.length + 1) caps k := by
  have hrun : run l.toArray (.seq (delimited others (.single ']' false)) p) i caps k = run l.toArray p (i + voice.length + 1) caps k := by
    rw [run_seq, run_upToBracket hvoice h]
  rw [← hrun]
  simp only [delimited, run_seq]

/-- A greedy run that was one too long gives one back. -/
theorem firstDown_back {f : Nat → Option α} {lo n : Nat} {r : α} (hend : f (lo + n + 1) = none) (h : f (lo + n) = some r) :
    firstDown f lo (n + 1) = some r := by
  rw [firstDown, hend]
  dsimp only
  cases n with
  | zero => exact h
  | succ n => rw [firstDown, show f (lo + n + 1) = some r from h]

end Run

theorem matchAt_voiceField {l rest voice : List Char} {i : Nat} (hvoice : ']' ∉ voice) (h : l.drop i = '[' :: 'V' :: ':' :: (voice ++ ']' :: rest)) :
    voiceField.matchAt l.toArray i false = some ⟨i, i + 3 + voice.length + 1, #[none, some (i, i + 3 + voice.length + 1)]⟩ := by
  have hi : ¬ l.length < i := fun hlt => by simp [drop_eq_nil_of_le hlt.le] at h
  have hrest : l.drop (i + 3) = voice ++ ']' :: rest := drop_succ_of_drop (drop_succ_of_drop (drop_succ_of_drop h))
  rw [Matcher.matchAt, size_toArray, if_neg hi, patterns.voiceField, run, run_voice (by decide) h, run_upToBracket hvoice hrest,
    patterns.groups.1]
  rfl

/-! ## Fields and pieces -/

theorem search_voiceName {voice : String} (hne : voice ≠ "") (hvoice : ∀ c ∈ voice.toList, Text.isBlank c = false) :
    voiceName.search (voiceMark voice).toList.toArray =
      some ⟨0, 3 + voice.toList.length + 1, #[none, some (3, 3 + voice.toList.length)]⟩ := by
  have hplace : (voiceMark voice).toList.drop 0 = '[' :: 'V' :: ':' :: (voice.toList ++ [']']) := by simp [voiceMark]
  have hname : (voiceMark voice).toList.drop 3 = voice.toList ++ [']'] := by simp [voiceMark]
  have hblank (c : Char) : (⟨[.short .space false], false, false⟩ : CharClass).test c = Text.isBlank c := by
    simp [CharClass.test, Member.test, Shorthand.test]
  have hother (c : Char) : (⟨[.short .space true], false, false⟩ : CharClass).test c = !Text.isBlank c := by
    simp [CharClass.test, Member.test, Shorthand.test]
  have hall : ∀ c ∈ voice.toList ++ [']'], Text.isBlank c = false := by
    simp only [forall_mem_append, forall_mem_singleton]
    exact ⟨hvoice, by decide⟩
  have hnone : ((voice.toList ++ [']']).takeWhile (CharClass.mk [.short .space false] false false).test).length = 0 := by
    obtain ⟨c, cs, hcs⟩ := exists_cons_of_ne_nil fun h => hne (String.toList_eq_nil_iff.mp h)
    simp [hcs, hblank, hvoice c (by simp [hcs])]
  have hwhole : ((voice.toList ++ [']']).takeWhile (CharClass.mk [.short .space true] false false).test).length = voice.toList.length + 1 := by
    rw [takeWhile_eq_self_iff.mpr fun c hc => by rw [hother, hall c hc]; rfl]
    simp
  have hbracket : (voiceMark voice).toList.drop (3 + voice.toList.length) = [']'] := drop_add_of_drop hname
  have hend : (voiceMark voice).toList.drop (3 + voice.toList.length + 1) = [] := drop_succ_of_drop hbracket
  refine Eq.trans (b := voiceName.searchFrom _ false 0 (_ - 0)) rfl
    (Matcher.searchFrom_eq_some (fun j _ hj => absurd hj (Nat.not_lt_zero j)) ?_ le_rfl (Nat.zero_le _))
  rw [Matcher.matchAt, if_neg (Nat.not_lt_zero _), patterns.voiceName, run_voice (by decide) hplace, run_seq, run_star,
    Nat.zero_add, hname, hnone, firstDown, run_seq, run, run_star, hname, hwhole]
  exact firstDown_back (run_one_end _ hend) (by rw [run_one _ hbracket, if_pos (by decide), patterns.groups.2]; rfl)

theorem addToVoice_voiceMark {voice : String} (hne : voice ≠ "") (hvoice : ∀ c ∈ voice.toList, Text.isBlank c = false) (t : Table String String) (music : String) :
    addToVoice t (voiceMark voice) music = .ok (t.put voice ((t.find? voice).getD "" ++ voiceMark voice ++ music)) := by
  have hname : (voiceMark voice).toList.toArray.extract 3 (3 + voice.toList.length) = voice.toList.toArray := by simp [voiceMark]
  have hempty : voice.isEmpty = false := by simpa [Bool.eq_false_iff, String.isEmpty_iff] using hne
  rw [addToVoice]
  simp only [search_voiceName hne hvoice]
  simp [Found.group?, hname, hempty]
  rfl

def cutStep (m : Matcher) (text : Chars) (acc : List String × Nat) (f : Found) : List String × Nat :=
  ((((List.range m.groups).drop 1).map fun n => (f.group? text n).getD "").reverse ++ String.ofList (text.extract acc.2 f.start).toList :: acc.1, f.stop)

/-- The pieces that a split writes from a place on, behind those it has written before. -/
def cut (m : Matcher) (text : Chars) (fs : List Found) (acc : List String × Nat) : List String :=
  let acc := fs.foldl (cutStep m text) acc
  (String.ofList (text.extract acc.2 text.size).toList :: acc.1).reverse

theorem split_eq_cut (m : Matcher) (s : String) : m.split s = cut m s.toList.toArray (m.all s.toList.toArray) ([], 0) := rfl

theorem cut_cons (m : Matcher) (text : Chars) (f : Found) (fs : List Found) (acc : List String × Nat) :
    cut m text (f :: fs) acc = cut m text fs (cutStep m text acc f) := rfl

theorem cut_voiceField {l skip : List Char} {pieces : List (String × String)} {i fuel : Nat} {out : List String}
    (hpieces : ∀ p ∈ pieces, ']' ∉ p.1.toList ∧ '[' ∉ p.2.toList) (hskip : '[' ∉ skip)
    (h : l.drop i = skip ++ pieces.flatMap fun p => (voiceMark p.1 ++ p.2).toList) (hi : i ≤ l.length) (hfuel : l.length < fuel + i) :
    cut voiceField l.toArray (voiceField.allFrom l.toArray fuel i false) (out, i) =
      out.reverse ++ String.ofList skip :: pieces.flatMap fun p => [voiceMark p.1, p.2] := by
  have hopener : voiceField.pattern.opener? = some (.single '[' false) := congrArg opener? patterns.voiceField
  induction pieces generalizing i fuel skip out with
  | nil =>
    rw [flatMap_nil, append_nil] at h
    rw [Matcher.allFrom_eq_nil (fun j hj _ => Matcher.matchAt_of_notMem_drop hopener (h ▸ hskip) hj) (by simpa using hi)]
    simp [cut, ← h, take_of_length_le]
  | cons p pieces ih =>
    obtain ⟨⟨hvoice, hmusic⟩, hpieces⟩ := forall_mem_cons.mp hpieces
    obtain ⟨fuel, rfl⟩ : ∃ n, fuel = n + 1 := ⟨fuel - 1, by omega⟩
    have hplace : l.drop (i + skip.length) = '[' :: 'V' :: ':' :: (p.1.toList ++ ']' :: (p.2.toList ++ pieces.flatMap fun p => (voiceMark p.1 ++ p.2).toList)) := by
      rw [drop_add_of_drop h]
      simp [voiceMark]
    have hmark : l.drop (i + skip.length) = (voiceMark p.1).toList ++ (p.2.toList ++ pieces.flatMap fun p => (voiceMark p.1 ++ p.2).toList) := by
      rw [hplace]
      simp [voiceMark]
    have hnone : ∀ j, i ≤ j → j < i + skip.length → voiceField.matchAt l.toArray j false = none := by
      intro j hij hj
      obtain ⟨x, later, hlater, hdrop⟩ := exists_drop_of_lt h hij hj
      refine Matcher.matchAt_of_notMem hopener fun hx => hskip (hlater '[' ?_)
      rw [hdrop] at hx
      cases hx
      simp
    have hstop : i + skip.length + 3 + p.1.toList.length + 1 = i + skip.length + (voiceMark p.1).toList.length := by
      simp [voiceMark]
      omega
    have hlength : i + skip.length + (voiceMark p.1).toList.length ≤ l.length := by
      have := congrArg List.length hmark
      rw [length_drop, length_append] at this
      omega
    have hcut : (l.toArray.extract i (i + skip.length)).toList = skip ∧
        (l.toArray.extract (i + skip.length) (i + skip.length + (voiceMark p.1).toList.length)).toList = (voiceMark p.1).toList := by
      simp [h, hmark]
    have hstep (stop : Nat) (hstop : stop = i + skip.length + (voiceMark p.1).toList.length) :
        cutStep voiceField l.toArray (out, i) ⟨i + skip.length, stop, #[none, some (i + skip.length, stop)]⟩ = (voiceMark p.1 :: String.ofList skip :: out, stop) := by
      have hgroup : Found.group? ⟨i + skip.length, stop, #[none, some (i + skip.length, stop)]⟩ l.toArray 1 = some (voiceMark p.1) := by
        refine (show _ = some (String.ofList (l.toArray.extract (i + skip.length) stop).toList) from rfl).trans ?_
        rw [hstop, hcut.2, String.ofList_toList]
      rw [cutStep, patterns.groups.1, show (List.range 2).drop 1 = [1] from rfl, map_singleton, hgroup, hcut.1]
      rfl
    rw [Matcher.allFrom_eq_cons hnone (matchAt_voiceField hvoice hplace) (by omega) (by simp; omega) (by dsimp only; omega), hstop,
      cut_cons, hstep _ rfl, ih hpieces hmusic (drop_add_of_drop hmark) hlength (by omega)]
    simp

/-! ## Dealing -/

theorem nodup_eraseDups (vs : List String) : vs.eraseDups.Nodup := by
  induction vs using List.reverseRecOn with
  | nil => simp
  | append_singleton vs v ih =>
    rw [eraseDups_append]
    by_cases hv : v ∈ vs <;> simp [List.removeAll, hv, ih, nodup_append]
    grind

/-- What is dealt to each key, the keys in the order in which they first come. -/
def collected (ps : List (String × String)) : Table String String :=
  (ps.map (·.1)).eraseDups.map fun v => (v, String.join ((ps.filter (·.1 = v)).map (·.2)))

theorem find?_map_keys (keys : List String) (f : String → String) (k : String) :
    Table.find? k (keys.map fun v => (v, f v)) = if k ∈ keys then some (f k) else none := by
  induction keys with
  | nil => rfl
  | cons v keys ih =>
    by_cases hv : v = k <;> simp_all [Table.find?, eq_comm]

theorem put_map_keys {keys : List String} (hkeys : keys.Nodup) (f : String → String) (k value : String) :
    Table.put k value (keys.map fun v => (v, f v)) =
      (if k ∈ keys then keys else keys ++ [k]).map fun v => (v, if v = k then value else f v) := by
  induction keys with
  | nil => simp [Table.put]
  | cons v keys ih =>
    obtain ⟨hv, hkeys⟩ := nodup_cons.mp hkeys
    by_cases hk : v = k
    · subst hk
      have hother : ∀ w ∈ keys, w ≠ v := fun w hw h => hv (h ▸ hw)
      simp [Table.put]
      exact fun w hw => by simp [hother w hw]
    · have hk' : k ≠ v := Ne.symm hk
      by_cases hmem : k ∈ keys <;> simp_all [Table.put]

theorem collected_concat (ps : List (String × String)) (v chunk : String) :
    (collected ps).put v (((collected ps).find? v).getD "" ++ chunk) = collected (ps ++ [(v, chunk)]) := by
  have hkeys : (if v ∈ (ps.map (·.1)).eraseDups then (ps.map (·.1)).eraseDups else (ps.map (·.1)).eraseDups ++ [v]) =
      ((ps ++ [(v, chunk)]).map (·.1)).eraseDups := by
    rw [map_append, map_singleton, eraseDups_append]
    by_cases h : v ∈ ps.map (·.1) <;> simp [h, List.removeAll, eraseDups_cons]
  rw [collected, find?_map_keys, put_map_keys (nodup_eraseDups _), hkeys, collected]
  refine map_congr_left fun w _ => ?_
  by_cases hw : w = v
  · subst hw
    by_cases hmem : w ∈ ps.map (·.1)
    · simp [hmem, String.join]
    · have hnone : ps.filter (·.1 = w) = [] :=
        filter_eq_nil_iff.mpr fun p hp heq => hmem (mem_map.mpr ⟨p, hp, by simpa using heq⟩)
      simp [hmem, hnone]
  · simp [hw, Ne.symm hw]

theorem dealVoices_eq {pieces : List (String × String)} (hpieces : ∀ p ∈ pieces, p.1 ≠ "" ∧ ∀ c ∈ p.1.toList, Text.isBlank c = false)
    (ps : List (String × String)) : dealVoices (collected ps) (pieces.flatMap fun p => [voiceMark p.1, p.2]) =
      .ok (collected (ps ++ pieces.map fun p => (p.1, voiceMark p.1 ++ p.2))) := by
  induction pieces generalizing ps with
  | nil => simp [dealVoices]
  | cons p pieces ih =>
    obtain ⟨⟨hne, hp⟩, hpieces⟩ := forall_mem_cons.mp hpieces
    rw [flatMap_cons, cons_append, cons_append, nil_append, dealVoices, addToVoice_voiceMark hne hp, String.append_assoc, collected_concat]
    refine (ih hpieces _).trans ?_
    simp

end Plainsong.Abc
