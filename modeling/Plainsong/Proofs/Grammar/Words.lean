import Mathlib
import Plainsong.Grammar.Parse
import Plainsong.Proofs.Pattern.Escaped
/- Words with and without their pattern. A word is a character of one set and then as many as there are of another; it
   is looked for by a pattern where one can be made, else in a loop over the characters. The pattern of a word takes
   the same text as the loop (`read_wordPattern`), but for words with several initial characters and a single further
   one: there the initial characters are written without a class around them, and the pattern wants them in a row.
   So the two ways agree but for such words, and for these they do not (`word_fast_path_agrees_iff`). -/
namespace Plainsong.Grammar

open List Pattern

variable {ν κ σ : Type} {init body l rest : List Char} {i : Nat} {x : Char} {p q : Pattern}

/-! ## The pattern -/

theorem firstDown_some {α : Type} (f : Nat → α) (lo n : Nat) : firstDown (fun j => some (f j)) lo n = some (f (lo + n)) := by
  cases n <;> rfl

theorem lt_length_of_drop (hdrop : l.drop i = x :: rest) : l.length = i + 1 + rest.length := by
  have hlength := congrArg length hdrop
  rw [length_drop, length_cons] at hlength
  omega

theorem atPos_eq_run (hdrop : l.drop i = x :: rest) : Matcher.atPos ⟨p, 1, []⟩ l.toArray i = run l.toArray p i #[none] fun j caps => some ⟨i, j, caps⟩ := by
  have hlength := lt_length_of_drop hdrop
  rw [Matcher.atPos, Matcher.matchAt, size_toArray, if_neg (by omega)]
  rfl

/-- The match of a word that begins with a character: all that may follow it. -/
def wordFrom (init body : List Char) (i : Nat) (x : Char) (rest : List Char) : Option Found :=
  if (CharClass.ofChars init).test x then some ⟨i, i + 1 + (rest.takeWhile (CharClass.ofChars body).test).length, #[none]⟩ else none

theorem atPos_runs (h : Joins (.span (.ofChars init) ⟨1, none⟩ true) .empty p) (hdrop : l.drop i = x :: rest) :
    Matcher.atPos ⟨p, 1, []⟩ l.toArray i = wordFrom init init i x rest := by
  rw [atPos_eq_run hdrop, h, run_span, hdrop, reach, Option.getD_none, take_length, takeWhile_cons, wordFrom]
  split_ifs with hx hlt
  · simp at hlt
  · simp only [run, firstDown_some, length_cons, Nat.add_sub_cancel]
  · rfl
  · simp_all

/-- The pattern takes as many of the characters as there are. -/
abbrev Star (body : List Char) (q : Pattern) : Prop := Joins (.span (.ofChars body) ⟨0, none⟩ true) .empty q

theorem Star.run {α : Type} (h : Star body q) (f : Nat → Captures → α) (caps : Captures) : run l.toArray q i caps (fun j caps => some (f j caps)) =
    some (f (i + ((l.drop i).takeWhile (CharClass.ofChars body).test).length) caps) := by
  rw [h, run_star]
  simp only [Pattern.run, firstDown_some]

theorem atPos_first (hq : Star body q) (h : Joins (.one (.ofChars init)) q p) (hdrop : l.drop i = x :: rest) :
    Matcher.atPos ⟨p, 1, []⟩ l.toArray i = wordFrom init body i x rest := by
  rw [atPos_eq_run hdrop, h, run_one _ hdrop, hq.run, drop_succ_of_drop hdrop, wordFrom]

theorem atPos_text (hq : Star body q) (h : Spells init q p) (hdrop : l.drop i = x :: rest) : Matcher.atPos ⟨p, 1, []⟩ l.toArray i =
    if init <+: x :: rest then some ⟨i, i + init.length + ((l.drop (i + init.length)).takeWhile (CharClass.ofChars body).test).length, #[none]⟩ else none := by
  rw [atPos_eq_run hdrop, h, hdrop, hq.run]

theorem read_wordPattern {init body : String} (hinit : init ≠ "") (hbody : body ≠ "") : ∃ m, Matcher.read (wordPattern init body false) {} = some m ∧
    (¬(body.length = 1 ∧ 1 < init.length) → ∀ (l rest : List Char) (i : Nat) (x : Char), l.drop i = x :: rest →
      m.atPos l.toArray i = wordFrom init.toList body.toList i x rest) ∧
    (body.length = 1 ∧ 1 < init.length → ∀ x, m.atPos #[x] 0 = none) := by
  have hne : ∀ {s : String}, s ≠ "" → s.toList ≠ [] := fun hs h => hs (String.toList_eq_nil_iff.mp h)
  have hspan := readSeq_span (c := '*') (b := ⟨0, none⟩) (hne hbody) fun _ => rfl
  unfold wordPattern
  rw [if_neg Bool.false_ne_true]
  split_ifs with hsame hone
  · subst hsame
    obtain ⟨p, hp, hjoins⟩ := readSeq_span (c := '+') (b := ⟨1, none⟩) (hne hinit) (fun _ => rfl) _
    exact ⟨_, Matcher.read_of_readAlt (by simp [toList_escapeClass]) (by simp) (readAlt_last hp), fun _ l rest i x => atPos_runs hjoins, fun h => by omega⟩
  · have hlength := length_le_plainly init.toList
    have hfuel : ∀ {m}, init.toList.length ≤ m → ∃ n, n + 1 + init.toList.length + 1 = 3 * m + 3 := fun {m} _ => ⟨3 * m + 1 - init.toList.length, by omega⟩
    obtain ⟨n, hn⟩ := hfuel (m := (init.toList.flatMap plainly ++ '[' :: (body.toList.flatMap inClass ++ [']', '*'])).length) (by rw [length_append]; omega)
    obtain ⟨q, hq, hstar⟩ := hspan n
    obtain ⟨p, hp, hspells⟩ := readSeq_plainly rfl hq init.toList
    refine ⟨_, Matcher.read_of_readAlt (by simp [toList_escape, toList_escapeClass]) (head?_plainly (by simp) _) (readAlt_last (hn ▸ hp)),
      fun h l rest i x hdrop => ?_, fun h x => ?_⟩
    · obtain ⟨c, hc⟩ : ∃ c, init.toList = [c] := length_eq_one_iff.mp (by
        have hpos := length_pos_iff.mpr (hne hinit)
        rw [String.length_toList] at hpos ⊢
        omega)
      have htest : (CharClass.ofChars [c]).test x = decide (x = c) := test_single c x
      rw [atPos_text hstar hspells hdrop, wordFrom, hc, htest]
      simp [drop_succ_of_drop hdrop, eq_comm]
    · rw [show #[x] = [x].toArray from rfl, atPos_text hstar hspells (drop_zero ..), if_neg]
      intro hprefix
      have hle := hprefix.length_le
      rw [String.length_toList, length_singleton] at hle
      omega
  · obtain ⟨q, hq, hstar⟩ := hspan _
    obtain ⟨p, hp, hjoins⟩ := readSeq_atom (c := '[') (s := init.toList.flatMap inClass ++ ']' :: '[' :: (body.toList.flatMap inClass ++ [']', '*']))
      (by decide) (readAtom_class (hne hinit)) rfl hq
    exact ⟨_, Matcher.read_of_readAlt (by simp [toList_escapeClass]) (by simp) (readAlt_last hp), fun _ l rest i x => atPos_first hstar hjoins, fun h => absurd h.1 hone⟩

/-! ## The loop -/

theorem runEnd_eq (f : Char → Bool) (l : List Char) (i n : Nat) : runEnd f l.toArray i n = i + (((l.drop i).take n).takeWhile f).length := by
  induction n generalizing i with
  | zero => simp [runEnd]
  | succ n ih =>
    rw [runEnd]
    cases hrest : l.drop i with
    | nil =>
      rw [getElem?_of_drop hrest]
      rfl
    | cons x rest =>
      rw [getElem?_of_drop hrest, head?_cons, take_succ_cons, takeWhile_cons]
      dsimp only
      split
      · rw [ih, drop_succ_of_drop hrest, length_cons, Nat.add_right_comm, Nat.add_assoc]
      · rfl

variable {init body : String} {skip : Nat → GrammarM ν κ σ Nat} {fail : Nat → Fault}

/-- A word of any length. -/
def wordSpec (init body : String) (pattern : Option (String × Matcher)) : WordSpec :=
  { init := .of init, body := .of body, extent := .of 1 0 0, bounded := false, whole := false, pattern }

/-- What a match gives. -/
def matched (text : Chars) (fail : Nat → Fault) (i : Nat) (found : Option Found) : GrammarM ν κ σ (Nat × Value ν) :=
  found.elim (throw (fail i)) fun f => pure (f.stop, .text (f.whole text))

theorem parse_word_pattern (hdrop : l.drop i = x :: rest) (source : String) (m : Matcher) :
    Atom.parse l.toArray skip fail i (.word (wordSpec init body (some (source, m)))) = matched l.toArray fail i (m.atPos l.toArray i) := by
  have hlength := lt_length_of_drop hdrop
  rw [Atom.parse]
  dsimp only [wordSpec]
  rw [size_toArray, Nat.min_eq_left (by omega)]
  cases m.atPos l.toArray i <;> rfl

theorem parse_word_loop (hdrop : l.drop i = x :: rest) :
    Atom.parse l.toArray skip fail i (.word (wordSpec init body none)) = matched l.toArray fail i (wordFrom init.toList body.toList i x rest) := by
  have hlength := lt_length_of_drop hdrop
  have hstop : runEnd (CharSet.of body).contains l.toArray (i + 1) ((Extent.of 1 0 0).furtherFrom l.toArray i) =
      i + 1 + (rest.takeWhile (CharClass.ofChars body.toList).test).length := by
    rw [runEnd_eq, drop_succ_of_drop hdrop, take_of_length_le]
    · rfl
    · change rest.length ≤ l.length - (i + 1)
      omega
  have hcontains : (CharSet.of init).contains x = (CharClass.ofChars init.toList).test x := rfl
  have hleast : (Extent.of 1 0 0).least = 1 := rfl
  simp only [Atom.parse, charAt, getElem?_of_drop hdrop, head?_cons, pure_bind, wordSpec, hstop, hcontains, wordFrom, hleast]
  cases hx : (CharClass.ofChars init.toList).test x with
  | false => rfl
  | true =>
    simp only [Bool.not_true, Bool.false_eq_true, if_false, Bool.false_and, Bool.or_false, decide_eq_true_eq, if_true]
    rw [if_neg (by omega)]
    rfl

/-! ## Both ways -/

theorem word_eq (hbody : body ≠ "") (hblank : ' ' ∉ init.toList ∧ ' ' ∉ body.toList) (s : State ν κ σ) :
    ∃ s', word init (some body) 1 0 0 false none s = .ok s.elements.size s' ∧ s'.elements[s.elements.size]?.map Element.kind =
      some (.atom (.word (wordSpec init body ((Matcher.read (wordPattern init body false) {}).map fun m => (wordPattern init body false, m))))) := by
  have hbody' : body.isEmpty = false := by simpa using hbody
  unfold word
  simp only [hbody']
  refine ⟨_, rfl, ?_⟩
  simp [hblank]
  rfl

/-- A word without blanks has a pattern, and parsing by it is the same as parsing without it at every place of every
    text, unless a single character may follow several initial ones; then there is a place where it is not. -/
theorem word_fast_path_agrees_iff (init body : String) (hinit : init ≠ "") (hbody : body ≠ "") (hblank : ' ' ∉ init.toList ∧ ' ' ∉ body.toList)
    (s : State ν κ σ) : ∃ (w : WordSpec) (s' : State ν κ σ), word init (some body) 1 0 0 false none s = .ok s.elements.size s' ∧
      s'.elements[s.elements.size]?.map Element.kind = some (.atom (.word w)) ∧ w.pattern.isSome ∧
      ((∀ (text : Chars) (loc : Nat), loc < text.size → ∀ (skip : Nat → GrammarM ν κ σ Nat) (fail : Nat → Fault),
        Atom.parse text skip fail loc (.word w) = Atom.parse text skip fail loc (.word { w with pattern := none })) ↔ ¬(body.length = 1 ∧ 1 < init.length)) := by
  obtain ⟨m, hread, hagree, hdiffer⟩ := read_wordPattern hinit hbody
  obtain ⟨s', hrun, hkind⟩ := word_eq hbody hblank s
  rw [hread] at hkind
  refine ⟨_, s', hrun, hkind, rfl, fun h hone => ?_, fun h text loc hloc skip fail => ?_⟩
  · -- a text of one initial character: the loop takes it, the pattern waits for the others
    obtain ⟨c, cs, hcs⟩ := exists_cons_of_ne_nil fun h => hinit (String.toList_eq_nil_iff.mp h)
    have hsame := h #[c] 0 (by simp) (fun _ => throw .tooDeep) fun _ => .tooDeep
    have hloop := (parse_word_loop (l := [c]) (drop_zero ..)).symm.trans (hsame.symm.trans (parse_word_pattern (l := [c]) (drop_zero ..) _ m))
    rw [show [c].toArray = #[c] from rfl, hdiffer hone c, wordFrom, if_pos ((test_ofChars _ _).mpr (hcs ▸ mem_cons_self))] at hloop
    exact absurd (congrFun hloop s) (by rintro ⟨⟩)
  · obtain ⟨x, rest, hdrop⟩ : ∃ x rest, text.toList.drop loc = x :: rest := ⟨_, _, drop_eq_getElem_cons hloc⟩
    refine (parse_word_pattern hdrop (wordPattern init body false) m).trans ?_
    rw [hagree h _ _ _ _ hdrop]
    exact (parse_word_loop hdrop).symm

theorem word_fast_path_misses : "ab" ≠ "" ∧ "c" ≠ "" ∧ (' ' ∉ "ab".toList ∧ ' ' ∉ "c".toList) ∧
    ∃ (w : WordSpec) (s' : State Empty Empty Unit), word "ab" (some "c") 1 0 0 false none { host := () } = .ok 0 s' ∧
      s'.elements[0]?.map Element.kind = some (.atom (.word w)) ∧ w.pattern.isSome ∧
      ¬∀ (text : Chars) (loc : Nat), loc < text.size → ∀ (skip : Nat → GrammarM Empty Empty Unit Nat) (fail : Nat → Fault),
        Atom.parse text skip fail loc (.word w) = Atom.parse text skip fail loc (.word { w with pattern := none }) := by
  obtain ⟨w, s', hrun, hkind, hpattern, hiff⟩ := word_fast_path_agrees_iff "ab" "c" (by decide) (by decide) (by decide) { host := () }
  exact ⟨by decide, by decide, by decide, w, s', hrun, hkind, hpattern, fun h => hiff.mp h (by decide)⟩

end Plainsong.Grammar
