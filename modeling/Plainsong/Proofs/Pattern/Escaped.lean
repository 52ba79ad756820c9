import Mathlib
import Plainsong.Pattern.Reader
import Plainsong.Proofs.Pattern.Scanning
/- Patterns made of texts. A text is written into a pattern with a backslash before every sign that means something
   there, inside of a class and outside of it, and reading gives back what was written: a class stands for its
   characters (`readAtom_class`) and a text for itself (`readSeq_plainly`). What a pattern that is read does is told
   by its runs alone (`Joins`, `Spells`): the tree may have been simplified. -/
namespace Plainsong

open List

namespace Pattern

variable {n : Nat} {c : Char} {cs s r r' : List Char} {p p' q : Pattern}

/-! ## Classes -/

theorem test_range (lo hi x : Char) : (Member.range lo hi).test x = true ↔ lo.toNat ≤ x.toNat ∧ x.toNat ≤ hi.toNat := by
  rw [Member.test, Bool.and_eq_true_iff, decide_eq_true_iff, decide_eq_true_iff]
  exact Iff.rfl

/-- Neighbours are put together in one range, and no range is empty. -/
theorem any_ofChars (cs : List Char) : (∀ lo hi, .range lo hi ∈ (CharClass.ofChars cs).members → lo.toNat ≤ hi.toNat) ∧
    ∀ x, (CharClass.ofChars cs).members.any (·.test x) = true ↔ x ∈ cs := by
  induction cs with
  | nil => simp [CharClass.ofChars]
  | cons c cs ih =>
    change (∀ lo hi, _ ∈ Member.consRange c c (CharClass.ofChars cs).members → _) ∧
      ∀ x, (Member.consRange c c (CharClass.ofChars cs).members).any _ = true ↔ _
    obtain ⟨hproper, hmem⟩ := ih
    simp only [mem_cons, ← hmem, ← Char.toNat_inj]
    generalize (CharClass.ofChars cs).members = ms at hproper
    unfold Member.consRange
    split
    next lo hi ms =>
      have hrange := hproper lo hi mem_cons_self
      split_ifs
      all_goals
        refine ⟨by grind, fun x => ?_⟩
        simp only [any_cons, Bool.or_eq_true, test_range]
        grind
    next =>
      refine ⟨by grind, fun x => ?_⟩
      simp only [any_cons, Bool.or_eq_true, test_range]
      grind

theorem test_ofChars (cs : List Char) (x : Char) : (CharClass.ofChars cs).test x = true ↔ x ∈ cs := by
  rw [← (any_ofChars cs).2, CharClass.test]
  simp [CharClass.ofChars]

/-- How a character is written in a class. -/
def inClass (c : Char) : List Char :=
  if c = '\\' || c = '^' || c = '-' || c = ']' then ['\\', c] else if c = '\n' then ['\\', 'n'] else if c = '\t' then ['\\', 't'] else [c]

theorem toList_escapeClass (s : String) : (escapeClass s).toList = s.toList.flatMap inClass := String.toList_ofList

theorem classAtom?_inClass (c : Char) (r : List Char) : classAtom? (inClass c ++ r) = some (.inl c, r) := by
  unfold inClass
  split_ifs with hsign hfeed htab
  · simp only [Bool.or_eq_true, decide_eq_true_eq] at hsign
    rcases hsign with ((rfl | rfl) | rfl) | rfl <;> rfl
  · rw [hfeed]
    rfl
  · rw [htab]
    rfl
  · unfold classAtom?
    split <;> simp_all

theorem inClass_head (c : Char) : ∃ d r, inClass c = d :: r ∧ d ≠ ']' ∧ d ≠ '^' ∧ d ≠ '-' := by
  unfold inClass
  split_ifs with hsign
  case neg =>
    simp only [Bool.or_eq_true, decide_eq_true_eq, not_or] at hsign
    exact ⟨c, [], rfl, hsign.2, hsign.1.1.2, hsign.1.2⟩
  all_goals exact ⟨_, _, rfl, by decide⟩

/-- Behind a member comes no dash, so none of them begins a range. -/
theorem tail_head (cs r : List Char) : ∃ d r', cs.flatMap inClass ++ ']' :: r = d :: r' ∧ d ≠ '-' := by
  cases cs with
  | nil => exact ⟨_, _, rfl, by decide⟩
  | cons c cs =>
    obtain ⟨d, r', hd, -, -, hdash⟩ := inClass_head c
    exact ⟨d, _, by rw [flatMap_cons, hd, cons_append, cons_append], hdash⟩

theorem length_le_flatMap {f : Char → List Char} (hf : ∀ c, f c ≠ []) (cs : List Char) : cs.length ≤ (cs.flatMap f).length := by
  induction cs with
  | nil => exact Nat.zero_le _
  | cons c cs ih =>
    have hc := length_pos_iff.mpr (hf c)
    rw [flatMap_cons, length_append, length_cons]
    omega

theorem classMembers_inClass (h : cs.length < n) (first : Bool) (hfirst : first = true → cs ≠ []) :
    classMembers n first (cs.flatMap inClass ++ ']' :: r) = some ((CharClass.ofChars cs).members, r) := by
  obtain ⟨n, rfl⟩ := Nat.exists_eq_add_one_of_ne_zero (Nat.ne_zero_of_lt h)
  induction cs generalizing n first with
  | nil =>
    cases first with
    | true => exact absurd rfl (hfirst rfl)
    | false => rfl
  | cons c cs ih =>
    obtain ⟨n, rfl⟩ := Nat.exists_eq_add_one_of_ne_zero (Nat.ne_zero_of_lt (Nat.lt_of_succ_lt_succ h))
    obtain ⟨d, r', hd, hclose, -, -⟩ := inClass_head c
    have hatom := classAtom?_inClass c (cs.flatMap inClass ++ ']' :: r)
    have hrest := ih false (by simp) n (Nat.lt_of_succ_lt_succ h)
    obtain ⟨e, t, htail, hdash⟩ := tail_head cs r
    rw [flatMap_cons, append_assoc]
    rw [htail] at hatom hrest ⊢
    rw [hd, cons_append] at hatom ⊢
    rw [classMembers, hatom]
    simp only [hclose, decide_false, Bool.false_and, Bool.false_eq_true, if_false, Option.bind_eq_bind, Option.bind_some]
    split
    next heq => exact absurd (cons.inj heq).1 hdash
    next heq _ =>
      cases heq
      rw [hrest]
      rfl
    all_goals simp_all

theorem readAtom_class (hcs : cs ≠ []) : readAtom {} (n + 1) {} ('[' :: (cs.flatMap inClass ++ ']' :: r)) = some (.one (.ofChars cs), {}, r) := by
  have hlength := length_le_flatMap (f := inClass) (by unfold inClass; intro c; split_ifs <;> simp) cs
  have hmembers := classMembers_inClass (r := r) (n := (cs.flatMap inClass ++ ']' :: r).length + 1) (by rw [length_append]; omega) true fun _ => hcs
  obtain ⟨c, cs, rfl⟩ := exists_cons_of_ne_nil hcs
  obtain ⟨d, r', hd, -, hnot, -⟩ := inClass_head c
  rw [flatMap_cons, hd, cons_append, cons_append] at hmembers ⊢
  rw [readAtom, hmembers]
  · rfl
  · rintro _ ⟨⟩
    exact hnot rfl

/-! ## Texts -/

/-- How a character is written outside of classes. -/
def plainly (c : Char) : List Char := if specials.contains c then ['\\', c] else [c]

theorem toList_escape (s : String) : (escape s).toList = s.toList.flatMap plainly := String.toList_ofList

theorem length_le_plainly (cs : List Char) : cs.length ≤ (cs.flatMap plainly).length :=
  length_le_flatMap (by unfold plainly; intro c; split_ifs <;> simp) cs

theorem readAtom_sign (hc : c.isAlphanum = false) (r : List Char) : readAtom {} (n + 1) {} ('\\' :: c :: r) = some (.one (.single c false), {}, r) := by
  have hchar : charEscape? (c :: r) = some (c, r) := by
    unfold charEscape?
    split <;> simp_all
  have hclass : classEscape? c = none := by
    unfold classEscape?
    split <;> simp_all
  have hdigit : ¬('1' ≤ c ∧ c ≤ '9') := by
    rintro ⟨hlo, hhi⟩
    have hdigit : c.isDigit = true := Bool.and_eq_true_iff.mpr ⟨decide_eq_true (le_trans (by decide) hlo), decide_eq_true hhi⟩
    simp [Char.isAlphanum, hdigit] at hc
  rw [readAtom, hclass]
  · dsimp only
    rw [if_neg hdigit, hchar]
    rfl
  all_goals rintro rfl; exact absurd hc (by decide)

theorem readAtom_other (hc : c ∉ specials) (r : List Char) : readAtom {} (n + 1) {} (c :: r) = some (.one (.single c false), {}, r) := by
  rw [readAtom, if_neg]
  · intro h
    simp only [Bool.or_eq_true, decide_eq_true_eq] at h
    rcases h with (((rfl | rfl) | rfl) | rfl) | rfl <;> exact hc (by decide)
  all_goals
    intros
    subst_vars
    exact hc (by decide)

theorem readAtom_plainly (c : Char) (r : List Char) : readAtom {} (n + 1) {} (plainly c ++ r) = some (.one (.single c false), {}, r) := by
  unfold plainly
  split_ifs with hc
  · refine readAtom_sign (Bool.not_eq_true' _ ▸ ?_) r
    exact all_eq_true.mp (show specials.all (!·.isAlphanum) = true by decide) c (contains_iff_mem.mp hc)
  · exact readAtom_other (by simpa using hc) r

theorem plainly_head (c : Char) : ∃ d r, plainly c = d :: r ∧ (d = '\\' ∨ d ∉ specials) := by
  unfold plainly
  split_ifs with hc
  · exact ⟨_, _, rfl, .inl rfl⟩
  · exact ⟨c, [], rfl, .inr (by simpa using hc)⟩

/-- The one pattern, and behind it the other. -/
def Joins (p q whole : Pattern) : Prop := ∀ (α : Type) (text : Chars) (i : Nat) (caps : Captures) (k : Nat → Captures → Option α),
  run text whole i caps k = run text p i caps fun j caps => run text q j caps k

theorem readSeq_atom (hc : c ≠ '|' ∧ c ≠ ')') (hatom : readAtom {} n {} (c :: s) = some (p, {}, r)) (hquantified : quantified p r = some (p', r'))
    {rest : List Char} (hrest : readSeq {} n {} r' = some (q, {}, rest)) : ∃ whole, readSeq {} (n + 1) {} (c :: s) = some (whole, {}, rest) ∧ Joins p' q whole := by
  rw [readSeq, hatom]
  · simp only [Option.bind_eq_bind, Option.bind_some, hquantified, hrest]
    refine ⟨_, rfl, fun α text i caps k => ?_⟩
    split
    · simp only [run]
    · exact run_seq ..
  · simp
  · simp [hc.1]
  · simp [hc.2]

/-- The pattern takes just these characters, and goes on with the other. -/
def Spells (cs : List Char) (q p : Pattern) : Prop := ∀ (α : Type) (l : List Char) (i : Nat) (caps : Captures) (k : Nat → Captures → Option α),
  run l.toArray p i caps k = if cs <+: l.drop i then run l.toArray q (i + cs.length) caps k else none

theorem Spells.cons {whole : Pattern} (hq : Spells cs q p) (h : Joins (.one (.single c false)) p whole) : Spells (c :: cs) q whole := by
  intro α l i caps k
  rw [h]
  cases hrest : l.drop i with
  | nil => simp [run_one_end _ hrest]
  | cons x rest =>
    rw [run_one _ hrest, hq, drop_succ_of_drop hrest, test_single]
    by_cases hx : c = x
    · simp [hx, Nat.add_right_comm, Nat.add_assoc]
    · simp [hx, Ne.symm hx]

theorem bounds?_plainly (hr : bounds? r = none) (cs : List Char) : bounds? (cs.flatMap plainly ++ r) = none := by
  cases cs with
  | nil => exact hr
  | cons c cs =>
    obtain ⟨d, t, hd, hplain⟩ := plainly_head c
    rw [flatMap_cons, hd, cons_append, cons_append]
    unfold bounds?
    split
    case h_5 => rfl
    all_goals
      rename_i heq
      cases heq
      exact absurd hplain (by decide)

theorem head?_plainly (hr : r.head? ≠ some '(') (cs : List Char) : (cs.flatMap plainly ++ r).head? ≠ some '(' := by
  cases cs with
  | nil => exact hr
  | cons c cs =>
    obtain ⟨d, t, hd, hplain⟩ := plainly_head c
    rw [flatMap_cons, hd]
    rintro ⟨⟩
    exact absurd hplain (by decide)

theorem readSeq_plainly (hr : bounds? r = none) (hrest : readSeq {} (n + 1) {} r = some (q, {}, r')) (cs : List Char) :
    ∃ p, readSeq {} (n + cs.length + 1) {} (cs.flatMap plainly ++ r) = some (p, {}, r') ∧ Spells cs q p := by
  induction cs with
  | nil => exact ⟨q, hrest, fun α l i caps k => by simp⟩
  | cons c cs ih =>
    obtain ⟨p, hp, hspells⟩ := ih
    obtain ⟨d, t, hd, hplain⟩ := plainly_head c
    have hatom := readAtom_plainly (n := n + cs.length) c (cs.flatMap plainly ++ r)
    rw [flatMap_cons, append_assoc]
    rw [hd, cons_append] at hatom ⊢
    have hd : d ≠ '|' ∧ d ≠ ')' := by constructor <;> rintro rfl <;> exact absurd hplain (by decide)
    obtain ⟨whole, hread, hjoins⟩ := readSeq_atom hd hatom (by rw [quantified, bounds?_plainly hr]) hp
    exact ⟨whole, hread, hspells.cons hjoins⟩

theorem readSeq_span {b : Bounds} (hcs : cs ≠ []) (hc : ∀ k, quantified (.one k) [c] = some (.span k b true, [])) (n : Nat) :
    ∃ p, readSeq {} (n + 2) {} ('[' :: (cs.flatMap inClass ++ [']', c])) = some (p, {}, []) ∧ Joins (.span (.ofChars cs) b true) .empty p :=
  readSeq_atom (by decide) (readAtom_class hcs) (hc _) (by rw [readSeq])

theorem readAlt_last (h : readSeq {} n {} s = some (p, {}, [])) : readAlt {} (n + 1) {} s = some (p, {}, []) := by
  rw [readAlt, h]
  rfl

end Pattern

/-- A text that does not begin with flags is read as it stands. -/
theorem Matcher.read_of_readAlt {source : String} {p : Pattern} {s : List Char} (hsource : source.toList = s) (hs : s.head? ≠ some '(')
    (h : Pattern.readAlt {} (3 * s.length + 4) {} s = some (p, {}, [])) : Matcher.read source {} = some { pattern := p, groups := 1, names := [] } := by
  have hflags : Pattern.leadingFlags {} s = ({}, s) := by
    unfold Pattern.leadingFlags
    split
    · exact absurd rfl hs
    · rfl
  rw [Matcher.read, hsource, hflags]
  dsimp only
  rw [h]

end Plainsong
