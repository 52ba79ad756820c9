import Plainsong.Proofs.Grammar.LongestFirst
import Plainsong.Proofs.Pattern.Escaped
/- One of several texts. The texts are put in order (`longestFirst`) and then tried one after the other, either as
   elements of their own or all together in one pattern. Either way, parsing takes the first text in order that occurs
   behind the blanks (`Tries`), and where none occurs it fails as an element that may be passed over; and the first in
   order is the longest that occurs (`oneOf_takes_longest`). -/
namespace Plainsong

open List

/-! ## The pattern -/

namespace Pattern

/-- The pattern takes the first of these texts that stands there and with which the match can go on. -/
def Offers (texts : List (List Char)) (p : Pattern) : Prop := ∀ (α : Type) (l : List Char) (i : Nat) (caps : Captures) (k : Nat → Captures → Option α),
  run l.toArray p i caps k = texts.findSome? fun cs => if cs <+: l.drop i then k (i + cs.length) caps else none

theorem readAlt_plainly {texts : List (List Char)} {n : Nat} (htexts : texts ≠ []) (hn : (['|'].intercalate (texts.map (flatMap plainly))).length + 1 < n) :
    ∃ p, readAlt {} n {} (['|'].intercalate (texts.map (flatMap plainly))) = some (p, {}, []) ∧ Offers texts p := by
  induction texts generalizing n with
  | nil => exact absurd rfl htexts
  | cons cs texts ih =>
    have hlength := length_le_plainly cs
    cases texts with
    | nil =>
      rw [map_singleton, intercalate_singleton] at hn ⊢
      obtain ⟨m, rfl⟩ : ∃ m, n = m + cs.length + 1 + 1 := ⟨n - cs.length - 2, by omega⟩
      obtain ⟨p, hp, hspells⟩ := readSeq_plainly (n := m) (r := []) rfl (by rw [readSeq]) cs
      rw [append_nil] at hp
      refine ⟨p, readAlt_last hp, fun α l i caps k => ?_⟩
      rw [hspells, findSome?_singleton]
      simp only [run]
    | cons cs' texts =>
      rw [map_cons, map_cons, intercalate_cons_cons, ← map_cons, append_assoc] at hn ⊢
      rw [length_append, length_append, length_singleton] at hn
      obtain ⟨m, rfl⟩ : ∃ m, n = m + cs.length + 1 + 1 := ⟨n - cs.length - 2, by omega⟩
      obtain ⟨q, hq, hoffers⟩ := ih (n := m + cs.length + 1) (cons_ne_nil _ _) (by omega)
      obtain ⟨p, hp, hspells⟩ := readSeq_plainly (n := m) (r := '|' :: ['|'].intercalate (map (flatMap plainly) (cs' :: texts))) rfl (by rw [readSeq]) cs
      refine ⟨.alt p q, ?_, fun α l i caps k => ?_⟩
      · rw [readAlt, singleton_append, hp]
        simp only [Option.bind_eq_bind, Option.bind_some, hq]
        rfl
      · rw [run, hspells, hoffers, run]
        rfl

theorem offers_class {cs : List Char} {q : Pattern} (h : Joins (.one (.ofChars cs)) .empty q) : Offers (cs.map ([·])) q := by
  intro α l i caps k
  rw [h, findSome?_map]
  cases hrest : l.drop i with
  | nil =>
    rw [run_one_end _ hrest]
    exact (findSome?_eq_none_iff.mpr (by simp)).symm
  | cons x rest =>
    rw [run_one _ hrest]
    simp only [run, test_ofChars]
    clear h
    induction cs with
    | nil => simp
    | cons c cs ih =>
      rw [findSome?_cons, ← ih]
      by_cases hx : c = x
      · subst hx
        simp
        cases k (i + 1) caps <;> simp
      · simp [hx, Ne.symm hx]

end Pattern

namespace Grammar

variable {texts : List String}

/-- Texts that are as many as their characters have one each. -/
theorem singletons_of_length (hne : "" ∉ texts) : texts.length ≤ (String.join texts).length ∧
    (texts.length = (String.join texts).length → ∃ cs : List Char, texts.map String.toList = cs.map ([·])) := by
  rw [String.length_join]
  induction texts with
  | nil => exact ⟨le_rfl, fun _ => ⟨[], rfl⟩⟩
  | cons t texts ih =>
    obtain ⟨hle, hcs⟩ := ih fun h => hne (mem_cons_of_mem _ h)
    have hpos : 0 < t.toList.length := length_pos_iff.mpr fun h => hne (String.toList_eq_nil_iff.mp h ▸ mem_cons_self)
    have hlength := @String.length_toList t
    simp only [map_cons, sum_cons, length_cons] at hle hcs ⊢
    refine ⟨by omega, fun h => ?_⟩
    obtain ⟨c, hc⟩ := length_eq_one_iff.mp (by omega : t.toList.length = 1)
    obtain ⟨cs, hcs⟩ := hcs (by omega)
    exact ⟨c :: cs, by rw [hc, hcs, map_cons]⟩

theorem read_alternativesPattern (hne : "" ∉ texts) (htexts : texts ≠ []) :
    ∃ q, Matcher.read (alternativesPattern texts) {} = some ⟨q, 1, []⟩ ∧ Pattern.Offers (texts.map String.toList) q := by
  unfold alternativesPattern
  split_ifs with hlength
  · obtain ⟨cs, hcs⟩ := (singletons_of_length hne).2 hlength
    have hsource : (String.join (texts.map Pattern.escapeClass)).toList = cs.flatMap Pattern.inClass := calc
      _ = (texts.map String.toList).flatMap (flatMap Pattern.inClass) := by
        simp [String.toList_join, Function.comp_def, Pattern.toList_escapeClass, flatMap_def]
      _ = _ := by simp [hcs, flatMap_map]
    rw [hcs]
    obtain ⟨q, hread, hjoins⟩ := Pattern.readSeq_atom (n := 3 * ('[' :: (cs.flatMap Pattern.inClass ++ [']'])).length + 2) (c := '[')
      (s := cs.flatMap Pattern.inClass ++ [']']) (by decide) (Pattern.readAtom_class (by rintro rfl; simp at hcs; exact htexts hcs)) rfl (by rw [Pattern.readSeq])
    exact ⟨q, Matcher.read_of_readAlt (by simp [hsource]) (by simp) (Pattern.readAlt_last hread), Pattern.offers_class hjoins⟩
  · obtain ⟨q, hread, hoffers⟩ := Pattern.readAlt_plainly (show texts.map String.toList ≠ [] by simpa using htexts)
      (n := 3 * (['|'].intercalate ((texts.map String.toList).map (flatMap Pattern.plainly))).length + 4) (by omega)
    refine ⟨q, Matcher.read_of_readAlt ?_ ?_ hread, hoffers⟩
    · rw [String.toList_intercalate]
      simp [Function.comp_def, Pattern.toList_escape]
    · rcases texts with _ | ⟨t, _ | ⟨u, texts⟩⟩
      · exact absurd rfl htexts
      · simpa using Pattern.head?_plainly (r := []) (by simp) t.toList
      · rw [map_cons, map_cons, map_cons, map_cons, intercalate_cons_cons, append_assoc]
        exact Pattern.head?_plainly (by simp) t.toList

/-! ## Parsing an element -/

variable {ν κ σ : Type} {H : Host ν κ σ} {text : Chars} {fold : String → String} {loc i n p : Nat} {act : Bool} {s s' : State ν κ σ}
  {e : Element ν κ} {found : Option String} {t blanks : String}

/-- Compared by `fold`, the text stands at the place. -/
def Occurs (fold : String → String) (text : Chars) (i : Nat) (t : String) : Prop := fold (sliceText text i (i + (fold t).length)) = fold t

instance : DecidablePred (Occurs fold text i) := fun _ => inferInstanceAs (Decidable (_ = _))

/-- Where an element that passes over blanks begins. -/
def afterBlanks (blanks : String) (text : Chars) (loc : Nat) : Nat := runEnd (fun c => blanks.toList.contains c) text loc (text.size - loc)

/-- The store with one more result, of a single token. -/
def State.withToken (s : State ν κ σ) (t : String) : State ν κ σ := { s with records := s.records.push { items := #[.text t] } }

/-- What is given where nothing is found: the store as it was, and a fault that can be passed over. -/
def Misses {α : Type} (s : State ν κ σ) (r : EStateM.Result Fault (State ν κ σ) α) : Prop := ∃ f, ((∃ g, f = .mismatch g) ∨ f = .outOfRange) ∧ r = .error f s

/-- What a rule gives for the text that was found, if one was: a value that makes a result of that text. -/
def Takes (fold : String → String) (i : Nat) (s : State ν κ σ) : Option String → EStateM.Result Fault (State ν κ σ) (Nat × Value ν) → Prop
  | none, r => Misses s r
  | some t, r => ∃ v s', r = .ok (i + (fold t).length, v) s' ∧ s'.elements = s.elements ∧ Results.ofValue v s' = .ok s.records.size (s.withToken t)

/-- What parsing an element gives. -/
def Gives (fold : String → String) (i : Nat) (s : State ν κ σ) : Option String → EStateM.Result Fault (State ν κ σ) (Nat × Nat) → Prop
  | none, r => Misses s r
  | some t, r => r = .ok (i + (fold t).length, s.records.size) (s.withToken t)

/-- An element that has nothing done to it. -/
structure Element.Plain (kind : Kind ν) (e : Element ν κ) : Prop where
  kind : e.kind = kind
  resultsName : e.resultsName = none
  skipBlanks : e.skipBlanks = true
  ignored : e.ignored = []
  debug : e.debug = false
  actions : e.actions = []
  failAction : e.failAction = none
  pinned : e.pinned = none

section Runs

variable {α β : Type} {x : GrammarM ν κ σ α} {a : α} {f : Fault}

theorem bind_ok (h : x s = .ok a s') (k : α → GrammarM ν κ σ β) : (x >>= k) s = k a s' := by simp [bind, EStateM.bind, h]

theorem Misses.bind (h : Misses s (x s)) (k : α → GrammarM ν κ σ β) : Misses s ((x >>= k) s) := by
  obtain ⟨f, hf, hx⟩ := h
  exact ⟨f, hf, by simp [Bind.bind, EStateM.bind, hx]⟩

theorem get_bind (k : State ν κ σ → GrammarM ν κ σ β) : (MonadState.get >>= k) s = k s s := rfl

theorem attempt_ok (h : x s = .ok a s') : attempt x s = .ok (.ok a) s' := by rw [attempt, h]

theorem attempt_error (h : x s = .error f s') : attempt x s = .ok (.error f) s' := by rw [attempt, h]

theorem element_eq (h : s.elements[p]? = some e) : element p s = .ok e s := by
  rw [element, get_bind, h]
  rfl

end Runs

theorem Takes.catchOverrun {x : GrammarM ν κ σ (Nat × Value ν)} (h : Takes fold i s found (x s)) : Takes fold i s found (catchOverrun text e p x s) := by
  rw [Grammar.catchOverrun]
  cases found with
  | none =>
    obtain ⟨f, hf, hx⟩ := h
    rw [bind_ok (attempt_error hx)]
    rcases hf with ⟨g, rfl⟩ | rfl
    · exact ⟨_, .inl ⟨g, rfl⟩, rfl⟩
    · exact ⟨_, .inl ⟨_, rfl⟩, rfl⟩
  | some t =>
    obtain ⟨v, s', hx, h⟩ := h
    rw [bind_ok (attempt_ok hx)]
    exact ⟨v, s', rfl, h⟩

theorem Takes.bind {x : GrammarM ν κ σ (Nat × Value ν)} {k : Nat × Value ν → GrammarM ν κ σ (Nat × Nat)} (h : Takes fold i s found (x s))
    (hk : ∀ t v s', s'.elements = s.elements → Results.ofValue v s' = .ok s.records.size (s.withToken t) →
      k (i + (fold t).length, v) s' = .ok (i + (fold t).length, s.records.size) (s.withToken t)) : Gives fold i s found ((x >>= k) s) := by
  cases found with
  | none => exact Misses.bind h k
  | some t =>
    obtain ⟨v, s', hx, helements, hv⟩ := h
    exact (bind_ok hx k).trans (hk t v s' helements hv)

theorem parseAt_plain {kind : Kind ν} (hs : s.remember = false) (hp : s.elements[p]? = some e) (he : e.Plain kind) (hkind : ∀ v, e.reshape H v = pure v) {start : Nat}
    (hskip : e.callPreparse = true ∧ e.skip (parseAt H text n) text loc s = .ok start s ∨ e.callPreparse = false ∧ loc = start)
    (hrule : Takes fold i s found (e.rule (parseAt H text n) text p act start s)) :
    Gives fold i s found (parseAt H text (n + 1) p loc act true s) := by
  rw [parseAt, bind_ok (element_eq hp), get_bind, he.pinned, hs]
  simp only [Option.getD_none, Bool.false_eq_true, if_false]
  rw [parseElement, bind_ok (element_eq hp)]
  simp only [he.debug, he.failAction, Option.isSome_none, Bool.or_false, Bool.false_eq_true, if_false, Bool.true_and]
  rcases hskip with ⟨hpre, hskip⟩ | ⟨hpre, rfl⟩
  on_goal 1 => rw [if_pos hpre, bind_ok hskip]
  on_goal 2 => rw [if_neg (Bool.eq_false_iff.mp hpre), pure_bind]
  all_goals
    split
    on_goal 1 => refine hrule.catchOverrun.bind fun t v s' helements hv => ?_
    on_goal 2 => refine hrule.bind fun t v s' helements hv => ?_
    all_goals
      rw [bind_ok (element_eq (helements ▸ hp)), hkind, pure_bind, he.resultsName]
      unfold Results.make
      rw [bind_assoc, bind_ok hv]
      simp [he.actions, he.debug]
      rfl

/-! ## Atoms -/

theorem skip_eq {a : Atom} {rec : Parser ν κ σ} (he : e.Plain (.atom a)) (ha : a ≠ .lineStart ∧ ∀ n, a ≠ .goToColumn n) :
    e.skip rec text loc s = .ok (afterBlanks e.blanks text loc) s := by
  unfold Element.skip
  rw [he.kind]
  have hignored : e.skipIgnored rec text loc = pure loc := by simp [Element.skipIgnored, he.ignored]
  cases a
  case lineStart => exact absurd rfl ha.1
  case goToColumn n => exact absurd rfl (ha.2 n)
  all_goals
    simp only [hignored, pure_bind, he.skipBlanks, if_true]
    rfl

theorem occurs_id_iff : Occurs id text loc t ↔ t.toList <+: text.toList.drop loc := by
  rw [Occurs, sliceText, prefix_iff_eq_take, ← String.toList_inj, String.length_toList]
  simpa using eq_comm

section Atoms

variable {skip : Nat → GrammarM ν κ σ Nat} {fail : Nat → Failure}

theorem takes_literal (ht : t ≠ "") : Takes id loc s (if Occurs id text loc t then some t else none)
    (Atom.parse text skip (fun i => .mismatch (fail i)) loc (.literal t.toList.toArray) s) := by
  obtain ⟨c, cs, hcs⟩ := exists_cons_of_ne_nil fun h => ht (String.toList_eq_nil_iff.mp h)
  have hstands : standsAt text t.toList.toArray loc = true ↔ t.toList <+: text.toList.drop loc := by
    rw [standsAt, beq_iff_eq, ← Array.toList_inj, prefix_iff_eq_take]
    simpa using eq_comm
  simp only [occurs_id_iff, Atom.parse, charAt, Bool.and_eq_true, decide_eq_true_eq, Bool.or_eq_true, beq_iff_eq, hstands]
  have hchar := Pattern.getElem?_of_drop (rfl : text.toList.drop loc = _)
  rw [Array.toArray_toList] at hchar
  rw [hchar]
  cases text.toList.drop loc with
  | nil =>
    rw [if_neg (by simp [hcs])]
    exact ⟨_, .inr rfl, rfl⟩
  | cons x rest =>
    have hiff : some x = t.toList.toArray[0]? ∧ (t.toList.toArray.size = 1 ∨ t.toList <+: x :: rest) ↔ t.toList <+: x :: rest := by
      simp [hcs, cons_prefix_cons]
      grind
    simp only [head?_cons, pure_bind, hiff]
    split_ifs
    · simp only [size_toArray, String.length_toList, String.ofList_toList]
      exact ⟨_, _, rfl, rfl, rfl⟩
    · exact ⟨_, .inl ⟨_, rfl⟩, rfl⟩

theorem takes_caselessLiteral (t : String) : Takes Text.upper loc s (if Occurs Text.upper text loc t then some t else none)
    (Atom.parse text skip (fun i => .mismatch (fail i)) loc (.caselessLiteral (Text.upper t) t) s) := by
  simp only [Atom.parse, beq_iff_eq]
  by_cases h : Occurs Text.upper text loc t
  · rw [if_pos h, if_pos (show _ = _ from h)]
    exact ⟨_, _, rfl, rfl, rfl⟩
  · rw [if_neg h, if_neg (show ¬_ = _ from h)]
    exact ⟨_, .inl ⟨_, rfl⟩, rfl⟩

theorem atPos_offers {q : Pattern} (hq : Pattern.Offers (texts.map String.toList) q) (hne : "" ∉ texts) :
    Matcher.atPos ⟨q, 1, []⟩ text (min loc text.size) = (texts.find? (Occurs id text loc)).map fun t => ⟨loc, loc + t.length, #[none]⟩ := by
  have hdrop : text.toList.drop (min loc text.size) = text.toList.drop loc := by
    rcases Nat.le_total loc text.size with hle | hle
    · rw [Nat.min_eq_left hle]
    · rw [Nat.min_eq_right hle]
      exact (drop_of_length_le le_rfl).trans (drop_of_length_le hle).symm
  rw [Matcher.atPos, Matcher.matchAt, if_neg (Nat.not_lt.mpr (Nat.min_le_right ..)), ← (Array.toArray_toList : text.toList.toArray = text), hq, Array.toArray_toList, hdrop,
    findSome?_map]
  clear hq
  induction texts with
  | nil => rfl
  | cons t texts ih =>
    rw [findSome?_cons, find?_cons, ih (fun h => hne (mem_cons_of_mem _ h))]
    by_cases ht : Occurs id text loc t
    · have hmin : min loc text.size = loc := by
        refine Nat.min_eq_left (Nat.le_of_lt (not_le.mp fun hle => hne ?_))
        have hprefix := occurs_id_iff.mp ht
        rw [drop_of_length_le hle, prefix_nil, String.toList_eq_nil_iff] at hprefix
        exact hprefix ▸ mem_cons_self
      simp [ht, occurs_id_iff.mp ht, hmin, String.length_toList]
    · simp [ht, mt occurs_id_iff.mpr ht]

theorem takes_pattern {q : Pattern} {source : String} {flags : Nat} (hq : Pattern.Offers (texts.map String.toList) q) (hne : "" ∉ texts) :
    Takes id loc s (texts.find? (Occurs id text loc)) (Atom.parse text skip (fun i => .mismatch (fail i)) loc (.pattern source flags ⟨q, 1, []⟩) s) := by
  simp only [Atom.parse]
  rw [atPos_offers hq hne]
  cases htext : texts.find? (Occurs id text loc) with
  | none => exact ⟨_, .inl ⟨_, rfl⟩, rfl⟩
  | some t =>
    have ht : Found.whole ⟨loc, loc + t.length, #[none]⟩ text = t := show Occurs id text loc t by simpa using find?_some htext
    simp only [Option.map_some]
    rw [ht]
    exact ⟨_, _, rfl, rfl, rfl⟩

end Atoms

/-! ## Several texts -/

theorem gives_parseFirst {rec : Parser ν κ σ} {parts : List Nat} {whole : Nat} (h : Forall₂ (fun t p => (∃ e, s.elements[p]? = some e) ∧
      Gives fold i s (if Occurs fold text i t then some t else none) (rec p loc act true s)) texts parts) (worst : Option Failure) :
    Gives fold i s (texts.find? (Occurs fold text i)) (parseFirst rec text whole act loc parts worst s) := by
  induction h generalizing worst with
  | nil => cases worst <;> exact ⟨_, .inl ⟨_, rfl⟩, rfl⟩
  | @cons t p texts parts hhead _ ih =>
    obtain ⟨⟨e, he⟩, hhead⟩ := hhead
    rw [parseFirst]
    by_cases ht : Occurs fold text i t
    · rw [if_pos ht] at hhead
      rw [find?_cons_of_pos (by simpa using ht), bind_ok (attempt_ok hhead)]
      rfl
    · rw [if_neg ht] at hhead
      obtain ⟨f, hf, hx⟩ := hhead
      rw [find?_cons_of_neg (by simpa using ht), bind_ok (attempt_error hx)]
      dsimp only
      rcases hf with ⟨g, rfl⟩ | rfl
      · exact ih _
      · rw [passable, bind_assoc, bind_ok (element_eq he)]
        exact ih _

theorem Gives.takes {x : GrammarM ν κ σ (Nat × Nat)} (h : Gives fold i s found (x s)) :
    Takes fold i s found ((x >>= fun r => pure (r.1, .results r.2)) s) := by
  cases found with
  | none => exact Misses.bind h _
  | some t => exact ⟨_, _, bind_ok h _, rfl, rfl⟩

/-- The elements of a store stand in another too. -/
def Keeps (s s' : State ν κ σ) : Prop := ∀ (p : Nat) (e : Element ν κ), s.elements[p]? = some e → s'.elements[p]? = some e

theorem keeps_push (s : State ν κ σ) (e : Element ν κ) : Keeps s { s with elements := s.elements.push e } := fun p e he => by
  obtain ⟨hp, rfl⟩ := Array.getElem?_eq_some_iff.mp he
  exact Array.getElem?_push_lt hp

/-- The act adds an element that has nothing done to it. -/
def Adds (x : GrammarM ν κ σ Nat) (kind : Kind ν) (pre : Bool) (s : State ν κ σ) : Prop :=
  ∃ e, x s = .ok s.elements.size { s with elements := s.elements.push e } ∧ e.Plain kind ∧ e.blanks = s.blanks ∧ e.callPreparse = pre

/-- What does not count in comparing. -/
def foldOf (caseless : Bool) : String → String := if caseless then Text.upper else id

def atomOf (caseless : Bool) (t : String) : Atom := if caseless then .caselessLiteral (Text.upper t) t else .literal t.toList.toArray

theorem adds_text (caseless : Bool) (ht : t ≠ "") (s : State ν κ σ) : Adds ((if caseless then caselessLiteral else literal) t) (.atom (atomOf caseless t)) true s := by
  have ht : t.isEmpty = false := by rwa [Bool.eq_false_iff, ne_eq, String.isEmpty_iff]
  cases caseless
  all_goals
    refine ⟨_, rfl, ⟨?_, rfl, rfl, rfl, rfl, rfl, rfl, rfl⟩, rfl, rfl⟩
    simp [Element.titled, ht, atomOf]

variable {caseless : Bool}

/-- The element at the place is that of the text. -/
def Stands (caseless : Bool) (blanks : String) (s : State ν κ σ) (t : String) (p : Nat) : Prop :=
  t ≠ "" ∧ ∃ e, s.elements[p]? = some e ∧ e.Plain (.atom (atomOf caseless t)) ∧ e.blanks = blanks ∧ e.callPreparse = true

theorem Stands.gives (h : Stands caseless blanks s t p) (hs : s.remember = false) :
    Gives (foldOf caseless) (afterBlanks blanks text loc) s (if Occurs (foldOf caseless) text (afterBlanks blanks text loc) t then some t else none)
      (parseAt H text (n + 1) p loc act true s) := by
  obtain ⟨hne, e, hp, he, rfl, hpre⟩ := h
  have hatom : atomOf caseless t ≠ .lineStart ∧ ∀ n, atomOf caseless t ≠ .goToColumn n := by cases caseless <;> simp [atomOf]
  refine parseAt_plain hs hp he (fun v => by simp only [Element.reshape, he.kind]) (.inl ⟨hpre, skip_eq he hatom⟩) ?_
  simp only [Element.rule, he.kind]
  cases caseless with
  | false => exact takes_literal hne
  | true => exact takes_caselessLiteral t

theorem mapM_texts (caseless : Bool) (hne : "" ∉ texts) (s : State ν κ σ) : ∃ parts s', texts.mapM (if caseless then caselessLiteral else literal) s = .ok parts s' ∧
    Keeps s s' ∧ Forall₂ (Stands caseless s.blanks s') texts parts := by
  induction texts generalizing s with
  | nil => exact ⟨[], s, rfl, fun _ _ => id, .nil⟩
  | cons t texts ih =>
    have ht : t ≠ "" := fun h => hne (h ▸ mem_cons_self)
    obtain ⟨e, hmake, he⟩ := adds_text caseless ht s
    obtain ⟨parts, s', hrest, hkeeps, hparts⟩ := ih (fun h => hne (mem_cons_of_mem _ h)) { s with elements := s.elements.push e }
    refine ⟨s.elements.size :: parts, s', ?_, fun p e' he' => hkeeps p e' (keeps_push s e p e' he'), .cons ⟨ht, e, hkeeps _ _ (by simp), he⟩ hparts⟩
    rw [mapM_cons, bind_ok hmake, bind_ok hrest]
    rfl

theorem adds_firstOf {parts : List Nat} (h : ∀ p ∈ parts, ∃ e, s.elements[p]? = some e) : Adds (firstOf parts false) (.many .first parts) false s := by
  obtain ⟨all, hall⟩ : ∃ all, parts.mapM element s = .ok all s := by
    induction parts with
    | nil => exact ⟨[], rfl⟩
    | cons p parts ih =>
      obtain ⟨e, he⟩ := h p mem_cons_self
      obtain ⟨all, hall⟩ := ih fun q hq => h q (mem_cons_of_mem _ hq)
      refine ⟨e :: all, ?_⟩
      rw [mapM_cons, bind_ok (element_eq he), bind_ok hall]
      rfl
  rw [Adds, firstOf, bind_ok hall]
  exact ⟨_, rfl, ⟨rfl, rfl, rfl, rfl, rfl, rfl, rfl, rfl⟩, rfl, rfl⟩

/-- The act makes an element, and wherever it stands, parsing it gives the first of the texts that occurs behind the blanks. -/
def Tries (fold : String → String) (texts : List String) (x : GrammarM ν κ σ Nat) (s : State ν κ σ) : Prop :=
  ∃ p s', x s = .ok p s' ∧ ∀ s'', Keeps s' s'' → s''.remember = false → ∀ (H : Host ν κ σ) (text : Chars) (loc : Nat) (act : Bool),
    Gives fold (afterBlanks s.blanks text loc) s'' (texts.find? (Occurs fold text (afterBlanks s.blanks text loc))) (parse H text p loc act true s'')

theorem tries_each (caseless : Bool) (hne : "" ∉ texts) (s : State ν κ σ) :
    Tries (foldOf caseless) texts (texts.mapM (if caseless then caselessLiteral else literal) >>= fun parts => firstOf parts false) s := by
  obtain ⟨parts, s', hmake, -, hparts⟩ := mapM_texts caseless hne s
  have hthere : ∀ p ∈ parts, ∃ e, s'.elements[p]? = some e :=
    ((forall₂_and_left _ _).mp (hparts.flip.imp fun p t h => ⟨h.2.imp fun e he => he.1, h⟩)).1
  obtain ⟨e, hfirst, he, -, hpre⟩ := adds_firstOf hthere
  refine ⟨s'.elements.size, _, (bind_ok hmake _).trans hfirst, fun s'' hkeeps hs H text loc act => ?_⟩
  refine parseAt_plain hs (hkeeps _ e (by simp)) he (fun v => by simp only [Element.reshape, he.kind]) (.inr ⟨hpre, rfl⟩) ?_
  simp only [Element.rule, he.kind]
  refine (gives_parseFirst (hparts.imp fun t p h => ?_) none).takes
  obtain ⟨hne, e', hp, hrest⟩ := h
  have hp := hkeeps p e' (keeps_push s' e p e' hp)
  exact ⟨⟨e', hp⟩, Stands.gives ⟨hne, e', hp, hrest⟩ hs⟩

theorem tries_regex (hne : "" ∉ texts) (htexts : texts ≠ []) (s : State ν κ σ) : Tries id texts (regex (alternativesPattern texts) 0) s := by
  obtain ⟨q, hread, hoffers⟩ := read_alternativesPattern hne htexts
  obtain ⟨e, hmake, he, hblanks, hpre⟩ : Adds (regex (alternativesPattern texts) 0) (.atom (.pattern (alternativesPattern texts) 0 ⟨q, 1, []⟩)) true s := by
    rw [Adds, regex, show Pattern.Flags.ofNat 0 = {} from rfl, hread]
    exact ⟨_, rfl, ⟨rfl, rfl, rfl, rfl, rfl, rfl, rfl, rfl⟩, rfl, rfl⟩
  refine ⟨s.elements.size, _, hmake, fun s'' hkeeps hs H text loc act => ?_⟩
  refine parseAt_plain hs (hkeeps _ e (by simp)) he (fun v => by simp only [Element.reshape, he.kind]) (.inl ⟨hpre, hblanks ▸ skip_eq he (by simp)⟩) ?_
  simp only [Element.rule, he.kind]
  exact takes_pattern hoffers hne

theorem tries_oneOf (hne : "" ∉ longestFirst (foldOf caseless) texts) (asPattern : Bool) (s : State ν κ σ) :
    Tries (foldOf caseless) (longestFirst (foldOf caseless) texts) (oneOf texts caseless asPattern) s := by
  have heach := tries_each caseless hne s
  simp only [oneOf]
  rw [show (if caseless = true then Text.upper else id) = foldOf caseless from rfl]
  generalize longestFirst (foldOf caseless) texts = texts at hne heach ⊢
  by_cases hpattern : (!caseless && asPattern) = true
  · rw [if_pos hpattern]
    obtain ⟨rfl, rfl⟩ : caseless = false ∧ asPattern = true := by simpa using hpattern
    by_cases htexts : texts = []
    · have hregex : regex (alternativesPattern texts) 0 s = .error .badPattern s := by
        rw [htexts]
        rfl
      rw [Tries, bind_ok (attempt_error hregex)]
      exact heach
    · obtain ⟨p, s', hregex, htries⟩ := tries_regex hne htexts s
      exact ⟨p, s', bind_ok (attempt_ok hregex) _, htries⟩
  · rw [if_neg hpattern]
    exact heach

theorem masks_of_occurs {u : String} (ht : Occurs (foldOf caseless) text i t) (hu : Occurs (foldOf caseless) text i u)
    (h : (foldOf caseless t).length ≤ (foldOf caseless u).length) : Masks (foldOf caseless) t u := by
  have hslice : (sliceText text i (i + (foldOf caseless t).length)).toList <+: (sliceText text i (i + (foldOf caseless u).length)).toList := by
    simpa [sliceText] using take_prefix_take_left (l := text.toList.drop i) h
  rw [Masks, ← ht, ← hu]
  cases caseless with
  | false => exact hslice
  | true =>
    change (Text.upper _).toList <+: (Text.upper _).toList
    simp only [Text.upper, String.toList_ofList]
    exact hslice.flatMap _

/-- Ordering the texts comes to an end. Each text is then there once, as far as it counts in comparing, and none stands
    before another that begins with it. So the element that is made of them takes, wherever it is parsed, the longest of
    the texts that occurs behind the blanks, in whatever order they were given; and where none occurs it fails. -/
theorem oneOf_takes_longest (hne : "" ∉ texts) (caseless asPattern : Bool) (s : State ν κ σ) :
    let fold := foldOf caseless
    Relation.ReflTransGen (Turn fold) ([], texts) (longestFirst fold texts, []) ∧
    longestFirst fold texts ⊆ texts ∧ (∀ t ∈ texts, ((longestFirst fold texts).map fold).count (fold t) = 1) ∧
    (longestFirst fold texts).Pairwise (fun t u => ¬Masks fold t u) ∧
    ∃ p s', oneOf texts caseless asPattern s = .ok p s' ∧ ∀ s'', Keeps s' s'' → s''.remember = false →
      ∀ (H : Host ν κ σ) (text : Chars) (loc : Nat) (act : Bool), let i := afterBlanks s.blanks text loc
      (∀ t ∈ texts, Occurs fold text i t → (∀ u ∈ texts, Occurs fold text i u → (fold u).length ≤ (fold t).length) →
        ∃ u ∈ texts, fold u = fold t ∧ parse H text p loc act true s'' = .ok (i + (fold t).length, s''.records.size) (s''.withToken u)) ∧
      ((∀ t ∈ texts, ¬Occurs fold text i t) → ∃ f, parse H text p loc act true s'' = .error f s'') := by
  intro fold
  have hordered := ordered_longestFirst fold texts
  have hgiven : longestFirst fold texts ⊆ texts := fun t ht => hordered.given t (by simpa using ht)
  refine ⟨turns_longestFirst .., hgiven, fun t ht => ?_, hordered.apart, ?_⟩
  · obtain ⟨u, hu, hfold⟩ := hordered.kept t ht
    refine count_eq_one_of_mem (pairwise_map.mpr (hordered.apart.imp fun h heq => h ?_)) (mem_map.mpr ⟨u, by simpa using hu, hfold⟩)
    rw [Masks, heq]
  · obtain ⟨p, s', hmake, htries⟩ := tries_oneOf (fun h => hne (hgiven h)) asPattern s
    refine ⟨p, s', hmake, fun s'' hkeeps hs H text loc act => ⟨fun t ht hoccurs hlongest => ?_, fun hnone => ?_⟩⟩
    · have hgives := htries s'' hkeeps hs H text loc act
      obtain ⟨u, hu, hfind, hfold⟩ := find?_longestFirst (fun _ _ => masks_of_occurs) (fun u v heq h => by rwa [Occurs, ← heq]) ht hoccurs hlongest
      rw [hfind] at hgives
      exact ⟨u, hu, hfold, hgives.trans (by rw [hfold])⟩
    · have hgives := htries s'' hkeeps hs H text loc act
      rw [find?_eq_none.mpr fun t ht => by simpa using hnone t (hgiven ht)] at hgives
      obtain ⟨f, -, hf⟩ := hgives
      exact ⟨f, hf⟩

theorem oneOf_takes_longest_arrow : "" ∉ ["<", "<=", "<<="] ∧ ∃ (p : Nat) (s : State Empty Empty Unit),
    oneOf ["<", "<=", "<<="] false true { host := () } = .ok p s ∧ ∀ (H : Host Empty Empty Unit) (act : Bool),
      parse H #[' ', '<', '<', '=', '<'] p 0 act true { s with remember := false } =
        .ok (4, s.records.size) (State.withToken { s with remember := false } "<<=") := by
  obtain ⟨-, -, -, -, p, s, hmake, hparse⟩ := oneOf_takes_longest (show "" ∉ ["<", "<=", "<<="] by decide) false true
    ({ host := () } : State Empty Empty Unit)
  refine ⟨by decide, p, s, hmake, fun H act => ?_⟩
  obtain ⟨u, -, rfl, hu⟩ := (hparse { s with remember := false } (fun _ _ => id) rfl H #[' ', '<', '<', '=', '<'] 0 act).1 "<<="
    (by decide) (by decide) (by decide)
  exact hu

end Grammar

end Plainsong
