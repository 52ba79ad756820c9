import Plainsong.Chant.Neume
import Plainsong.Proofs.Number
import Plainsong.Proofs.Outcome
/- What rhythm does to a score. Episemas, dots, pauses and the ends of elements
   and neumes reach back over the signs already there. They make notes longer and
   give them nuances, and they touch nothing else: no sign changes its kind, its
   code, its pitch or its place, and no table of accidentals changes (`Dressed`).
   In Lilypond they put brackets behind the name of a note and take some away, and the
   name stays (`Bracketed`). Every duration stays one beat at least. What these acts do is
   followed once, for every relation that bears with it (`Timely`, `Rhythmic`). Of the faults
   they can fail with one stands apart: a place is asked for that is not there. A word that
   fails with it is tried once more, so it matters which acts cannot (`Fault.Mild`). -/
namespace Plainsong.Chant

open List

/-! ## Items by number -/

theorem getD_modify {α : Type} (xs : Array α) (i j : Nat) (f : α → α) (d : α) :
    (xs.modify i f).getD j d = if i = j ∧ j < xs.size then f (xs.getD j d) else xs.getD j d := by
  simp only [Array.getD_eq_getD_getElem?, Array.getElem?_modify]
  by_cases hij : i = j
  · subst hij
    by_cases hi : i < xs.size <;> simp [hi]
  · simp [hij]

theorem getD_push {α : Type} (xs : Array α) (a : α) (j : Nat) (d : α) :
    (xs.push a).getD j d = if j = xs.size then a else xs.getD j d := by
  simp only [Array.getD_eq_getD_getElem?, Array.getElem?_push]
  split <;> simp

namespace Score

theorem sign_modify (s : Score) (i j : Nat) (f : Sign → Sign) :
    ({ s with signs := s.signs.modify i f } : Score).sign j =
      if i = j ∧ j < s.signs.size then f (s.sign j) else s.sign j := getD_modify _ _ _ _ _

theorem sign_push (s : Score) (a : Sign) (j : Nat) :
    ({ s with signs := s.signs.push a } : Score).sign j = if j = s.signs.size then a else s.sign j :=
  getD_push _ _ _ _

theorem neume_modify (s : Score) (i j : Nat) (f : Neume → Neume) :
    ({ s with neumes := s.neumes.modify i f } : Score).neume j =
      if i = j ∧ j < s.neumes.size then f (s.neume j) else s.neume j := getD_modify _ _ _ _ _

theorem neume_push (s : Score) (a : Neume) (j : Nat) :
    ({ s with neumes := s.neumes.push a } : Score).neume j = if j = s.neumes.size then a else s.neume j :=
  getD_push _ _ _ _

theorem syllable_modify (s : Score) (i j : Nat) (f : Syllable → Syllable) :
    ({ s with syllables := s.syllables.modify i f } : Score).syllable j =
      if i = j ∧ j < s.syllables.size then f (s.syllable j) else s.syllable j := getD_modify _ _ _ _ _

theorem syllable_push (s : Score) (a : Syllable) (j : Nat) :
    ({ s with syllables := s.syllables.push a } : Score).syllable j = if j = s.syllables.size then a else s.syllable j :=
  getD_push _ _ _ _

theorem word_modify (s : Score) (i j : Nat) (f : Word → Word) :
    ({ s with words := s.words.modify i f } : Score).word j =
      if i = j ∧ j < s.words.size then f (s.word j) else s.word j := getD_modify _ _ _ _ _

theorem word_push (s : Score) (a : Word) (j : Nat) :
    ({ s with words := s.words.push a } : Score).word j = if j = s.words.size then a else s.word j :=
  getD_push _ _ _ _

end Score

/-! ## Durations -/

/-- A length of time, one beat at least. -/
def Lasts : Datum → Prop
  | .int n => 1 ≤ n
  | .float x => ∃ v, Decimal.Holds x v ∧ 1 ≤ v
  | _ => False

/-- What may be added to a length: a number of beats from none to two. -/
def Lengthens : Datum → Prop
  | .int n => 0 ≤ n ∧ n ≤ 2
  | .float x => ∃ v, Decimal.Holds x v ∧ v ≤ 2
  | _ => False

section Sums

open Decimal

theorem add_lt_brim {x : Float} {v w : ℚ} (hx : Holds x v) (hw : w ≤ 2) : v + w < brim := by
  have h8 : (8 : ℚ) ≤ 2 ^ (971 : Int) := by
    calc (8 : ℚ) = 2 ^ (3 : Int) := by norm_num
      _ ≤ 2 ^ (971 : Int) := zpow_le_zpow_right₀ (by norm_num) (by norm_num)
  have hle := hx.le_greatest
  have hb : brim = (2 ^ 53 - 1) * 2 ^ (971 : Int) + 1 / 2 * 2 ^ (971 : Int) := by
    rw [brim]
    ring
  rw [hb]
  generalize (2 : ℚ) ^ (971 : Int) = u at *
  linarith

theorem representable_one : Representable 1 := by
  simpa using representable_nat (n := 1) (by norm_num)

theorem lasts_float_add {x y : Float} {v w : ℚ} (hx : Holds x v) (hv : 1 ≤ v) (hy : Holds y w) (hw : w ≤ 2) :
    Lasts (.float (x + y)) := by
  obtain ⟨z, hz, hf⟩ := (rounded_add hx hy).holds (add_lt_brim hx hw)
  exact ⟨z, hz, hf.le representable_one (by linarith [hy.nonneg])⟩

theorem lasts_int_add_float {m : Int} {y : Float} {w : ℚ} {d : Datum} (hm : 1 ≤ m) (hy : Holds y w) (hw : w ≤ 2)
    (h : (Datum.int m).add (.float y) = .ok d) : Lasts d := by
  obtain ⟨m, rfl⟩ : ∃ k : Nat, m = k := ⟨m.toNat, by omega⟩
  change (Datum.wholeFloat m).map (fun x => Datum.float (x + y)) = _ at h
  cases hx : Datum.wholeFloat m with
  | error f =>
    rw [hx] at h
    cases h
  | ok x =>
    rw [hx] at h
    cases h
    obtain ⟨v, hv, hf⟩ := Datum.holds_of_wholeFloat hx
    exact lasts_float_add hv (hf.le representable_one (by exact_mod_cast hm)) hy hw

theorem lasts_float_add_int {x : Float} {n : Int} {v : ℚ} {d : Datum} (hx : Holds x v) (hv : 1 ≤ v)
    (hn : 0 ≤ n ∧ n ≤ 2) (h : (Datum.float x).add (.int n) = .ok d) : Lasts d := by
  obtain ⟨n, rfl⟩ : ∃ k : Nat, n = k := ⟨n.toNat, by omega⟩
  obtain ⟨y, hy, hholds⟩ := Datum.wholeFloat_of_lt (n := n) (by omega)
  change (Datum.wholeFloat n).map (fun y => Datum.float (x + y)) = _ at h
  rw [hy] at h
  cases h
  exact lasts_float_add hx hv hholds (by exact_mod_cast hn.2)

theorem lasts_add {a b d : Datum} (ha : Lasts a) (hb : Lengthens b) (h : a.add b = .ok d) : Lasts d := by
  cases a with
  | int m =>
    cases b with
    | int n =>
      cases h
      simp only [Lasts, Lengthens] at *
      omega
    | float y =>
      obtain ⟨w, hy, hw⟩ := hb
      exact lasts_int_add_float ha hy hw h
    | _ => exact absurd hb id
  | float x =>
    obtain ⟨v, hx, hv⟩ := ha
    cases b with
    | int n => exact lasts_float_add_int hx hv hb h
    | float y =>
      obtain ⟨w, hy, hw⟩ := hb
      cases h
      exact lasts_float_add hx hv hy hw
    | _ => exact absurd hb id
  | _ => exact absurd ha id

theorem holds_tenths {n : Nat} (hn : 0 < n) (h : n ≤ 100) :
    ∃ w, Holds (Float.ofScientific n true 1) w ∧ Faithful (n / 10) w := by
  refine (rounded_ofScientific_tenths hn).holds (lt_brim_of_lt ?_)
  have : (n : ℚ) ≤ 100 := by exact_mod_cast h
  linarith

theorem lasts_tenths {n : Nat} (h : 10 ≤ n) (h' : n ≤ 100) : Lasts (.float (Float.ofScientific n true 1)) := by
  obtain ⟨w, hw, hf⟩ := holds_tenths (by omega) h'
  have : (10 : ℚ) ≤ n := by exact_mod_cast h
  exact ⟨w, hw, hf.le representable_one (by linarith)⟩

theorem lengthens_tenths {n : Nat} (h : 0 < n) (h' : n ≤ 20) : Lengthens (.float (Float.ofScientific n true 1)) := by
  obtain ⟨w, hw, hf⟩ := holds_tenths h (by omega)
  have : (n : ℚ) ≤ 20 := by exact_mod_cast h'
  have h2 : Representable 2 := by simpa using representable_nat (n := 2) (by norm_num)
  exact ⟨w, hw, hf.ge h2 (by linarith)⟩

end Sums

theorem lengthens_pauseOf {code : String} {d : Datum} (h : pauseOf code = some d) : Lengthens d := by
  unfold pauseOf at h
  split at h <;> cases h
  · exact ⟨by norm_num, by norm_num⟩
  · exact ⟨by norm_num, by norm_num⟩
  · exact lengthens_tenths (n := 5) (by norm_num) (by norm_num)
  · exact ⟨by norm_num, by norm_num⟩
  · exact lengthens_tenths (n := 12) (by norm_num) (by norm_num)

/-- Every duration of a score is one beat at least. -/
def Score.Lasting (s : Score) : Prop := ∀ i d, (s.sign i).duration = some d → Lasts d

/-! ## Brackets -/

/-- The brackets around elements and neumes. -/
def isBracket (c : Char) : Bool := c = '[' || c = ']' || c = '(' || c = ')'

/-- The text is the name with brackets behind it. -/
def Bracketed (name text : List Char) : Prop := ∃ brackets, (∀ c ∈ brackets, isBracket c = true) ∧ text = name ++ brackets

theorem Bracketed.self (name : List Char) : Bracketed name name :=
  ⟨[], fun _ hc => absurd hc not_mem_nil, (append_nil _).symm⟩

variable {name new old text : List Char}

theorem Bracketed.append {text : String} (h : Bracketed name text.toList) (more : String)
    (hmore : more.toList.all isBracket = true) : Bracketed name (text ++ more).toList := by
  rw [all_eq_true] at hmore
  obtain ⟨brackets, hbrackets, htext⟩ := h
  refine ⟨brackets ++ more.toList, fun c hc => ?_, by rw [String.toList_append, htext, append_assoc]⟩
  rcases mem_append.mp hc with hc | hc
  · exact hbrackets c hc
  · exact hmore c hc

theorem mem_replaceFrom {skipped : Nat} {c : Char}
    (h : c ∈ Text.replaceFrom old new skipped text) : c ∈ new ∨ c ∈ text := by
  induction text generalizing skipped with
  | nil => simp [Text.replaceFrom] at h
  | cons x rest ih =>
    unfold Text.replaceFrom at h
    split at h
    next heq => cases heq
    next heq =>
      cases heq
      exact (ih h).imp_right (mem_cons_of_mem _)
    next heq =>
      cases heq
      split at h
      · rcases mem_append.mp h with h | h
        · exact Or.inl h
        · exact (ih h).imp_right (mem_cons_of_mem _)
      · rcases mem_cons.mp h with rfl | h
        · exact Or.inr mem_cons_self
        · exact (ih h).imp_right (mem_cons_of_mem _)

theorem replaceFrom_append {c : Char} (h : c ∉ name) :
    Text.replaceFrom (c :: old) new 0 (name ++ text) = name ++ Text.replaceFrom (c :: old) new 0 text := by
  induction name with
  | nil => rfl
  | cons x name ih =>
    obtain ⟨hx, hname⟩ := ne_and_not_mem_of_not_mem_cons h
    have hne : (c == x) = false := by simpa using hx
    rw [cons_append, Text.replaceFrom, isPrefixOf_cons_cons, hne, Bool.false_and, if_neg Bool.false_ne_true, ih hname,
      cons_append]

theorem Bracketed.replace {text old : String} {c : Char} {rest : List Char} (h : Bracketed name text.toList)
    (hname : ∀ x ∈ name, isBracket x = false) (hold : old.toList = c :: rest) (hc : isBracket c = true) :
    Bracketed name (Text.replace old "" text).toList := by
  obtain ⟨brackets, hbrackets, htext⟩ := h
  have hmem : c ∉ name := fun hmem => absurd (hname c hmem) (by rw [hc]; decide)
  refine ⟨Text.replaceFrom (c :: rest) [] 0 brackets, fun x hx => hbrackets x ((mem_replaceFrom hx).resolve_left not_mem_nil), ?_⟩
  rw [Text.replace, String.toList_ofList, hold, htext]
  exact replaceFrom_append hmem

/-! ## Dressed signs -/

/-- The sign `g'` is the sign `g` with its rhythm, its nuances and its texts changed:
    the name in its Lilypond text has other brackets behind it, and blanks may have been put
    behind its ABC text. -/
structure Sign.Dressed (g g' : Sign) : Prop where
  kind : g'.kind = g.kind
  code : g'.code = g.code
  neume : g'.neume = g.neume
  before : g'.before = g.before
  accidentals : g'.accidentals = g.accidentals
  pitch : g'.pitch = g.pitch
  opensElement : g'.opensElement = g.opensElement
  nuances : g.nuances.isSome → g'.nuances.isSome
  duration : g.duration.isSome → g'.duration.isSome
  lily : ∀ name, (∀ c ∈ name, isBracket c = false) → Bracketed name g.lily.toList → Bracketed name g'.lily.toList
  abc : ∃ k, g'.abc.toList = g.abc.toList ++ List.replicate k ' '

namespace Sign.Dressed

theorem refl (g : Sign) : g.Dressed g :=
  ⟨rfl, rfl, rfl, rfl, rfl, rfl, rfl, id, id, fun _ _ => id, 0, by simp⟩

theorem trans {g g' g'' : Sign} (h : g.Dressed g') (h' : g'.Dressed g'') : g.Dressed g'' := by
  obtain ⟨k, hk⟩ := h.abc
  obtain ⟨k', hk'⟩ := h'.abc
  exact ⟨h'.kind.trans h.kind, h'.code.trans h.code, h'.neume.trans h.neume, h'.before.trans h.before,
    h'.accidentals.trans h.accidentals, h'.pitch.trans h.pitch, h'.opensElement.trans h.opensElement,
    h'.nuances ∘ h.nuances, h'.duration ∘ h.duration, fun name hname => h'.lily name hname ∘ h.lily name hname, k + k',
    by rw [hk', hk, append_assoc, replicate_append_replicate]⟩

end Sign.Dressed

/-- The neume keeps its signs, its syllable and the accidentals it took over. -/
structure Neume.Dressed (u u' : Neume) : Prop where
  syllable : u'.syllable = u.syllable
  signs : u'.signs = u.signs
  accidentals : u'.accidentals = u.accidentals
  hasNote : u.hasNote = true → u'.hasNote = true

theorem Neume.Dressed.refl (u : Neume) : u.Dressed u := ⟨rfl, rfl, rfl, id⟩

theorem Neume.Dressed.trans {u u' u'' : Neume} (h : u.Dressed u') (h' : u'.Dressed u'') : u.Dressed u'' :=
  ⟨h'.syllable.trans h.syllable, h'.signs.trans h.signs, h'.accidentals.trans h.accidentals, h'.hasNote ∘ h.hasNote⟩

/-- The score `s'` is the score `s` with signs and neumes dressed, and nothing else
    changed but remarks and warnings. -/
structure Score.Dressed (s s' : Score) : Prop where
  title : s'.title = s.title
  transposition : s'.transposition = s.transposition
  syllables : s'.syllables = s.syllables
  words : s'.words = s.words
  tables : s'.tables = s.tables
  text : s'.text = s.text
  signCount : s'.signs.size = s.signs.size
  neumeCount : s'.neumes.size = s.neumes.size
  sign : ∀ i, (s.sign i).Dressed (s'.sign i)
  neume : ∀ n, (s.neume n).Dressed (s'.neume n)
  lasting : s.Lasting → s'.Lasting

namespace Score.Dressed

theorem refl (s : Score) : s.Dressed s :=
  ⟨rfl, rfl, rfl, rfl, rfl, rfl, rfl, rfl, fun _ => .refl _, fun _ => .refl _, id⟩

theorem trans {s s' s'' : Score} (h : s.Dressed s') (h' : s'.Dressed s'') : s.Dressed s'' :=
  ⟨h'.title.trans h.title, h'.transposition.trans h.transposition, h'.syllables.trans h.syllables,
    h'.words.trans h.words, h'.tables.trans h.tables, h'.text.trans h.text, h'.signCount.trans h.signCount,
    h'.neumeCount.trans h.neumeCount, fun i => (h.sign i).trans (h'.sign i),
    fun n => (h.neume n).trans (h'.neume n), h'.lasting ∘ h.lasting⟩

theorem changeSign {s : Score} {i : Nat} {f : Sign → Sign} (hf : (s.sign i).Dressed (f (s.sign i)))
    (hd : s.Lasting → ∀ d, (f (s.sign i)).duration = some d → Lasts d) :
    s.Dressed { s with signs := s.signs.modify i f } := by
  refine ⟨rfl, rfl, rfl, rfl, rfl, rfl, by simp, rfl, fun j => ?_, fun _ => .refl _, fun hs j d hj => ?_⟩
  · rw [sign_modify]
    split
    next h => obtain ⟨rfl, -⟩ := h; exact hf
    next => exact .refl _
  · rw [sign_modify] at hj
    split at hj
    next h => obtain ⟨rfl, -⟩ := h; exact hd hs d hj
    next => exact hs j d hj

theorem changeNeume {s : Score} {n : Nat} {f : Neume → Neume} (hf : ∀ u : Neume, u.Dressed (f u)) :
    s.Dressed { s with neumes := s.neumes.modify n f } := by
  refine ⟨rfl, rfl, rfl, rfl, rfl, rfl, rfl, by simp, fun _ => .refl _, fun m => ?_, id⟩
  rw [neume_modify]
  split
  · exact hf _
  · exact .refl _

end Score.Dressed

/-! ## Faults -/

/-- A fault that is none of a place that is not there. -/
def Fault.Mild (f : Fault) : Prop := f ≠ .value .outOfRange

theorem fault_of_add {a b : Datum} {f : Datum.Fault} (h : a.add b = .error f) : f = .tooLarge ∨ f = .wrongKind := by
  have hwhole : ∀ {n : Int} {g : Float → Datum}, (Datum.wholeFloat n).map g = .error f → f = .tooLarge := by
    intro n g hmap
    unfold Datum.wholeFloat at hmap
    dsimp only at hmap
    split at hmap <;> cases hmap
    rfl
  unfold Datum.add at h
  split at h
  · cases h
  · cases h
  · cases h
  · unfold Datum.arithmetic at h
    split at h
    · cases h
    · split at h
      · exact .inl (hwhole h)
      · cases h
        exact .inr rfl
    · split at h
      · exact .inl (hwhole h)
      · cases h
        exact .inr rfl
    · split at h <;> cases h
      exact .inr rfl

theorem Fault.mild_of_add {a b : Datum} {f : Datum.Fault} (h : a.add b = .error f) : Fault.Mild (.value f) := by
  rcases fault_of_add h with rfl | rfl <;> rintro ⟨⟩

/-! ## Acts of rhythm -/

/-- The relation bears with signs that get other lengths. -/
class Timely (R : Score → Score → Prop) : Prop extends IsPreorder Score R where
  setDuration {s : Score} {d : Datum} (i : Nat) (hd : s.Lasting → Lasts d) :
    R s { s with signs := s.signs.modify i ({ · with duration := some d }) }

/-- The relation bears with nuances and the ends of elements as well. -/
class Rhythmic (R : Score → Score → Prop) : Prop extends Timely R where
  setNuances (s : Score) (i : Nat) (nuances : List String) :
    R s { s with signs := s.signs.modify i ({ · with nuances := some nuances }) }
  closeElement (i : Nat) : Always R Fault.Mild (Act.closeElement i)

namespace Act

section Reads

variable {α β : Type} {s : Score} {Q : α → Score → Prop} {E : Fault → Score → Prop} {f : Datum.Fault}

theorem ends_sign {f : Sign → Act α} (i : Nat) : Ends (sign i >>= f) s Q E ↔ Ends (f (s.sign i)) s Q E := Iff.rfl

theorem ends_neume {f : Neume → Act α} (n : Nat) : Ends (neume n >>= f) s Q E ↔ Ends (f (s.neume n)) s Q E := Iff.rfl

theorem ends_need {o : Option α} (hQ : ∀ a, o = some a → Q a s) (hE : E (.value f) s) : Ends (need f o) s Q E := by
  cases o with
  | none => exact hE
  | some a => exact hQ a rfl

theorem ends_need_bind {o : Option β} {g : β → Act α} (hQ : ∀ a, o = some a → Ends (g a) s Q E) (hE : E (.value f) s) :
    Ends (need f o >>= g) s Q E :=
  (ends_bind _ g).mpr (ends_need hQ hE)

theorem ends_durationOf {g : Datum → Act α} (i : Option Nat) (hQ : ∀ d, (s.Lasting → Lasts d) → Ends (g d) s Q E)
    (hE : E (.value .noProperty) s) : Ends (durationOf i >>= g) s Q E := by
  rw [durationOf, bind_assoc, ends_bind, ends_get]
  refine ends_need_bind (fun d hd => hQ d fun hs => ?_) hE
  obtain ⟨j, -, hj⟩ := List.exists_of_findSome?_eq_some hd
  exact hs j d hj

end Reads

end Act

end Plainsong.Chant

namespace Plainsong.Always

open Chant

variable {α β : Type} {R : Score → Score → Prop} {E : Fault → Prop} {f : Datum.Fault}

section Rules

variable [IsPreorder Score R]

theorem fail (hf : E (.value f)) : Always R E (Act.fail f : Act α) := throw hf

theorem need (hf : E (.value f)) (o : Option α) : Always R E (Act.need f o) := by
  cases o with
  | none => exact fail hf
  | some a => exact pure a

theorem bind_need (hf : E (.value f)) {o : Option α} {g : α → Act β} (h : ∀ a, o = some a → Always R E (g a)) :
    Always R E (Act.need f o >>= g) := by
  cases o with
  | none => exact fail hf
  | some a => exact h a rfl

theorem orIfMissing {x y : Act α} (hx : Always R E x) (hy : Always R E y) : Always R E (Act.orIfMissing x y) := by
  refine tryCatch hx fun e he => ?_
  split
  · exact hy
  · exact throw he

theorem sign (i : Nat) : Always R E (Act.sign i) := bind get fun _ => pure _

theorem neume (n : Nat) : Always R E (Act.neume n) := bind get fun _ => pure _

theorem onNote {act : Nat → Act Unit} (i : Option Nat) (h : ∀ j, Always R Fault.Mild (act j)) : Always R Fault.Mild (Act.onNote i act) :=
  bind get fun _ => bind (need (by rintro ⟨⟩) _) h

theorem setAccidentals {held : Accidentals} (i : Nat)
    (h : ∀ s i, R s { s with signs := s.signs.modify i ({ · with accidentals := some held }) }) :
    Always R Fault.Mild (Act.setAccidentals i held) := by
  have hfrom : ∀ fuel i, Always R Fault.Mild (Act.setAccidentalsFrom held fuel i) := by
    intro fuel i
    induction fuel generalizing i with
    | zero => exact fail (by rintro ⟨⟩)
    | succ fuel ih =>
      cases i with
      | none => exact fail (by rintro ⟨⟩)
      | some i =>
        refine bind (sign i) fun g => ?_
        split
        · exact ih _
        · exact fun s => h s i
  exact bind get fun _ => hfrom _ _

end Rules

section Timely

variable [Timely R] {d : Datum}

theorem equalise (i : Nat) : Always R Fault.Mild (Act.equalise i) := by
  refine orIfMissing (fun s => ?_) (pure _)
  have hE : ∀ {f : Fault}, f.Mild → R s s ∧ f.Mild := fun hf => ⟨refl_of R s, hf⟩
  refine Act.ends_durationOf _ (fun own _ => ?_) (hE (by rintro ⟨⟩))
  rw [Act.ends_sign]
  refine Act.ends_durationOf _ (fun before hbefore => Act.ends_need_bind (fun shorter _ => ?_) (hE (by rintro ⟨⟩))) (hE (by rintro ⟨⟩))
  split
  · exact Timely.setDuration i hbefore
  · exact refl_of R s

theorem hold (i : Nat) (hd : Lasts d) : Always R Fault.Mild (Act.hold i d) := by
  intro s
  have hE : ∀ {f : Fault}, f.Mild → R s s ∧ f.Mild := fun hf => ⟨refl_of R s, hf⟩
  refine Act.ends_durationOf _ (fun own _ => Act.ends_need_bind (fun shorter _ => ?_) (hE (by rintro ⟨⟩))) (hE (by rintro ⟨⟩))
  split
  · exact Timely.setDuration i fun _ => hd
  · exact refl_of R s

theorem lengthen (i : Nat) (hd : Lengthens d) : Always R Fault.Mild (Act.lengthen i d) := by
  refine fun s => Act.ends_durationOf _ (fun own hown => ?_) ⟨refl_of R s, by rintro ⟨⟩⟩
  cases h : own.add d with
  | error f => exact ⟨refl_of R s, Fault.mild_of_add h⟩
  | ok sum => exact Timely.setDuration i fun hs => lasts_add (hown hs) hd h

theorem pause (place : Option Nat) (hd : Lengthens d) : Always R Fault.Mild (Act.pause place d) := by
  refine bind get fun s => bind (need (by rintro ⟨⟩) _) fun i => ?_
  split
  · exact lengthen i hd
  · exact pure _

theorem restBefore (i : Nat) : Always R (fun _ => True) (Act.restBefore i) := by
  refine bind (sign i) fun g => bind_need trivial fun d hd => ?_
  have hd := lengthens_pauseOf hd
  have hlast : Always R (fun _ => True) (Act.lastOfWordBefore i) :=
    bind get fun _ => bind (need trivial _) fun _ => bind (need trivial _) fun _ => need trivial _
  exact bind (sign i) fun _ => orIfMissing (pause _ hd).any (bind hlast fun _ => (pause _ hd).any)

end Timely

section Rhythmic

variable [Rhythmic R]

theorem applyNuance (place : Option Nat) (nuance : String) : Always R Fault.Mild (Act.applyNuance place nuance) := by
  have hfrom : ∀ fuel place, Always R Fault.Mild (Act.applyFrom nuance fuel place) := by
    intro fuel place
    induction fuel generalizing place with
    | zero => exact fail (by rintro ⟨⟩)
    | succ fuel ih =>
      refine onNote _ fun i => bind (sign i) fun g => ?_
      dsimp only
      by_cases hheld : (g.nuances.getD []).contains nuance = true
      · rw [if_pos hheld]
        by_cases htwice : (nuance = "quilisma" || nuance = "liquescence") = true
        · rw [if_pos htwice]
          exact throw (by rintro ⟨⟩)
        · rw [if_neg htwice]
          exact ih _
      · rw [if_neg hheld]
        refine bind (fun s => Rhythmic.setNuances s i _) fun _ => ?_
        split
        · exact hold i (lasts_tenths (n := 17) (by norm_num) (by norm_num))
        · exact bind (hold i (lasts_tenths (n := 23) (by norm_num) (by norm_num))) fun _ =>
            bind (Rhythmic.closeElement i) fun _ => orIfMissing (onNote _ Rhythmic.closeElement) (pure _)
        · exact onNote _ fun j => hold j (show (1 : Int) ≤ 2 by norm_num)
        · exact pure _
  exact bind get fun _ => hfrom _ place

theorem endElement (i : Nat) : Always R Fault.Mild (Act.endElement i) :=
  bind (sign i) fun _ => bind (orIfMissing (onNote _ equalise) (pure _)) fun _ =>
    bind (sign i) fun _ => orIfMissing (onNote _ Rhythmic.closeElement) (pure _)

end Rhythmic

end Plainsong.Always

namespace Plainsong.Chant

namespace Act

/-- However the act ends, it has dressed the score. -/
abbrev Dresses {α : Type} (x : Act α) : Prop := Always Score.Dressed Fault.Mild x

namespace Dresses

theorem changeSign {i : Nat} {f : Sign → Sign} (hf : ∀ g : Sign, g.Dressed (f g))
    (hd : ∀ g : Sign, (f g).duration = g.duration) : Dresses (Act.changeSign i f) :=
  fun _ => Score.Dressed.changeSign (hf _) fun hs d h => hs i d ((hd _).symm.trans h)

theorem changeNeume {n : Nat} {f : Neume → Neume} (hf : ∀ u : Neume, u.Dressed (f u)) : Dresses (Act.changeNeume n f) :=
  fun _ => Score.Dressed.changeNeume hf

theorem remark (text : String) : Dresses (Act.remark text) :=
  fun _ => ⟨rfl, rfl, rfl, rfl, rfl, rfl, rfl, rfl, fun _ => .refl _, fun _ => .refl _, id⟩

end Dresses

instance : IsPreorder Score Score.Dressed where
  refl := Score.Dressed.refl
  trans _ _ _ := Score.Dressed.trans

instance : Rhythmic Score.Dressed where
  setDuration i hd :=
    Score.Dressed.changeSign ⟨rfl, rfl, rfl, rfl, rfl, rfl, rfl, id, fun _ => rfl, fun _ _ => id, 0, by simp⟩ fun hs _ h => by
      cases h
      exact hd hs
  setNuances _ i _ :=
    Score.Dressed.changeSign ⟨rfl, rfl, rfl, rfl, rfl, rfl, rfl, fun _ => rfl, id, fun _ _ => id, 0, by simp⟩ fun hs d h => hs i d h
  closeElement i := by
    refine .bind (Dresses.changeSign (fun g => ⟨rfl, rfl, rfl, rfl, rfl, rfl, rfl, id, id, fun name hname h => ?_, 1, by simp⟩)
      fun _ => rfl) fun _ => .bind (.sign i) fun _ => Dresses.changeNeume fun _ => ⟨rfl, rfl, rfl, id⟩
    dsimp only
    split
    · exact h.replace hname rfl (by decide)
    · exact (h.append "]" (by decide)).replace hname rfl (by decide)

theorem dresses_openElement (i : Nat) : Dresses (openElement i) :=
  .bind (.sign i) fun _ => .bind (Dresses.changeNeume fun _ => ⟨rfl, rfl, rfl, id⟩) fun _ =>
    Dresses.changeSign (fun _ => ⟨rfl, rfl, rfl, rfl, rfl, rfl, rfl, id, id,
      fun _ _ h => h.append "[" (by decide), 0, by simp⟩) fun _ => rfl

theorem dresses_openNeume (i : Nat) : Dresses (openNeume i) :=
  Dresses.changeSign (fun _ => ⟨rfl, rfl, rfl, rfl, rfl, rfl, rfl, id, id,
    fun _ _ h => h.append "(" (by decide), 0, by simp⟩) fun _ => rfl

theorem dresses_closeNeume (i : Nat) : Dresses (closeNeume i) :=
  .bind (.equalise i) fun _ =>
    .bind (Dresses.changeSign (fun _ => ⟨rfl, rfl, rfl, rfl, rfl, rfl, rfl, id, id, fun _ hname h =>
      (h.append ")" (by decide)).replace hname rfl (by decide), 0, by simp⟩)
      fun _ => rfl) fun _ => Rhythmic.closeElement i

theorem dresses_frameNeume (n : Nat) : Dresses (frameNeume n) := by
  refine .bind .get fun s => ?_
  simp only
  split
  · exact .bind (dresses_openNeume _) fun _ => dresses_closeNeume _
  · exact .pure _

end Act

end Plainsong.Chant
