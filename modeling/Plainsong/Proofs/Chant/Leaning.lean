import Plainsong.Proofs.Chant.ClefSearch
import Plainsong.Proofs.Chant.Trail
/- Bars that lean on the word before them. A bar makes the note before it rest. If there is
   neither a note nor a bar before it in its neume (`leans`), it looks at the end of the word
   before, and that word may end in a neume without signs (`Score.Hollow`). Then a place is
   asked for that is not there, and reading a code asks for such a place in no other case
   (`Act.ends_readCode`). The way back from a sign is that of its figures (`Score.Trail`), and
   figures are settled by the letters alone, so whether a code leans can be read off it
   (`leansOf`). -/
namespace Plainsong.Chant

/-! ## Leaning codes -/

/-- The letter is a bar, and no pause can rest on the signs before it. -/
def leans (row : List Figure) (c : Char) : Bool :=
  Kind.ofLetter? c == some .bar && !(enter row c).dropLast.any (·.1.bears)

/-- One of the letters leans. -/
def leansIn (row : List Figure) : List Char → Bool
  | [] => false
  | c :: rest => leans row c || leansIn (enter row c) rest

/-- A letter of the code leans; no sign before a clef is reached from behind it. -/
def leansOf (code : String) : Bool :=
  match Act.clefMatcher.texts? code with
  | none => leansIn [] code.toList
  | some groups =>
    let around := Act.clefMatcher.split code
    leansIn [] (around.getD 0 "").toList || leansIn [(.clef, groups.getD 0 "")] (around.getD 1 "").toList

/-! ## The word before -/

namespace Score

def closing (s : Score) (v : Nat) : Option Nat :=
  (s.lists v).getLast?.bind fun k => (s.neume (s.syllable k).neume).signs.getLast?

theorem closing_congr {s s' : Score} {v : Nat} (hlists : s'.lists v = s.lists v)
    (hneume : ∀ k ∈ s.lists v, (s'.neume (s'.syllable k).neume).signs = (s.neume (s.syllable k).neume).signs) :
    s'.closing v = s.closing v := by
  rw [closing, hlists, closing]
  exact Option.bind_congr fun k hk => by rw [hneume k (List.mem_of_getLast? hk)]

/-- There is a word before the word `w`, and it ends in no sign. -/
def Hollow (s : Score) (w : Nat) : Prop := ∃ v, (s.word w).before = some v ∧ s.closing v = none

/-- The word a neume stands in. -/
def wordOf (s : Score) (n : Nat) : Nat := (s.syllable (s.neume n).syllable).word

/-- The neume is none of the word before its own. -/
def Apart (s : Score) (n : Nat) : Prop :=
  ∀ v, (s.word (s.wordOf n)).before = some v → ∀ k ∈ s.lists v, (s.syllable k).neume ≠ n

namespace Onward

variable {n : Nat} {s s' : Score} (h : Onward n s s')
include h

theorem syllable (k : Nat) : s'.syllable k = s.syllable k := by
  rw [Score.syllable, h.syllables, Score.syllable]

theorem wordOf (m : Nat) : s'.wordOf m = s.wordOf m := by
  rw [Score.wordOf, h.place, h.syllable, Score.wordOf]

theorem apart (hs : s.Apart n) : s'.Apart n := by
  intro v hv k hk
  rw [h.wordOf, h.before] at hv
  rw [h.lists] at hk
  rw [h.syllable]
  exact hs v hv k hk

theorem hollow_iff (hs : s.Apart n) : s'.Hollow (s'.wordOf n) ↔ s.Hollow (s.wordOf n) := by
  rw [h.wordOf, Score.Hollow, Score.Hollow]
  refine exists_congr fun v => ?_
  rw [h.before]
  refine and_congr_right fun hv => ?_
  have hsame : s'.closing v = s.closing v :=
    closing_congr (by rw [h.lists]) fun k hk => by rw [h.syllable, h.signs _ (hs v hv k hk)]
  rw [hsame]

end Onward

end Score

namespace Act

variable {s s₀ s₁ : Score} {n i : Nat} {place : Option Nat} {row : List Figure} {out : Bool} {f : Figure} {code : String} {c : Char}

theorem ends_lastOfWordBefore :
    Ends (lastOfWordBefore i) s (fun _ s' => s' = s ∧ ¬ s.Hollow (s.wordOf (s.sign i).neume))
      fun e s' => s' = s ∧ (e = .value .outOfRange → s.Hollow (s.wordOf (s.sign i).neume)) := by
  rw [lastOfWordBefore, ends_bind, ends_get]
  refine ends_need_bind (fun v hv => ?_) ⟨rfl, by rintro ⟨⟩⟩
  rw [ends_bind]
  cases hk : (s.word v).syllables.getLast? with
  | none =>
    exact ⟨rfl, fun _ => ⟨v, hv, by rw [Score.closing, Score.lists, hk]; rfl⟩⟩
  | some k =>
    have hclosing : s.closing v = (s.neume (s.syllable k).neume).signs.getLast? := by
      rw [Score.closing, Score.lists, hk]
      rfl
    refine (Gives.ends (Gives.of_pure k _)).mpr ?_
    rw [← hclosing]
    cases hj : s.closing v with
    | none => exact ⟨rfl, fun _ => ⟨v, hv, hj⟩⟩
    | some j =>
      refine ⟨rfl, ?_⟩
      rintro ⟨v', hv', hnone⟩
      obtain rfl := Option.some.inj (hv.symm.trans hv')
      rw [hj] at hnone
      cases hnone

theorem ends_pause (d : Datum) (h : s.Trail s.signs.size place row) :
    Ends (pause place d) s (fun _ _ => row.any (·.1.bears) = true)
      fun e _ => e.Mild ∧ (e = .value .noProperty → row.any (·.1.bears) = false) := by
  have hfind : ((s.chain place).find? fun j => (s.sign j).kind.sounds || (s.sign j).kind == .bar).isSome =
      row.any (·.1.bears) := h.find?_isSome (Nat.lt_succ_self _)
  rw [pause, ends_bind, ends_get, ends_bind]
  cases hj : (s.chain place).find? fun j => (s.sign j).kind.sounds || (s.sign j).kind == .bar with
  | none =>
    rw [hj] at hfind
    exact ⟨by rintro ⟨⟩, fun _ => hfind.symm⟩
  | some j =>
    rw [hj] at hfind
    refine (Gives.ends (Gives.of_pure j _)).mpr ?_
    split
    next hsounds =>
      obtain ⟨own, hown⟩ := Option.isSome_iff_exists.mp (h.lasts_of_mem (List.mem_of_find?_eq_some hj) hsounds)
      have hdirect : s.inherited (some j) (·.duration) = some own := by
        rw [Score.inherited, Score.chain, Score.chainFrom, List.findSome?_cons, hown]
      rw [lengthen, ends_bind, durationOf, ends_bind, ends_get, hdirect]
      refine (Gives.ends (Gives.of_pure own _)).mpr ?_
      rw [ends_bind]
      cases hsum : own.add d with
      | error e => rcases fault_of_add hsum with rfl | rfl <;> exact ⟨by rintro ⟨⟩, by rintro ⟨⟩⟩
      | ok sum => exact hfind.symm
    · exact hfind.symm

/-! ## New signs -/

theorem beginsPlain_singleton {kind : Kind} (hc : Kind.ofLetter? c = some kind) : BeginsPlain (String.singleton c) :=
  ⟨c, [], by simp, toNat_lt_of_ofLetter? hc⟩

theorem spelt_brings (hspelt : Spelt row) (h : Brings row.getLast? c out f) : Spelt ((if out then row.dropLast else row) ++ [f]) := by
  have hlong : ∀ {g : Figure}, row.getLast? = some g → BeginsPlain (g.2 ++ String.singleton c) ∧ 2 ≤ (g.2 ++ String.singleton c).toList.length := by
    intro g hg
    obtain ⟨d, rest, hcode, hd⟩ := (hspelt g (List.mem_of_getLast? hg)).1
    exact ⟨⟨d, rest ++ [c], by simp [hcode], hd⟩, by simp [hcode]⟩
  rw [spelt_concat]
  cases h with
  | onNote hc h => exact ⟨hspelt.dropLast, (hlong h).1, by rintro ⟨⟩⟩
  | onSpecial hc => exact ⟨hspelt, beginsPlain_singleton hc, by rintro ⟨⟩⟩
  | altered hc h => exact ⟨hspelt.dropLast, (hlong h).1, fun _ => (hlong h).2⟩
  | custos hc => exact ⟨hspelt.dropLast, beginsPlain_singleton hc, by rintro ⟨⟩⟩
  | doubleBar => exact ⟨hspelt.dropLast, ⟨':', [':'], rfl, by decide⟩, by rintro ⟨⟩⟩
  | behind hc hkind => exact ⟨hspelt, beginsPlain_singleton hc, by rintro rfl; simp at hkind⟩

section New

variable (htrail : s.Trail s.signs.size place row)
include htrail

theorem last_of_trail : (place.map fun j => (s.sign j).figure) = row.getLast? := by
  cases place with
  | none => rw [htrail.of_none]; rfl
  | some j =>
    rw [htrail.of_some.2.1, List.getLast?_concat]
    rfl

/-- The way back from a new sign. -/
theorem trail_of_new (h : New s n place i out f s₁) : s₁.Trail i (s₁.sign i).before (if out then row.dropLast else row) := by
  rw [h.before, h.index]
  refine Score.Trail.settled ?_ h.onward.settled
  cases out with
  | false => exact htrail
  | true =>
    cases place with
    | none =>
      rw [htrail.of_none]
      exact .start _
    | some j => exact htrail.of_some.2.2.mono htrail.of_some.1.le

theorem ends_newNote {kind : Kind} (hkind : kind.sounds = true) (hcode : BeginsPlain code) (held : Option Accidentals)
    (hspelt : Spelt row) (hs : s.Whole) (hn : n < s.neumes.size) :
    Ends (makeNote kind code n place held) s (fun i => New s n place i false (kind, code)) fun e _ => e.Mild := by
  rw [makeNote]
  refine ((ends_newSign kind code place held hn).and (ends_makeSign kind code n place held (start_in s))).andThen
    (fun i s₁ h₁ => ?_) fun _ _ h₁ => h₁.1
  obtain ⟨h₁, hg, -⟩ := h₁
  have hkind₁ : (s₁.sign i).kind.sounds = true := by
    rw [show (s₁.sign i).kind = kind from congrArg Prod.fst h₁.figure]
    exact hkind
  refine ((sure_soundNote hcode hkind₁ (trail_of_new htrail h₁) hspelt (hg.whole hs).tempered).and (spares_soundNote i code s₁)).andThen
    (fun _ s₂ h₂ => ?_) fun _ _ h₂ => h₂.1
  have h₂ := h₁.spared h₂.2
  exact (spares_enterElement n i s₂).andThen (fun _ _ hs₃ => h₂.spared hs₃) fun _ _ hs₃ => hs₃.2

theorem ends_restBefore (h : New s n place i out f s₁) (hapart : s.Apart n) :
    Ends (restBefore i) s₁
      (fun _ s' => s₁.Spared s' ∧ ((if out then row.dropLast else row).any (·.1.bears) = false → ¬ s.Hollow (s.wordOf n)))
      fun e _ => e = .value .outOfRange → (if out then row.dropLast else row).any (·.1.bears) = false ∧ s.Hollow (s.wordOf n) := by
  have hback := trail_of_new htrail h
  generalize (if out then row.dropLast else row) = row' at hback ⊢
  rw [restBefore, ends_sign]
  refine ends_need_bind (fun d hd => ?_) (by rintro ⟨⟩)
  have hpause : ∀ place, Spares Fault.Mild (pause place d) := fun place => .pause place (lengthens_pauseOf hd)
  rw [ends_sign]
  refine ends_orIfMissing (((ends_pause d (hback.mono h.fresh.le)).and (hpause _ s₁)).mono
    (fun _ s₂ h₂ => ?_) fun e s₂ h₂ => ⟨fun hmissing => ?_, fun _ heq => absurd heq h₂.1.1⟩)
  · obtain ⟨hbears, hs₂⟩ := h₂
    refine ⟨hs₂, fun hnone => ?_⟩
    rw [hbears] at hnone
    cases hnone
  · obtain ⟨⟨-, hnone⟩, hs₂, -⟩ := h₂
    have h₂ := h.spared hs₂
    have hhollow : s₂.Hollow (s₂.wordOf (s₂.sign i).neume) ↔ s.Hollow (s.wordOf n) := by
      rw [h₂.neume]
      exact h₂.onward.hollow_iff hapart
    refine ends_lastOfWordBefore.andThen (fun j s₃ h₃ => ?_) fun e' _ h₃ heq => ⟨hnone hmissing, hhollow.mp (h₃.2 heq)⟩
    obtain ⟨rfl, hfull⟩ := h₃
    exact (hpause (some j) s₃).mono (fun _ _ hs₄ => ⟨hs₂.trans hs₄, fun _ hh => hfull (hhollow.mpr hh)⟩)
      fun _ _ hs₄ heq => absurd heq hs₄.2

theorem ends_leanOf {kind : Kind} {held : Option Accidentals} (hc : Kind.ofLetter? c = some kind) (hspelt : Spelt row)
    (hapart : s.Apart n) (hs : s.Whole) (hn : n < s.neumes.size) :
    Ends (makeOf kind (String.singleton c) n place held) s
      (fun i s' => Made s n place c i s' ∧ (leans row c = true → ¬ s.Hollow (s.wordOf n)))
      fun e _ => e = .value .outOfRange → leans row c = true ∧ s.Hollow (s.wordOf n) := by
  refine ends_newOf (E := fun e => e = .value .outOfRange → leans row c = true ∧ s.Hollow (s.wordOf n)) (fun j hj => ?_)
    (fun e he heq => absurd heq he) hn hc (fun kind code hkind hcode => ?_) (fun hbar i s₁ h₁ => ?_) fun hbar i s₁ h₁ => ⟨h₁, ?_⟩
  · exact (hj ▸ htrail).of_some.1
  · refine (ends_newNote htrail hkind ?_ held hspelt hs hn).mono (fun _ _ => id) fun _ _ he heq => absurd heq he
    rcases hcode with rfl | ⟨j, hj, rfl⟩
    · exact beginsPlain_singleton hc
    · exact (spelt_concat.mp ((hj ▸ htrail).of_some.2.1 ▸ hspelt)).2.1
  · subst hbar
    obtain ⟨out, f, hbrings, h₁⟩ := h₁
    have hleans : leans row c = !(if out then row.dropLast else row).any (·.1.bears) := by
      rw [leans, hc, enter_of_brings (last_of_trail htrail ▸ hbrings), List.dropLast_concat]
      rfl
    rw [hleans, Bool.not_eq_true']
    exact (ends_restBefore htrail h₁ hapart).mono (fun _ _ h₂ => ⟨⟨out, f, hbrings, h₁.spared h₂.1⟩, h₂.2⟩) fun _ _ => id
  · rw [leans, hc]
    simp [hbar]

end New

/-! ## Codes -/

/-- The row is the way back from the last sign of the neume, which has been read on since `s₀`. -/
structure Trailing (s₀ : Score) (n : Nat) (row : List Figure) (s : Score) : Prop where
  site : Site start n s
  whole : s.Whole
  spelt : Spelt row
  trail : s.Trail s.signs.size (s.neume n).signs.getLast? row
  onward : s₀.Onward n s

theorem Trailing.dressed {s' : Score} (h : Trailing s₀ n row s) (hs : s.Dressed s') : Trailing s₀ n row s' := by
  have hg : Score.Grown start s s' := .of_dressed hs
  refine ⟨h.site.grown hg, hg.whole h.whole, h.spelt, ?_, h.onward.trans (.of_dressed hs)⟩
  rw [hs.signCount, (hs.neume n).signs]
  exact h.trail.settled fun i _ => (hs.sign i).settled

theorem Trailing.append (h : Trailing s₀ n row s) {row' : List Figure} (hnew : New s n place i out f s₁)
    (hback : s₁.Trail i (s₁.sign i).before row') (hspelt : Spelt (row' ++ [f]))
    (hg : Score.Grown start s s₁) (hc : (s₁.sign i).Complete) :
    Ends (appendSign n i) s₁ (fun _ => Trailing s₀ n (row' ++ [f])) fun _ _ => False := by
  have hgrown := (grown_appendSign (b := start) (Nat.zero_le n) hnew.fresh hc)
  set s' : Score := { s₁ with neumes := s₁.neumes.modify n fun u => { u with signs := u.signs ++ [i] } } with hs'
  have hg' : Score.Grown start s s' := hg.trans hgrown
  refine show Trailing s₀ n (row' ++ [f]) s' from ⟨h.site.grown hg', hg'.whole h.whole, hspelt, ?_,
    (h.onward.trans hnew.onward).trans (.changeSigns s₁ n (· ++ [i]))⟩
  have hlast : (s'.neume n).signs.getLast? = some i := by
    rw [hs', Score.neume_modify, if_pos ⟨rfl, hnew.there⟩, List.getLast?_concat]
  rw [hlast, ← hnew.figure]
  exact (Score.Trail.step hnew.fresh (fun hsounds => (hc.sound hsounds).1) hback).settled fun _ _ => .refl _

/-- The act reads the row on; it asks for a place that is not there just if a bar leans, as `lean`
    says, and the word before is hollow. -/
abbrev Leads (s₀ : Score) (n : Nat) (row : List Figure) (lean : Bool) (x : Act Unit) (s : Score) : Prop :=
  Ends x s (fun _ s' => Trailing s₀ n row s' ∧ (lean = true → ¬ s₀.Hollow (s₀.wordOf n)))
    fun e _ => e = .value .outOfRange → lean = true ∧ s₀.Hollow (s₀.wordOf n)

theorem Leads.bind {row' : List Figure} {lean lean' : Bool} {x : Act Unit} {y : Unit → Act Unit} (hx : Leads s₀ n row lean x s)
    (hy : ∀ s', Trailing s₀ n row s' → Leads s₀ n row' lean' (y ()) s') : Leads s₀ n row' (lean || lean') (x >>= y) s := by
  rw [Leads]
  refine hx.andThen (fun _ s₁ h₁ => ?_) fun _ _ he heq => ⟨by rw [(he heq).1, Bool.true_or], (he heq).2⟩
  refine (hy s₁ h₁.1).mono (fun _ s₂ h₂ => ⟨h₂.1, fun hlean => ?_⟩) fun _ _ he heq => ⟨by rw [(he heq).1, Bool.or_true], (he heq).2⟩
  rcases Bool.or_eq_true_iff.mp hlean with hlean | hlean
  · exact h₁.2 hlean
  · exact h₂.2 hlean

theorem leads_addLetter (c : Char) (hapart : s₀.Apart n) (h : Trailing s₀ n row s) :
    Leads s₀ n (enter row c) (leans row c) (addLetter n c) s := by
  unfold addLetter
  split
  next hc =>
    have henter : enter row c = row := by rw [enter, hc]
    have hnever : leans row c = false := by rw [leans, hc]; rfl
    rw [henter, hnever]
    exact ⟨h, by rintro ⟨⟩⟩
  next kind hc =>
    rw [Leads, ends_neume, ends_bind, ← h.onward.hollow_iff hapart]
    refine ((ends_leanOf h.trail hc h.spelt (h.onward.apart hapart) h.whole h.site.there).and
      (makes_makeOf (b := start) (Nat.zero_le n) kind _ _ _ s (start_in s))).mono (fun i s₁ h₁ => ?_) fun _ _ he => he.1
    obtain ⟨⟨⟨out, f, hbrings, hnew⟩, hlean⟩, hg, -, -, hcomplete⟩ := h₁
    rw [last_of_trail h.trail] at hbrings
    rw [enter_of_brings hbrings]
    exact (h.append hnew (trail_of_new h.trail hnew) (spelt_brings h.spelt hbrings) hg hcomplete).mono (fun _ _ h₂ => ⟨h₂, hlean⟩)
      fun _ _ => False.elim

theorem leads_frameNeume (h : Trailing s₀ n row s) : Leads s₀ n row false (frameNeume n) s :=
  (dresses_frameNeume n s).mono (fun _ _ hs => ⟨h.dressed hs, by rintro ⟨⟩⟩) fun _ _ hs heq => absurd heq hs.2

theorem leads_forM {x : Char → Act Unit}
    (hx : ∀ row s c, Trailing s₀ n row s → Leads s₀ n (enter row c) (leans row c) (x c) s) (letters : List Char)
    (h : Trailing s₀ n row s) : Leads s₀ n (letters.foldl enter row) (leansIn row letters) (letters.forM x) s := by
  induction letters generalizing row s with
  | nil => exact ⟨h, by rintro ⟨⟩⟩
  | cons c rest ih =>
    show Leads s₀ n _ _ (x c >>= fun _ => rest.forM x) s
    exact (hx row s c h).bind fun s₁ h₁ => ih h₁

theorem leads_readLetters (letters : List Char) (hapart : s₀.Apart n) (h : Trailing s₀ n row s) :
    Leads s₀ n (letters.foldl enter row) (leansIn row letters) (readLetters n letters) s := by
  have hread : Leads s₀ n _ (_ || false) (readLetters n letters) s :=
    (leads_forM (fun _ _ c => leads_addLetter c hapart) letters h).bind fun s₁ h₁ => leads_frameNeume h₁
  rwa [Bool.or_false] at hread

theorem beginsPlain_clef {groups : Array String} (h : clefMatcher.texts? code = some groups) :
    BeginsPlain (groups.getD 0 "") := by
  cases hfirst : firstClef? code.toList with
  | none =>
    rw [texts?_eq_none_of_clefFree hfirst] at h
    cases h
  | some found =>
    obtain ⟨front, clef, back⟩ := found
    rw [texts?_of_firstClef? hfirst] at h
    cases h
    obtain ⟨-, hhead, -⟩ := firstClef?_eq_some hfirst
    cases clef with
    | nil => exact absurd (clefHead?_eq_some hhead).2 (lt_irrefl 0)
    | cons c rest =>
      refine ⟨c, rest, by simp, ?_⟩
      rw [List.cons_append, clefHead?] at hhead
      split at hhead
      next hfamily =>
        rcases (by simpa [isFamily] using hfamily : c = 'c' ∨ c = 'f') with rfl | rfl <;> decide
      next => cases hhead

theorem leads_addClef (hcode : BeginsPlain code) (h : Trailing s₀ n row s) :
    Leads s₀ n [(.clef, code)] false (addClef n code) s := by
  rw [Leads, addClef, ends_bind]
  refine ((ends_newSign .clef code none none h.site.there).and
    (makes_makeSign (b := start) (show Kind.clef.sounds = false from rfl) code n none none s (start_in s))).mono
    (fun i s₁ h₁ => ?_) fun _ _ he heq => absurd heq he.1
  obtain ⟨hnew, hg, -, hi, hc⟩ := h₁
  rw [ends_bind, ends_get, ends_neume, ends_bind]
  refine (ends_modify _).mpr ?_
  have hg₂ := hg.trans (.changeWord (f := ({ · with clef := some i })) (Nat.zero_le (s₁.syllable (s₁.neume n).syllable).word) (fun _ => rfl)
    (fun _ h => absurd h (Option.some_ne_none i)) fun _ j hj => .inr (by cases hj; exact hi))
  have hspelt : Spelt ([] ++ [(.clef, code)]) := spelt_concat.mpr ⟨.nil, hcode, by rintro ⟨⟩⟩
  refine (h.append (hnew.changeClef _) ?_ hspelt hg₂ hc).mono (fun _ _ h₃ => ⟨h₃, by rintro ⟨⟩⟩) fun _ _ => False.elim
  rw [(hnew.changeClef _).before]
  exact .start _

theorem ends_readCode (code : String) (hapart : s₀.Apart n) (h : Trailing s₀ n [] s) :
    Ends (readCode n code) s
      (fun _ s' => (∃ row, Trailing s₀ n row s') ∧ (leansOf code = true → ¬ s₀.Hollow (s₀.wordOf n)))
      fun e _ => e = .value .outOfRange → leansOf code = true ∧ s₀.Hollow (s₀.wordOf n) := by
  have hone : ∀ row s c, Trailing s₀ n row s → Leads s₀ n (enter row c) (leans row c) (readLetters n [c]) s := by
    intro row s c h
    have hread := leads_readLetters [c] hapart h
    rwa [leansIn, leansIn, Bool.or_false] at hread
  have hrow : ∀ {row lean} {x : Act Unit}, Leads s₀ n row lean x s →
      Ends x s (fun _ s' => (∃ row, Trailing s₀ n row s') ∧ (lean = true → ¬ s₀.Hollow (s₀.wordOf n)))
        fun e _ => e = .value .outOfRange → lean = true ∧ s₀.Hollow (s₀.wordOf n) := fun hx =>
    hx.mono (fun _ _ h => ⟨⟨_, h.1⟩, h.2⟩) fun _ _ => id
  unfold readCode leansOf
  generalize clefMatcher.split code = around
  cases hgroups : clefMatcher.texts? code with
  | none => exact hrow (leads_readLetters code.toList hapart h)
  | some groups =>
    have hplain := beginsPlain_clef hgroups
    dsimp only
    generalize groups.getD 0 "" = clef at hplain ⊢
    have hread : Leads s₀ n _ (_ || (false || (_ || false))) (do
        (around.getD 0 "").toList.forM fun c => readLetters n [c]
        addClef n clef
        (around.getD 1 "").toList.forM fun c => readLetters n [c]
        frameNeume n) s :=
      (leads_forM hone _ h).bind fun s₁ h₁ => (leads_addClef hplain h₁).bind fun s₂ h₂ =>
        (leads_forM hone _ h₂).bind fun s₃ h₃ => leads_frameNeume h₃
    rw [Bool.false_or, Bool.or_false] at hread
    exact hrow hread

end Act

end Plainsong.Chant
