import Plainsong.Proofs.Chant.ClefSearch
/- The code of a neume once it has been read. Each sign keeps the letters it was read from: a
   sign that takes the place of the one before it takes its letters over and puts its own behind
   them, and a double bar has those of both its bars. Only a custos drops the letter it stands
   on. So a code without custos comes back as it was, but for the letters that stand for no sign
   and are no part of a clef (`transcript`): this is `Act.neumeCode_readCode`. -/
namespace Plainsong.Chant

open List

/-! ## Letters and rows -/

/-- The letters of signs, other than a custos. -/
def isSignLetter (c : Char) : Bool := "abcdefghijklmABCDEFGHIJKLM_.'w~osvOSV\x60,;:xy#/ z!".toList.contains c

/-- A code without the letters that mean nothing. -/
def transcript (letters : List Char) : List Char :=
  match firstClef? letters with
  | none => letters.filter isSignLetter
  | some (front, clef, back) => front.filter isSignLetter ++ clef ++ back.filter isSignLetter

/-- The letters that the signs of a row stand for. -/
def rowCode (row : List Figure) : List Char := row.flatMap fun f => f.2.toList

theorem rowCode_concat (row : List Figure) (f : Figure) : rowCode (row ++ [f]) = rowCode row ++ f.2.toList := by
  simp [rowCode]

theorem isSignLetter_eq {c : Char} (hc : c ≠ '+') : isSignLetter c = (Kind.ofLetter? c).isSome := by
  -- both sides are false of any letter beyond the plain ones
  have hplain : ∀ m < 128, Char.ofNat m ≠ '+' → isSignLetter (Char.ofNat m) = (Kind.ofLetter? (Char.ofNat m)).isSome := by
    decide +kernel
  by_cases hlt : c.toNat < 128
  · have h := hplain c.toNat hlt
    rw [Char.ofNat_toNat] at h
    exact h hc
  · have hsign : isSignLetter c = false := by
      by_contra h
      rw [Bool.not_eq_false] at h
      have hlist : ∀ d ∈ "abcdefghijklmABCDEFGHIJKLM_.'w~osvOSV\x60,;:xy#/ z!".toList, d.toNat < 128 :=
        all_iff_forall_prop.mp (by decide)
      exact hlt (hlist c (contains_iff_mem.mp h))
    cases hkind : Kind.ofLetter? c with
    | none => rw [hsign]; rfl
    | some kind => exact absurd (Act.toNat_lt_of_ofLetter? hkind) hlt

theorem eq_plus_of_custos {c : Char} (h : Kind.ofLetter? c = some .custos) : c = '+' := by
  unfold Kind.ofLetter? at h
  split_ifs at h <;> cases h
  assumption

def BarsMeet (row : List Figure) (c : Char) : Prop :=
  Kind.ofLetter? c = some .bar → ∀ code, row.getLast? = some (.bar, code) → code = ":" ∧ c = ':'

theorem rowCode_enter {row : List Figure} {c : Char} (hc : c ≠ '+') (hbars : BarsMeet row c) :
    rowCode (enter row c) = rowCode row ++ [c].filter isSignLetter := by
  have hfilter : [c].filter isSignLetter = if (Kind.ofLetter? c).isSome then [c] else [] := by
    rw [filter_singleton, isSignLetter_eq hc]
    cases (Kind.ofLetter? c).isSome <;> rfl
  have hlast : ∀ f, row.getLast? = some f → rowCode row = rowCode row.dropLast ++ f.2.toList := by
    intro f hf
    rw [← rowCode_concat, dropLast_append_getLast? f hf]
  rw [hfilter]
  unfold enter
  split
  next hkind => simp [hkind]
  next code hkind hrow => simp [hkind, rowCode_concat, hlast _ hrow]
  next kind code hkind hrow => simp [hkind, rowCode_concat, hlast _ hrow]
  next hkind _ => exact absurd (eq_plus_of_custos hkind) hc
  next code hkind hrow =>
    obtain ⟨rfl, rfl⟩ := hbars hkind code hrow
    simp [hkind, rowCode_concat, hlast _ hrow]
  next kind hkind _ _ _ _ => simp [hkind, rowCode_concat]

namespace Act

variable {n : Nat} {l : Nat → List Nat} {row : List Figure} {letters : List Char} {s s' : Score}

/-! ## What reading writes down -/

theorem upon_meetBars (c : Char) (h : Shows n l row s) : Upon (addLetter n c) s fun _ _ => BarsMeet row c := by
  unfold addLetter
  split
  next hc =>
    intro hbar
    rw [hc] at hbar
    cases hbar
  next kind hc =>
    rw [Upon, ends_neume]
    refine (upon_makeLetter h hc _).seq fun i s₁ h₁ => Upon.of_prop fun hbar code hcode => ?_
    obtain ⟨out, f, hbrings, -⟩ := h₁
    rw [h.last] at hbrings
    cases hbrings with
    | doubleBar _ hlast hcolon =>
      cases hlast.symm.trans hcode
      exact ⟨rfl, hcolon⟩
    | behind hkind _ hfree =>
      cases hkind.symm.trans hbar
      exact absurd hcode (hfree rfl code)
    | onNote hkind | onSpecial hkind | altered hkind | custos hkind => cases hkind.symm.trans hbar

/-- The signs of the neume stand for these letters. -/
def Writes (n : Nat) (l : Nat → List Nat) (letters : List Char) (s : Score) : Prop :=
  ∃ row, Shows n l row s ∧ rowCode row = letters

theorem upon_writeLetter {c : Char} (hc : c ≠ '+') (h : Writes n l letters s) :
    Upon (addLetter n c) s fun _ => Writes n l (letters ++ [c].filter isSignLetter) := by
  obtain ⟨row, hrow, rfl⟩ := h
  refine ((upon_showLetter hrow c).and (upon_meetBars c hrow)).mono (fun _ s₁ h₁ => ?_) fun _ _ _ => trivial
  exact ⟨_, h₁.1, rowCode_enter hc h₁.2⟩

theorem upon_writeFrame (h : Writes n l letters s) : Upon (frameNeume n) s fun _ => Writes n l letters := by
  obtain ⟨row, hrow, hletters⟩ := h
  exact (upon_showFrame hrow).mono (fun _ _ h₁ => ⟨row, h₁, hletters⟩) fun _ _ => id

theorem upon_writeEach {f : Char → Act Unit} {more : List Char} (hmore : '+' ∉ more)
    (hf : ∀ c ≠ '+', ∀ letters s, Writes n l letters s →
      Upon (f c) s fun _ => Writes n l (letters ++ [c].filter isSignLetter))
    (h : Writes n l letters s) :
    Upon (more.forM f) s fun _ => Writes n l (letters ++ more.filter isSignLetter) := by
  induction more generalizing letters s with
  | nil =>
    rw [filter_nil, append_nil]
    exact h
  | cons c rest ih =>
    rw [mem_cons, not_or] at hmore
    show Upon (f c >>= fun _ => rest.forM f) s _
    rw [Upon]
    refine (hf c (Ne.symm hmore.1) letters s h).seq fun _ s₁ h₁ => ?_
    rw [← singleton_append, filter_append, ← append_assoc]
    exact ih hmore.2 h₁

theorem upon_writeLetters {more : List Char} (hmore : '+' ∉ more) (h : Writes n l letters s) :
    Upon (readLetters n more) s fun _ => Writes n l (letters ++ more.filter isSignLetter) := by
  rw [readLetters, Upon]
  refine (upon_writeEach hmore (fun c hc _ _ => upon_writeLetter hc) h).seq fun _ s₁ h₁ => ?_
  exact upon_writeFrame h₁

theorem upon_writeClef (clef : List Char) (h : Writes n l letters s) :
    Upon (addClef n (String.ofList clef)) s fun _ => Writes n l (letters ++ clef) := by
  obtain ⟨row, hrow, rfl⟩ := h
  refine (upon_showClef hrow (String.ofList clef)).mono (fun _ s₁ h₁ => ⟨_, h₁, ?_⟩) fun _ _ => id
  rw [rowCode_concat, String.toList_ofList]

theorem upon_writeCode {code : String} (hplus : '+' ∉ code.toList) (hclef : AtMostOneClef code)
    (h : Writes n l [] s) : Upon (readCode n code) s fun _ => Writes n l (transcript code.toList) := by
  unfold readCode transcript
  cases hfirst : firstClef? code.toList with
  | none =>
    rw [texts?_eq_none_of_clefFree hfirst]
    exact upon_writeLetters hplus h
  | some parts =>
    obtain ⟨front, clef, back⟩ := parts
    obtain ⟨hsplit, -, -⟩ := firstClef?_eq_some hfirst
    rw [hsplit] at hplus
    simp only [mem_append, not_or] at hplus
    rw [texts?_of_firstClef? hfirst, split_of_firstClef? hfirst (hclef _ hfirst)]
    dsimp only
    -- on both sides of the clef the letters are read one by one
    have hone : ∀ c ≠ '+', ∀ letters s, Writes n l letters s →
        Upon (readLetters n [c]) s fun _ => Writes n l (letters ++ [c].filter isSignLetter) :=
      fun c hc _ _ => upon_writeLetters (by simpa using hc.symm)
    rw [Upon, ends_bind, getD_cons_zero, String.toList_ofList]
    refine (upon_writeEach hplus.1 hone h).mono (fun _ s₁ h₁ => ?_) fun _ _ => id
    refine (upon_writeClef clef h₁).seq fun _ s₂ h₂ => ?_
    rw [ends_bind, getD_cons_succ, getD_cons_zero, String.toList_ofList]
    refine (upon_writeEach hplus.2.2 hone h₂).mono (fun _ s₃ h₃ => ?_) fun _ _ => id
    exact upon_writeFrame h₃

theorem toList_neumeCode (s : Score) (n : Nat) : (Score.neumeCode (s.signsOf n)).toList = rowCode (s.figures n) := by
  rw [Score.neumeCode, Score.signsOf, map_map, String.toList_join, flatMap_map, rowCode, Score.figures,
    flatMap_map]
  rfl

/-- A neume that starts empty and is read from a code without custos and with one clef at most
    has the code it was read from, but for the letters that stand for no sign. -/
theorem neumeCode_readCode {code : String} (hn : n < s.neumes.size) (hempty : (s.neume n).signs = [])
    (hplus : '+' ∉ code.toList) (hclef : AtMostOneClef code) (h : Gives (readCode n code) s () s') :
    (Score.neumeCode (s'.signsOf n)).toList = transcript code.toList := by
  have hstart : Writes n s.lists [] s := ⟨[], shows_empty hn hempty, rfl⟩
  obtain ⟨row, hrow, hletters⟩ := (upon_writeCode hplus hclef hstart).of_gives h
  rw [toList_neumeCode, hrow.figures, hletters]

theorem neumeCode_readCode_around_clef :
    Gives (readCode 1 "g-hxic3[j]k,") underC4 () ((readCode 1 "g-hxic3[j]k,").run.run underC4).2 ∧
      (Score.neumeCode (((readCode 1 "g-hxic3[j]k,").run.run underC4).2.signsOf 1)).toList = "ghxic3jk,".toList := by
  have h : Gives (readCode 1 "g-hxic3[j]k,") underC4 () ((readCode 1 "g-hxic3[j]k,").run.run underC4).2 :=
    Gives.of_toOption (by decide +kernel)
  refine ⟨h, (neumeCode_readCode (by decide) rfl (by decide +kernel) (by decide +kernel) h).trans ?_⟩
  decide +kernel

end Act

end Plainsong.Chant
