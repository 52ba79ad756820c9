import Plainsong.Proofs.Chant.ClefSearch
import Plainsong.Proofs.Chant.Engraving
/- Slurs over the notes of a neume. While its letters are read no sign has a slur: names have
   none, and beams that open, close or are taken away bring none in (`Act.Bare`). Only the end of
   the reading sets one, which opens at the first note and closes at the last; where both are
   one note it is taken away again. So the text of a neume of two notes or more has one slur and
   that of any other has none (`Act.slurs_readCode`). -/
namespace Plainsong.Chant

open List

/-! ## Slurs in texts -/

theorem slursIn_join (texts : List String) : slursIn (String.join texts) = texts.flatMap slursIn := by
  rw [slursIn, String.toList_join, filter_flatMap]
  rfl

theorem replace_slur {text : String} (h : slursIn text = []) :
    Text.replace "()" "" (text ++ "(" ++ ")") = text ∧ Text.replace "()" "" (text ++ ")") = text ++ ")" := by
  have hopen : '(' ∉ text.toList := by
    intro hmem
    have hslur : '(' ∈ slursIn text := mem_filter.mpr ⟨hmem, rfl⟩
    rw [h] at hslur
    cases hslur
  have hpass : ∀ rest : List Char, Text.replaceFrom "()".toList [] 0 (text.toList ++ rest) =
      text.toList ++ Text.replaceFrom "()".toList [] 0 rest := fun rest => replaceFrom_append hopen
  constructor
  · have hslur : Text.replaceFrom "()".toList [] 0 ("(" ++ ")").toList = [] := by decide
    rw [Text.replace, String.append_assoc, String.toList_append, String.toList_empty, hpass, hslur, append_nil,
      String.ofList_toList]
  · have hclose : Text.replaceFrom "()".toList [] 0 ")".toList = ")".toList := by decide
    rw [Text.replace, String.toList_append, String.toList_empty, hpass, hclose, ← String.toList_append, String.ofList_toList]

theorem slursIn_eighth (text : String) : slursIn (text.map fun c => if c = '8' then '4' else c) = slursIn text := by
  rw [slursIn, String.toList_map, slursIn]
  induction text.toList with
  | nil => rfl
  | cons c rest ih =>
    rw [map_cons, filter_cons, filter_cons, ih]
    by_cases hc : c = '8'
    · rw [hc]
      rfl
    · rw [if_neg hc]

theorem slursIn_ite {b : Bool} {text text' : String} (h : slursIn text' = slursIn text) :
    slursIn (if b then text' else text) = slursIn text := by
  cases b
  · rfl
  · exact h

theorem slursIn_noteLily (g : Sign) : slursIn g.noteLily = slursIn g.lily := by
  have hmark : ∀ text mark : String, slursIn mark = [] → slursIn (text ++ mark) = slursIn text := by
    intro text mark h
    rw [slursIn_append, h, append_nil]
  have hblank : slursIn (" " ++ g.lily) = slursIn g.lily := by rw [slursIn_append]; rfl
  dsimp only [Sign.noteLily]
  rw [slursIn_ite, slursIn_ite (hmark _ _ rfl), slursIn_ite (hmark _ _ rfl), slursIn_ite (hmark _ _ rfl),
    slursIn_ite (slursIn_eighth _), hblank]
  rw [slursIn_append, slursIn_append]
  exact append_nil _

namespace Act

variable {s s' : Score} {n : Nat}

/-! ## Letters -/

/-- The signs of the neume have come one after the other, and none has a slur. -/
structure Bare (n : Nat) (s : Score) : Prop where
  there : n < s.neumes.size
  members : ∀ i ∈ (s.neume n).signs, i < s.signs.size
  rising : (s.neume n).signs.Pairwise (· < ·)
  slurs : ∀ i ∈ (s.neume n).signs, slursIn (s.sign i).lily = []

theorem upon_bareLetter (c : Char) (h : Bare n s) : Upon (addLetter n c) s fun _ => Bare n := by
  unfold addLetter
  split
  next => exact h
  next kind hc =>
    rw [Upon, ends_neume]
    refine (upon_makeLetter ⟨h.there, rfl, h.members, rfl⟩ hc _).seq fun i s₁ h₁ => (ends_modify _).mpr ?_
    obtain ⟨out, f, -, hnew⟩ := h₁
    have hrow : (({ s₁ with neumes := s₁.neumes.modify n fun u => { u with signs := u.signs ++ [i] } } : Score).neume n).signs =
        (s₁.neume n).signs ++ [i] := by
      rw [Score.neume_modify, if_pos ⟨rfl, hnew.there⟩]
    have hold : (s₁.neume n).signs <+: (s.neume n).signs := by
      rw [hnew.signs]
      split
      · exact dropLast_prefix _
      · exact prefix_refl _
    refine ⟨by simpa using hnew.there, ?_, ?_, ?_⟩ <;> rw [hrow]
    · rw [forall_mem_append, forall_mem_singleton]
      exact ⟨fun j hj => (h.members j (hold.subset hj)).trans_le hnew.onward.size, hnew.fresh⟩
    · refine pairwise_append.mpr ⟨h.rising.sublist hold.sublist, pairwise_singleton _ _, fun j hj k hk => ?_⟩
      rw [mem_singleton.mp hk, hnew.index]
      exact h.members j (hold.subset hj)
    · rw [forall_mem_append, forall_mem_singleton]
      refine ⟨fun j hj => hnew.slurs j (h.slurs j (hold.subset hj)), hnew.slurs i ?_⟩
      rw [Score.sign, Array.getD_eq_getD_getElem?, Array.getElem?_eq_none hnew.index.ge]
      rfl

/-! ## The end of a neume -/

def soundingIn (s : Score) (n : Nat) : List Nat := (s.neume n).signs.filter fun i => (s.sign i).kind.sounds

/-- What stands of the slur at a sign: it opens at the first of the notes and closes at the last. -/
def slurAt (notes : List Nat) (i : Nat) : List Char :=
  if notes.length ≤ 1 then [] else if notes.head? = some i then ['('] else if notes.getLast? = some i then [')'] else []

/-- The text of a sign in a neume that opens at one note and closes at another. -/
def framed (first last i : Nat) (text : String) : String :=
  let opened := if first = i then text ++ "(" else text
  if last = i then Text.replace "()" "" (opened ++ ")") else opened

theorem slursIn_framed {notes : List Nat} {first last : Nat} (hfirst : notes.head? = some first)
    (hlast : notes.getLast? = some last) (hrising : notes.Pairwise (· < ·)) {text : String} (h : slursIn text = [])
    (i : Nat) : slursIn (framed first last i text) = slurAt notes i := by
  have hslur : slursIn (text ++ "(") = ['('] ∧ slursIn (text ++ ")") = [')'] := by
    rw [slursIn_append, slursIn_append, h]
    exact ⟨rfl, rfl⟩
  obtain ⟨hclosed, hclose⟩ := replace_slur h
  rw [framed, slurAt, hfirst, hlast]
  rcases notes with _ | ⟨note, _ | ⟨next, rest⟩⟩
  · cases hfirst
  · -- the slur opens and closes at one note
    obtain rfl : note = first := Option.some.inj hfirst
    obtain rfl : note = last := Option.some.inj hlast
    by_cases hnote : note = i
    · simp [hnote, hclosed, h]
    · simp [hnote, h]
  · obtain rfl : note = first := Option.some.inj hfirst
    have hlater : last ∈ next :: rest := by
      rw [List.getLast?_cons_cons] at hlast
      exact mem_of_getLast? hlast
    have hne : note ≠ last := ((pairwise_cons.mp hrising).1 last hlater).ne
    by_cases hnote : note = i
    · have hend : last ≠ i := fun hend => hne (hnote.trans hend.symm)
      simp [hnote, hend, hslur]
    · by_cases hend : last = i
      · simp [hnote, hend, hclose, hslur]
      · simp [hnote, hend, h]

/-- The texts of the signs are as they were. -/
structure Worded (s s' : Score) : Prop where
  size : s'.signs.size = s.signs.size
  lily : ∀ i, (s'.sign i).lily = (s.sign i).lily

instance : Timely Worded where
  refl _ := ⟨rfl, fun _ => rfl⟩
  trans _ _ _ h h' := ⟨h'.size.trans h.size, fun i => (h'.lily i).trans (h.lily i)⟩
  setDuration i _ := ⟨by simp, fun j => by rw [Score.sign_modify]; split <;> rfl⟩

theorem upon_closeNeume (j : Nat) (hj : j < s.signs.size) :
    Upon (closeNeume j) s fun _ s' => ∀ i, slursIn (s'.sign i).lily =
      slursIn (if j = i then Text.replace "()" "" ((s.sign i).lily ++ ")") else (s.sign i).lily) := by
  rw [closeNeume, Upon]
  refine (Always.equalise (R := Worded) j s).andThen (fun _ s₁ h₁ => ?_) fun _ _ _ => trivial
  rw [ends_bind]
  set s₂ : Score := { s₁ with signs := s₁.signs.modify j fun g => { g with lily := Text.replace "()" "" (g.lily ++ ")") } }
  refine (ends_modify _).mpr ((ends_bind ..).mpr ((ends_modify _).mpr fun i => ?_))
  change slursIn (({ s₂ with signs := s₂.signs.modify j shut } : Score).sign i).lily = _
  rw [Score.sign_modify, apply_ite Sign.lily, apply_ite slursIn, slursIn_shut, ite_self, Score.sign_modify, h₁.size]
  by_cases hi : j = i
  · rw [if_pos ⟨hi, hi ▸ hj⟩, if_pos hi, h₁.lily]
  · rw [if_neg fun h => hi h.1, if_neg hi, h₁.lily]

theorem upon_frameNeume (h : Bare n s) :
    Upon (frameNeume n) s fun _ s' => ∀ i ∈ (s.neume n).signs, slursIn (s'.sign i).lily = slurAt (soundingIn s n) i := by
  rw [frameNeume, Upon, ends_bind, ends_get]
  dsimp only
  rw [← soundingIn]
  have hmem : ∀ i ∈ soundingIn s n, i < s.signs.size := fun i hi => h.members i (mem_of_mem_filter hi)
  have hrising : (soundingIn s n).Pairwise (· < ·) := h.rising.filter _
  generalize soundingIn s n = notes at hmem hrising
  split
  next first last hfirst hlast =>
    rw [ends_bind]
    refine (ends_modify _).mpr ?_
    set s₁ : Score := { s with signs := s.signs.modify first fun g => { g with lily := g.lily ++ "(" } }
    have hsign : ∀ i, (s₁.sign i).lily = if first = i then (s.sign i).lily ++ "(" else (s.sign i).lily := by
      intro i
      rw [Score.sign_modify]
      by_cases hi : first = i
      · rw [if_pos ⟨hi, hi ▸ hmem _ (mem_of_head? hfirst)⟩, if_pos hi]
      · rw [if_neg fun hboth => hi hboth.1, if_neg hi]
    have hlast' : last < s₁.signs.size := by
      rw [Array.size_modify]
      exact hmem _ (mem_of_getLast? hlast)
    refine (upon_closeNeume last hlast').mono (fun _ s₂ h₂ i hi => ?_) fun _ _ => id
    rw [h₂ i, hsign]
    exact slursIn_framed hfirst hlast hrising (h.slurs i hi) i
  next hnone =>
    have hnil : notes = [] := by
      cases notes with
      | nil => rfl
      | cons note rest => exact absurd (List.getLast?_eq_some_getLast (cons_ne_nil note rest)) (hnone note _ rfl)
    rw [hnil]
    exact fun i hi => h.slurs i hi

/-- The signs of the neume have come one after the other, and its notes have the slur. -/
structure Slurred (n : Nat) (s : Score) : Prop where
  rising : (s.neume n).signs.Pairwise (· < ·)
  slurs : ∀ i ∈ (s.neume n).signs, slursIn (s.sign i).lily = slurAt (soundingIn s n) i

theorem upon_slurLetters (letters : List Char) (h : Bare n s) : Upon (readLetters n letters) s fun _ => Slurred n := by
  rw [readLetters, Upon]
  refine (Ends.forM (fun c _ s' h' => upon_bareLetter c h') h).seq fun _ s₁ h₁ => ?_
  refine ((dresses_frameNeume n s₁).and (upon_frameNeume h₁)).mono (fun _ s₂ h₂ => ?_) fun _ _ _ => trivial
  obtain ⟨hdressed, hslurs⟩ := h₂
  have hsigns : (s₂.neume n).signs = (s₁.neume n).signs := (hdressed.neume n).signs
  have hnotes : soundingIn s₂ n = soundingIn s₁ n := by
    simp only [soundingIn, hsigns, (hdressed.sign _).kind]
  rw [← hsigns] at hslurs
  exact ⟨hsigns ▸ h₁.rising, fun i hi => by rw [hslurs i hi, hnotes]⟩

/-! ## The text of a neume -/

theorem slurAt_of_not_mem {notes : List Nat} {i : Nat} (h : i ∉ notes) : slurAt notes i = [] := by
  have hfirst : notes.head? ≠ some i := fun hi => h (mem_of_head? hi)
  have hlast : notes.getLast? ≠ some i := fun hi => h (mem_of_getLast? hi)
  rw [slurAt, if_neg hfirst, if_neg hlast, ite_self]

theorem slurAt_of_two (first last : Nat) (middle : List Nat) (i : Nat) :
    slurAt (first :: (middle ++ [last])) i = if first = i then ['('] else if last = i then [')'] else [] := by
  rw [slurAt, if_neg (by simp)]
  simp [List.getLast?_cons]

theorem flatMap_slurAt_of_two {first last : Nat} {middle : List Nat}
    (hrising : (first :: (middle ++ [last])).Pairwise (· < ·)) :
    (first :: (middle ++ [last])).flatMap (slurAt (first :: (middle ++ [last]))) = ['(', ')'] := by
  rw [pairwise_cons, pairwise_append] at hrising
  obtain ⟨hfirst, -, -, hlast⟩ := hrising
  have hne : first ≠ last := (hfirst last (by simp)).ne
  have hmiddle : middle.flatMap (slurAt (first :: (middle ++ [last]))) = [] := by
    refine flatMap_eq_nil_iff.mpr fun i hi => ?_
    have hafter : first ≠ i := (hfirst i (by simp [hi])).ne
    have hbefore : last ≠ i := (hlast i hi last (by simp)).ne'
    rw [slurAt_of_two, if_neg hafter, if_neg hbefore]
  rw [flatMap_cons, flatMap_append, hmiddle, flatMap_singleton, slurAt_of_two, slurAt_of_two, if_pos rfl,
    if_neg hne, if_pos rfl]
  rfl

theorem flatMap_eq_of_filter {ids : List Nat} {p : Nat → Bool} {f : Nat → List Char}
    (h : ∀ i ∈ ids, p i = false → f i = []) : ids.flatMap f = (ids.filter p).flatMap f := by
  induction ids with
  | nil => rfl
  | cons i ids ih =>
    rw [forall_mem_cons] at h
    rw [flatMap_cons, ih h.2, filter_cons]
    split
    · rw [flatMap_cons]
    next hp => rw [h.1 (Bool.eq_false_iff.mpr hp), nil_append]

theorem exists_neumeText {ids : List Nat} {f : Nat → List Char}
    (h : ∀ i ∈ ids, ∃ r, (s.sign i).lilyText = .ok r ∧ slursIn r = f i) :
    ∃ text, Lilypond.neumeText (ids.map s.sign) = .ok text ∧ slursIn text = ids.flatMap f := by
  have htexts : ∃ rs, (ids.map s.sign).mapM (·.lilyText) = .ok rs ∧ rs.flatMap slursIn = ids.flatMap f := by
    induction ids with
    | nil => exact ⟨[], rfl, rfl⟩
    | cons i ids ih =>
      rw [forall_mem_cons] at h
      obtain ⟨⟨r, hr, hslurs⟩, hrest⟩ := h
      obtain ⟨rs, hrs, hslurs'⟩ := ih hrest
      refine ⟨r :: rs, mapM_eq_ok_cons.mpr ⟨r, rs, hr, hrs, rfl⟩, ?_⟩
      rw [flatMap_cons, flatMap_cons, hslurs, hslurs']
  obtain ⟨rs, hrs, hslurs⟩ := htexts
  refine ⟨String.join rs, ?_, by rw [slursIn_join, hslurs]⟩
  rw [Lilypond.neumeText, hrs]
  rfl

theorem slursIn_barLily {code r : String} (h : Sign.barLily code = .ok r) : slursIn r = [] := by
  unfold Sign.barLily at h
  split at h <;> cases h <;> rfl

theorem slursIn_lilyText {g : Sign} {r : String} (h : g.lilyText = .ok r)
    (hsilent : g.kind.sounds = false → slursIn g.lily = []) : slursIn r = slursIn g.lily := by
  rw [Sign.lilyText] at h
  split at h
  · cases h
    exact slursIn_noteLily g
  next hsounds =>
    split at h
    · rw [slursIn_barLily h, hsilent (by simpa using hsounds)]
    · cases h
      rfl

theorem not_virgula_of_enter {letters : List Char} (hletters : '\x60' ∉ letters) {row : List Figure}
    (hrow : ∀ f ∈ row, f.1 = .bar → f.2 ≠ virgula) : ∀ f ∈ letters.foldl enter row, f.1 = .bar → f.2 ≠ virgula := by
  induction letters generalizing row with
  | nil => exact hrow
  | cons c rest ih =>
    rw [mem_cons, not_or] at hletters
    refine ih hletters.2 ?_
    have hconcat : ∀ {base : List Figure} {f : Figure}, (∀ g ∈ base, g ∈ row) → (f.1 = .bar → f.2 ≠ virgula) →
        ∀ g ∈ base ++ [f], g.1 = .bar → g.2 ≠ virgula := by
      intro base f hbase hf
      rw [forall_mem_append, forall_mem_singleton]
      exact ⟨fun g hg => hrow g (hbase g hg), hf⟩
    have hdrop : ∀ g ∈ row.dropLast, g ∈ row := fun g hg => mem_of_mem_dropLast hg
    unfold enter
    split
    · exact hrow
    · exact hconcat hdrop (by simp)
    · exact hconcat hdrop (by simp)
    · exact hconcat hdrop (by simp)
    · exact hconcat hdrop fun _ => by decide
    · refine hconcat (fun _ => id) fun _ hcode => hletters.1 ?_
      exact (singleton_inj hcode).symm

theorem exists_slurredText {code : String} (hn : n < s.neumes.size) (hempty : (s.neume n).signs = [])
    (hfree : ClefFree code) (hvirgula : '\x60' ∉ code.toList) (h : Gives (readCode n code) s () s') :
    Slurred n s' ∧ ∃ text, Lilypond.neumeText (s'.signsOf n) = .ok text ∧
      slursIn text = (soundingIn s' n).flatMap (slurAt (soundingIn s' n)) := by
  have hshows := shows_empty hn hempty
  have hfigures := ((upon_readFigures code hshows).of_gives h).figures
  have hbare : Bare n s := ⟨hn, hshows.members, by rw [hempty]; exact .nil, by simp [hempty]⟩
  rw [readCode, texts?_eq_none_of_clefFree hfree] at h
  have hslurred := (upon_slurLetters code.toList hbare).of_gives h
  have hsilent : ∀ i, (s'.sign i).kind.sounds = false → slurAt (soundingIn s' n) i = [] := by
    refine fun i hsilent => slurAt_of_not_mem fun hnote => ?_
    exact absurd ((mem_filter.mp hnote).2.symm.trans hsilent) (by decide)
  -- every sign has its text, and in it the part of the slur that falls to it
  have htexts : ∀ i ∈ (s'.neume n).signs,
      ∃ r, (s'.sign i).lilyText = .ok r ∧ slursIn r = slurAt (soundingIn s' n) i := by
    intro i hi
    have hmem : (s'.sign i).figure ∈ figuresOf code := hfigures ▸ mem_map.mpr ⟨i, hi, rfl⟩
    have hno : ¬ (s'.sign i).IsVirgula := by
      rintro ⟨hkind, hcode⟩
      rw [figuresOf, texts?_eq_none_of_clefFree hfree] at hmem
      exact not_virgula_of_enter hvirgula (by simp) _ hmem hkind hcode
    obtain ⟨r, hr⟩ := (lilyText_ok_iff fun hbar => knownBars_figuresOf code _ hmem hbar).mpr hno
    have hslurs := hslurred.slurs i hi
    refine ⟨r, hr, (slursIn_lilyText hr fun hs => hslurs.trans (hsilent i hs)).trans hslurs⟩
  obtain ⟨text, htext, hslurs⟩ := exists_neumeText htexts
  exact ⟨hslurred, text, htext, hslurs.trans (flatMap_eq_of_filter fun i _ => hsilent i)⟩

/-- The text of a neume that starts empty and is read from a code without clef and virgula has
    one slur if it has two notes or more: it opens at the first of them and closes at the last.
    With fewer notes it has none. -/
theorem slurs_readCode {s s' : Score} {code : String} (hn : n < s.neumes.size) (hempty : (s.neume n).signs = [])
    (hfree : ClefFree code) (hvirgula : '\x60' ∉ code.toList) (h : Gives (readCode n code) s () s') :
    ∃ text, Lilypond.neumeText (s'.signsOf n) = .ok text ∧
      ((soundingIn s' n).length ≤ 1 → '(' ∉ text.toList ∧ ')' ∉ text.toList) ∧
      ∀ first middle last, soundingIn s' n = first :: (middle ++ [last]) →
        text.toList.count '(' = 1 ∧ text.toList.count ')' = 1 ∧
        '(' ∈ (s'.sign first).noteLily.toList ∧ ')' ∈ (s'.sign last).noteLily.toList := by
  obtain ⟨hslurred, text, htext, hrow⟩ := exists_slurredText hn hempty hfree hvirgula h
  refine ⟨text, htext, fun hfew => ?_, fun first middle last hnotes => ?_⟩
  · have hnone : slursIn text = [] := hrow.trans (List.flatMap_eq_nil_iff.mpr fun i _ => if_pos hfew)
    have hfree : ∀ c, isSlur c = true → c ∉ text.toList := fun c hc hmem => by
      have hslur : c ∈ slursIn text := List.mem_filter.mpr ⟨hmem, hc⟩
      rw [hnone] at hslur
      cases hslur
    exact ⟨hfree '(' rfl, hfree ')' rfl⟩
  · have hrising : (soundingIn s' n).Pairwise (· < ·) := hslurred.rising.filter _
    have hnote : ∀ i ∈ soundingIn s' n, slursIn (s'.sign i).noteLily = slurAt (soundingIn s' n) i := fun i hi => by
      rw [slursIn_noteLily, hslurred.slurs i (List.mem_of_mem_filter hi)]
    rw [hnotes] at hrow hrising hnote
    have htwo : slursIn text = ['(', ')'] := hrow.trans (flatMap_slurAt_of_two hrising)
    have hne : first ≠ last := ((List.pairwise_cons.mp hrising).1 last (by simp)).ne
    have hcount : ∀ c, isSlur c = true → text.toList.count c = ['(', ')'].count c := fun c hc => by
      rw [← htwo, slursIn, List.count_filter hc]
    have hfirst := hnote first (by simp)
    have hlast := hnote last (by simp)
    rw [slurAt_of_two, if_pos rfl] at hfirst
    rw [slurAt_of_two, if_neg hne, if_pos rfl] at hlast
    refine ⟨hcount '(' rfl, hcount ')' rfl, ?_, ?_⟩
    · exact List.mem_of_mem_filter (show '(' ∈ slursIn _ by rw [hfirst]; exact List.mem_singleton_self _)
    · exact List.mem_of_mem_filter (show ')' ∈ slursIn _ by rw [hlast]; exact List.mem_singleton_self _)

/-- A special note, a cut, a liquescence and a bar under one slur. -/
theorem slurs_readCode_five_notes :
    ∃ s' text, Gives (readCode 1 "hghsi/k~,") underC4 () s' ∧ soundingIn s' 1 = [1, 2, 4, 5, 7] ∧
      Lilypond.neumeText (s'.signsOf 1) = .ok text ∧ text.toList.count '(' = 1 ∧ text.toList.count ')' = 1 ∧
      '(' ∈ (s'.sign 1).noteLily.toList ∧ ')' ∈ (s'.sign 7).noteLily.toList := by
  obtain ⟨s', hs'⟩ : ∃ s', ((readCode 1 "hghsi/k~,").run.run underC4).2 = s' := ⟨_, rfl⟩
  have hgives : Gives (readCode 1 "hghsi/k~,") underC4 () s' := by
    rw [← hs']
    exact Gives.of_toOption (by decide +kernel)
  have hnotes : soundingIn s' 1 = 1 :: ([2, 4, 5] ++ [7]) := by
    rw [← hs']
    decide +kernel
  obtain ⟨text, htext, -, htwo⟩ := slurs_readCode (by decide) rfl (by decide +kernel) (by decide +kernel) hgives
  exact ⟨s', text, hgives, hnotes, htext, htwo 1 [2, 4, 5] 7 hnotes⟩

end Act

end Plainsong.Chant
