import Plainsong.Proofs.Chant.Building
/- What rhythm, beams and accidentals leave alone. While a neume is read, signs get
   durations, nuances, texts and accidentals, and neumes open and close elements. None of this
   moves a sign to another place, takes a sign its duration or a neume its notes, brings a slur
   in, or touches a syllable (`Score.Spared`). -/
namespace Plainsong.Chant

open List

/-- A sign as it stands in the code. -/
abbrev Figure := Kind × String

def Sign.figure (g : Sign) : Figure := (g.kind, g.code)

/-! ## Slurs in texts -/

def isSlur (c : Char) : Bool := c = '(' || c = ')'

/-- The signs of slurs in a text. -/
def slursIn (text : String) : List Char := text.toList.filter isSlur

theorem slursIn_append (a b : String) : slursIn (a ++ b) = slursIn a ++ slursIn b := by
  rw [slursIn, String.toList_append, filter_append, slursIn, slursIn]

theorem filter_replaceFrom {first : Char} {old text : List Char} (h : ∀ x ∈ first :: old, isSlur x = false) {skipped : Nat}
    (hskipped : ∀ x ∈ text.take skipped, isSlur x = false) :
    (Text.replaceFrom (first :: old) [] skipped text).filter isSlur = text.filter isSlur := by
  induction text generalizing skipped with
  | nil => simp [Text.replaceFrom]
  | cons x rest ih =>
    cases skipped with
    | succ skipped =>
      rw [take_succ_cons, forall_mem_cons] at hskipped
      rw [Text.replaceFrom, ih hskipped.2, filter_cons_of_neg (by simp [hskipped.1])]
    | zero =>
      rw [Text.replaceFrom]
      split
      next hprefix =>
        obtain ⟨more, hmore⟩ := isPrefixOf_iff_prefix.mp hprefix
        rw [cons_append, List.cons.injEq] at hmore
        obtain ⟨rfl, rfl⟩ := hmore
        rw [forall_mem_cons] at h
        rw [nil_append, length_cons, Nat.add_sub_cancel, ih, filter_cons_of_neg (by simp [h.1])]
        rw [take_left]
        exact h.2
      next => rw [filter_cons, filter_cons, ih (by simp)]

theorem slursIn_replace {old : String} {first : Char} {rest : List Char} (hold : old.toList = first :: rest)
    (h : old.toList.all (!isSlur ·) = true) (text : String) : slursIn (Text.replace old "" text) = slursIn text := by
  rw [hold] at h
  rw [slursIn, Text.replace, String.toList_ofList, hold]
  exact filter_replaceFrom (by simpa using h) (by simp)

theorem slursIn_name {p : Int} {name : String} (h : lilyName? p = some name) : slursIn name = [] := by
  refine filter_eq_nil_iff.mpr fun c hc hslur => ?_
  have hname := not_isBracket_of_lilyName? h c hc
  rw [isBracket, Bool.or_assoc, Bool.or_eq_false_iff] at hname
  exact absurd (hslur.symm.trans hname.2) (by decide)

/-- A note at the end of its element. -/
def shut (g : Sign) : Sign :=
  { g with
    abc := g.abc ++ " "
    lily := if g.hasNuance "point" then Text.replace "[" "" g.lily else Text.replace "[]" "" (g.lily ++ "]") }

theorem slursIn_shut (g : Sign) : slursIn (shut g).lily = slursIn g.lily := by
  dsimp only [shut]
  split
  · exact slursIn_replace rfl (by decide) _
  · rw [slursIn_replace rfl (by decide), slursIn_append]
    exact append_nil _

/-! ## What stays -/

/-- Two states of a sign at the same place; a sign that had a duration still has one. -/
structure Sign.Settled (g g' : Sign) : Prop where
  figure : g'.figure = g.figure
  neume : g'.neume = g.neume
  before : g'.before = g.before
  lasts : g.duration.isSome = true → g'.duration.isSome = true

theorem Sign.Settled.refl (g : Sign) : g.Settled g := ⟨rfl, rfl, rfl, id⟩

theorem Sign.Settled.trans {g g' g'' : Sign} (h : g.Settled g') (h' : g'.Settled g'') : g.Settled g'' :=
  ⟨h'.figure.trans h.figure, h'.neume.trans h.neume, h'.before.trans h.before, h'.lasts ∘ h.lasts⟩

theorem Sign.Dressed.settled {g g' : Sign} (h : g.Dressed g') : g.Settled g' :=
  ⟨by rw [figure, h.kind, h.code, figure], h.neume, h.before, h.duration⟩

/-- Two states of a neume with the same signs; a neume that had a note still has one. -/
structure Neume.Settled (u u' : Neume) : Prop where
  syllable : u'.syllable = u.syllable
  signs : u'.signs = u.signs
  hasNote : u.hasNote = true → u'.hasNote = true

theorem Neume.Settled.refl (u : Neume) : u.Settled u := ⟨rfl, rfl, id⟩

theorem Neume.Settled.trans {u u' u'' : Neume} (h : u.Settled u') (h' : u'.Settled u'') : u.Settled u'' :=
  ⟨h'.syllable.trans h.syllable, h'.signs.trans h.signs, h'.hasNote ∘ h.hasNote⟩

/-- All signs and neumes are where they were, no slur has come in, and no syllable and no word has
    changed. -/
structure Score.Spared (s s' : Score) : Prop where
  size : s'.signs.size = s.signs.size
  count : s'.neumes.size = s.neumes.size
  sign : ∀ i, (s.sign i).Settled (s'.sign i)
  neume : ∀ n, (s.neume n).Settled (s'.neume n)
  syllables : s'.syllables = s.syllables
  words : s'.words = s.words
  slurs : ∀ i, slursIn (s.sign i).lily = [] → slursIn (s'.sign i).lily = []

namespace Score.Spared

variable {s s' s'' : Score}

theorem refl (s : Score) : s.Spared s := ⟨rfl, rfl, fun _ => .refl _, fun _ => .refl _, rfl, rfl, fun _ => id⟩

theorem trans (h : s.Spared s') (h' : s'.Spared s'') : s.Spared s'' :=
  ⟨h'.size.trans h.size, h'.count.trans h.count, fun i => (h.sign i).trans (h'.sign i),
    fun n => (h.neume n).trans (h'.neume n), h'.syllables.trans h.syllables, h'.words.trans h.words,
    fun i => h'.slurs i ∘ h.slurs i⟩

theorem of_quiet (h : Act.Quiet s s') : s.Spared s' := by
  refine ⟨by rw [h.signs], by rw [h.neumes], fun i => ?_, fun n => ?_, h.syllables, h.words, fun i => by rw [h.sign]; exact id⟩
  · rw [h.sign]
    exact .refl _
  · rw [h.neume]
    exact .refl _

theorem changeSign (s : Score) (i : Nat) {f : Sign → Sign} (hf : ∀ g : Sign, g.Settled (f g))
    (hslurs : ∀ g : Sign, slursIn g.lily = [] → slursIn (f g).lily = []) : s.Spared { s with signs := s.signs.modify i f } := by
  refine ⟨by simp, rfl, fun j => ?_, fun _ => .refl _, rfl, rfl, fun j => ?_⟩
  all_goals
    rw [Score.sign_modify]
    split
  · exact hf _
  · exact .refl _
  · exact hslurs _
  · exact id

theorem changeNeume (s : Score) (n : Nat) {f : Neume → Neume} (hf : ∀ u : Neume, u.Settled (f u)) :
    s.Spared { s with neumes := s.neumes.modify n f } := by
  refine ⟨rfl, by simp, fun _ => .refl _, fun m => ?_, rfl, rfl, fun _ => id⟩
  rw [Score.neume_modify]
  split
  · exact hf _
  · exact .refl _

end Score.Spared

namespace Act

/-- However the act ends, places, notes and syllables are as they were; and if it fails, `E`
    holds of the fault. -/
abbrev Spares (E : Fault → Prop) {α : Type} (x : Act α) : Prop := Always Score.Spared E x

variable {E : Fault → Prop}

theorem Spares.changeSign {i : Nat} {f : Sign → Sign} (hf : ∀ g : Sign, g.Settled (f g))
    (hslurs : ∀ g : Sign, slursIn g.lily = [] → slursIn (f g).lily = []) : Spares E (Act.changeSign i f) :=
  fun s => .changeSign s i hf hslurs

theorem Spares.changeNeume {n : Nat} {f : Neume → Neume} (hf : ∀ u : Neume, u.Settled (f u)) : Spares E (Act.changeNeume n f) :=
  fun s => .changeNeume s n hf

theorem Spares.remark (text : String) : Spares E (Act.remark text) :=
  fun _ => ⟨rfl, rfl, fun _ => .refl _, fun _ => .refl _, rfl, rfl, fun _ => id⟩

instance : IsPreorder Score Score.Spared where
  refl := Score.Spared.refl
  trans _ _ _ := Score.Spared.trans

instance : Rhythmic Score.Spared where
  setDuration i _ := .changeSign _ i (fun _ => ⟨rfl, rfl, rfl, fun _ => rfl⟩) fun _ => id
  setNuances s i _ := .changeSign s i (fun _ => ⟨rfl, rfl, rfl, id⟩) fun _ => id
  closeElement i := .bind (Spares.changeSign (fun _ => ⟨rfl, rfl, rfl, id⟩) fun g => (slursIn_shut g).trans) fun _ =>
    .bind (.sign i) fun _ => Spares.changeNeume fun _ => ⟨rfl, rfl, id⟩

theorem spares_openElement (i : Nat) : Spares E (openElement i) :=
  .bind (.sign i) fun _ => .bind (Spares.changeNeume fun _ => ⟨rfl, rfl, id⟩) fun _ =>
    Spares.changeSign (fun _ => ⟨rfl, rfl, rfl, id⟩) fun g h => by rw [slursIn_append, h]; rfl

theorem spares_enterElement (n i : Nat) : Spares E (enterElement n i) := by
  refine .bind (Spares.changeNeume fun _ => ⟨rfl, rfl, fun _ => rfl⟩) fun _ => .bind (.neume n) fun u => ?_
  have hmark : ∀ closed, Spares E (changeSign i ({ · with opensElement := some closed })) :=
    fun _ => Spares.changeSign (fun _ => ⟨rfl, rfl, rfl, id⟩) fun _ => id
  dsimp only
  split
  · exact .bind (spares_openElement i) fun _ => hmark _
  · exact hmark _

theorem spares_setAccidentals (i : Nat) (held : Accidentals) : Spares Fault.Mild (setAccidentals i held) :=
  .setAccidentals i fun s i => .changeSign s i (fun _ => ⟨rfl, rfl, rfl, id⟩) fun _ => id

theorem spares_soundNote (i : Nat) (code : String) : Spares (fun _ => True) (soundNote i code) :=
  .bind ((Quietly.pitchOf i code).imp fun _ _ => .of_quiet) fun _ =>
    .bind (Spares.changeSign (fun _ => ⟨rfl, rfl, rfl, fun _ => rfl⟩) fun _ => id) fun _ =>
      .bind_need trivial fun _ hname => .bind (Spares.changeSign (fun _ => ⟨rfl, rfl, rfl, id⟩) fun _ _ => slursIn_name hname) fun _ =>
        .bind (.need trivial _) fun _ => Spares.changeSign (fun _ => ⟨rfl, rfl, rfl, id⟩) fun _ => id

end Act

end Plainsong.Chant
