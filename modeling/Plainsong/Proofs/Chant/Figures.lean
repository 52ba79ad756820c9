import Plainsong.Proofs.Chant.Sparing
/- The figures of a neume: what kinds of signs stand in it and under which codes. They are
   settled by the letters of its code alone, one after the other (`enter`): a letter puts a new
   sign behind those that stand there, and it may push out the last one and take its place
   (`Brings`). No rhythm, no pitch and no text of a sign has a part in it (`Score.Onward`). So a
   neume that could be read at all has the figures of its code (`Act.upon_readFigures`). -/
namespace Plainsong.Chant

open List

def Score.figures (s : Score) (n : Nat) : List Figure := (s.neume n).signs.map fun i => (s.sign i).figure

/-- The figures behind a further letter. A special note takes the place of the note it is put
    on, a sign of alteration and a custos that of the note that names their place, and two
    bars that meet become a double bar. -/
def enter (row : List Figure) (c : Char) : List Figure :=
  match Kind.ofLetter? c, row.getLast? with
  | none, _ => row
  | some .special, some (.note, code) => row.dropLast ++ [(.special, code ++ String.singleton c)]
  | some .accidental, some (_, code) => row.dropLast ++ [(.accidental, code ++ String.singleton c)]
  | some .custos, some _ => row.dropLast ++ [(.custos, String.singleton c)]
  | some .bar, some (.bar, _) => row.dropLast ++ [(.bar, "::")]
  | some kind, _ => row ++ [(kind, String.singleton c)]

/-- The figures of the code of a neume. -/
def figuresOf (code : String) : List Figure :=
  match Act.clefMatcher.texts? code with
  | none => code.toList.foldl enter []
  | some groups =>
    let around := Act.clefMatcher.split code
    (around.getD 1 "").toList.foldl enter ((around.getD 0 "").toList.foldl enter [] ++ [(.clef, groups.getD 0 "")])

/-- The figure that a letter brings behind the last one, and whether that one goes for it. -/
inductive Brings (last : Option Figure) (c : Char) : Bool → Figure → Prop
  | onNote {code : String} (hc : Kind.ofLetter? c = some .special) (h : last = some (.note, code)) :
      Brings last c true (.special, code ++ String.singleton c)
  | onSpecial {code : String} (hc : Kind.ofLetter? c = some .special) (h : last = some (.special, code)) :
      Brings last c false (.special, String.singleton c)
  | altered {f : Figure} (hc : Kind.ofLetter? c = some .accidental) (h : last = some f) :
      Brings last c true (.accidental, f.2 ++ String.singleton c)
  | custos {f : Figure} (hc : Kind.ofLetter? c = some .custos) (h : last = some f) : Brings last c true (.custos, String.singleton c)
  | doubleBar (hc : Kind.ofLetter? c = some .bar) (h : last = some (.bar, ":")) (hcolon : c = ':') : Brings last c true (.bar, "::")
  | behind {kind : Kind} (hc : Kind.ofLetter? c = some kind) (hkind : kind ∉ [.special, .accidental, .custos])
      (hbar : kind = .bar → ∀ code, last ≠ some (.bar, code)) : Brings last c false (kind, String.singleton c)

theorem enter_of_brings {row : List Figure} {c : Char} {out : Bool} {f : Figure} (h : Brings row.getLast? c out f) :
    enter row c = (if out then row.dropLast else row) ++ [f] := by
  cases h with
  | onNote hc h => simp [enter, hc, h]
  | onSpecial hc h => simp [enter, hc, h]
  | altered hc h => simp [enter, hc, h]
  | custos hc h => simp [enter, hc, h]
  | doubleBar hc h => simp [enter, hc, h]
  | behind hc hkind hbar =>
    rw [enter, hc]
    split <;> simp_all

/-! ## What the letters leave alone -/

namespace Score

def lists (s : Score) (w : Nat) : List Nat := (s.word w).syllables

variable {s s' s'' : Score} {n : Nat}

theorem lists_of_words (h : s'.words = s.words) : s'.lists = s.lists :=
  funext fun w => by rw [lists, word, h, lists, word]

/-- What the letters of the neume `n` leave alone: words but for their clefs, syllables, the signs of
    other neumes, that a neume has a note, and what the signs settle. -/
structure Onward (n : Nat) (s s' : Score) : Prop where
  count : s'.neumes.size = s.neumes.size
  lists : s'.lists = s.lists
  before : ∀ w, (s'.word w).before = (s.word w).before
  syllables : s'.syllables = s.syllables
  place : ∀ m, (s'.neume m).syllable = (s.neume m).syllable
  signs : ∀ m ≠ n, (s'.neume m).signs = (s.neume m).signs
  hasNote : ∀ m, (s.neume m).hasNote = true → (s'.neume m).hasNote = true
  size : s.signs.size ≤ s'.signs.size
  settled : ∀ i < s.signs.size, (s.sign i).Settled (s'.sign i)

namespace Onward

theorem refl (s : Score) : Onward n s s :=
  ⟨rfl, rfl, fun _ => rfl, rfl, fun _ => rfl, fun _ _ => rfl, fun _ => id, le_rfl, fun _ _ => .refl _⟩

theorem trans (h : Onward n s s') (h' : Onward n s' s'') : Onward n s s'' :=
  ⟨h'.count.trans h.count, h'.lists.trans h.lists, fun w => (h'.before w).trans (h.before w),
    h'.syllables.trans h.syllables, fun m => (h'.place m).trans (h.place m),
    fun m hm => (h'.signs m hm).trans (h.signs m hm), fun m => h'.hasNote m ∘ h.hasNote m, h.size.trans h'.size,
    fun i hi => (h.settled i hi).trans (h'.settled i (hi.trans_le h.size))⟩

theorem of_spared (h : s.Spared s') : Onward n s s' :=
  ⟨h.count, lists_of_words h.words, fun w => by rw [Score.word, h.words, Score.word], h.syllables,
    fun m => (h.neume m).syllable, fun m _ => (h.neume m).signs, fun m => (h.neume m).hasNote, h.size.ge, fun i _ => h.sign i⟩

theorem of_dressed (h : s.Dressed s') : Onward n s s' :=
  ⟨h.neumeCount, lists_of_words h.words, fun w => by rw [Score.word, h.words, Score.word], h.syllables,
    fun m => (h.neume m).syllable, fun m _ => (h.neume m).signs, fun m => (h.neume m).hasNote, h.signCount.ge,
    fun i _ => (h.sign i).settled⟩

theorem changeSigns (s : Score) (n : Nat) (g : List Nat → List Nat) :
    Onward n s { s with neumes := s.neumes.modify n fun u => { u with signs := g u.signs } } := by
  have hneume : ∀ m, ({ s with neumes := s.neumes.modify n fun u => { u with signs := g u.signs } } : Score).neume m =
      { s.neume m with signs := if n = m ∧ m < s.neumes.size then g (s.neume m).signs else (s.neume m).signs } := by
    intro m
    rw [neume_modify]
    split <;> rfl
  refine ⟨by simp, rfl, fun _ => rfl, rfl, fun m => by rw [hneume], fun m hm => ?_, fun m => by rw [hneume]; exact id,
    le_rfl, fun _ _ => .refl _⟩
  rw [hneume, if_neg fun heq => hm heq.1.symm]

theorem changeClef (s : Score) (w i : Nat) : Onward n s { s with words := s.words.modify w ({ · with clef := some i }) } := by
  have hword : ∀ v, (({ s with words := s.words.modify w ({ · with clef := some i }) } : Score).word v).syllables = (s.word v).syllables ∧
      (({ s with words := s.words.modify w ({ · with clef := some i }) } : Score).word v).before = (s.word v).before := by
    intro v
    rw [word_modify]
    split <;> exact ⟨rfl, rfl⟩
  exact ⟨rfl, funext fun v => (hword v).1, fun v => (hword v).2, rfl, fun _ => rfl, fun _ _ => rfl, fun _ => id, le_rfl,
    fun _ _ => .refl _⟩

end Onward

end Score

namespace Act

/-! ## A new sign -/

/-- The sign `i` is new since `s₀`, in the neume `n`, and has the figure `f`. It comes behind `place`;
    or, if `out`, the last sign of the neume has gone for it, and it comes behind the one before `place`.
    No slur has come in with it. -/
structure New (s₀ : Score) (n : Nat) (place : Option Nat) (i : Nat) (out : Bool) (f : Figure) (s : Score) : Prop where
  index : i = s₀.signs.size
  fresh : i < s.signs.size
  figure : (s.sign i).figure = f
  neume : (s.sign i).neume = n
  before : (s.sign i).before = if out then place.bind fun j => (s₀.sign j).before else place
  there : n < s.neumes.size
  signs : (s.neume n).signs = if out then (s₀.neume n).signs.dropLast else (s₀.neume n).signs
  onward : s₀.Onward n s
  slurs : ∀ j, slursIn (s₀.sign j).lily = [] → slursIn (s.sign j).lily = []

variable {s s' s₀ : Score} {n i : Nat} {place : Option Nat} {out : Bool} {f : Figure} {code : String}

namespace New

variable (h : New s₀ n place i out f s)
include h

theorem spared (hs : s.Spared s') : New s₀ n place i out f s' :=
  ⟨h.index, hs.size ▸ h.fresh, (hs.sign i).figure.trans h.figure, (hs.sign i).neume.trans h.neume,
    (hs.sign i).before.trans h.before, hs.count ▸ h.there, (hs.neume n).signs.trans h.signs, h.onward.trans (.of_spared hs),
    fun j => hs.slurs j ∘ h.slurs j⟩

theorem changeClef (w : Nat) : New s₀ n place i out f { s with words := s.words.modify w ({ · with clef := some i }) } :=
  ⟨h.index, h.fresh, h.figure, h.neume, h.before, h.there, h.signs, h.onward.trans (.changeClef s w i), h.slurs⟩

theorem modified {g : Sign → Sign} (hg : ∀ x, (g x).lily = x.lily) :
    ({ s with signs := s.signs.modify i g } : Score).sign i = g (s.sign i) ∧ s₀.Onward n { s with signs := s.signs.modify i g } ∧
      ∀ j, slursIn (s₀.sign j).lily = [] → slursIn (({ s with signs := s.signs.modify i g } : Score).sign j).lily = [] := by
  refine ⟨by rw [Score.sign_modify, if_pos ⟨rfl, h.fresh⟩], ⟨h.onward.count, h.onward.lists, h.onward.before, h.onward.syllables,
    h.onward.place, h.onward.signs, h.onward.hasNote, by simpa using h.onward.size, fun m hm => ?_⟩, fun j hj => ?_⟩
  · rw [Score.sign_modify, if_neg (by rintro ⟨rfl, -⟩; exact hm.ne h.index)]
    exact h.onward.settled m hm
  · rw [Score.sign_modify, apply_ite Sign.lily, hg, ite_self]
    exact h.slurs j hj

theorem recode (code : String) : New s₀ n place i out (f.1, code) { s with signs := s.signs.modify i ({ · with code }) } := by
  obtain ⟨hsign, honward, hslurs⟩ := h.modified (g := ({ · with code })) fun _ => rfl
  refine ⟨h.index, by simpa using h.fresh, ?_, ?_, ?_, h.there, h.signs, honward, hslurs⟩ <;> rw [hsign]
  · rw [← h.figure]
    rfl
  · exact h.neume
  · exact h.before

end New

theorem ends_setBefore {Q : Unit → Score → Prop} {E : Fault → Score → Prop}
    (hQ : ∀ s', ({ s with signs := s.signs.modify i ({ · with before := place }) } : Score).Spared s' → Q () s') :
    Ends (setBefore i place) s Q E := by
  cases place with
  | none => exact hQ _ (.refl _)
  | some j => exact hQ _ (.changeSign _ j (fun _ => ⟨rfl, rfl, rfl, id⟩) fun _ => id)

theorem ends_takeOver {α : Type} {x : Act α} {place' : Option Nat} {Q : α → Score → Prop} {E : Fault → Score → Prop}
    (h : New s₀ n place i false f s) (hplace : place' = place.bind fun j => (s₀.sign j).before)
    (hx : ∀ s', New s₀ n place i true f s' → Ends x s' Q E) : Ends (do setBefore i place'; dropLast n; x) s Q E := by
  rw [ends_bind]
  refine ends_setBefore fun s₁ hs₁ => ?_
  rw [ends_bind]
  obtain ⟨hsign, honward, hslurs⟩ := h.modified (g := ({ · with before := place' })) fun _ => rfl
  have hi := hs₁.sign i
  rw [hsign] at hi
  have hthere : n < s₁.neumes.size := hs₁.count ▸ h.there
  refine (ends_modify _).mpr (hx _ ⟨h.index, by simpa [hs₁.size] using h.fresh, hi.figure.trans h.figure, hi.neume.trans h.neume,
    hi.before.trans hplace, by simpa using hthere, ?_, (honward.trans (.of_spared hs₁)).trans (.changeSigns s₁ n List.dropLast),
    fun j => hs₁.slurs j ∘ hslurs j⟩)
  rw [Score.neume_modify, if_pos ⟨rfl, hthere⟩, (hs₁.neume n).signs]
  exact congrArg List.dropLast h.signs

theorem ends_newSign (kind : Kind) (code : String) (place : Option Nat) (held : Option Accidentals) (hn : n < s.neumes.size) :
    Ends (makeSign kind code n place held) s (fun i => New s n place i false (kind, code)) fun e _ => e.Mild := by
  rw [makeSign, ends_bind, ends_get, ends_bind, ends_modify, ends_bind]
  set g : Sign := { kind, code, neume := n, before := none }
  have hsign : ({ s with signs := s.signs.push g } : Score).sign s.signs.size = g := by rw [Score.sign_push, if_pos rfl]
  have hpushed : New s n none s.signs.size false (kind, code) { s with signs := s.signs.push g } := by
    refine ⟨rfl, by simp, by rw [hsign]; rfl, by rw [hsign], by rw [hsign]; rfl, hn, rfl,
      ⟨rfl, rfl, fun _ => rfl, rfl, fun _ => rfl, fun _ _ => rfl, fun _ => id, by simp, fun m hm => ?_⟩, fun j hj => ?_⟩
    · rw [Score.sign_push, if_neg hm.ne]
      exact .refl _
    · rw [Score.sign_push]
      split
      · rfl
      · exact hj
  refine ends_setBefore fun s₁ hs₁ => ?_
  obtain ⟨hset, honward, hslurs⟩ := hpushed.modified (g := ({ · with before := place })) fun _ => rfl
  have hi := hs₁.sign s.signs.size
  rw [hset] at hi
  have h₁ : New s n place s.signs.size false (kind, code) s₁ :=
    ⟨rfl, by simp [hs₁.size], hi.figure.trans hpushed.figure, hi.neume.trans hpushed.neume, hi.before, hs₁.count ▸ hn,
      (hs₁.neume n).signs, honward.trans (.of_spared hs₁), fun j => hs₁.slurs j ∘ hslurs j⟩
  cases held with
  | none => exact h₁
  | some a =>
    rw [ends_bind, ends_get]
    split
    · exact (spares_setAccidentals _ a s₁).andThen (fun _ _ hs => h₁.spared hs) fun _ _ hs => hs.2
    · exact h₁

theorem upon_newNote (kind : Kind) (code : String) (place : Option Nat) (held : Option Accidentals) (hn : n < s.neumes.size) :
    Upon (makeNote kind code n place held) s fun i => New s n place i false (kind, code) := by
  rw [makeNote]
  refine (ends_newSign kind code place held hn).andThen (fun i s₁ h₁ => ?_) fun _ _ _ => trivial
  refine (spares_soundNote i code s₁).andThen (fun _ s₂ hs₂ => ?_) fun _ _ _ => trivial
  exact (spares_enterElement (E := fun _ => True) n i s₂).andThen (fun _ _ hs₃ => (h₁.spared hs₂).spared hs₃) fun _ _ _ => trivial

/-! ## The makers -/

/-- The new sign comes as the letter has it. -/
def Made (s₀ : Score) (n : Nat) (place : Option Nat) (c : Char) (i : Nat) (s : Score) : Prop :=
  ∃ out f, Brings (place.map fun j => (s₀.sign j).figure) c out f ∧ New s₀ n place i out f s

section Makers

variable {c : Char} {held : Option Accidentals} {Q : Nat → Score → Prop} {E : Fault → Prop}

theorem Made.spared (h : Made s₀ n place c i s) (hs : s.Spared s') : Made s₀ n place c i s' := by
  obtain ⟨out, f, hbrings, h⟩ := h
  exact ⟨out, f, hbrings, h.spared hs⟩

variable (hplace : ∀ j ∈ place, j < s.signs.size) (hE : ∀ e : Fault, e.Mild → E e)
include hplace hE

theorem ends_newSpecial (hc : Kind.ofLetter? c = some .special)
    (hnote : ∀ j ∈ place, Ends (makeNote .special (s.sign j).code n place held) s
      (fun i => New s n place i false (.special, (s.sign j).code)) fun e _ => E e) :
    Ends (makeSpecial (String.singleton c) n place held) s (Made s n place c) fun e _ => E e := by
  rw [makeSpecial]
  refine ends_need_bind (fun j hj => ?_) (hE _ (by rintro ⟨⟩))
  subst hj
  rw [ends_sign]
  refine (hnote j rfl).seq fun i s₁ h₁ => ?_
  have hon := h₁.onward.settled _ (hplace j rfl)
  have hfigure : (some j).map (fun j => (s.sign j).figure) = some (s₁.sign j).figure := congrArg some hon.figure.symm
  have hbefore : (s₁.sign j).before = (some j).bind fun j => (s.sign j).before := hon.before
  rw [ends_sign]
  generalize s₁.sign j = on at hfigure hbefore ⊢
  dsimp only
  split
  next hkind => exact ⟨_, _, .onSpecial hc (by rw [hfigure, Sign.figure, hkind]), h₁.recode _⟩
  next hkind =>
    have hend : ∀ s₂, New s n (some j) i false (.special, on.code ++ String.singleton c) s₂ →
        Ends (do setBefore i on.before; dropLast n; return i) s₂ (Made s n (some j) c) fun e _ => E e := fun s₂ h₂ =>
      ends_takeOver h₂ hbefore fun s₃ h₃ => ⟨_, _, .onNote hc (by rw [hfigure, Sign.figure, hkind]), h₃⟩
    rw [ends_bind]
    refine (ends_modify _).mpr ?_
    have h₂ := h₁.recode (on.code ++ String.singleton c)
    split
    · exact (spares_openElement (E := Fault.Mild) i _).andThen (fun _ s₃ hs₃ => hend s₃ (h₂.spared hs₃)) fun _ _ hs₃ => hE _ hs₃.2
    · exact hend _ h₂
  next => exact hE _ (by rintro ⟨⟩)

variable (hn : n < s.neumes.size)
include hn

theorem ends_newAccidental (hc : Kind.ofLetter? c = some .accidental) :
    Ends (makeAccidental (String.singleton c) n place held) s (Made s n place c) fun e _ => E e := by
  rw [makeAccidental]
  refine (ends_newSign .accidental _ place held hn).andThen (fun i s₁ h₁ => ?_) fun _ _ => hE _
  refine ends_need_bind (fun j hj => ?_) (hE _ (by rintro ⟨⟩))
  subst hj
  have hon := h₁.onward.settled _ (hplace j rfl)
  have hend : ∀ s₂, New s n (some j) i false (.accidental, (s.sign j).code ++ String.singleton c) s₂ →
      Ends (do setBefore i (← sign j).before; dropLast n; return i) s₂ (Made s n (some j) c) fun e _ => E e := by
    intro s₂ h₂
    rw [ends_bind]
    exact (Gives.ends (x := sign j) rfl).mpr (ends_takeOver h₂ (h₂.onward.settled _ (hplace j rfl)).before fun s₃ h₃ =>
      ⟨_, _, .altered (f := (s.sign j).figure) hc rfl, h₃⟩)
  rw [ends_sign, ends_bind, show (s₁.sign j).code = (s.sign j).code from congrArg Prod.snd hon.figure]
  refine (ends_modify _).mpr ?_
  have h₂ := h₁.recode ((s.sign j).code ++ String.singleton c)
  rw [ends_bind, ends_get]
  refine ends_need_bind (fun opens _ => ?_) (hE _ (by rintro ⟨⟩))
  split
  · rw [ends_bind]
    exact (ends_modify _).mpr (hend _ (h₂.spared (.changeNeume _ n fun _ => ⟨rfl, rfl, id⟩)))
  · exact hend _ h₂

theorem ends_newCustos (hc : Kind.ofLetter? c = some .custos) :
    Ends (makeCustos (String.singleton c) n place held) s (Made s n place c) fun e _ => E e := by
  rw [makeCustos]
  refine (ends_newSign .custos _ place held hn).andThen (fun i s₁ h₁ => ?_) fun _ _ => hE _
  refine ends_need_bind (fun j hj => ?_) (hE _ (by rintro ⟨⟩))
  subst hj
  rw [ends_bind]
  exact (Gives.ends (x := sign j) rfl).mpr (ends_takeOver h₁ (h₁.onward.settled _ (hplace j rfl)).before fun s₂ h₂ =>
    ⟨_, _, .custos hc rfl, h₂⟩)

theorem ends_newBar (hc : Kind.ofLetter? c = some .bar)
    (hrest : ∀ i s', Made s n place c i s' → Ends (restBefore i) s' (fun _ => Q i) fun e _ => E e) :
    Ends (makeBar (String.singleton c) n place held) s Q fun e _ => E e := by
  rw [makeBar]
  refine (ends_newSign .bar _ place held hn).andThen (fun i s₁ h₁ => ?_) fun _ _ => hE _
  have hend : ∀ s₂, Made s n place c i s₂ → Ends (do endElement i; restBefore i; return i) s₂ Q fun e _ => E e := by
    refine fun s₂ h₂ => (Always.endElement (R := Score.Spared) i s₂).andThen (fun _ s₃ hs₃ => ?_) fun _ _ hs₃ => hE _ hs₃.2
    rw [ends_bind]
    exact hrest i s₃ (h₂.spared hs₃)
  dsimp only
  split
  next j =>
    have hon := h₁.onward.settled _ (hplace j rfl)
    have hfigure : (some j).map (fun j => (s.sign j).figure) = some (s₁.sign j).figure := congrArg some hon.figure.symm
    have hbefore : (s₁.sign j).before = (some j).bind fun j => (s.sign j).before := hon.before
    rw [ends_sign]
    generalize s₁.sign j = on at hfigure hbefore ⊢
    split
    next hkind =>
      split
      next hcolon =>
        rw [Bool.and_eq_true, decide_eq_true_eq, decide_eq_true_eq] at hcolon
        rw [ends_bind]
        exact (ends_modify _).mpr (ends_takeOver (h₁.recode "::") hbefore fun s₃ h₃ => hend s₃
          ⟨_, _, .doubleBar hc (by rw [hfigure, Sign.figure, hkind, hcolon.1]) (by simpa using congrArg String.toList hcolon.2), h₃⟩)
      next => exact hE _ (by rintro ⟨⟩)
    next hkind =>
      refine hend s₁ ⟨_, _, .behind hc (by decide) fun _ code heq => hkind ?_, h₁⟩
      rw [hfigure, Sign.figure, Option.some_inj, Prod.mk.injEq] at heq
      exact heq.1
  next => exact hend s₁ ⟨_, _, .behind hc (by decide) (by rintro _ _ ⟨⟩), h₁⟩

theorem ends_newOf {kind : Kind} (hc : Kind.ofLetter? c = some kind)
    (hnote : ∀ kind code, kind.sounds = true → (code = String.singleton c ∨ ∃ j ∈ place, code = (s.sign j).code) →
      Ends (makeNote kind code n place held) s (fun i => New s n place i false (kind, code)) fun e _ => E e)
    (hrest : kind = .bar → ∀ i s', Made s n place c i s' → Ends (restBefore i) s' (fun _ => Q i) fun e _ => E e)
    (hQ : kind ≠ .bar → ∀ i s', Made s n place c i s' → Q i s') :
    Ends (makeOf kind (String.singleton c) n place held) s Q fun e _ => E e := by
  by_cases hbar : kind = .bar
  · subst hbar
    exact ends_newBar hplace hE hn hc (hrest rfl)
  refine Ends.mono (Q := Made s n place c) (E := fun e _ => E e) ?_ (hQ hbar) fun _ _ => id
  have hlone : kind ∉ [.special, .accidental, .custos] → ∀ i s', New s n place i false (kind, String.singleton c) s' → Made s n place c i s' :=
    fun hkind i s' h' => ⟨_, _, .behind hc hkind fun h => absurd h hbar, h'⟩
  have hsign : kind ∉ [.special, .accidental, .custos] →
      Ends (makeSign kind (String.singleton c) n place held) s (Made s n place c) fun e _ => E e := fun hkind =>
    (ends_newSign kind _ place held hn).mono (hlone hkind) fun _ _ => hE _
  cases kind with
  | note => exact (hnote .note _ rfl (.inl rfl)).mono (hlone (by decide)) fun _ _ => id
  | special => exact ends_newSpecial hplace hE hc fun j hj => hnote _ _ rfl (.inr ⟨j, hj, rfl⟩)
  | rhythm =>
    rw [makeOf, makeRhythm]
    refine (ends_newSign .rhythm _ place held hn).andThen (fun i s₁ h₁ => ?_) fun _ _ => hE _
    refine ends_need_bind (fun nuance _ => ?_) (hE _ (by rintro ⟨⟩))
    exact (Always.orIfMissing (R := Score.Spared) (.applyNuance _ _) (Spares.remark _) s₁).andThen
      (fun _ s₂ hs₂ => hlone (by decide) i s₂ (h₁.spared hs₂)) fun _ _ hs₂ => hE _ hs₂.2
  | bar => exact absurd rfl hbar
  | accidental => exact ends_newAccidental hplace hE hn hc
  | custos => exact ends_newCustos hplace hE hn hc
  | cut =>
    rw [makeOf]
    refine (ends_newSign .cut _ place held hn).andThen (fun i s₁ h₁ => ?_) fun _ _ => hE _
    exact (Always.endElement (R := Score.Spared) i s₁).andThen (fun _ s₂ hs₂ => hlone (by decide) i s₂ (h₁.spared hs₂)) fun _ _ hs₂ => hE _ hs₂.2
  | lineEnd => exact hsign (by decide)
  | caesura => exact hsign (by decide)
  | clef => exact hsign (by decide)

end Makers

/-! ## Codes -/

/-- The neume has these figures, and the words have the syllables `l`. -/
structure Shows (n : Nat) (l : Nat → List Nat) (row : List Figure) (s : Score) : Prop where
  there : n < s.neumes.size
  lists : s.lists = l
  members : ∀ j ∈ (s.neume n).signs, j < s.signs.size
  figures : s.figures n = row

variable {l : Nat → List Nat} {row : List Figure}

theorem shows_empty (hn : n < s.neumes.size) (hempty : (s.neume n).signs = []) : Shows n s.lists [] s := by
  refine ⟨hn, rfl, ?_, ?_⟩
  · rw [hempty]
    exact fun j hj => absurd hj not_mem_nil
  · rw [Score.figures, hempty, map_nil]

section Shows

variable (h : Shows n l row s)
include h

theorem Shows.last : ((s.neume n).signs.getLast?.map fun j => (s.sign j).figure) = row.getLast? := by
  rw [← h.figures, Score.figures, List.getLast?_map]

theorem upon_showSign (hnew : New s n place i out f s') :
    Upon (appendSign n i) s' fun _ => Shows n l ((if out then row.dropLast else row) ++ [f]) := by
  have hneume : ({ s' with neumes := s'.neumes.modify n fun u => { u with signs := u.signs ++ [i] } } : Score).neume n =
      { s'.neume n with signs := (s'.neume n).signs ++ [i] } := by
    rw [Score.neume_modify, if_pos ⟨rfl, hnew.there⟩]
  have hold : ∀ j ∈ (s'.neume n).signs, j < s.signs.size := by
    rw [hnew.signs]
    split
    · exact fun j hj => h.members j (mem_of_mem_dropLast hj)
    · exact h.members
  refine ⟨by simpa using hnew.there, hnew.onward.lists.trans h.lists, ?_, ?_⟩
  · rw [hneume, forall_mem_append, forall_mem_singleton]
    exact ⟨fun j hj => (hold j hj).trans_le hnew.onward.size, hnew.fresh⟩
  · rw [Score.figures, hneume, map_append, ← hnew.figure, ← h.figures, Score.figures, ← map_dropLast, ← apply_ite (List.map _), ← hnew.signs]
    exact congrArg (· ++ _) (map_congr_left fun j hj => (hnew.onward.settled j (hold j hj)).figure)

theorem upon_makeLetter {c : Char} {kind : Kind} (hc : Kind.ofLetter? c = some kind) (held : Option Accidentals) :
    Upon (makeOf kind (String.singleton c) n (s.neume n).signs.getLast? held) s (Made s n (s.neume n).signs.getLast? c) :=
  ends_newOf (E := fun _ => True) (fun j hj => h.members j (mem_of_getLast? hj)) (fun _ _ => trivial) h.there hc
    (fun kind code _ _ => upon_newNote kind code _ held h.there)
    (fun _ i s₁ h₁ => (Always.restBefore (R := Score.Spared) i s₁).mono (fun _ _ => h₁.spared) fun _ _ _ => trivial) fun _ _ _ => id

theorem upon_showLetter (c : Char) : Upon (addLetter n c) s fun _ => Shows n l (enter row c) := by
  unfold addLetter
  split
  next hc =>
    rw [enter, hc]
    exact h
  next kind hc =>
    rw [Upon, ends_neume]
    refine (upon_makeLetter h hc _).seq fun i s₁ h₁ => ?_
    obtain ⟨out, f, hbrings, h₁⟩ := h₁
    rw [enter_of_brings (h.last ▸ hbrings)]
    exact upon_showSign h h₁

theorem upon_showFrame : Upon (frameNeume n) s fun _ => Shows n l row := by
  refine (dresses_frameNeume n s).mono (fun _ s₁ hs => ?_) fun _ _ _ => trivial
  refine ⟨hs.neumeCount ▸ h.there, (Score.lists_of_words hs.words).trans h.lists, ?_, ?_⟩
  · rw [(hs.neume n).signs, hs.signCount]
    exact h.members
  · rw [Score.figures, (hs.neume n).signs, ← h.figures, Score.figures]
    exact map_congr_left fun j _ => (hs.sign j).settled.figure

theorem upon_showEach {x : Char → Act Unit} (hx : ∀ {row s} (c : Char), Shows n l row s → Upon (x c) s fun _ => Shows n l (enter row c))
    (letters : List Char) : Upon (letters.forM x) s fun _ => Shows n l (letters.foldl enter row) := by
  induction letters generalizing s row with
  | nil => exact h
  | cons c rest ih =>
    show Upon (x c >>= fun _ => rest.forM x) s _
    rw [Upon]
    exact (hx c h).seq fun _ s₁ h₁ => ih h₁

theorem upon_showLetters (letters : List Char) : Upon (readLetters n letters) s fun _ => Shows n l (letters.foldl enter row) := by
  rw [readLetters, Upon]
  exact (upon_showEach h (fun c h => upon_showLetter h c) letters).seq fun _ s₁ h₁ => upon_showFrame h₁

theorem upon_showClef (code : String) : Upon (addClef n code) s fun _ => Shows n l (row ++ [(.clef, code)]) := by
  rw [addClef, Upon]
  refine (ends_newSign .clef code none none h.there).andThen (fun i s₁ h₁ => ?_) fun _ _ _ => trivial
  rw [ends_bind, ends_get, ends_neume, ends_bind]
  exact (ends_modify _).mpr (upon_showSign h (h₁.changeClef _))

end Shows

theorem upon_readFigures (code : String) (h : Shows n l [] s) : Upon (readCode n code) s fun _ => Shows n l (figuresOf code) := by
  have hone : ∀ {row s} (c : Char), Shows n l row s → Upon (readLetters n [c]) s fun _ => Shows n l (enter row c) :=
    fun c h => upon_showLetters h [c]
  unfold readCode figuresOf
  generalize clefMatcher.split code = around
  cases clefMatcher.texts? code with
  | none => exact upon_showLetters h _
  | some groups =>
    dsimp only
    rw [Upon]
    refine (upon_showEach h hone _).seq fun _ s₁ h₁ => ?_
    refine (upon_showClef h₁ _).seq fun _ s₂ h₂ => ?_
    exact (upon_showEach h₂ hone _).seq fun _ s₃ h₃ => upon_showFrame h₃

end Act

end Plainsong.Chant
