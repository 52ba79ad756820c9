import Plainsong.Proofs.Chant.Growing
/- What building a score keeps. Every maker of a sign hands on a sign that is there,
   that is new, and that is complete (`Act.Makes`); so every letter, every syllable
   and every word lets the score grow. What every word keeps, the reading of a chant
   keeps (`Score.read_keeps`), and however it ends the score is whole
   (`Score.read_whole`). -/
namespace Plainsong.Chant

namespace Act

variable {b : Mark}

variable {E : Fault → Score → Prop} {i w : Nat} {before : Option Nat} {s s' : Score} {α β : Type}

theorem Grows.need (f : Datum.Fault) (o : Option α) : Grows b (Act.need f o) :=
  .of_dresses (E := fun _ => True) (.need trivial o)

theorem Grows.sign (i : Nat) : Grows b (Act.sign i) := .bind .get fun _ => .pure _

theorem Grows.neume (n : Nat) : Grows b (Act.neume n) := .bind .get fun _ => .pure _

theorem Grows.changeSign (hi : b.signs ≤ i) {f : Sign → Sign}
    (hc : ∀ g : Sign, g.Complete → (f g).Complete) (hd : ∀ g : Sign, (f g).duration = g.duration)
    (hp : ∀ g : Sign, (f g).pitch = g.pitch) : Grows b (Act.changeSign i f) :=
  fun _ _ => Score.Grown.changeSign hi (hc _) (fun hs d h => hs i d ((hd _).symm.trans h))
    fun hs p h => hs.pitches i p ((hp _).symm.trans h)

theorem grows_setBefore (i : Nat) (before : Option Nat) : Grows b (setBefore i before) :=
  .of_relinked (relinked_setBefore i before)

theorem grows_dropLast {n : Nat} (hn : b.neumes ≤ n) : Grows b (dropLast n) :=
  fun _ _ => Score.Grown.changeNeume hn (fun _ => rfl) fun _ _ hi => .inl (List.mem_of_mem_dropLast hi)

/-! ## New signs -/

theorem ends_makeSign (kind : Kind) (code : String) (n : Nat) (before : Option Nat) (held : Option Accidentals)
    (hb : b.In s) :
    Ends (makeSign kind code n before held) s
      (fun i s' => Score.Grown b s s' ∧ b.signs ≤ i ∧ i < s'.signs.size ∧ (s'.sign i).kind = kind ∧
        (s'.sign i).nuances = none ∧ (s'.sign i).abc = "" ∧ (s'.sign i).lily = "")
      (fun _ => Score.Grown b s) := by
  set g : Sign := { kind, code, neume := n, before := none }
  have hpush : Score.Grown b s { s with signs := s.signs.push g } := .pushSign hb rfl rfl
  rw [makeSign, ends_bind, ends_get, ends_bind, ends_modify]
  refine (relinked_setBefore _ _ _).andThen (fun _ s₁ h₁ => ?_) fun _ s₁ h₁ => hpush.trans h₁.1.grown
  have hnew : ∀ s', Relinked s₁ s' → Score.Grown b s s' ∧ b.signs ≤ s.signs.size ∧ s.signs.size < s'.signs.size ∧
      (s'.sign s.signs.size).kind = kind ∧ (s'.sign s.signs.size).nuances = none ∧ (s'.sign s.signs.size).abc = "" ∧
      (s'.sign s.signs.size).lily = "" := by
    intro s' h
    have hall := h₁.trans h
    obtain ⟨_, _, _, hi⟩ := hall.sign s.signs.size
    rw [Score.sign_push, if_pos rfl] at hi
    refine ⟨hpush.trans hall.grown, hb.signs, ?_, by rw [hi], by rw [hi], by rw [hi], by rw [hi]⟩
    rw [hall.size]
    simp
  cases held with
  | none => exact hnew s₁ (.refl s₁)
  | some a =>
    rw [ends_bind, ends_get]
    split
    · exact (relinked_setAccidentals _ _ _).andThen (fun _ s' h => hnew s' h) fun _ s' h => (hnew s' h.1).1
    · exact hnew s₁ (.refl s₁)

/-- The act makes a new sign that is complete. -/
abbrev Makes (b : Mark) (x : Act Nat) : Prop :=
  ∀ s, b.In s → Ends x s
    (fun i s' => Score.Grown b s s' ∧ b.signs ≤ i ∧ i < s'.signs.size ∧ (s'.sign i).Complete)
    (fun _ => Score.Grown b s)

theorem makes_makeSign {kind : Kind} (hk : kind.sounds = false) (code : String) (n : Nat) (before : Option Nat)
    (held : Option Accidentals) : Makes b (makeSign kind code n before held) := by
  intro s hb
  refine (ends_makeSign kind code n before held hb).mono (fun i s' h => ?_) fun _ _ h => h
  obtain ⟨hg, hnew, hi, hkind, -, habc, hlily⟩ := h
  rw [← hkind] at hk
  exact ⟨hg, hnew, hi, ⟨fun hs => absurd (hk.symm.trans hs) (by decide), fun _ => ⟨0, by rw [habc]; rfl⟩,
    fun hs => absurd (hk.symm.trans hs) (by decide), fun _ => by rw [hlily]; exact .self []⟩⟩

theorem ends_changeUnfinished {g : Sign} {f : Sign → Sign} {Q : Unit → Score → Prop}
    (h : Score.Grown b s s') (hnew : b.signs ≤ i) (hi : i < s'.signs.size)
    (hg : s'.sign i = g) (hs : g.kind.sounds = true) (hn : g.nuances = none)
    (hd : ∀ d, (f g).duration = some d → g.duration = some d ∨ Lasts d)
    (hp : ∀ p, (f g).pitch = some p → g.pitch = some p ∨ (s'.Tempered → InRange p))
    (hQ : ∀ s'', Score.Grown b s s'' → i < s''.signs.size → s''.sign i = f g → Q () s'') :
    Ends (changeSign i f) s' Q E := by
  subst hg
  refine hQ _ (h.trans (.changeSign hnew (fun hc => absurd hc (Sign.not_complete_of_unfinished hs hn))
    (fun hl d hd' => (hd d hd').elim (hl i d) id) fun ht p hp' => (hp p hp').elim (ht.pitches i p) (· ht))) ?_ ?_
  · simpa using hi
  · rw [Score.sign_modify, if_pos ⟨rfl, hi⟩]

theorem inRange_of_letterNote? {clef : String} {letter : Char} {place : String × Int} (h : letterNote? clef letter = some place) :
    53 ≤ place.2 ∧ place.2 ≤ 88 := by
  obtain ⟨offset, hoffset, h⟩ := Option.bind_eq_some_iff.mp h
  obtain ⟨i, hi, h⟩ := Option.bind_eq_some_iff.mp h
  cases h
  have hi : i < 13 := (List.findIdx?_eq_some_iff_findIdx_eq.mp hi).1
  have hall : ∀ clef ∈ ["c4", "c3", "c2", "c1", "f4", "f3", "f2", "f1"], ∀ offset ∈ clefOffset? clef, ∀ i < 13,
      53 ≤ (placeNote clef offset i).2 ∧ (placeNote clef offset i).2 ≤ 88 := by decide
  have hclef : clef ∈ ["c4", "c3", "c2", "c1", "f4", "f3", "f2", "f1"] := by
    unfold clefOffset? at hoffset
    split at hoffset <;> first | decide | cases hoffset
  exact hall clef hclef offset hoffset i hi

theorem upon_bind {x : Act α} {f : α → Act β} {Q : β → Score → Prop} (h : ∀ a s', Upon (f a) s' Q) :
    Upon (x >>= f) s Q := by
  rw [Upon, ends_bind, Ends]
  split
  · exact h _ _
  · trivial

theorem upon_pitchOf_inRange (i : Nat) (code : String) (s : Score) :
    Upon (pitchOf i code) s fun p s' => s'.Tempered → InRange p := by
  refine upon_bind fun clef _ => upon_bind fun held _ => upon_bind fun clef _ => upon_bind fun _ _ => upon_bind fun letter s₁ => ?_
  rw [Upon]
  refine ends_need_bind (fun place hplace => ?_) trivial
  have hheight := inRange_of_letterNote? hplace
  cases held with
  | loose d => trivial
  | table n =>
    rw [ends_bind, accidentalAt, ends_bind, ends_get]
    refine ends_need (fun altered haltered => ?_) trivial
    have hrange : s₁.Tempered → InRange (place.2 + altered) := by
      intro h
      have := h.tables n _ altered haltered
      constructor <;> omega
    dsimp only
    split
    · exact fun h => hrange ⟨h.tables, h.pitches⟩
    · exact hrange

theorem ends_soundNote (code : String) {s₁ : Score} (hg₁ : Score.Grown b s s₁) (hnew : b.signs ≤ i)
    (hi₁ : i < s₁.signs.size) (hs : (s₁.sign i).kind.sounds = true) (hn : (s₁.sign i).nuances = none) :
    Ends (soundNote i code) s₁
      (fun _ s' => Score.Grown b s s' ∧ i < s'.signs.size ∧ (s'.sign i).Complete) (fun _ => Score.Grown b s) := by
  rw [soundNote]
  refine ((Quietly.pitchOf _ code s₁).and (upon_pitchOf_inRange _ code s₁)).andThen (fun pitch s₂ h₂ => ?_) fun _ _ h => hg₁.trans h.1.1.grown
  obtain ⟨h₂, hrange⟩ := h₂
  have hi₂ : i < s₂.signs.size := by rwa [h₂.signs]
  rw [← h₂.sign] at hs hn
  rw [ends_bind]
  refine ends_changeUnfinished (hg₁.trans h₂.grown) hnew hi₂ rfl hs hn
    (fun d h => .inr (by cases h; exact le_refl (1 : Int))) (fun p h => .inr (by cases h; exact hrange))
    fun s₃ hg₃ hi₃ hsign₃ => ?_
  refine ends_need_bind (fun lily hlily => ?_) hg₃
  rw [ends_bind]
  refine ends_changeUnfinished hg₃ hnew hi₃ hsign₃ hs hn (fun d h => .inl h) (fun p h => .inl h) fun s₄ hg₄ hi₄ hsign₄ => ?_
  refine ends_need_bind (fun abc habc => ?_) hg₄
  refine ends_changeUnfinished hg₄ hnew hi₄ hsign₄ hs hn (fun d h => .inl h) (fun p h => .inl h) fun s₅ hg₅ hi₅ hsign₅ => ?_
  refine ⟨hg₅, hi₅, ?_⟩
  rw [hsign₅]
  exact ⟨fun _ => ⟨rfl, rfl, pitch, abc, 0, rfl, habc, by simp⟩, fun h => absurd (hs.symm.trans h) (by decide),
    fun _ => ⟨pitch, lily, rfl, hlily, .self _⟩, fun h => absurd (hs.symm.trans h) (by decide)⟩

theorem grows_enterElement (n : Nat) (hi : b.signs ≤ i) : Grows b (enterElement n i) := by
  refine .bind (.of_dresses (Dresses.changeNeume fun _ => ⟨rfl, rfl, rfl, fun _ => rfl⟩)) fun _ => .bind (.neume n) fun u => ?_
  have hmark : ∀ c, Grows b (changeSign i ({ · with opensElement := some c })) :=
    fun c => .changeSign hi (fun _ hc => ⟨hc.sound, hc.silent, hc.named, hc.nameless⟩) (fun _ => rfl) fun _ => rfl
  dsimp only
  split
  · exact .bind (.of_dresses (dresses_openElement i)) fun _ => hmark _
  · exact hmark _

theorem makes_makeNote {kind : Kind} (hk : kind.sounds = true) (code : String) (n : Nat) (before : Option Nat) (held : Option Accidentals) :
    Makes b (makeNote kind code n before held) := by
  intro s hb
  rw [makeNote]
  refine (ends_makeSign kind code n before held hb).seq fun i s₁ h => ?_
  obtain ⟨hg₁, hnew, hi₁, hkind, hn, -, -⟩ := h
  refine (ends_soundNote code hg₁ hnew hi₁ (by rwa [hkind]) hn).seq fun _ s₂ h => ?_
  obtain ⟨hg₂, hi₂, hc⟩ := h
  refine (grows_enterElement n hnew s₂ (hg₂.markIn hb)).andThen (fun _ s' h => ?_) fun _ _ h => hg₂.trans h
  exact ⟨hg₂.trans h, hnew, hi₂.trans_le h.signCount, h.complete i hi₂ hc⟩

/-- The act lets the score grow and hands the sign `i` on. -/
abbrev HandsOn (b : Mark) (i : Nat) (x : Act Nat) : Prop :=
  ∀ s, b.In s → Ends x s (fun j s' => j = i ∧ Score.Grown b s s') (fun _ => Score.Grown b s)

theorem HandsOn.pure (i : Nat) : HandsOn b i (Pure.pure i) := fun s _ => ⟨rfl, .refl s⟩

theorem HandsOn.throw (f : Fault) : HandsOn b i (MonadExcept.throw f) := fun s _ => .refl s

theorem HandsOn.bind {x : Act α} {f : α → Act Nat} (hx : Grows b x)
    (hf : ∀ a, HandsOn b i (f a)) : HandsOn b i (x >>= f) := by
  intro s hb
  refine (hx s hb).seq fun a s₁ h => ?_
  exact (hf a s₁ (h.markIn hb)).mono (fun j s' h' => ⟨h'.1, h.trans h'.2⟩) fun _ s' h' => h.trans h'

theorem Makes.bind {x : Act Nat} {f : Nat → Act Nat} (hx : Makes b x) (hf : ∀ i, b.signs ≤ i → HandsOn b i (f i)) :
    Makes b (x >>= f) := by
  intro s hb
  refine (hx s hb).seq fun i s₁ h => ?_
  obtain ⟨hg, hnew, hi, hc⟩ := h
  refine (hf i hnew s₁ (hg.markIn hb)).mono (fun j s' h => ?_) fun _ s' h => hg.trans h
  obtain ⟨rfl, h⟩ := h
  exact ⟨hg.trans h, hnew, hi.trans_le h.signCount, h.complete j hi hc⟩

theorem Makes.afterGrowing {x : Act α} {f : α → Act Nat} (hx : Grows b x) (hf : ∀ a, Makes b (f a)) :
    Makes b (x >>= f) := by
  intro s hb
  refine (hx s hb).seq fun a s₁ h => ?_
  refine (hf a s₁ (h.markIn hb)).mono (fun i s' h' => ?_) fun _ s' h' => h.trans h'
  exact ⟨h.trans h'.1, h'.2⟩

/-! ## The makers -/

variable {n : Nat}

theorem grows_changeCode (hi : b.signs ≤ i) (code : String) : Grows b (changeSign i ({ · with code })) :=
  .changeSign hi (fun _ hc => ⟨hc.sound, hc.silent, hc.named, hc.nameless⟩) (fun _ => rfl) fun _ => rfl

theorem makes_makeSpecial (hn : b.neumes ≤ n) (letter : String) (before : Option Nat) (held : Option Accidentals) :
    Makes b (makeSpecial letter n before held) := by
  refine .afterGrowing (.need _ _) fun j => .afterGrowing (.sign j) fun g => .bind (makes_makeNote rfl _ _ _ _)
    fun i hi => .bind (.sign j) fun on => ?_
  dsimp only
  split
  · exact .bind (grows_changeCode hi _) fun _ => .pure i
  · have hend : HandsOn b i (do setBefore i on.before; dropLast n; return i) :=
      .bind (grows_setBefore _ _) fun _ => .bind (grows_dropLast hn) fun _ => .pure i
    refine .bind (grows_changeCode hi _) fun _ => ?_
    split
    · exact .bind (.of_dresses (dresses_openElement i)) fun _ => hend
    · exact hend
  · exact .throw _

theorem makes_makeAccidental (hn : b.neumes ≤ n) (letter : String) (before : Option Nat)
    (held : Option Accidentals) : Makes b (makeAccidental letter n before held) := by
  refine .bind (makes_makeSign rfl _ _ _ _) fun i hi => .bind (.need _ _) fun j => .bind (.sign j) fun g =>
    .bind (grows_changeCode hi _) fun _ => .bind .get fun s => .bind (.need _ _) fun opens => ?_
  have hend : HandsOn b i (do setBefore i (← sign j).before; dropLast n; return i) :=
    .bind (.sign j) fun _ => .bind (grows_setBefore _ _) fun _ => .bind (grows_dropLast hn) fun _ => .pure i
  dsimp only
  split
  · exact .bind (.of_dresses (Dresses.changeNeume fun _ => ⟨rfl, rfl, rfl, id⟩)) fun _ => hend
  · exact hend

theorem makes_makeBar (hn : b.neumes ≤ n) (letter : String) (before : Option Nat) (held : Option Accidentals) :
    Makes b (makeBar letter n before held) := by
  refine .bind (makes_makeSign rfl _ _ _ _) fun i hi => ?_
  have hend : HandsOn b i (do endElement i; restBefore i; return i) :=
    .bind (.of_dresses (.endElement i)) fun _ => .bind (.of_dresses (.restBefore i)) fun _ => .pure i
  dsimp only
  split
  next j =>
    refine .bind (.sign j) fun last => ?_
    split
    · split
      · exact .bind (grows_changeCode hi _) fun _ => .bind (grows_setBefore _ _) fun _ =>
          .bind (grows_dropLast hn) fun _ => hend
      · exact .throw _
    · exact hend
  next => exact hend

theorem makes_makeCustos (hn : b.neumes ≤ n) (letter : String) (before : Option Nat) (held : Option Accidentals) :
    Makes b (makeCustos letter n before held) :=
  .bind (makes_makeSign rfl _ _ _ _) fun i _ => .bind (.need _ _) fun j => .bind (.sign j) fun _ =>
    .bind (grows_setBefore _ _) fun _ => .bind (grows_dropLast hn) fun _ => .pure i

theorem makes_makeRhythm (letter : String) (before : Option Nat) (held : Option Accidentals) :
    Makes b (makeRhythm letter n before held) :=
  .bind (makes_makeSign rfl _ _ _ _) fun i _ => .bind (.need _ _) fun _ =>
    .bind (.of_dresses (.orIfMissing (.applyNuance _ _) (Dresses.remark _))) fun _ => .pure i

theorem makes_makeOf (hn : b.neumes ≤ n) (kind : Kind) (letter : String) (before : Option Nat)
    (held : Option Accidentals) : Makes b (makeOf kind letter n before held) := by
  cases kind with
  | note => exact makes_makeNote rfl _ _ _ _
  | special => exact makes_makeSpecial hn _ _ _
  | rhythm => exact makes_makeRhythm _ _ _
  | bar => exact makes_makeBar hn _ _ _
  | accidental => exact makes_makeAccidental hn _ _ _
  | custos => exact makes_makeCustos hn _ _ _
  | cut =>
    exact .bind (makes_makeSign rfl _ _ _ _) fun i _ => .bind (.of_dresses (.endElement i)) fun _ => .pure i
  | lineEnd => exact makes_makeSign rfl _ _ _ _
  | caesura => exact makes_makeSign rfl _ _ _ _
  | clef => exact makes_makeSign rfl _ _ _ _

/-! ## Neumes -/

theorem Grows.forM {l : List α} {f : α → Act Unit} (h : ∀ a, Grows b (f a)) : Grows b (l.forM f) := by
  induction l with
  | nil => exact .pure _
  | cons a l ih => exact .bind (h a) fun _ => ih

theorem grown_appendSign (hn : b.neumes ≤ n) (hi : i < s.signs.size)
    (hc : (s.sign i).Complete) : Within (Score.Grown b) (appendSign n i) s := by
  refine Score.Grown.changeNeume hn (fun _ => rfl) fun u j hj => ?_
  rcases List.mem_append.mp hj with hj | hj
  · exact .inl hj
  · obtain rfl := List.mem_singleton.mp hj
    exact .inr ⟨hi, hc⟩

theorem grows_addLetter (hn : b.neumes ≤ n) (c : Char) : Grows b (addLetter n c) := by
  unfold addLetter
  split
  · exact .pure _
  · refine .bind (.neume n) fun u s hb => ?_
    rw [Within]
    refine (makes_makeOf hn _ _ _ _ s hb).seq fun i s₁ h => ?_
    obtain ⟨hg, -, hi, hc⟩ := h
    exact (grown_appendSign hn hi hc).mono (fun _ _ => hg.trans) fun _ _ => hg.trans

theorem grows_readLetters (hn : b.neumes ≤ n) (letters : List Char) : Grows b (readLetters n letters) :=
  .bind (.forM (grows_addLetter hn)) fun _ => .of_dresses (dresses_frameNeume n)

/-- A neume above the mark, of a word above the mark. -/
structure Site (b : Mark) (n : Nat) (s : Score) : Prop where
  fresh : b.neumes ≤ n
  there : n < s.neumes.size
  syllable : (s.neume n).syllable < s.syllables.size
  word : b.words ≤ (s.syllable (s.neume n).syllable).word

theorem Site.grown (h : Site b n s) (hg : Score.Grown b s s') : Site b n s' where
  fresh := h.fresh
  there := h.there.trans_le hg.neumeCount
  syllable := by
    rw [hg.place n h.there]
    exact h.syllable.trans_le hg.syllableCount
  word := by
    rw [hg.place n h.there, (hg.syllable _ h.syllable).word]
    exact h.word

theorem grown_addClef (code : String) (hb : b.In s) (hsite : Site b n s) :
    Within (Score.Grown b) (addClef n code) s := by
  rw [Within, addClef]
  refine (makes_makeSign (show Kind.clef.sounds = false from rfl) code n none none s hb).seq fun i s₁ h => ?_
  obtain ⟨hg, -, hi, hc⟩ := h
  rw [ends_bind, ends_get, ends_neume, ends_bind]
  have h₂ : Within (Score.Grown b) (changeWord _ ({ · with clef := some i })) s₁ :=
    Score.Grown.changeWord (hsite.grown hg).word (fun _ => rfl) (fun _ h => absurd h (Option.some_ne_none i))
      fun _ j hj => .inr (by cases hj; exact hi)
  refine h₂.mono (fun _ s₂ h => ?_) fun _ _ => hg.trans
  have hg₂ := hg.trans h
  exact (grown_appendSign hsite.fresh (hi.trans_le h.signCount) (h.complete i hi hc)).mono
    (fun _ _ => hg₂.trans) fun _ _ => hg₂.trans

theorem grown_readCode (code : String) (hb : b.In s) (hsite : Site b n s) :
    Within (Score.Grown b) (readCode n code) s := by
  have hletters : ∀ l : List Char, Grows b (l.forM fun c => readLetters n [c]) :=
    fun l => .forM fun c => grows_readLetters hsite.fresh [c]
  have htrans : ∀ s₁ s₂ s₃ : Score, Score.Grown b s₁ s₂ → Score.Grown b s₂ s₃ → Score.Grown b s₁ s₃ :=
    fun _ _ _ => .trans
  unfold readCode
  split
  · exact grows_readLetters hsite.fresh _ s hb
  next groups _ =>
    generalize clefMatcher.split code = around
    dsimp only
    refine Within.bind htrans (hletters _ s hb) fun _ s₁ h₁ => ?_
    refine Within.bind htrans (grown_addClef _ (h₁.markIn hb) (hsite.grown h₁)) fun _ s₂ h₂ => ?_
    exact Grows.bind (hletters _) (fun _ => .of_dresses (dresses_frameNeume n)) s₂ (h₂.markIn (h₁.markIn hb))

/-! ## Syllables and words -/

theorem quietly_inheritedAccidentals (before : Option Nat) : Quietly (inheritedAccidentals before) :=
  .bind .get fun _ => .bind (.need trivial _) fun _ => .bind (.need trivial _) fun last =>
    .orIfMissing (.bind (Quietly.accidentalsOf last) fun _ => .pure _) (.pure _)

/-- Only texts under the notes have changed. -/
structure Relabelled (s s' : Score) : Prop where
  signs : s'.signs = s.signs
  neumes : s'.neumes = s.neumes
  tables : s'.tables = s.tables
  words : s'.words = s.words
  count : s'.syllables.size = s.syllables.size
  syllable : ∀ k, (s.syllable k).Alike (s'.syllable k)
  grown : ∀ b : Mark, Score.Grown b s s'

instance : IsPreorder Score Relabelled where
  refl _ := ⟨rfl, rfl, rfl, rfl, rfl, fun _ => .refl _, fun _ => .refl _⟩
  trans _ _ _ h h' := ⟨h'.signs.trans h.signs, h'.neumes.trans h.neumes, h'.tables.trans h.tables, h'.words.trans h.words,
    h'.count.trans h.count, fun k => (h.syllable k).trans (h'.syllable k), fun b => (h.grown b).trans (h'.grown b)⟩

theorem relabelled_settleText (k : Nat) : Always Relabelled (fun _ => False) (settleText k) := by
  have hset : ∀ k text, Always Relabelled (fun _ => False) (changeSyllable k ({ · with lilyText := text })) := by
    refine fun k text s => ⟨rfl, rfl, rfl, rfl, by simp, fun j => ?_, fun _ => .changeSyllable fun _ => ⟨rfl, rfl, rfl, rfl⟩⟩
    rw [Score.syllable_modify]
    split
    · exact ⟨rfl, rfl, rfl, rfl⟩
    · exact .refl _
  refine .bind .get fun s => ?_
  dsimp only
  split
  · split
    · exact .bind (hset _ _) fun _ => hset _ _
    · exact hset _ _
  · exact hset _ _

/-- The accidentals that a new neume takes over; the first one of a word takes over none. -/
def takeOver (first : Bool) (before : Option Nat) : Act (Option Accidentals) :=
  if first then return none else inheritedAccidentals before

theorem quietly_takeOver (first : Bool) (before : Option Nat) : Quietly (takeOver first before) := by
  unfold takeOver
  split
  · exact .pure _
  · exact quietly_inheritedAccidentals before

/-- Puts down the syllable `k` of the word `w`, with an empty neume `n`. -/
def openSyllable (k n w : Nat) (before : Option Nat) (text : String) (first : Bool) : Act Unit := do
  modify fun s => { s with syllables := s.syllables.push { word := w, text, before, neume := n } }
  let held ← takeOver first before
  modify fun s => { s with neumes := s.neumes.push { syllable := k, accidentals := held } }

/-- What is left to do for the syllable `k` when its code has been read. -/
def fileSyllable (w k : Nat) : Act Nat := do
  settleText k
  changeWord w fun v => { v with syllables := v.syllables ++ [k] }
  return k

theorem ends_addSyllable {text code : String} {Q : Nat → Score → Prop}
    (h : Ends (openSyllable s.syllables.size s.neumes.size w before text (s.word w).syllables.isEmpty) s
      (fun _ s₁ => Ends (readCode s.neumes.size code) s₁ (fun _ s₂ => Ends (fileSyllable w s.syllables.size) s₂ Q E) E) E) :
    Ends (addSyllable w before text code) s Q E := by
  have heq : addSyllable w before text code = (do
      let s ← get
      openSyllable s.syllables.size s.neumes.size w before text (s.word w).syllables.isEmpty
      readCode s.neumes.size code
      fileSyllable w s.syllables.size) := by
    simp only [addSyllable, openSyllable, takeOver, fileSyllable, bind_assoc]
    refine bind_congr fun s => bind_congr fun _ => ?_
    cases (s.word w).syllables.isEmpty <;> rfl
  rw [heq, ends_bind, ends_get]
  refine h.seq fun _ s₁ h₁ => ?_
  rwa [ends_bind]

/-- The score with a new syllable of the word `w` and an empty neume for it. -/
structure Opened (s : Score) (w : Nat) (before : Option Nat) (text : String) (held : Option Accidentals) (s' : Score) : Prop where
  grown : ∀ {b : Mark}, b.In s → Score.Grown b s s'
  signs : s'.signs = s.signs
  neumes : s'.neumes = s.neumes.push { syllable := s.syllables.size, accidentals := held }
  syllables : s'.syllables = s.syllables.push { word := w, text, before, neume := s.neumes.size }
  words : s'.words = s.words

theorem ends_openSyllable {text : String} {first : Bool} {P : Option Accidentals → Score → Prop} (h : Ends (takeOver first before)
      { s with syllables := s.syllables.push { word := w, text, before, neume := s.neumes.size } } P E) :
    Ends (openSyllable s.syllables.size s.neumes.size w before text first) s
      (fun _ s' => ∃ held s₁, P held s₁ ∧ s'.tables = s₁.tables ∧ Opened s w before text held s') E := by
  rw [openSyllable, ends_bind, ends_modify]
  refine (h.and (quietly_takeOver first before _)).andThen (fun held s₁ h₁ => ?_) fun _ _ he => he.1
  obtain ⟨hP, hquiet⟩ := h₁
  refine (ends_modify _).mpr ⟨held, s₁, hP, rfl, fun {b} hb => ?_, hquiet.signs, by rw [hquiet.neumes], hquiet.syllables,
    hquiet.words⟩
  have hg : Score.Grown b s s₁ := (Score.Grown.pushSyllable s _).trans hquiet.grown
  exact hg.trans (.pushNeume (hg.markIn hb) rfl)

theorem upon_openSyllable (w : Nat) (before : Option Nat) (text : String) (first : Bool) (s : Score) :
    Upon (openSyllable s.syllables.size s.neumes.size w before text first) s
      fun _ s' => ∃ held, Opened s w before text held s' :=
  (ends_openSyllable (P := fun _ _ => True) (Upon.of_prop trivial)).mono (fun _ _ ⟨held, _, _, _, h⟩ => ⟨held, h⟩) fun _ _ => id

namespace Opened

variable {s s' : Score} {w : Nat} {before : Option Nat} {text : String} {held : Option Accidentals}

theorem neume (h : Opened s w before text held s') (m : Nat) :
    s'.neume m = if m = s.neumes.size then { syllable := s.syllables.size, accidentals := held } else s.neume m := by
  rw [Score.neume, h.neumes]
  exact Score.neume_push s _ m

theorem syllable (h : Opened s w before text held s') (k : Nat) :
    s'.syllable k = if k = s.syllables.size then { word := w, text, before, neume := s.neumes.size } else s.syllable k := by
  rw [Score.syllable, h.syllables]
  exact Score.syllable_push s _ k

theorem site (h : Opened s w before text held s') (hneume : b.neumes ≤ s.neumes.size) (hw : b.words ≤ w) :
    Site b s.neumes.size s' := by
  refine ⟨hneume, by simp [h.neumes], ?_, ?_⟩
  · rw [h.neume, if_pos rfl, h.syllables]
    simp
  · rw [h.neume, if_pos rfl, h.syllable, if_pos rfl]
    exact hw

end Opened

theorem grows_addSyllable (hw : b.words ≤ w) (before : Option Nat) (text code : String) :
    Grows b (addSyllable w before text code) := by
  intro s hb
  have hopen : ∀ {first s₁}, Within (Score.Grown b) (takeOver first before) s₁ := (quietly_takeOver _ _ _).mono
    (fun _ _ h => h.grown) fun _ _ h => h.1.grown
  refine ends_addSyllable ((ends_openSyllable (P := fun _ _ => True) (E := fun _ => Score.Grown b s) ?_).mono (fun _ s₁ h₁ => ?_)
    fun _ _ h => h)
  · exact hopen.mono (fun _ _ _ => trivial) fun _ _ => (Score.Grown.pushSyllable s _).trans
  obtain ⟨held, -, -, -, h₁⟩ := h₁
  have hg₁ := h₁.grown hb
  refine (grown_readCode code (hg₁.markIn hb) (h₁.site hb.neumes hw)).mono (fun _ s₂ h₂ => ?_) fun _ _ => hg₁.trans
  have hg₂ := hg₁.trans h₂
  have hlast : Grows b (changeWord w fun v => { v with syllables := v.syllables ++ [s.syllables.size] }) :=
    fun _ _ => Score.Grown.changeWord hw (fun _ => rfl) (fun _ => id) fun _ _ => .inl
  exact (Grows.bind (fun s _ => ((relabelled_settleText _).imp fun _ _ h => h.grown b).within s) (fun _ => .bind hlast fun _ => .pure _) s₂
    (hg₂.markIn hb)).mono (fun _ _ => hg₂.trans) fun _ _ => hg₂.trans

theorem Grows.discard {x : Act α} (h : Grows b x) : Grows b (Functor.discard x) := by
  intro s hb
  rw [Within, ends_discard]
  exact h s hb

theorem grown_makeWord (syllables : List (String × String)) (hb : b.In s)
    (hbefore : s.Whole → ∀ v, before = some v → v < s.words.size) :
    Ends (makeWord before syllables) s
      (fun w s' => w = s.words.size ∧ Score.Grown b s s' ∧
        Score.Grown b { s with words := s.words.push { before } } s')
      (fun _ => Score.Grown b s) := by
  rw [makeWord, ends_bind, ends_get, ends_bind, ends_modify]
  have hg : Score.Grown b s { s with words := s.words.push { before } } := .pushWord hb rfl hbefore
  refine Ends.andThen ?_ (fun _ s' h => ⟨rfl, hg.trans h, h⟩) fun _ s' h => hg.trans h
  exact Grows.forM (fun _ => .bind .get fun _ => .discard (grows_addSyllable hb.words _ _ _)) _ (hg.markIn hb)

/-! ## The whole chant -/

/-- However the act ends, it keeps `I`. -/
abbrev Keeps (I : Score → Prop) {α : Type} (x : Act α) : Prop := ∀ s, I s → Ends x s (fun _ => I) fun _ => I

section Keeps

variable {I : Score → Prop}

theorem Keeps.bind {x : Act α} {f : α → Act β} (hx : Keeps I x) (hf : ∀ a, Keeps I (f a)) : Keeps I (x >>= f) := by
  intro s hs
  exact (hx s hs).seq fun a s' => hf a s'

theorem Keeps.need (f : Datum.Fault) (o : Option α) : Keeps I (Act.need f o) :=
  fun _ hs => ends_need (fun _ _ => hs) hs

theorem keeps_orIfOutOfRange {x y : Act α} (hx : Keeps I x) (hy : Keeps I y) : Keeps I (orIfOutOfRange x y) := by
  intro s hs
  rw [orIfOutOfRange, ends_tryCatch]
  refine (hx s hs).mono (fun _ _ => id) fun e s' hs' => ?_
  split
  · exact hy s' hs'
  · exact hs'

theorem keeps_addSyllables (h : ∀ l, Keeps I (addWord l)) (word rest : List (String × String)) :
    Keeps I (addSyllables word rest) := by
  induction rest generalizing word with
  | nil => exact .bind (fun _ => id) fun _ => .bind (.need _ _) fun _ => h _
  | cons item rest ih =>
    obtain ⟨text, code⟩ := item
    unfold addSyllables
    split
    · exact .bind (h _) fun _ => ih _
    · exact .bind (keeps_orIfOutOfRange (h _) (h _)) fun _ => ih _
    · exact ih _

theorem keeps_readBody (h : ∀ l, Keeps I (addWord l)) (body : String) : Keeps I (readBody body) := by
  unfold readBody
  generalize Source.syllables? body = items
  exact .bind (.need _ _) fun _ => keeps_addSyllables h _ _

end Keeps

theorem ends_addWord (syllables : List (String × String)) (hs : s.Whole) : Ends (addWord syllables) s
      (fun _ s' => ∃ s₁, Gives (makeWord s.text.getLast? syllables) s s.words.size s₁ ∧ Score.Grown s.mark s s₁ ∧
        Score.Grown s.mark { s with words := s.words.push { before := s.text.getLast? } } s₁ ∧
        s' = { s₁ with text := s.text ++ [s.words.size] })
      (fun _ => Score.Grown s.mark s) := by
  have hlast : ∀ v, s.text.getLast? = some v → v < s.words.size :=
    fun v hv => hs.text v (List.mem_of_getLast? hv)
  rw [addWord, ends_bind, ends_get, ends_bind]
  have hword := grown_makeWord syllables s.mark_in fun _ => hlast
  rw [Ends] at hword ⊢
  generalize hrun : (makeWord s.text.getLast? syllables).run.run s = r at hword ⊢
  obtain ⟨r, s₁⟩ := r
  cases r with
  | ok w =>
    obtain ⟨rfl, hg, hpushed⟩ := hword
    exact ⟨s₁, hrun, hg, hpushed, by rw [← hg.text]⟩
  | error f => exact hword

theorem keeps_whole_addWord (syllables : List (String × String)) : Keeps Score.Whole (addWord syllables) := by
  intro s hs
  refine (ends_addWord syllables hs).mono (fun _ s' h => ?_) fun _ s' h => h.whole hs
  obtain ⟨s₁, -, hg, hpushed, rfl⟩ := h
  have h₁ := hg.whole hs
  refine ⟨h₁.lasting, ⟨h₁.tempered.tables, h₁.tempered.pitches⟩, h₁.members, h₁.clef, h₁.before, fun v hv => ?_⟩
  rcases List.mem_append.mp hv with hv | hv
  · exact h₁.text v (hg.text ▸ hv)
  · obtain rfl := List.mem_singleton.mp hv
    exact (show s.words.size < (s.words.push { before := s.text.getLast? }).size by simp).trans_le hpushed.wordCount

end Act

theorem Score.read_keeps_from {I : Score → Prop} {transposition : Option Int} (hempty : ∀ title, I { title, transposition })
    (hword : ∀ l, Act.Keeps I (Act.addWord l)) (code : String) : I (Score.read code transposition).2 := by
  rw [Score.read]
  generalize Source.name code = title
  split
  · exact hempty title
  next body _ =>
    have hbody : Act.Keeps I (Act.readBody body) := @Act.keeps_readBody I hword body
    generalize Act.readBody body = x at hbody ⊢
    have hx := hbody _ (hempty title)
    rw [Ends] at hx
    generalize x.run.run _ = r at hx ⊢
    obtain ⟨r, s'⟩ := r
    cases r with
    | ok a => exact hx
    | error f => exact hx

theorem Score.read_keeps {I : Score → Prop} (hempty : ∀ title transposition, I { title, transposition })
    (hword : ∀ l, Act.Keeps I (Act.addWord l)) (code : String) (transposition : Option Int) :
    I (Score.read code transposition).2 :=
  Score.read_keeps_from (fun title => hempty title transposition) hword code

theorem Score.whole_empty (title : String) (transposition : Option Int) : ({ title, transposition } : Score).Whole :=
  ⟨fun _ _ h => (nomatch h), ⟨fun _ _ _ h => (nomatch h), fun _ _ h => (nomatch h)⟩, fun _ _ hi => absurd hi List.not_mem_nil, fun _ _ h => (nomatch h),
    fun _ _ h => (nomatch h), fun _ hw => absurd hw List.not_mem_nil⟩

theorem Score.read_whole (code : String) (transposition : Option Int) : (Score.read code transposition).2.Whole :=
  Score.read_keeps Score.whole_empty Act.keeps_whole_addWord code transposition

theorem Score.read_transposition (code : String) (transposition : Option Int) :
    (Score.read code transposition).2.transposition = transposition := by
  have hword : ∀ l, Act.Keeps (fun s => s.Whole ∧ s.transposition = transposition) (Act.addWord l) := by
    intro l s hs
    refine ((Act.keeps_whole_addWord l s hs.1).and (Act.ends_addWord l hs.1)).mono (fun _ s' h => ?_)
      fun _ s' h => ⟨h.1, h.2.transposition.trans hs.2⟩
    obtain ⟨hwhole, s₁, -, hg, -, rfl⟩ := h
    exact ⟨hwhole, hg.transposition.trans hs.2⟩
  exact (Score.read_keeps_from (fun title => ⟨Score.whole_empty title transposition, rfl⟩) hword code).2

end Plainsong.Chant
