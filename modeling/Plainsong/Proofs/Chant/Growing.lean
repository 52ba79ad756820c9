import Plainsong.Chant.Summary
import Plainsong.Proofs.Chant.Rhythm
/- How a score grows. Signs, neumes, syllables and words are only ever added, and
   a mark (`Mark`) divides the old from the new: what stands below it stays as it
   is but for rhythm, nuances and texts. A sign that fails half-made stays behind
   in the score but never comes to stand in a neume, so the notes of the neumes
   are always complete (`Score.Whole`). `Score.Grown b s s'` says all this of two
   states of a score, and every act of reading keeps to it. -/
namespace Plainsong.Chant

/-- A sign that has all that a note has, if it sounds: a pitch, the ABC name of that
    pitch with blanks behind it and its Lilypond name with brackets behind it, a duration and its
    nuances. The texts of any other sign are without names. -/
structure Sign.Complete (g : Sign) : Prop where
  sound : g.kind.sounds = true → g.duration.isSome = true ∧ g.nuances.isSome = true ∧
    ∃ p name k, g.pitch = some p ∧ abcName? p = some name ∧ g.abc.toList = name.toList ++ List.replicate k ' '
  silent : g.kind.sounds = false → ∃ k, g.abc.toList = List.replicate k ' '
  named : g.kind.sounds = true → ∃ p name, g.pitch = some p ∧ lilyName? p = some name ∧ Bracketed name.toList g.lily.toList
  nameless : g.kind.sounds = false → Bracketed [] g.lily.toList

theorem not_isBracket_of_lilyName? {p : Int} {name : String} (h : lilyName? p = some name) :
    ∀ c ∈ name.toList, isBracket c = false := by
  have hnames : ∀ x ∈ lilyNames, x.toList.all (!isBracket ·) = true := by decide
  have hoctaves : ∀ x ∈ lilyOctaves, x.toList.all (!isBracket ·) = true := by decide
  have hmem : ∀ {items : List String} {i : Int} {x : String}, itemAt? items i = some x → x ∈ items := by
    intro items i x hx
    unfold itemAt? at hx
    dsimp only at hx
    generalize (if i < 0 then i + items.length else i) = j at hx
    split at hx
    · cases hx
    · exact List.mem_of_getElem? hx
  obtain ⟨x, hx, h⟩ := Option.bind_eq_some_iff.mp h
  obtain ⟨y, hy, h⟩ := Option.bind_eq_some_iff.mp h
  cases h
  have hall : (x ++ y ++ "8").toList.all (!isBracket ·) = true := by
    rw [String.toList_append, String.toList_append, List.all_append, List.all_append, hnames x (hmem hx),
      hoctaves y (hmem hy)]
    rfl
  intro c hc
  simpa using List.all_eq_true.mp hall c hc

variable {g g' : Sign}

theorem Sign.Dressed.complete (h : g.Dressed g') (hg : g.Complete) : g'.Complete := by
  obtain ⟨k', hk'⟩ := h.abc
  constructor
  · intro hs
    rw [h.kind] at hs
    obtain ⟨hd, hn, p, name, k, hp, hname, habc⟩ := hg.sound hs
    exact ⟨h.duration hd, h.nuances hn, p, name, k + k', h.pitch.trans hp, hname,
      by rw [hk', habc, List.append_assoc, List.replicate_append_replicate]⟩
  · intro hs
    rw [h.kind] at hs
    obtain ⟨k, habc⟩ := hg.silent hs
    exact ⟨k + k', by rw [hk', habc, List.replicate_append_replicate]⟩
  · intro hs
    rw [h.kind] at hs
    obtain ⟨p, name, hp, hname, hlily⟩ := hg.named hs
    exact ⟨p, name, h.pitch.trans hp, hname, h.lily _ (not_isBracket_of_lilyName? hname) hlily⟩
  · intro hs
    rw [h.kind] at hs
    exact h.lily [] (fun _ hc => absurd hc List.not_mem_nil) (hg.nameless hs)

theorem Sign.not_complete_of_unfinished (hk : g.kind.sounds = true) (hn : g.nuances = none) : ¬ g.Complete := by
  intro h
  obtain ⟨-, hsome, -⟩ := h.sound hk
  rw [hn] at hsome
  cases hsome

/-- Two states of a sign that mean the same: only its rhythm, its nuances, its texts and
    its neighbours may differ. -/
structure Sign.Alike (g g' : Sign) : Prop where
  kind : g'.kind = g.kind
  code : g'.code = g.code
  neume : g'.neume = g.neume
  pitch : g'.pitch = g.pitch

theorem Sign.Alike.refl (g : Sign) : g.Alike g := ⟨rfl, rfl, rfl, rfl⟩

theorem Sign.Alike.trans {g'' : Sign} (h : g.Alike g') (h' : g'.Alike g'') : g.Alike g'' :=
  ⟨h'.kind.trans h.kind, h'.code.trans h.code, h'.neume.trans h.neume, h'.pitch.trans h.pitch⟩

theorem Sign.Dressed.alike (h : g.Dressed g') : g.Alike g' := ⟨h.kind, h.code, h.neume, h.pitch⟩

/-- Two states of a syllable: only its text under the notes may differ. -/
structure Syllable.Alike (k k' : Syllable) : Prop where
  word : k'.word = k.word
  text : k'.text = k.text
  neume : k'.neume = k.neume
  before : k'.before = k.before

theorem Syllable.Alike.refl (k : Syllable) : k.Alike k := ⟨rfl, rfl, rfl, rfl⟩

theorem Syllable.Alike.trans {k k' k'' : Syllable} (h : k.Alike k') (h' : k'.Alike k'') : k.Alike k'' :=
  ⟨h'.word.trans h.word, h'.text.trans h.text, h'.neume.trans h.neume, h'.before.trans h.before⟩

/-- The pitches that a letter of the staff can have under some clef. -/
def InRange (p : Int) : Prop := 52 ≤ p ∧ p ≤ 89

/-- A place in the numbering of signs, of neumes and of words. -/
structure Mark where
  signs : Nat
  neumes : Nat
  words : Nat

/-- The mark lies within the score. -/
structure Mark.In (b : Mark) (s : Score) : Prop where
  signs : b.signs ≤ s.signs.size
  neumes : b.neumes ≤ s.neumes.size
  words : b.words ≤ s.words.size

namespace Score

/-- The mark behind all that a score has. -/
def mark (s : Score) : Mark := ⟨s.signs.size, s.neumes.size, s.words.size⟩

theorem mark_in (s : Score) : s.mark.In s := ⟨le_rfl, le_rfl, le_rfl⟩

/-- No table of accidentals moves a note by more than a semitone, and every pitch is in range. -/
structure Tempered (s : Score) : Prop where
  tables : ∀ n entry v, Table.find? entry (s.table n) = some v → -1 ≤ v ∧ v ≤ 1
  pitches : ∀ i p, (s.sign i).pitch = some p → InRange p

/-- All durations last, pitches are in range, the signs of every neume are there and complete,
    and so are clefs and words; the word before a word comes earlier. -/
structure Whole (s : Score) : Prop where
  lasting : s.Lasting
  tempered : s.Tempered
  members : ∀ n, ∀ i ∈ (s.neume n).signs, i < s.signs.size ∧ (s.sign i).Complete
  clef : ∀ w i, (s.word w).clef = some i → i < s.signs.size
  before : ∀ w v, (s.word w).before = some v → v < w
  text : ∀ w ∈ s.text, w < s.words.size

variable {s s' : Score}

theorem Whole.of_words (h : s.Whole) (hlasting : s'.Lasting) (htempered : s'.Tempered)
    (hmembers : ∀ n, ∀ i ∈ (s'.neume n).signs, i < s'.signs.size ∧ (s'.sign i).Complete)
    (hsize : s.signs.size ≤ s'.signs.size) (hwords : s'.words = s.words) (htext : s'.text = s.text) : s'.Whole where
  lasting := hlasting
  tempered := htempered
  members := hmembers
  clef := fun w i hi => (h.clef w i (by rwa [Score.word, hwords] at hi)).trans_le hsize
  before := fun w v hv => h.before w v (by rwa [Score.word, hwords] at hv)
  text := fun w hw => by
    rw [hwords]
    exact h.text w (htext ▸ hw)

/-- The score `s'` has grown out of `s`, and nothing below the mark `b` means anything else. -/
structure Grown (b : Mark) (s s' : Score) : Prop where
  signCount : s.signs.size ≤ s'.signs.size
  neumeCount : s.neumes.size ≤ s'.neumes.size
  syllableCount : s.syllables.size ≤ s'.syllables.size
  wordCount : s.words.size ≤ s'.words.size
  complete : ∀ i < s.signs.size, (s.sign i).Complete → (s'.sign i).Complete
  whole : s.Whole → s'.Whole
  sign : ∀ i < b.signs, (s.sign i).Alike (s'.sign i)
  signs : ∀ n < b.neumes, (s'.neume n).signs = (s.neume n).signs
  word : ∀ w < b.words, s'.word w = s.word w
  place : ∀ n < s.neumes.size, (s'.neume n).syllable = (s.neume n).syllable
  syllable : ∀ k < s.syllables.size, (s.syllable k).Alike (s'.syllable k)
  anchor : ∀ w < s.words.size, (s'.word w).before = (s.word w).before ∧
    ((s'.word w).clef = none → (s.word w).clef = none)
  text : s'.text = s.text
  transposition : s'.transposition = s.transposition

namespace Grown

variable {b : Mark}

theorem refl (s : Score) : Grown b s s :=
  ⟨le_rfl, le_rfl, le_rfl, le_rfl, fun _ _ => id, id, fun _ _ => .refl _, fun _ _ => rfl, fun _ _ => rfl,
    fun _ _ => rfl, fun _ _ => .refl _, fun _ _ => ⟨rfl, id⟩, rfl, rfl⟩

theorem trans {s'' : Score} (h : Grown b s s') (h' : Grown b s' s'') : Grown b s s'' where
  signCount := h.signCount.trans h'.signCount
  neumeCount := h.neumeCount.trans h'.neumeCount
  syllableCount := h.syllableCount.trans h'.syllableCount
  wordCount := h.wordCount.trans h'.wordCount
  complete := fun i hi hc => h'.complete i (hi.trans_le h.signCount) (h.complete i hi hc)
  whole := h'.whole ∘ h.whole
  sign := fun i hi => (h.sign i hi).trans (h'.sign i hi)
  signs := fun n hn => (h'.signs n hn).trans (h.signs n hn)
  word := fun w hw => (h'.word w hw).trans (h.word w hw)
  place := fun n hn => (h'.place n (hn.trans_le h.neumeCount)).trans (h.place n hn)
  syllable := fun k hk => (h.syllable k hk).trans (h'.syllable k (hk.trans_le h.syllableCount))
  anchor := fun w hw => by
    obtain ⟨hbefore, hclef⟩ := h.anchor w hw
    obtain ⟨hbefore', hclef'⟩ := h'.anchor w (hw.trans_le h.wordCount)
    exact ⟨hbefore'.trans hbefore, hclef ∘ hclef'⟩
  text := h'.text.trans h.text
  transposition := h'.transposition.trans h.transposition

theorem markIn (h : Grown b s s') (hb : b.In s) : b.In s' :=
  ⟨hb.signs.trans h.signCount, hb.neumes.trans h.neumeCount, hb.words.trans h.wordCount⟩

theorem of_signs (hsize : s'.signs.size = s.signs.size) (hneumes : s'.neumes.size = s.neumes.size)
    (hsyllables : s'.syllables = s.syllables) (hwords : s'.words = s.words) (htext : s'.text = s.text)
    (htransposition : s'.transposition = s.transposition)
    (hcomplete : ∀ i, (s.sign i).Complete → (s'.sign i).Complete) (hlasting : s.Lasting → s'.Lasting)
    (htempered : s.Tempered → s'.Tempered)
    (hsign : ∀ i < b.signs, (s.sign i).Alike (s'.sign i))
    (hsigns : ∀ n, (s'.neume n).signs = (s.neume n).signs)
    (hplace : ∀ n, (s'.neume n).syllable = (s.neume n).syllable) : Grown b s s' where
  signCount := hsize.ge
  neumeCount := hneumes.ge
  syllableCount := by rw [hsyllables]
  wordCount := by rw [hwords]
  complete := fun i _ => hcomplete i
  whole := fun h => h.of_words (hlasting h.lasting) (htempered h.tempered) (fun n i hi => by
    rw [hsigns] at hi
    exact ⟨hsize ▸ (h.members n i hi).1, hcomplete i (h.members n i hi).2⟩) hsize.ge hwords htext
  sign := hsign
  signs := fun n _ => hsigns n
  word := fun w _ => by rw [Score.word, hwords, Score.word]
  place := fun n _ => hplace n
  syllable := fun k _ => by
    rw [Score.syllable, Score.syllable, hsyllables]
    exact .refl _
  anchor := fun w _ => by
    rw [Score.word, hwords, Score.word]
    exact ⟨rfl, id⟩
  text := htext
  transposition := htransposition

theorem of_dressed (h : s.Dressed s') : Grown b s s' :=
  of_signs h.signCount h.neumeCount h.syllables h.words h.text h.transposition (fun i => (h.sign i).complete) h.lasting
    (fun hs => ⟨fun n => by rw [Score.table, h.tables]; exact hs.tables n, fun i p hp => hs.pitches i p ((h.sign i).pitch ▸ hp)⟩)
    (fun i _ => (h.sign i).alike) (fun n => (h.neume n).signs) fun n => (h.neume n).syllable

theorem changeSign {i : Nat} (hi : b.signs ≤ i) {f : Sign → Sign} (hc : (s.sign i).Complete → (f (s.sign i)).Complete)
    (hd : s.Lasting → ∀ d, (f (s.sign i)).duration = some d → Lasts d)
    (hp : s.Tempered → ∀ p, (f (s.sign i)).pitch = some p → InRange p) :
    Grown b s { s with signs := s.signs.modify i f } := by
  refine of_signs (by simp) rfl rfl rfl rfl rfl (fun j hj => ?_) (fun hs j d hj => ?_)
    (fun hs => ⟨hs.tables, fun j p hj => ?_⟩) (fun j hj => ?_) (fun _ => rfl) fun _ => rfl
  · rw [sign_modify]
    split
    next h => obtain ⟨rfl, -⟩ := h; exact hc hj
    next => exact hj
  · rw [sign_modify] at hj
    split at hj
    next h => obtain ⟨rfl, -⟩ := h; exact hd hs d hj
    next => exact hs j d hj
  · rw [sign_modify] at hj
    split at hj
    next h => obtain ⟨rfl, -⟩ := h; exact hp hs p hj
    next => exact hs.pitches j p hj
  · rw [sign_modify, if_neg (by omega)]
    exact .refl _

theorem changeNeume {n : Nat} (hn : b.neumes ≤ n) {f : Neume → Neume}
    (hplace : ∀ u : Neume, (f u).syllable = u.syllable)
    (hf : ∀ u : Neume, ∀ i ∈ (f u).signs, i ∈ u.signs ∨ i < s.signs.size ∧ (s.sign i).Complete) :
    Grown b s { s with neumes := s.neumes.modify n f } := by
  refine ⟨le_rfl, by simp, le_rfl, le_rfl, fun _ _ => id,
    fun h => h.of_words h.lasting ⟨h.tempered.tables, h.tempered.pitches⟩ (fun m i hi => ?_) le_rfl rfl rfl,
    fun _ _ => .refl _, fun m hm => ?_, fun _ _ => rfl, fun m _ => ?_, fun _ _ => .refl _, fun _ _ => ⟨rfl, id⟩, rfl, rfl⟩
  · rw [neume_modify] at hi
    split at hi
    · exact (hf _ i hi).elim (h.members m i) id
    · exact h.members m i hi
  · rw [neume_modify, if_neg (by omega)]
  · rw [neume_modify]
    split
    · exact hplace _
    · rfl

theorem pushSign (hb : b.In s) (hg : g.duration = none) (hp : g.pitch = none) :
    Grown b s { s with signs := s.signs.push g } := by
  have hold : ∀ j < s.signs.size, ({ s with signs := s.signs.push g } : Score).sign j = s.sign j := fun j hj => by
    rw [sign_push, if_neg (by omega)]
  refine ⟨by simp, le_rfl, le_rfl, le_rfl, fun j hj hc => by rwa [hold j hj],
    fun h => h.of_words (fun j d hj => ?_) ⟨h.tempered.tables, fun j p hj => ?_⟩ (fun n j hj => ?_) (by simp) rfl rfl,
    fun j hj => ?_, fun _ _ => rfl, fun _ _ => rfl, fun _ _ => rfl, fun _ _ => .refl _, fun _ _ => ⟨rfl, id⟩, rfl, rfl⟩
  · rw [sign_push] at hj
    split at hj
    · rw [hg] at hj
      cases hj
    · exact h.lasting j d hj
  · rw [sign_push] at hj
    split at hj
    · rw [hp] at hj
      cases hj
    · exact h.tempered.pitches j p hj
  · obtain ⟨hj, hc⟩ := h.members n j hj
    rw [hold j hj]
    exact ⟨by simpa using Nat.lt_succ_of_lt hj, hc⟩
  · rw [hold j (hj.trans_le hb.signs)]
    exact .refl _

theorem pushSyllable (s : Score) (k : Syllable) : Grown b s { s with syllables := s.syllables.push k } := by
  refine ⟨le_rfl, le_rfl, by simp, le_rfl, fun _ _ => id, fun h => h.of_words h.lasting ⟨h.tempered.tables, h.tempered.pitches⟩ h.members le_rfl rfl rfl,
    fun _ _ => .refl _, fun _ _ => rfl, fun _ _ => rfl, fun _ _ => rfl, fun j hj => ?_, fun _ _ => ⟨rfl, id⟩, rfl, rfl⟩
  rw [syllable_push, if_neg (by omega)]
  exact .refl _

theorem pushNeume (hb : b.In s) {u : Neume} (hu : u.signs = []) : Grown b s { s with neumes := s.neumes.push u } := by
  refine ⟨le_rfl, by simp, le_rfl, le_rfl, fun _ _ => id,
    fun h => h.of_words h.lasting ⟨h.tempered.tables, h.tempered.pitches⟩ (fun n i hi => ?_) le_rfl rfl rfl, fun _ _ => .refl _,
    fun n hn => ?_, fun _ _ => rfl, fun n hn => ?_, fun _ _ => .refl _, fun _ _ => ⟨rfl, id⟩, rfl, rfl⟩
  · rw [neume_push] at hi
    split at hi
    · rw [hu] at hi
      cases hi
    · exact h.members n i hi
  · have := hb.neumes
    rw [neume_push, if_neg (by omega)]
  · rw [neume_push, if_neg (by omega)]

theorem pushWord (hb : b.In s) {v : Word} (hclef : v.clef = none)
    (hbefore : s.Whole → ∀ u, v.before = some u → u < s.words.size) :
    Grown b s { s with words := s.words.push v } := by
  refine ⟨le_rfl, le_rfl, le_rfl, by simp, fun _ _ => id,
    fun h => ⟨h.lasting, ⟨h.tempered.tables, h.tempered.pitches⟩, h.members, fun w i hi => ?_, fun w u hu => ?_, fun w hw => ?_⟩, fun _ _ => .refl _,
    fun _ _ => rfl, fun w hw => ?_, fun _ _ => rfl, fun _ _ => .refl _, fun w hw => ?_, rfl, rfl⟩
  · rw [word_push] at hi
    split at hi
    · rw [hclef] at hi
      cases hi
    · exact h.clef w i hi
  · rw [word_push] at hu
    split at hu
    next hw => exact hw ▸ hbefore h u hu
    next => exact h.before w u hu
  · simpa using Nat.lt_succ_of_lt (h.text w hw)
  · have := hb.words
    rw [word_push, if_neg (by omega)]
  · rw [word_push, if_neg (by omega)]
    exact ⟨rfl, id⟩

theorem changeSyllable {k : Nat} {f : Syllable → Syllable} (hf : ∀ k : Syllable, k.Alike (f k)) :
    Grown b s { s with syllables := s.syllables.modify k f } := by
  refine ⟨le_rfl, le_rfl, by simp, le_rfl, fun _ _ => id, fun h => h.of_words h.lasting ⟨h.tempered.tables, h.tempered.pitches⟩ h.members le_rfl rfl rfl,
    fun _ _ => .refl _, fun _ _ => rfl, fun _ _ => rfl, fun _ _ => rfl, fun j _ => ?_, fun _ _ => ⟨rfl, id⟩, rfl, rfl⟩
  rw [syllable_modify]
  split
  · exact hf _
  · exact .refl _

theorem changeWord {w : Nat} (hw : b.words ≤ w) {f : Word → Word}
    (hbefore : ∀ v : Word, (f v).before = v.before) (hkept : ∀ v : Word, (f v).clef = none → v.clef = none)
    (hclef : ∀ v : Word, ∀ i, (f v).clef = some i → v.clef = some i ∨ i < s.signs.size) :
    Grown b s { s with words := s.words.modify w f } := by
  refine ⟨le_rfl, le_rfl, le_rfl, by simp, fun _ _ => id,
    fun h => ⟨h.lasting, ⟨h.tempered.tables, h.tempered.pitches⟩, h.members, fun v i hi => ?_, fun v u hu => ?_, fun v hv => by simpa using h.text v hv⟩,
    fun _ _ => .refl _, fun _ _ => rfl, fun v hv => ?_, fun _ _ => rfl, fun _ _ => .refl _, fun v _ => ?_, rfl, rfl⟩
  · rw [word_modify] at hi
    split at hi
    · exact (hclef _ i hi).elim (h.clef v i) id
    · exact h.clef v i hi
  · rw [word_modify] at hu
    split at hu
    · exact h.before v u (by rwa [hbefore] at hu)
    · exact h.before v u hu
  · rw [word_modify, if_neg (by omega)]
  · rw [word_modify]
    split
    · exact ⟨hbefore _, hkept _⟩
    · exact ⟨rfl, id⟩

end Grown

end Score

namespace Act

/-- However the act ends, the score has grown. -/
abbrev Grows (b : Mark) {α : Type} (x : Act α) : Prop := ∀ s, b.In s → Within (Score.Grown b) x s

namespace Grows

variable {α β : Type} {b : Mark}

theorem of_dresses {x : Act α} {E : Fault → Prop} (h : Always Score.Dressed E x) : Grows b x :=
  fun s _ => (h.imp fun _ _ => .of_dressed).within s

theorem pure (a : α) : Grows b (Pure.pure a) := fun s _ => .refl s

theorem get : Grows b (MonadState.get : Act Score) := fun s _ => .refl s

theorem bind {x : Act α} {f : α → Act β} (hx : Grows b x) (hf : ∀ a, Grows b (f a)) : Grows b (x >>= f) :=
  fun s hb => Within.bind (R := Score.Grown b) (fun _ _ _ => Score.Grown.trans) (hx s hb)
    fun a s' h => hf a s' (h.markIn hb)

end Grows

/-! ## Reading pitches -/

/-- However the act ends, nothing has changed but tables, remarks and warnings, and tables still
    move no note by more than a semitone. -/
structure Quiet (s s' : Score) : Prop where
  title : s'.title = s.title
  transposition : s'.transposition = s.transposition
  signs : s'.signs = s.signs
  neumes : s'.neumes = s.neumes
  syllables : s'.syllables = s.syllables
  words : s'.words = s.words
  text : s'.text = s.text
  tempered : s.Tempered → s'.Tempered

theorem Quiet.refl (s : Score) : Quiet s s := ⟨rfl, rfl, rfl, rfl, rfl, rfl, rfl, id⟩

variable {s s' s'' : Score}

theorem Quiet.trans (h : Quiet s s') (h' : Quiet s' s'') : Quiet s s'' :=
  ⟨h'.title.trans h.title, h'.transposition.trans h.transposition, h'.signs.trans h.signs,
    h'.neumes.trans h.neumes, h'.syllables.trans h.syllables, h'.words.trans h.words, h'.text.trans h.text,
    h'.tempered ∘ h.tempered⟩

theorem Quiet.sign (h : Quiet s s') (i : Nat) : s'.sign i = s.sign i := by
  rw [Score.sign, h.signs, Score.sign]

theorem Quiet.neume (h : Quiet s s') (n : Nat) : s'.neume n = s.neume n := by
  rw [Score.neume, h.neumes, Score.neume]

theorem Quiet.grown {b : Mark} (h : Quiet s s') : Score.Grown b s s' := by
  refine .of_signs (by rw [h.signs]) (by rw [h.neumes]) h.syllables h.words h.text h.transposition (fun i hc => ?_)
    (fun hs i d hd => ?_) h.tempered (fun i _ => ?_) (fun n => by rw [h.neume]) fun n => by rw [h.neume]
  · rwa [h.sign]
  · exact hs i d (by rwa [h.sign] at hd)
  · rw [h.sign]
    exact .refl _

instance : IsPreorder Score Quiet where
  refl := Quiet.refl
  trans _ _ _ := Quiet.trans

abbrev Quietly {α : Type} (x : Act α) : Prop := Always Quiet (fun _ => True) x

namespace Quietly

theorem warn (text : String) : Quietly (Act.warn text) :=
  fun _ => ⟨rfl, rfl, rfl, rfl, rfl, rfl, rfl, fun h => ⟨h.tables, h.pitches⟩⟩

theorem newTable : Quietly Act.newTable := by
  refine fun s => ⟨rfl, rfl, rfl, rfl, rfl, rfl, rfl, fun h => ⟨fun n entry v hv => ?_, h.pitches⟩⟩
  rw [Score.table, getD_push] at hv
  split at hv
  · have hzero : ∀ item ∈ "abcdefghijklmnop".toList.map fun c => (String.singleton c, (0 : Int)), item.2 = 0 := by
      intro item hitem
      obtain ⟨c, -, rfl⟩ := List.mem_map.mp hitem
      rfl
    have hv0 : v = 0 := hzero _ (Table.mem_of_find? hv)
    omega
  · exact h.tables n entry v hv

theorem putAccidental (held : Accidentals) (entry : String) {value : Int} (hvalue : -1 ≤ value ∧ value ≤ 1) :
    Quietly (Act.putAccidental held entry value) := by
  cases held with
  | table n =>
    refine fun s => ⟨rfl, rfl, rfl, rfl, rfl, rfl, rfl, fun h => ⟨fun m other v hv => ?_, h.pitches⟩⟩
    rw [Score.table, getD_modify] at hv
    split at hv
    · by_cases hother : entry = other
      · subst hother
        rw [Table.find?_put_self] at hv
        cases hv
        exact hvalue
      · rw [Table.find?_put_of_ne _ _ hother] at hv
        exact h.tables m other v hv
    · exact h.tables m other v hv
  | loose d => exact .fail trivial

theorem accidentalAt (held : Accidentals) (entry : String) : Quietly (Act.accidentalAt held entry) := by
  cases held with
  | table n => exact .bind .get fun _ => .need trivial _
  | loose d => exact .fail trivial

theorem alteration?_mild {c : Char} {value : Int} (h : alteration? c = some value) : -1 ≤ value ∧ value ≤ 1 := by
  unfold alteration? at h
  split at h <;> cases h <;> decide

theorem accidentalsFrom (fuel : Nat) (i : Option Nat) : Quietly (Act.accidentalsFrom fuel i) := by
  induction fuel generalizing i with
  | zero => exact .fail trivial
  | succ fuel ih =>
    cases i with
    | none => exact .fail trivial
    | some i =>
      refine .bind (.sign i) fun g => ?_
      split
      · exact .bind (.orIfMissing (ih _) newTable) fun _ => .bind (.need trivial _) fun _ => .bind_need trivial fun value hvalue =>
          .bind (.need trivial _) fun _ => .bind (putAccidental _ _ (alteration?_mild hvalue)) fun _ => .pure _
      · split
        · exact .pure _
        · exact ih _

theorem accidentalsOf (i : Nat) : Quietly (Act.accidentalsOf i) := .bind .get fun _ => accidentalsFrom _ _

theorem noteAccidentals (i : Nat) : Quietly (Act.noteAccidentals i) := by
  refine .orIfMissing (.bind (accidentalsOf i) fun held => .bind .get fun s => ?_) newTable
  split
  · exact newTable
  · exact accidentalsOf i

theorem clefAt (i : Nat) : Quietly (Act.clefAt i) := .bind .get fun _ => .bind (.need trivial _) fun _ => .pure _

theorem plainClef (clef : String) (held : Accidentals) : Quietly (Act.plainClef clef held) := by
  unfold Act.plainClef
  split
  · exact .bind (.need trivial _) fun _ => .bind (putAccidental _ _ (by decide)) fun _ => .pure _
  · exact .pure _

theorem pitchOf (i : Nat) (code : String) : Quietly (Act.pitchOf i code) := by
  refine .bind (clefAt i) fun clef => .bind (noteAccidentals i) fun held => .bind (plainClef clef held) fun clef =>
    .bind (.need trivial _) fun _ => .bind (.need trivial _) fun letter => .bind (.need trivial _) fun place =>
      .bind (accidentalAt held _) fun altered => ?_
  dsimp only
  split
  · exact .bind (warn _) fun _ => .pure _
  · exact .pure _

end Quietly

/-! ## Links -/

/-- Signs may have got other neighbours and other accidentals, and nothing else has changed. -/
structure Relinked (s s' : Score) : Prop where
  tables : s'.tables = s.tables
  size : s'.signs.size = s.signs.size
  sign : ∀ i, ∃ before behind accidentals, s'.sign i = { s.sign i with before, behind, accidentals }
  neumes : s'.neumes = s.neumes
  syllables : s'.syllables = s.syllables
  words : s'.words = s.words
  text : s'.text = s.text
  transposition : s'.transposition = s.transposition

theorem Relinked.refl (s : Score) : Relinked s s := ⟨rfl, rfl, fun _ => ⟨_, _, _, rfl⟩, rfl, rfl, rfl, rfl, rfl⟩

theorem Relinked.trans (h : Relinked s s') (h' : Relinked s' s'') : Relinked s s'' := by
  refine ⟨h'.tables.trans h.tables, h'.size.trans h.size, fun i => ?_, h'.neumes.trans h.neumes, h'.syllables.trans h.syllables,
    h'.words.trans h.words, h'.text.trans h.text, h'.transposition.trans h.transposition⟩
  obtain ⟨_, _, _, hi⟩ := h.sign i
  obtain ⟨_, _, _, hi'⟩ := h'.sign i
  exact ⟨_, _, _, by rw [hi', hi]⟩

instance : IsPreorder Score Relinked where
  refl := Relinked.refl
  trans _ _ _ := Relinked.trans

theorem Relinked.changeSign {i : Nat} {f : Sign → Sign}
    (hf : ∀ g, ∃ before behind accidentals, f g = { g with before, behind, accidentals }) :
    Relinked s { s with signs := s.signs.modify i f } := by
  refine ⟨rfl, by simp, fun j => ?_, rfl, rfl, rfl, rfl, rfl⟩
  rw [Score.sign_modify]
  split
  · exact hf _
  · exact ⟨_, _, _, rfl⟩

theorem Relinked.grown {b : Mark} (h : Relinked s s') : Score.Grown b s s' := by
  have hneume : ∀ n, s'.neume n = s.neume n := fun n => by rw [Score.neume, h.neumes, Score.neume]
  refine .of_signs h.size (by rw [h.neumes]) h.syllables h.words h.text h.transposition (fun i hc => ?_)
    (fun hs i d hd => ?_) (fun hs => ⟨fun n => by rw [Score.table, h.tables]; exact hs.tables n, fun i p hp => ?_⟩) (fun i _ => ?_)
    (fun n => by rw [hneume]) fun n => by rw [hneume]
  all_goals obtain ⟨_, _, _, hi⟩ := h.sign i
  · rw [hi]
    exact ⟨hc.sound, hc.silent, hc.named, hc.nameless⟩
  · rw [hi] at hd
    exact hs i d hd
  · rw [hi] at hp
    exact hs.pitches i p hp
  · rw [hi]
    exact ⟨rfl, rfl, rfl, rfl⟩

theorem relinked_setBefore (i : Nat) (before : Option Nat) : Always Relinked Fault.Mild (setBefore i before) := by
  have hlink : ∀ {i : Nat} {f : Sign → Sign}, (∀ g, ∃ before behind accidentals, f g = { g with before, behind, accidentals }) →
      Always Relinked Fault.Mild (changeSign i f) := fun hf _ => Relinked.changeSign hf
  refine .bind (hlink fun _ => ⟨_, _, _, rfl⟩) fun _ => ?_
  cases before with
  | none => exact .pure _
  | some j => exact hlink fun _ => ⟨_, _, _, rfl⟩

theorem relinked_setAccidentals (i : Nat) (held : Accidentals) : Always Relinked Fault.Mild (setAccidentals i held) :=
  .setAccidentals i fun _ _ => .changeSign fun _ => ⟨_, _, _, rfl⟩

theorem Grows.of_relinked {α : Type} {b : Mark} {x : Act α} (h : Always Relinked Fault.Mild x) : Grows b x :=
  fun s _ => (h.imp fun _ _ => Relinked.grown).within s

end Act

end Plainsong.Chant
