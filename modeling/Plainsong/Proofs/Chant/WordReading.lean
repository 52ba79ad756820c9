import Plainsong.Proofs.Chant.Spelling
/- The neumes of a word follow one another, and each takes over the accidentals in
   force behind the one before it. So the notes of every word that has come to stand
   in a score, if no clef stands in it, have the pitches that the rule of `inForce`
   gives them (`pitches_of_word`). It is not the rule of the books: a sign of
   alteration in a later neume is not heard, and the flat of a clef is heard under
   two clefs only. -/
namespace Plainsong.Chant

open List

/-! ## Clefs -/

variable {k n w : Nat} {s s' : Score}

theorem Score.findClef_congr (hback : ∀ v u, (s.word v).before = some u → u < v) (w : Nat) :
    ∀ fuel fuel', w < fuel → w < fuel' →
      (∀ v ≤ w, (s'.word v).before = (s.word v).before ∧ (s'.word v).clef = (s.word v).clef) →
      (s'.wordsBackFrom fuel' (some w)).findSome? (fun v => (s'.word v).clef) =
        (s.wordsBackFrom fuel (some w)).findSome? fun v => (s.word v).clef := by
  induction w using Nat.strong_induction_on with
  | _ w ih =>
    intro fuel fuel' hfuel hfuel' hword
    obtain ⟨fuel, rfl⟩ : ∃ k, fuel = k + 1 := ⟨fuel - 1, by omega⟩
    obtain ⟨fuel', rfl⟩ : ∃ k, fuel' = k + 1 := ⟨fuel' - 1, by omega⟩
    obtain ⟨hbefore, hclef⟩ := hword w le_rfl
    rw [wordsBackFrom, wordsBackFrom, List.findSome?_cons, List.findSome?_cons, hclef, hbefore]
    cases (s.word w).clef with
    | some j => rfl
    | none =>
      cases hu : (s.word w).before with
      | none => cases fuel <;> cases fuel' <;> rfl
      | some u =>
        have hlt := hback w u hu
        exact ih u hlt fuel fuel' (by omega) (by omega) fun v hv => hword v (by omega)

theorem Score.clefSign?_congr (hback : ∀ v u, (s.word v).before = some u → u < v) (hw : w < s.words.size) (hw' : w < s'.words.size)
    (hword : ∀ v ≤ w, (s'.word v).before = (s.word v).before ∧ (s'.word v).clef = (s.word v).clef) :
    s'.clefSign? w = s.clefSign? w :=
  findClef_congr hback w _ _ (by omega) (by omega) hword

namespace Act

/-- The mark before everything. -/
def start : Mark := ⟨0, 0, 0⟩

theorem start_in (s : Score) : start.In s := ⟨Nat.zero_le _, Nat.zero_le _, Nat.zero_le _⟩

variable {F : Frame} {s : Score} {w : Nat}

theorem upon_addClef (code : String) (hsite : Site start n s)
    (hword : (s.syllable (s.neume n).syllable).word = w) (hw : w < s.words.size) :
    Upon (addClef n code) s fun _ s' => (s'.word w).clef ≠ none := by
  rw [addClef, Upon]
  refine (makes_makeSign (show Kind.clef.sounds = false from rfl) code n none none s (start_in s)).andThen
    (fun i s₁ h => ?_) fun _ _ _ => trivial
  obtain ⟨hg, -⟩ := h
  rw [ends_bind, ends_get, ends_neume, hg.place n hsite.there, (hg.syllable _ hsite.syllable).word, hword, ends_bind]
  refine (ends_modify _).mpr ?_
  show (({ s₁ with words := s₁.words.modify w ({ · with clef := some i }) } : Score).word w).clef ≠ none
  rw [Score.word_modify, if_pos ⟨rfl, hw.trans_le hg.wordCount⟩]
  exact Option.some_ne_none i

theorem upon_readCode (code : String) (h : Stands F s) (hsite : Site start F.neume s)
    (hword : (s.syllable (s.neume F.neume).syllable).word = w) (hw : w < s.words.size) :
    Upon (readCode F.neume code) s fun _ s' => (s'.word w).clef = none → Stands F s' := by
  unfold readCode
  split
  · exact (upon_readLetters _ h).mono (fun _ _ h _ => h) fun _ _ => id
  next groups _ =>
    generalize clefMatcher.split code = around
    have hletters : ∀ l : List Char, Grows start (l.forM fun c => readLetters F.neume [c]) :=
      fun l => .forM fun c => grows_readLetters hsite.fresh [c]
    dsimp only
    rw [Upon]
    refine (hletters _ s (start_in s)).andThen (fun _ s₁ h₁ => ?_) fun _ _ _ => trivial
    have hsite₁ := hsite.grown h₁
    have hword₁ : (s₁.syllable (s₁.neume F.neume).syllable).word = w := by
      rw [h₁.place _ hsite.there, (h₁.syllable _ hsite.syllable).word, hword]
    rw [ends_bind]
    refine ((upon_addClef _ hsite₁ hword₁ (hw.trans_le h₁.wordCount)).and
      (grown_addClef _ (start_in s₁) hsite₁)).mono (fun _ s₂ h₂ => ?_) fun _ _ _ => trivial
    obtain ⟨hclef, h₂⟩ := h₂
    refine (Grows.bind (hletters _) (fun _ => .of_dresses (dresses_frameNeume F.neume)) s₂ (start_in s₂)).mono
      (fun _ s₃ h₃ hnone => ?_) fun _ _ _ => trivial
    exact absurd ((h₃.anchor w (hw.trans_le (h₁.trans h₂).wordCount)).2 hnone) hclef

/-! ## Syllables -/

theorem Stands.row_eq {row : List Nat} {glyphs : List Glyph} {i : Nat} (h : Standing F row glyphs i s) :
    s.row F.neume = glyphs := by
  rw [Score.row, h.signs, h.looks]

theorem upon_inheritedAccidentals {s₁ : Score} (h : Stands F s) (hsigns : s₁.signs = s.signs)
    (hneumes : s₁.neumes = s.neumes) (htables : s₁.tables = s.tables) (hk : (s₁.syllable k).neume = F.neume) :
    Upon (inheritedAccidentals (some k)) s₁ fun held s' => Quiet s₁ s' ∧
      Option.Rel (Tells s'.tables (clefFlatKey? F.clef)) held (inForce F.own (s.row F.neume)) := by
  obtain ⟨row, glyphs, h⟩ := h
  have hsign : s₁.sign = s.sign := funext fun j => by rw [Score.sign, hsigns, Score.sign]
  have hneume : s₁.neume = s.neume := funext fun n => by rw [Score.neume, hneumes, Score.neume]
  rw [Stands.row_eq h, inheritedAccidentals, Upon, ends_bind, ends_get]
  refine ends_need_bind (fun j hj => ?_) trivial
  cases hj
  refine ends_need_bind (fun last hlast => ?_) trivial
  rw [hk, hneume, h.signs] at hlast
  obtain ⟨base, rfl⟩ := List.getLast?_eq_some_iff.mp hlast
  have hthread : Thread s₁ F.held (base ++ [last]) := fun base' j later heq => by
    rw [hsign]
    exact h.thread base' j later heq
  have hshort : base.length < s₁.signs.size := by
    rw [hsigns]
    exact Nat.lt_of_succ_le (by simpa using h.short)
  have hfound := ends_accidentalsOf (by rw [htables]; exact h.tells) hthread hshort
  rw [hsign, h.looks] at hfound
  refine ends_orIfMissing ?_
  refine hfound.andThen (fun held s' h' => ?_) fun f s' h' => ⟨fun hf => ?_, fun _ => trivial⟩
  · obtain ⟨hquiet, entries, htells, heq⟩ := h'
    rw [heq]
    exact ⟨hquiet, .some htells⟩
  · rw [h'.2 hf]
    exact ⟨h'.1, .none⟩

theorem stands_empty {clef : String} {held : Option Accidentals} {own : Option Entries}
    (hn : n < s.neumes.size) (hneume : s.neume n = { syllable := k, accidentals := held })
    (hclef : ∃ j < s.signs.size, s.clefSign? (s.syllable k).word = some j ∧ (s.sign j).code = clef)
    (htells : Option.Rel (Tells s.tables (clefFlatKey? clef)) held own) :
    Stands ⟨s.words, s.syllables, clef, n, held, own⟩ s := by
  refine ⟨[], [], rfl, rfl, hn, ?_, by rw [hneume], htells, by rw [hneume], by simp, by simp, Along.nil, rfl, Along.nil,
    by simp⟩
  rw [hneume]
  exact hclef

theorem upon_readSyllable (code : String) (h : Stands F s) (hsite : Site start F.neume s)
    (hword : (s.syllable (s.neume F.neume).syllable).word = w) (hw : w < s.words.size) :
    Upon (do readCode F.neume code; fileSyllable w k) s fun _ s' => (s'.word w).clef = none →
        (s'.word w).syllables = (s.word w).syllables ++ [k] ∧ s'.syllables.size = s.syllables.size ∧
        (∀ j, (s.syllable j).Alike (s'.syllable j)) ∧
        Stands { F with words := s'.words, syllables := s'.syllables } s' := by
  have hF : F.words = s.words ∧ F.syllables = s.syllables := by
    obtain ⟨_, _, h⟩ := h
    exact ⟨h.words.symm, h.syllables.symm⟩
  rw [Upon]
  refine (upon_readCode code h hsite hword hw).seq fun _ s₁ h₁ => ?_
  rw [fileSyllable]
  refine (relabelled_settleText k s₁).andThen (fun _ s₂ h₂ => ?_) fun _ _ _ => trivial
  rw [ends_bind]
  refine (ends_modify _).mpr ?_
  set s' : Score := { s₂ with words := s₂.words.modify w fun v => { v with syllables := v.syllables ++ [k] } } with hs'
  have hword₂ : ∀ v, s₂.word v = s₁.word v := fun v => by rw [Score.word, h₂.words, Score.word]
  have hword' : ∀ v, (s'.word v).before = (s₁.word v).before ∧ (s'.word v).clef = (s₁.word v).clef := by
    intro v
    rw [hs', Score.word_modify]
    split <;> rw [hword₂] <;> exact ⟨rfl, rfl⟩
  intro hfree
  obtain ⟨row, glyphs, h₁⟩ := h₁ ((hword' w).2.symm.trans hfree)
  have hwords₁ : s₁.words = s.words := h₁.words.trans hF.1
  have hsyllables₁ : s₁.syllables = s.syllables := h₁.syllables.trans hF.2
  refine ⟨?_, by rw [← hsyllables₁]; exact h₂.count, fun j => ?_, row, glyphs, ?_⟩
  · rw [hs', Score.word_modify, if_pos ⟨rfl, by rw [h₂.words, hwords₁]; exact hw⟩, hword₂, Score.word, hwords₁, Score.word]
  · rw [Score.syllable, ← hsyllables₁]
    exact h₂.syllable j
  · have hsigns : s'.signs = s₁.signs := h₂.signs
    rw [hsigns]
    exact h₁.reword h₂.signs h₂.neumes h₂.tables (by simp [hs', h₂.words]) hword' h₂.syllable

theorem upon_addSyllable {clef : String} (own : Option Entries) (before : Option Nat) (text code : String)
    (hw : w < s.words.size) (hclef : ∃ j < s.signs.size, s.clefSign? w = some j ∧ (s.sign j).code = clef)
    (hfirst : (s.word w).syllables.isEmpty = true → own = none)
    (hnext : ∀ s₁ : Score, (s.word w).syllables.isEmpty = false → s₁.signs = s.signs → s₁.neumes = s.neumes →
      s₁.tables = s.tables → (∀ k < s.syllables.size, s₁.syllable k = s.syllable k) →
      Upon (inheritedAccidentals before) s₁ fun held s' => Quiet s₁ s' ∧
        Option.Rel (Tells s'.tables (clefFlatKey? clef)) held own) :
    Upon (addSyllable w before text code) s fun _ s' => (s'.word w).clef = none →
      (s'.word w).syllables = (s.word w).syllables ++ [s.syllables.size] ∧ s.syllables.size < s'.syllables.size ∧
      (s'.syllable s.syllables.size).neume = s.neumes.size ∧
      ∃ held, Stands ⟨s'.words, s'.syllables, clef, s.neumes.size, held, own⟩ s' := by
  set s₁ : Score := { s with syllables := s.syllables.push { word := w, text, before, neume := s.neumes.size } } with hs₁
  have hheld : Upon (takeOver (s.word w).syllables.isEmpty before) s₁ fun held s₂ =>
      Option.Rel (Tells s₂.tables (clefFlatKey? clef)) held own := by
    unfold takeOver
    split
    next hempty => exact hfirst hempty ▸ .none
    next hempty =>
      refine (hnext s₁ (Bool.not_eq_true _ ▸ hempty) rfl rfl rfl fun j hj => ?_).mono (fun _ _ h₂ => h₂.2) fun _ _ => id
      rw [hs₁, Score.syllable_push, if_neg hj.ne]
  refine ends_addSyllable ((ends_openSyllable hheld).mono (fun _ s₃ h₃ => ?_) fun _ _ => id)
  obtain ⟨held, s₂, htells, htables, h₃⟩ := h₃
  have hk₃ := h₃.syllable s.syllables.size
  have hu₃ := h₃.neume s.neumes.size
  rw [if_pos rfl] at hk₃ hu₃
  have hstands : Stands ⟨s₃.words, s₃.syllables, clef, s.neumes.size, held, own⟩ s₃ := by
    obtain ⟨j, hj, hsign, hcode⟩ := hclef
    refine stands_empty (by simp [h₃.neumes]) hu₃ ⟨j, by rwa [h₃.signs], ?_, ?_⟩ (htables ▸ htells)
    · rw [hk₃, Score.clefSign?_of_words_eq h₃.words]
      exact hsign
    · rw [← hcode, Score.sign, h₃.signs, Score.sign]
  have hcount₃ : s.syllables.size < s₃.syllables.size := by simp [h₃.syllables]
  have hread := upon_readSyllable (k := s.syllables.size) code hstands (h₃.site (Nat.zero_le _) (Nat.zero_le w)) (by rw [hu₃, hk₃]) (by rwa [h₃.words])
  rw [Upon, ends_bind] at hread
  refine hread.mono (fun _ s₄ h₄ => ?_) fun _ _ => id
  refine h₄.mono (fun _ s' h' hfree => ?_) fun _ _ => id
  obtain ⟨hsyllables, hcount, halike, hstands'⟩ := h' hfree
  refine ⟨?_, hcount ▸ hcount₃, ?_, held, hstands'⟩
  · rw [hsyllables, Score.word, h₃.words, Score.word]
  · rw [(halike _).neume, hk₃]

end Act

/-! ## Words -/

namespace Score.Grown

variable {b : Mark} {s s' : Score}

theorem row (h : Grown b s s') (hn : n < b.neumes) (hi : ∀ i ∈ (s.neume n).signs, i < b.signs) :
    s'.row n = s.row n := by
  rw [Score.row, h.signs n hn, Score.row]
  refine map_congr_left fun i hmem => ?_
  have halike := h.sign i (hi i hmem)
  rw [Sign.glyph, halike.kind, halike.code, halike.pitch, Sign.glyph]

theorem clefSign? (h : Grown b s s') (hs : s.Whole) (hw : w < s.words.size) (hb : w ≤ b.words)
    (hfree : (s'.word w).clef = none) : s'.clefSign? w = s.clefSign? w := by
  refine Score.clefSign?_congr hs.before hw (hw.trans_le h.wordCount) fun v hv => ?_
  rcases hv.lt_or_eq with hv | rfl
  · rw [h.word v (hv.trans_le hb)]
    exact ⟨rfl, rfl⟩
  · obtain ⟨hbefore, hclef⟩ := h.anchor v hw
    exact ⟨hbefore, hfree.trans (hclef hfree).symm⟩

end Score.Grown

/-- The word has its clef and its syllables, its neumes read as they should, and the last
    one stands. -/
structure Spelled (clef : String) (w : Nat) (s : Score) : Prop where
  under : ∃ j < s.signs.size, s.clefSign? w = some j ∧ (s.sign j).code = clef
  syllables : ∀ k ∈ (s.word w).syllables, k < s.syllables.size ∧ (s.syllable k).neume < s.neumes.size
  reads : WordReads clef (s.rows w)
  last : ∀ ks k, (s.word w).syllables = ks ++ [k] → ∃ F : Frame, F.clef = clef ∧ F.neume = (s.syllable k).neume ∧
    F.own = (ks.map fun j => s.row (s.syllable j).neume).foldl inForce none ∧ Act.Stands F s

namespace Act

variable {s : Score} {w : Nat} {clef : String}

theorem upon_nextSyllable {before : Option Nat} (text code : String) (hs : s.Whole) (hw : w < s.words.size)
    (h : Spelled clef w s) (hbefore : ∀ k, (s.word w).syllables.getLast? = some k → before = some k) :
    Upon (addSyllable w before text code) s fun _ s' => (s'.word w).clef = none → Spelled clef w s' := by
  have hgrown := grows_addSyllable (b := ⟨s.signs.size, s.neumes.size, w⟩) le_rfl before text code s
    ⟨le_rfl, le_rfl, hw.le⟩
  have hadd := upon_addSyllable ((s.rows w).foldl inForce none) before text code hw h.under ?_ ?_
  · refine (hadd.and hgrown).mono (fun _ s' hs' hfree => ?_) fun _ _ _ => trivial
    obtain ⟨hnew, hg⟩ := hs'
    obtain ⟨hsyllables, hcount, hneume, held, hstands⟩ := hnew hfree
    -- the rows of the syllables before it are below the mark
    have hold : ∀ k ∈ (s.word w).syllables, s'.row (s'.syllable k).neume = s.row (s.syllable k).neume := by
      intro k hk
      obtain ⟨hk, hn⟩ := h.syllables k hk
      rw [(hg.syllable k hk).neume]
      exact hg.row hn fun i hi => (hs.members _ i hi).1
    have hrows : ((s.word w).syllables.map fun k => s'.row (s'.syllable k).neume) = s.rows w :=
      map_congr_left hold
    obtain ⟨row, glyphs, hstanding⟩ := hstands
    refine ⟨?_, fun k hk => ?_, ?_, fun ks k heq => ?_⟩
    · obtain ⟨j, hj, hsign, hcode⟩ := h.under
      exact ⟨j, hj.trans_le hg.signCount, (hg.clefSign? hs hw le_rfl hfree).trans hsign, (hg.sign j hj).code.trans hcode⟩
    · rw [hsyllables] at hk
      rcases mem_append.mp hk with hk | hk
      · obtain ⟨hk, hn⟩ := h.syllables k hk
        exact ⟨hk.trans_le hg.syllableCount, by rw [(hg.syllable k hk).neume]; exact hn.trans_le hg.neumeCount⟩
      · obtain rfl := mem_singleton.mp hk
        exact ⟨hcount, by rw [hneume]; exact hstanding.there⟩
    · rw [Score.rows, hsyllables, map_append, hrows, map_cons, map_nil, hneume]
      refine h.reads.concat ?_
      have hreads := hstanding.reads
      rw [← Stands.row_eq hstanding] at hreads
      exact hreads
    · rw [hsyllables] at heq
      obtain ⟨rfl, hlast⟩ := append_inj' heq rfl
      cases hlast
      exact ⟨_, rfl, hneume.symm, by rw [hrows], row, glyphs, hstanding⟩
  · intro hempty
    rw [Score.rows, isEmpty_iff.mp hempty]
    rfl
  · intro s₁ hne hsigns hneumes htables hsyllable
    rcases eq_nil_or_concat (s.word w).syllables with hnil | ⟨ks, k, heq⟩
    · rw [hnil] at hne
      cases hne
    · rw [concat_eq_append] at heq
      obtain ⟨F, rfl, hneume, hown, hstands⟩ := h.last ks k heq
      obtain ⟨hk, -⟩ := h.syllables k (by rw [heq]; simp)
      rw [hbefore k (by rw [heq]; simp), Score.rows, heq, map_append, map_cons, map_nil, foldl_append,
        ← hown, ← hneume]
      exact upon_inheritedAccidentals hstands hsigns hneumes htables (by rw [hsyllable k hk, hneume])

theorem upon_makeWord {before : Option Nat} (syllables : List (String × String)) (hs : s.Whole)
    (hbefore : ∀ v, before = some v → v < s.words.size)
    (hclef : ∃ j < s.signs.size,
      ({ s with words := s.words.push { before } } : Score).clefSign? s.words.size = some j ∧ (s.sign j).code = clef) :
    Upon (makeWord before syllables) s fun w s' => (s'.word w).clef = none → Spelled clef w s' := by
  rw [makeWord, Upon, ends_bind, ends_get, ends_bind, ends_modify, ends_bind]
  set w := s.words.size with hw
  set s₁ : Score := { s with words := s.words.push { before } } with hs₁
  have hword₁ : s₁.word w = { before } := by rw [hs₁, Score.word_push, if_pos rfl]
  have hspelled : Spelled clef w s₁ := by
    have hnil : (s₁.word w).syllables = [] := by rw [hword₁]
    refine ⟨hclef, ?_, ?_, ?_⟩
    · rw [hnil]
      simp
    · rw [Score.rows, hnil]
      exact Along.nil
    · rw [hnil]
      simp
  have hwhole₁ : s₁.Whole := (Score.Grown.pushWord (start_in s) rfl fun _ => hbefore).whole hs
  -- every syllable keeps the word spelled, as long as no clef has come in
  have hround : ∀ text code last, ∀ s₂ : Score,
      s₂.Whole ∧ w < s₂.words.size ∧ ((s₂.word w).clef = none → Spelled clef w s₂) →
      (∀ k, (s₂.word w).syllables.getLast? = some k → last = some k) →
      Upon (addSyllable w last text code) s₂ fun _ s' =>
        s'.Whole ∧ w < s'.words.size ∧ ((s'.word w).clef = none → Spelled clef w s') := by
    rintro text code last s₂ ⟨hwhole, hw₂, hspelled⟩ hlast
    have hgrown := grows_addSyllable (b := start) (Nat.zero_le w) last text code s₂ (start_in s₂)
    by_cases hfree : (s₂.word w).clef = none
    · exact ((upon_nextSyllable text code hwhole hw₂ (hspelled hfree) hlast).and hgrown).mono
        (fun _ s₃ h₃ => ⟨h₃.2.whole hwhole, hw₂.trans_le h₃.2.wordCount, h₃.1⟩) fun _ _ _ => trivial
    · refine hgrown.mono (fun _ s₃ h₃ => ⟨h₃.whole hwhole, hw₂.trans_le h₃.wordCount, fun hfree₃ => ?_⟩) fun _ _ _ => trivial
      exact absurd ((h₃.anchor w hw₂).2 hfree₃) hfree
  refine (Ends.forM (I := fun s' => s'.Whole ∧ w < s'.words.size ∧ ((s'.word w).clef = none → Spelled clef w s'))
    (fun item _ s₂ h₂ => ?_) ⟨hwhole₁, by simp [hs₁, hw], fun _ => hspelled⟩).mono
    (fun _ s' h' => (ends_pure w).mpr h'.2.2) fun _ _ => id
  rw [ends_bind, ends_get, ends_discard]
  split
  next k hk => exact hround _ _ _ s₂ h₂ fun k' hk' => hk.symm.trans hk'
  next hk => exact hround _ _ _ s₂ h₂ fun k' hk' => absurd (hk.symm.trans hk') (by simp)

end Act

/-! ## Scores -/

/-- A word without clef of its own reads as it should under the clef in force. -/
def Score.Settled (s : Score) (w : Nat) : Prop :=
  (s.word w).clef = none → ∀ c, s.clefOf? w = some c →
    (∀ k ∈ (s.word w).syllables, k < s.syllables.size ∧ (s.syllable k).neume < s.neumes.size) ∧
    WordReads c.code (s.rows w)

theorem Score.Whole.clefSign?_lt (hs : s.Whole) {j : Nat} (h : s.clefSign? w = some j) : j < s.signs.size := by
  obtain ⟨v, -, hv⟩ := exists_of_findSome?_eq_some h
  exact hs.clef v j hv

theorem Score.Settled.changeText (h : s.Settled w) (text : List Nat) : ({ s with text } : Score).Settled w := by
  intro hfree c hc
  refine h hfree c ?_
  have hsame : ({ s with text } : Score).clefSign? w = s.clefSign? w :=
    Score.clefSign?_of_words_eq (show ({ s with text } : Score).words = s.words from rfl) w
  exact (congrArg (Option.map s.sign) hsame).symm.trans hc

theorem Score.Settled.grown (h : s.Settled w) (hs : s.Whole) (hw : w < s.words.size)
    (hg : Grown s.mark s s') : s'.Settled w := by
  intro hfree c hc
  have hword : s'.word w = s.word w := hg.word w hw
  obtain ⟨j, hj, rfl⟩ := Option.map_eq_some_iff.mp (show (s'.clefSign? w).map s'.sign = some c from hc)
  rw [hg.clefSign? hs hw hw.le hfree] at hj
  have hcode : (s'.sign j).code = (s.sign j).code := (hg.sign j (hs.clefSign?_lt hj)).code
  obtain ⟨hbound, hreads⟩ := h (hword ▸ hfree) (s.sign j) (congrArg (Option.map s.sign) hj)
  have hrows : s'.rows w = s.rows w := by
    rw [Score.rows, hword]
    refine map_congr_left fun k hk => ?_
    obtain ⟨hk, hn⟩ := hbound k hk
    rw [(hg.syllable k hk).neume]
    exact hg.row hn fun i hi => (hs.members _ i hi).1
  rw [hrows, hcode, hword]
  refine ⟨fun k hk => ?_, hreads⟩
  obtain ⟨hk, hn⟩ := hbound k hk
  exact ⟨hk.trans_le hg.syllableCount, by rw [(hg.syllable k hk).neume]; exact hn.trans_le hg.neumeCount⟩

theorem Act.keeps_settled (syllables : List (String × String)) :
    Keeps (fun s => s.Whole ∧ ∀ w ∈ s.text, s.Settled w) (addWord syllables) := by
  rintro s ⟨hs, htext⟩
  have hold : ∀ s', Score.Grown s.mark s s' → ∀ w ∈ s.text, s'.Settled w :=
    fun s' hg w hw => (htext w hw).grown hs (hs.text w hw) hg
  refine ((keeps_whole_addWord syllables s hs).and (ends_addWord syllables hs)).mono (fun _ s' h => ⟨h.1, ?_⟩)
    fun _ s' h => ⟨h.1, fun w hw => hold s' h.2 w (h.2.text ▸ hw)⟩
  obtain ⟨-, s₁, hgives, hg, hpushed, rfl⟩ := h
  intro w hw
  rcases mem_append.mp hw with hw | hw
  · exact (hold s₁ hg w hw).changeText _
  obtain rfl := mem_singleton.mp hw
  refine Score.Settled.changeText (fun hfree c hc => ?_) _
  set s₀ : Score := { s with words := s.words.push { before := s.text.getLast? } } with hs₀
  have hlast : ∀ v, s.text.getLast? = some v → v < s.words.size := fun v hv => hs.text v (mem_of_getLast? hv)
  have hs₀' : s₀.Whole := (Score.Grown.pushWord (start_in s) rfl fun _ => hlast).whole hs
  obtain ⟨j, hj, rfl⟩ := Option.map_eq_some_iff.mp (show (s₁.clefSign? s.words.size).map s₁.sign = some c from hc)
  have hsame := hpushed.clefSign? (w := s.words.size) hs₀' (by simp [hs₀]) le_rfl hfree
  rw [hsame] at hj
  have hlt : j < s.signs.size := hs₀'.clefSign?_lt hj
  have hspelled := (upon_makeWord syllables hs hlast ⟨j, hlt, hj, rfl⟩).of_gives hgives hfree
  rw [(hg.sign j hlt).code]
  exact ⟨hspelled.syllables, hspelled.reads⟩

/-- In every score that is read, the notes of every word in which no clef stands have the
    pitches that the accidentals in force give them under the clef of the word. -/
theorem pitches_of_word {code : String} {transposition : Option Int} {s : Score}
    (hread : (Score.read code transposition).2 = s) {w : Nat} (hw : w ∈ s.text) (hfree : (s.word w).clef = none)
    {c : Sign} (hclef : s.clefOf? w = some c) : WordReads c.code (s.rows w) := by
  have hsettled := Score.read_keeps (I := fun s => s.Whole ∧ ∀ w ∈ s.text, s.Settled w)
    (fun _ _ => ⟨Score.whole_empty _ _, by simp⟩) Act.keeps_settled code transposition
  rw [hread] at hsettled
  exact (hsettled.2 w hw hfree c hclef).2

/-- A flat in the first neume of a word and a natural in the second, which is not heard. -/
theorem pitches_of_word_later_natural :
    ∃ s w c, (Score.read "%%\n(c4) a(ixi)b(iyi)" none).2 = s ∧ w ∈ s.text ∧ (s.word w).clef = none ∧
      s.clefOf? w = some c ∧ c.code = "c4" ∧
      s.rows w = [[⟨.accidental, "ix", none⟩, ⟨.note, "i", some 70⟩], [⟨.accidental, "iy", none⟩, ⟨.note, "i", some 70⟩]] ∧
      WordReads c.code (s.rows w) := by
  obtain ⟨s, hread⟩ : ∃ s, (Score.read "%%\n(c4) a(ixi)b(iyi)" none).2 = s := ⟨_, rfl⟩
  have hw : 2 ∈ s.text := by
    rw [← hread]
    decide +kernel
  have hfree : (s.word 2).clef = none := by
    rw [← hread]
    decide +kernel
  have hcode : (s.clefOf? 2).map Sign.code = some "c4" := by
    rw [← hread]
    decide +kernel
  have hrows : s.rows 2 = [[⟨.accidental, "ix", none⟩, ⟨.note, "i", some 70⟩],
      [⟨.accidental, "iy", none⟩, ⟨.note, "i", some 70⟩]] := by
    rw [← hread]
    decide +kernel
  obtain ⟨c, hclef, hcode⟩ := Option.map_eq_some_iff.mp hcode
  exact ⟨s, 2, c, hread, hw, hfree, hclef, hcode, hrows, pitches_of_word hread hw hfree hclef⟩

/-- By the rule of the books the second note of the first chant is a B natural, and the only
    note of the second is a B flat. -/
theorem natural_and_flat_unheard :
    (Score.read "%%\n(c4) a(ixi)b(iyi)" none).2.notes.map (·.pitch) = [some 70, some 70] ∧
    (Score.read "%%\n(cb4) a(i)" none).2.notes.map (·.pitch) = [some 71] := by
  decide +kernel

end Plainsong.Chant
