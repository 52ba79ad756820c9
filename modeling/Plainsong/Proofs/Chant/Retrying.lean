import Plainsong.Proofs.Chant.Leaning
/- A word that fails for want of a place is tried once more, and fails again. A syllable wants a
   place that is not there in two cases only (`Stuck`): the syllable before it in its word has no
   signs, whose accidentals it would take over, or one of its bars leans on a hollow word. Both
   are settled by the codes of the word and by the end of the word before (`Stumbles`), and a
   failed word changes neither. So whatever a failed word has done to the syllables before it,
   nothing comes of it (`Act.upon_again`). -/
namespace Plainsong.Chant

open List

/-! ## Hollow words -/

namespace Score

variable {s s' : Score}

/-- The word before `w` stands below the mark, with its syllables and their neumes. -/
def Founded (b : Mark) (w : Nat) (s : Score) : Prop :=
  ∀ v, (s.word w).before = some v → v < b.words ∧ ∀ k ∈ s.lists v, k < s.syllables.size ∧ (s.syllable k).neume < b.neumes

variable {b : Mark} {w : Nat}

theorem Founded.grown (h : s.Founded b w) (hg : Grown b s s') (hw : w < s.words.size) : s'.Founded b w := by
  intro v hv
  rw [(hg.anchor w hw).1] at hv
  obtain ⟨hlt, hk⟩ := h v hv
  refine ⟨hlt, fun k hmem => ?_⟩
  rw [Score.lists, hg.word v hlt] at hmem
  obtain ⟨hsize, hneume⟩ := hk k hmem
  exact ⟨hsize.trans_le hg.syllableCount, by rwa [(hg.syllable k hsize).neume]⟩

theorem Founded.hollow_iff (h : s.Founded b w) (hg : Grown b s s') (hw : w < s.words.size) : s'.Hollow w ↔ s.Hollow w := by
  refine exists_congr fun v => ?_
  rw [(hg.anchor w hw).1]
  refine and_congr_right fun hv => ?_
  obtain ⟨hlt, hk⟩ := h v hv
  have hsame : s'.closing v = s.closing v := by
    refine closing_congr (by rw [Score.lists, hg.word v hlt, Score.lists]) fun k hmem => ?_
    obtain ⟨hsize, hneume⟩ := hk k hmem
    rw [(hg.syllable k hsize).neume, hg.signs _ hneume]
  rw [hsame]

end Score

namespace Act

/-! ## Syllables -/

/-- The syllable wants the accidentals of a neume without signs, or a bar of it leans on a hollow
    word. -/
def Stuck (s : Score) (w : Nat) (before : Option Nat) (code : String) : Prop :=
  (s.lists w ≠ [] ∧ ∃ j, before = some j ∧ (s.neume (s.syllable j).neume).signs = []) ∨ (leansOf code = true ∧ s.Hollow w)

/-- The neume is there with the way back from its last sign. -/
def Tracked (s : Score) (n : Nat) : Prop := ∃ row, Spelt row ∧ s.Trail s.signs.size (s.neume n).signs.getLast? row

theorem Tracked.congr {s s' : Score} {n : Nat} (h : Tracked s n) (hsigns : s'.signs = s.signs) (hneumes : s'.neumes = s.neumes) :
    Tracked s' n := by
  obtain ⟨row, hspelt, htrail⟩ := h
  refine ⟨row, hspelt, ?_⟩
  rw [hsigns, Score.neume, hneumes]
  refine htrail.settled fun i _ => ?_
  rw [Score.sign, Score.sign, hsigns]
  exact .refl _

/-- The syllable is there and its neume has been read, but its text is not settled yet. -/
structure Announced (s : Score) (w : Nat) (before : Option Nat) (text : String) (s' : Score) : Prop where
  syllables : s'.syllables = s.syllables.push { word := w, text, before, neume := s.neumes.size }
  hasNote : ∀ m, (s.neume m).hasNote = true → (s'.neume m).hasNote = true
  tracked : Tracked s' s.neumes.size

theorem Announced.syllable {s s' : Score} {w : Nat} {before : Option Nat} {text : String} (h : Announced s w before text s')
    (k : Nat) : s'.syllable k =
      if k = s.syllables.size then { word := w, text, before, neume := s.neumes.size } else s.syllable k := by
  rw [Score.syllable, h.syllables]
  exact Score.syllable_push s _ k

variable {s : Score} {w : Nat} {before : Option Nat} {b : Mark}

theorem ends_inheritedAccidentals {j : Nat} (h : Tracked s (s.syllable j).neume) :
    Ends (inheritedAccidentals (some j)) s (fun _ _ => (s.neume (s.syllable j).neume).signs ≠ [])
      fun e _ => e = .value .outOfRange → (s.neume (s.syllable j).neume).signs = [] := by
  obtain ⟨row, hspelt, htrail⟩ := h
  rw [inheritedAccidentals, ends_bind, ends_get, ends_bind]
  refine (Gives.ends (Gives.of_pure j _)).mpr ?_
  rw [ends_bind]
  cases hlast : (s.neume (s.syllable j).neume).signs.getLast? with
  | none => exact fun _ => List.getLast?_eq_none_iff.mp hlast
  | some last =>
    have hne : (s.neume (s.syllable j).neume).signs ≠ [] := by
      intro hnil
      rw [hnil] at hlast
      cases hlast
    rw [hlast] at htrail
    refine (Gives.ends (Gives.of_pure last _)).mpr (ends_orIfMissing ?_)
    exact (sure_accidentalsOf htrail hspelt).andThen (fun _ _ _ => hne)
      fun e _ he => ⟨fun _ => hne, fun _ heq => absurd heq he⟩

namespace Opened

variable {s₁ : Score} {text : String} {held : Option Accidentals} (h : Opened s w before text held s₁)
include h

theorem wordOf : s₁.wordOf s.neumes.size = w := by
  rw [Score.wordOf, h.neume, if_pos rfl, h.syllable, if_pos rfl]

theorem trailing (hs : s.Whole) : Trailing s₁ s.neumes.size [] s₁ := by
  refine ⟨h.site (Nat.zero_le _) (Nat.zero_le _), (h.grown (start_in s)).whole hs, .nil, ?_, .refl s₁⟩
  rw [h.neume, if_pos rfl]
  exact .start _

theorem hasNote (m : Nat) (hm : (s.neume m).hasNote = true) : (s₁.neume m).hasNote = true := by
  have hne : m ≠ s.neumes.size := by
    rintro rfl
    rw [Score.neume, Array.getD_eq_getD_getElem?, Array.getElem?_eq_none le_rfl] at hm
    cases hm
  rwa [h.neume, if_neg hne]

variable (hb : b.In s) (hw : w < s.words.size) (hfounded : s.Founded b w)
include hb hw hfounded

theorem apart : s₁.Apart s.neumes.size := by
  intro v hv k hk
  rw [h.wordOf] at hv
  exact (((hfounded.grown (h.grown hb) hw v hv).2 k hk).2.trans_le hb.neumes).ne

theorem hollow_iff : s₁.Hollow (s₁.wordOf s.neumes.size) ↔ s.Hollow w := by
  rw [h.wordOf]
  exact hfounded.hollow_iff (h.grown hb) hw

end Opened

theorem ends_announce {text code : String} {Q : Nat → Score → Prop} {E : Fault → Score → Prop} (hs : s.Whole)
    (hb : b.In s) (hw : w < s.words.size) (hfounded : s.Founded b w)
    (hbefore : s.lists w ≠ [] → ∃ j < s.syllables.size, before = some j ∧ Tracked s (s.syllable j).neume)
    (hQ : ∀ s', Announced s w before text s' → ¬ Stuck s w before code → Ends (fileSyllable w s.syllables.size) s' Q E)
    (hE : ∀ e s', (e = .value .outOfRange → Stuck s w before code) → E e s') :
    Ends (addSyllable w before text code) s Q E := by
  set s₁ : Score :=
    { s with syllables := s.syllables.push { word := w, text, before, neume := s.neumes.size } } with hs₁
  have hheld : Ends (takeOver (s.word w).syllables.isEmpty before) s₁
      (fun _ _ => ¬ (s.lists w ≠ [] ∧ ∃ j, before = some j ∧ (s.neume (s.syllable j).neume).signs = [])) E := by
    unfold takeOver
    split
    next hempty => exact fun h => h.1 (isEmpty_iff.mp hempty)
    next hfull =>
      have hne : s.lists w ≠ [] := fun hnil => hfull (isEmpty_iff.mpr hnil)
      obtain ⟨j, hj, rfl, htracked⟩ := hbefore hne
      have hsyllable : s₁.syllable j = s.syllable j := by rw [hs₁, Score.syllable_push, if_neg hj.ne]
      have htracked₁ : Tracked s₁ (s.syllable j).neume := htracked.congr rfl rfl
      rw [← hsyllable] at htracked₁
      have hinherit := ends_inheritedAccidentals htracked₁
      rw [hsyllable] at hinherit
      refine hinherit.mono (fun _ _ hsome => ?_) fun e s₂ h₂ => hE e s₂ fun heq => .inl ⟨hne, j, rfl, h₂ heq⟩
      rintro ⟨-, j', heq, hnil⟩
      cases heq
      exact hsome hnil
  refine ends_addSyllable ((ends_openSyllable hheld).mono (fun _ s₂ h₂ => ?_) fun _ _ he => he)
  obtain ⟨held, -, hinherits, -, h₂⟩ := h₂
  refine (ends_readCode code (h₂.apart hb hw hfounded) (h₂.trailing hs)).mono (fun _ s₃ h₃ => ?_) fun e s₃ he => hE e s₃ fun heq => ?_
  · obtain ⟨⟨row, h₃⟩, hleans⟩ := h₃
    rw [h₂.hollow_iff hb hw hfounded] at hleans
    exact hQ s₃ ⟨h₃.onward.syllables.trans h₂.syllables, fun m hm => h₃.onward.hasNote m (h₂.hasNote m hm), row, h₃.spelt,
      h₃.trail⟩ fun hstuck => hstuck.elim hinherits fun hboth => hleans hboth.1 hboth.2
  · rw [h₂.hollow_iff hb hw hfounded] at he
    exact .inr (he heq)

/-- The text without the blanks at its head. -/
def unindented (text : String) : String := String.ofList (text.toList.dropWhile (· == ' '))

/-- The syllable `k` with another text under its notes. -/
def underlay (s : Score) (k : Nat) (text : String) : Score :=
  { s with syllables := s.syllables.modify k ({ · with lilyText := text }) }

theorem syllable_underlay (text : String) {k : Nat} (hk : k < s.syllables.size) :
    (underlay s k text).syllable k = { s.syllable k with lilyText := text } :=
  (Score.syllable_modify s k k _).trans (if_pos ⟨rfl, hk⟩)

theorem syllable_underlay_of_ne (text : String) {k m : Nat} (hne : k ≠ m) : (underlay s k text).syllable m = s.syllable m :=
  (Score.syllable_modify s k m _).trans (if_neg fun h => hne h.1)

theorem ends_settleText {k : Nat} {Q : Unit → Score → Prop} {E : Fault → Score → Prop}
    (htake : ∀ j, (s.syllable k).before = some j → (s.syllable j).lilyText ≠ "" →
      Q () (underlay (underlay s j "") k (unindented ((s.syllable j).lilyText ++ " " ++ (s.syllable k).text))))
    (hkeep : (∀ j, (s.syllable k).before = some j →
        (s.syllable j).lilyText = "" ∨ (s.neume (s.syllable j).neume).hasNote = true) →
      Q () (underlay s k (unindented (s.syllable k).text))) :
    Ends (settleText k) s Q E := by
  rw [settleText, ends_bind, ends_get]
  dsimp only
  split
  next j hj =>
    split
    next htaken =>
      rw [Bool.and_eq_true, decide_eq_true_eq] at htaken
      exact htake j hj htaken.1
    next hkept =>
      refine hkeep fun j' hj' => ?_
      obtain rfl := Option.some.inj (hj.symm.trans hj')
      by_contra hneither
      push Not at hneither
      exact hkept (by simp [hneither.1, hneither.2])
  next hnone =>
    refine hkeep fun j hj => ?_
    rw [hnone] at hj
    cases hj

theorem ends_trackSyllable {text code : String} (hs : s.Whole) (hb : b.In s) (hw : w < s.words.size)
    (hfounded : s.Founded b w)
    (hbefore : s.lists w ≠ [] → ∃ j < s.syllables.size, before = some j ∧ Tracked s (s.syllable j).neume) :
    Ends (addSyllable w before text code) s
      (fun _ s' => Tracked s' (s'.syllable s.syllables.size).neume ∧ ¬ Stuck s w before code)
      fun e _ => e = .value .outOfRange → Stuck s w before code := by
  refine ends_announce hs hb hw hfounded hbefore (fun s₁ h₁ hfree => ?_) fun _ _ => id
  rw [fileSyllable]
  refine (relabelled_settleText _ s₁).andThen (fun _ s₂ h₂ => ?_) fun _ _ h => h.2.elim
  rw [ends_bind]
  refine (ends_modify _).mpr ⟨?_, hfree⟩
  have hneume : (s₂.syllable s.syllables.size).neume = s.neumes.size := by
    rw [(h₂.syllable _).neume, h₁.syllable, if_pos rfl]
  show Tracked _ (s₂.syllable s.syllables.size).neume
  rw [hneume]
  exact h₁.tracked.congr h₂.signs h₂.neumes

/-! ## Words -/

theorem Penned.last {first : Option Nat} {items : List (String × String)} {j : Nat} (h : Penned first items w s)
    (hj : (s.lists w).getLast? = some j) :
    ∃ earlier item, items = earlier ++ [item] ∧ ((s.neume (s.syllable j).neume).signs = [] ↔ figuresOf item.2 = []) := by
  have hlast := congrArg List.getLast? h.entries
  rw [List.getLast?_map, hj, List.getLast?_map] at hlast
  obtain ⟨item, hitem, hentry⟩ := Option.map_eq_some_iff.mp hlast.symm
  obtain ⟨earlier, rfl⟩ := List.getLast?_eq_some_iff.mp hitem
  refine ⟨earlier, item, rfl, ?_⟩
  have hfigures : s.figures (s.syllable j).neume = figuresOf item.2 := (congrArg Prod.snd hentry).symm
  rw [← hfigures, Score.figures, map_eq_nil_iff]

/-- A word with these items fails for want of a place: one of its neumes but the last has no signs, or a
    bar leans on the word before, which is hollow. -/
def Stumbles (s : Score) (before : Option Nat) (items : List (String × String)) : Prop :=
  (∃ item ∈ items.dropLast, figuresOf item.2 = []) ∨
    (∃ v, before = some v ∧ s.closing v = none) ∧ ∃ item ∈ items, leansOf item.2 = true

section Stumbles

variable {items : List (String × String)} {item : String × String}

theorem Stumbles.append (h : Stumbles s before items) (more : List (String × String)) : Stumbles s before (items ++ more) := by
  obtain ⟨item, hitem, hnil⟩ | ⟨hhollow, item, hitem, hleans⟩ := h
  · refine .inl ⟨item, ?_, hnil⟩
    by_cases hmore : more = []
    · rwa [hmore, append_nil]
    · rw [dropLast_append_of_ne_nil hmore]
      exact mem_append_left _ (mem_of_mem_dropLast hitem)
  · exact .inr ⟨hhollow, item, mem_append_left _ hitem, hleans⟩

theorem stumbles_concat : Stumbles s before (items ++ [item]) ↔ Stumbles s before items ∨
    (∃ earlier last, items = earlier ++ [last] ∧ figuresOf last.2 = []) ∨
      (∃ v, before = some v ∧ s.closing v = none) ∧ leansOf item.2 = true := by
  constructor
  · rw [Stumbles, dropLast_concat]
    rintro (⟨item', hmem, hnil⟩ | ⟨hhollow, item', hmem, hleans⟩)
    · rcases eq_nil_or_concat items with rfl | ⟨earlier, last, rfl⟩
      · cases hmem
      · rw [concat_eq_append] at hmem ⊢
        rcases mem_append.mp hmem with hmem | hmem
        · exact .inl (.inl ⟨item', by rwa [dropLast_concat], hnil⟩)
        · cases mem_singleton.mp hmem
          exact .inr (.inl ⟨earlier, item', rfl, hnil⟩)
    · rcases mem_append.mp hmem with hmem | hmem
      · exact .inl (.inr ⟨hhollow, item', hmem, hleans⟩)
      · cases mem_singleton.mp hmem
        exact .inr (.inr ⟨hhollow, hleans⟩)
  · rintro (h | ⟨earlier, last, rfl, hnil⟩ | ⟨hhollow, hleans⟩)
    · exact h.append [item]
    · exact .inl ⟨last, by rw [dropLast_concat]; simp, hnil⟩
    · exact .inr ⟨hhollow, item, by simp, hleans⟩

end Stumbles

/-- What has been read of a word that has not failed so far. -/
structure Passing (s : Score) (before : Option Nat) (done : List (String × String)) (s₁ : Score) : Prop where
  founded : s₁.Founded s.mark s.words.size
  hollow : s₁.Hollow s.words.size ↔ ∃ v, before = some v ∧ s.closing v = none
  tracked : ∀ j ∈ (s₁.lists s.words.size).getLast?, Tracked s₁ (s₁.syllable j).neume
  passed : ¬ Stumbles s before done

/-- The word before is there, with its syllables. -/
def Grounded (s : Score) (before : Option Nat) : Prop :=
  ∀ v, before = some v → v < s.words.size ∧ ∀ k ∈ s.lists v, s.Holds k

theorem passing_nil (hbefore : Grounded s before) : Passing s before [] { s with words := s.words.push { before } } := by
  set s₀ : Score := { s with words := s.words.push { before } } with hs₀
  have hword : s₀.word s.words.size = { before } := by rw [hs₀, Score.word_push, if_pos rfl]
  have hold : ∀ v < s.words.size, s₀.lists v = s.lists v := fun v hv => by
    rw [Score.lists, hs₀, Score.word_push, if_neg hv.ne, Score.lists]
  refine ⟨fun v hv => ?_, exists_congr fun v => ?_, fun j hj => ?_, ?_⟩
  · rw [hword] at hv
    obtain ⟨hlt, hholds⟩ := hbefore v hv
    rw [hold v hlt]
    exact ⟨hlt, hholds⟩
  · rw [hword]
    refine and_congr_right fun hv => ?_
    rw [Score.closing_congr (hold v (hbefore v hv).1) fun _ _ => rfl]
  · rw [Score.lists, hword] at hj
    cases hj
  · rintro (⟨item, hitem, -⟩ | ⟨-, item, hitem, -⟩) <;> cases hitem

section Passing

variable {s₁ : Score} {first last : Option Nat} {done : List (String × String)}

theorem Passing.behind (h : Passing s before done s₁) (hpenned : Penned first done s.words.size s₁)
    (hlast : last = (s₁.lists s.words.size).getLast?.or first) (hne : s₁.lists s.words.size ≠ []) :
    ∃ j < s₁.syllables.size, last = some j ∧ Tracked s₁ (s₁.syllable j).neume := by
  obtain ⟨j, hj⟩ := Option.isSome_iff_exists.mp (List.getLast?_isSome.mpr hne)
  exact ⟨j, (hpenned.holds j (mem_of_getLast? hj)).1, by rw [hlast, hj]; rfl, h.tracked j hj⟩

theorem Passing.stuck_iff (h : Passing s before done s₁) (hpenned : Penned first done s.words.size s₁)
    (hlast : last = (s₁.lists s.words.size).getLast?.or first) (code : String) :
    Stuck s₁ s.words.size last code ↔ (∃ earlier item, done = earlier ++ [item] ∧ figuresOf item.2 = []) ∨
      (∃ v, before = some v ∧ s.closing v = none) ∧ leansOf code = true := by
  refine or_congr ⟨?_, ?_⟩ (by rw [h.hollow, and_comm])
  · rintro ⟨hne, j, hj, hnil⟩
    obtain ⟨j', hj'⟩ := Option.isSome_iff_exists.mp (List.getLast?_isSome.mpr hne)
    rw [hj', Option.some_or, hj] at hlast
    cases hlast
    obtain ⟨earlier, item, hdone, hiff⟩ := hpenned.last hj'
    exact ⟨earlier, item, hdone, hiff.mp hnil⟩
  · rintro ⟨earlier, item, hdone, hnil⟩
    have hne : s₁.lists s.words.size ≠ [] := by
      intro hempty
      have hlength := congrArg List.length hpenned.entries
      simp [hempty, hdone] at hlength
    obtain ⟨j, hj⟩ := Option.isSome_iff_exists.mp (List.getLast?_isSome.mpr hne)
    obtain ⟨_, item', hdone', hiff⟩ := hpenned.last hj
    rw [hdone] at hdone'
    cases (append_inj' hdone' rfl).2
    exact ⟨hne, j, by rw [hlast, hj]; rfl, hiff.mpr hnil⟩

theorem ends_passSyllable (item : String × String) (hs : s.Whole) (hg : Score.Grown s.mark s s₁)
    (h : Passing s before done s₁) (hpenned : Penned first done s.words.size s₁)
    (hlast : last = (s₁.lists s.words.size).getLast?.or first) :
    Ends (addSyllable s.words.size last item.1 item.2) s₁ (fun _ => Passing s before (done ++ [item]))
      fun e _ => e = .value .outOfRange → Stumbles s before (done ++ [item]) := by
  have hmark := hg.markIn s.mark_in
  have hstuck := h.stuck_iff hpenned hlast item.2
  refine ((ends_trackSyllable (hg.whole hs) hmark hpenned.there h.founded (h.behind hpenned hlast)).and
    ((upon_fileSyllable last item.1 item.2 hpenned.there).and
      (grows_addSyllable (b := s.mark) le_rfl last item.1 item.2 s₁ hmark))).mono (fun _ s₂ h₂ => ?_) fun e s₂ h₂ he => ?_
  · obtain ⟨⟨htracked, hfree⟩, ⟨hlists, -⟩, hg₂⟩ := h₂
    refine ⟨h.founded.grown hg₂ hpenned.there, (h.founded.hollow_iff hg₂ hpenned.there).trans h.hollow, fun j hj => ?_, ?_⟩
    · rw [hlists, List.getLast?_concat] at hj
      cases hj
      exact htracked
    · rw [stumbles_concat, ← hstuck]
      exact fun hboth => hboth.elim h.passed hfree
  · exact stumbles_concat.mpr (.inr (hstuck.mp (h₂.1 he)))

end Passing

theorem ends_tryWord (items : List (String × String)) (hs : s.Whole) (hbefore : Grounded s before) :
    Ends (makeWord before items) s (fun _ _ => ¬ Stumbles s before items)
      fun e _ => e = .value .outOfRange → Stumbles s before items := by
  refine (ends_penWord (J := Passing s before) hs (fun v hv => (hbefore v hv).1) (passing_nil hbefore)
    fun done item rest s₁ last heq hg hpenned hJ hlast => ?_).mono (fun _ _ h => h.2.2.passed) fun _ _ => id
  refine (ends_passSyllable item hs hg hJ hpenned hlast).mono (fun _ _ => id) fun e s₂ h₂ he => ?_
  rw [← heq, append_cons]
  exact (h₂ he).append rest

variable {words : List (List (String × String))}

theorem grounded_getLast? (h : s.Reads words) : Grounded s s.text.getLast? := by
  intro v hv
  have hmem := mem_of_getLast? hv
  exact ⟨h.whole.text v hmem, fun k hk => h.holds k (mem_flatMap.mpr ⟨v, hmem, hk⟩)⟩

theorem ends_tryAddWord (items : List (String × String)) (h : s.Reads words) :
    Ends (addWord items) s (fun _ _ => ¬ Stumbles s s.text.getLast? items)
      fun e _ => e = .value .outOfRange → Stumbles s s.text.getLast? items := by
  rw [addWord, ends_bind, ends_get]
  exact (ends_tryWord items h.whole (grounded_getLast? h)).seq fun _ _ hs => hs

theorem upon_again {items : List (String × String)} {Q : Unit → Score → Prop}
    (h : s.Reads words) (hadd : Upon (addWord items) s Q) :
    Upon (orIfOutOfRange (addWord items) (addWord items)) s Q := by
  rw [Upon, orIfOutOfRange, ends_tryCatch]
  refine (hadd.and ((ends_tryAddWord items h).and (ends_addWord items h.whole))).mono (fun _ _ hs => hs.1) fun e s₁ h₁ => ?_
  obtain ⟨-, hstumbles, hg⟩ := h₁
  split
  · have hagain : Stumbles s₁ s₁.text.getLast? items := by
      rw [hg.text]
      refine (hstumbles rfl).imp_right ?_
      rintro ⟨⟨v, hv, hnone⟩, hleans⟩
      refine ⟨⟨v, hv, ?_⟩, hleans⟩
      rw [← hnone]
      refine Score.closing_congr (h.lists_grown hg (mem_of_getLast? hv)) fun k hk => ?_
      have hholds := (grounded_getLast? h v hv).2 k hk
      rw [(hg.syllable k hholds.1).neume, hg.signs _ hholds.2]
    exact (ends_tryAddWord items (h.grown hg)).mono (fun _ _ hnot => absurd hagain hnot) fun _ _ _ => trivial
  · trivial

end Act

end Plainsong.Chant
