import Plainsong.Chant.Lilypond
import Plainsong.Proofs.Chant.Reading
import Plainsong.Proofs.Chant.MusicLine
import Plainsong.Proofs.Chant.Playing
/- What can be engraved. Of all signs that are read, only a bar can be without a text: the
   virgula, which lengthens nothing and which neither Lilypond nor ABC has a text for. The
   notes of every score have their names. So a score can be written in Lilypond if and only if
   no virgula stands in it; in ABC the lyrics must have room besides, for a bar that opens a
   neume takes letters away from them (`Score.HasRoom`), and the tempo must have a half. -/
namespace Plainsong.Chant

open List

/-! ## Bars -/

def virgula : String := "\x60"

/-- The codes that bars are read with. -/
def barCodes : List String := [virgula, ",", ";", ":", "::"]

/-- The bars among the figures have codes of bars. -/
def KnownBars (row : List Figure) : Prop := ∀ f ∈ row, f.1 = .bar → f.2 ∈ barCodes

variable {row : List Figure}

theorem KnownBars.concat {f : Figure} (h : KnownBars row) (hf : f.1 = .bar → f.2 ∈ barCodes) :
    KnownBars (row ++ [f]) := by
  intro g hg
  rcases mem_append.mp hg with hg | hg
  · exact h g hg
  · rw [mem_singleton.mp hg]
    exact hf

theorem KnownBars.dropLast (h : KnownBars row) : KnownBars row.dropLast :=
  fun f hf => h f (mem_of_mem_dropLast hf)

theorem singleton_mem_barCodes {c : Char} (h : Kind.ofLetter? c = some .bar) : String.singleton c ∈ barCodes := by
  have hall : ∀ n < 128, Kind.ofLetter? (Char.ofNat n) = some .bar → String.singleton (Char.ofNat n) ∈ barCodes := by
    decide +kernel
  have hc := hall c.toNat (Act.toNat_lt_of_ofLetter? h)
  rw [Char.ofNat_toNat] at hc
  exact hc h

theorem KnownBars.enter (h : KnownBars row) (c : Char) : KnownBars (enter row c) := by
  unfold Plainsong.Chant.enter
  split
  · exact h
  · exact h.dropLast.concat (by simp)
  · exact h.dropLast.concat (by simp)
  · exact h.dropLast.concat (by simp)
  · exact h.dropLast.concat fun _ => by decide
  next kind hkind _ _ _ _ =>
    refine h.concat fun hk => singleton_mem_barCodes ?_
    rw [hkind]
    exact congrArg some hk

theorem KnownBars.enterAll (h : KnownBars row) (letters : List Char) :
    KnownBars (letters.foldl Plainsong.Chant.enter row) := by
  induction letters generalizing row with
  | nil => exact h
  | cons c rest ih => exact ih (h.enter c)

theorem knownBars_figuresOf (code : String) : KnownBars (figuresOf code) := by
  have hnil : KnownBars [] := fun _ hf => absurd hf not_mem_nil
  unfold figuresOf
  split
  · exact hnil.enterAll _
  · exact ((hnil.enterAll _).concat (by simp)).enterAll _

theorem Score.Reads.mem_barCodes {words : List (List (String × String))} {s : Score} (h : s.Reads words) {g : Sign}
    (hg : g ∈ s.music.flatten) (hbar : g.kind = .bar) : g.code ∈ barCodes := by
  obtain ⟨signs, hsigns, hg⟩ := mem_flatten.mp hg
  obtain ⟨y, hy, rfl⟩ := mem_map.mp hsigns
  obtain ⟨w, hw, hy⟩ := mem_flatMap.mp hy
  obtain ⟨k, hk, rfl⟩ := mem_map.mp hy
  obtain ⟨i, hi, rfl⟩ := mem_map.mp hg
  obtain ⟨items, -, hitems⟩ := h.exists_word hw
  obtain ⟨item, -, hitem⟩ := mem_map.mp (hitems ▸ mem_map.mpr ⟨k, hk, rfl⟩ : s.entry k ∈ items.map entryOf)
  have hfigures : s.figures (s.syllable k).neume = figuresOf item.2 := (congrArg Prod.snd hitem).symm
  have hmem : (s.sign i).figure ∈ figuresOf item.2 := hfigures ▸ mem_map.mpr ⟨i, hi, rfl⟩
  exact knownBars_figuresOf item.2 _ hmem hbar

theorem barLily_ok_iff {code : String} (h : code ∈ barCodes) : (∃ r, Sign.barLily code = .ok r) ↔ code ≠ virgula := by
  have hall : ∀ code ∈ barCodes, (Sign.barLily code).toOption.isSome = true ↔ code ≠ virgula := by decide
  rw [← hall code h]
  cases Sign.barLily code <;> simp [Except.toOption]

theorem barAbc_ok_iff {code : String} (h : code ∈ barCodes) : (∃ r, Sign.barAbc code = .ok r) ↔ code ≠ virgula := by
  have hall : ∀ code ∈ barCodes, (Sign.barAbc code).toOption.isSome = true ↔ code ≠ virgula := by decide
  rw [← hall code h]
  cases Sign.barAbc code <;> simp [Except.toOption]

def Sign.IsVirgula (g : Sign) : Prop := g.kind = .bar ∧ g.code = virgula

theorem lilyText_ok_iff {g : Sign} (hbar : g.kind = .bar → g.code ∈ barCodes) :
    (∃ r, g.lilyText = .ok r) ↔ ¬ g.IsVirgula := by
  rw [Sign.lilyText, Sign.IsVirgula]
  by_cases hk : g.kind = .bar
  · rw [if_neg (by rw [hk]; decide), if_pos hk, barLily_ok_iff (hbar hk)]
    simp [hk]
  · simp only [hk, false_and, not_false_iff, if_neg, iff_true]
    split
    · exact ⟨_, rfl⟩
    · exact ⟨_, rfl⟩

theorem abcText_ok_iff {g : Sign} (hg : g.Complete) (hbar : g.kind = .bar → g.code ∈ barCodes) :
    (∃ r, g.abcText = .ok r) ↔ ¬ g.IsVirgula := by
  rw [Sign.abcText, Sign.IsVirgula]
  by_cases hk : g.kind = .bar
  · rw [if_neg (by rw [hk]; decide), if_pos hk, barAbc_ok_iff (hbar hk)]
    simp [hk]
  · simp only [hk, false_and, not_false_iff, if_neg, iff_true]
    split
    next hs =>
      obtain ⟨_, _, r, -, hr, -⟩ := NoteToken.noteAbc_eq hg hs
      exact ⟨r, hr⟩
    · exact ⟨_, rfl⟩

/-! ## Lilypond -/

theorem isOk_iff {ε α : Type} {x : Except ε α} : x.isOk = true ↔ ∃ a, x = .ok a := by
  cases x <;> simp [Except.isOk, Except.toBool]

theorem exists_mapM_ok {ε α β : Type} {f : α → Except ε β} {l : List α} :
    (∃ bs, l.mapM f = .ok bs) ↔ ∀ a ∈ l, ∃ b, f a = .ok b := by
  induction l with
  | nil => exact ⟨fun _ _ ha => absurd ha not_mem_nil, fun _ => ⟨[], rfl⟩⟩
  | cons a l ih =>
    rw [forall_mem_cons, ← ih]
    constructor
    · rintro ⟨_, h⟩
      obtain ⟨b, bs, hb, hbs, -⟩ := mapM_eq_ok_cons.mp h
      exact ⟨⟨b, hb⟩, bs, hbs⟩
    · rintro ⟨⟨b, hb⟩, bs, hbs⟩
      exact ⟨b :: bs, mapM_eq_ok_cons.mpr ⟨b, bs, hb, hbs, rfl⟩⟩

theorem exists_bind_ok {ε α β : Type} {x : Except ε α} {f : α → β} :
    (∃ b, (x >>= fun a => pure (f a)) = .ok b) ↔ ∃ a, x = .ok a := by
  constructor
  · rintro ⟨b, h⟩
    obtain ⟨a, ha, -⟩ := bind_eq_ok.mp h
    exact ⟨a, ha⟩
  · rintro ⟨a, rfl⟩
    exact ⟨f a, rfl⟩

theorem Score.mem_music {s : Score} {g : Sign} :
    g ∈ s.music.flatten ↔ ∃ w ∈ s.text, ∃ y ∈ (s.word w).syllables.map s.syllable, g ∈ s.signsOf y.neume := by
  simp only [Score.music, Score.allSyllables, mem_flatten, mem_map, mem_flatMap]
  constructor
  · rintro ⟨_, ⟨_, ⟨w, hw, k, hk, rfl⟩, rfl⟩, hg⟩
    exact ⟨w, hw, s.syllable k, ⟨k, hk, rfl⟩, hg⟩
  · rintro ⟨w, hw, _, ⟨k, hk, rfl⟩, hg⟩
    exact ⟨_, ⟨s.syllable k, ⟨w, hw, k, hk, rfl⟩, rfl⟩, hg⟩

theorem Lilypond.ofScore_ok_iff (s : Score) :
    (∃ l, Lilypond.ofScore s = .ok l) ↔ ∀ g ∈ s.music.flatten, ∃ r, g.lilyText = .ok r := by
  have hneume : ∀ signs, (∃ r, Lilypond.neumeText signs = .ok r) ↔ ∀ g ∈ signs, ∃ r, Sign.lilyText g = .ok r :=
    fun signs => exists_bind_ok.trans exists_mapM_ok
  have hword : ∀ w, (∃ r, Lilypond.wordTexts s w = .ok r) ↔
      ∀ y ∈ (s.word w).syllables.map s.syllable, ∀ g ∈ s.signsOf y.neume, ∃ r, g.lilyText = .ok r := by
    refine fun w => exists_bind_ok.trans (exists_mapM_ok.trans ?_)
    simp only [hneume]
  have htexts : (∃ r, Lilypond.texts s = .ok r) ↔ ∀ w ∈ s.text, ∃ r, Lilypond.wordTexts s w = .ok r :=
    exists_bind_ok.trans exists_mapM_ok
  refine Iff.trans (exists_bind_ok (x := Lilypond.texts s)) ?_
  simp only [htexts, hword, Score.mem_music]
  constructor
  · rintro h g ⟨w, hw, y, hy, hg⟩
    exact h w hw y hy g hg
  · intro h w hw y hy g hg
    exact h g ⟨w, hw, y, hy, hg⟩

/-! ## ABC -/

/-- A note, or the sign of alteration that stands for the note it leads to. -/
def Kind.hasSlot (kind : Kind) : Bool := kind.sounds || kind = .accidental

/-- The lines under the signs behind the first one of a neume. -/
def linesUnder : Option Kind → List Kind → Nat
  | _, [] => 0
  | last, kind :: rest => (if kind.hasSlot && last ≠ some .accidental then 1 else 0) + linesUnder (some kind) rest

theorem Tune.underAll_behind (text : String) {place : Nat} (hplace : place ≠ 0) (last : Option Kind) (kinds : List Kind)
    (lyrics : List Char) : underAll text place last kinds lyrics = some (List.replicate (linesUnder last kinds) '_' ++ lyrics) := by
  induction kinds generalizing place last lyrics with
  | nil => rfl
  | cons kind rest ih =>
    have hunder : under text place last kind lyrics =
        some (List.replicate (if kind.hasSlot && last ≠ some .accidental then 1 else 0) '_' ++ lyrics) := by
      cases hk : kind.hasSlot <;> by_cases hlast : last = some .accidental <;> simp_all [under, Kind.hasSlot]
    rw [underAll, hunder, Option.bind_some, ih (by omega), linesUnder, Nat.add_comm, replicate_add, append_assoc]

namespace Passage

theorem lyrics?_cons {text : String} {signs : List Sign} {kind : Kind} {rest : List Kind} (h : signs.map (·.kind) = kind :: rest)
    (lyrics : List Char) : (neume text signs).lyrics? lyrics =
      (Tune.under text 0 none kind lyrics).map (List.replicate (linesUnder (some kind) rest) '_' ++ ·) := by
  rw [lyrics?, h, Tune.underAll]
  cases Tune.under text 0 none kind lyrics with
  | none => rfl
  | some l => exact Tune.underAll_behind text Nat.one_ne_zero (some kind) rest l

/-- The passage is a neume that begins with a bar. -/
def OpensWithBar : Passage → Prop
  | neume _ signs => (signs.map (·.kind)).head? = some .bar
  | wordEnd => False

theorem exists_underBar_eq_some (text : String) (lyrics : List Char) :
    (∃ l, Tune.underBar text lyrics = some l) ↔ 2 ≤ lyrics.length := by
  unfold Tune.underBar
  split
  · simp
  · simp
  next _ h =>
    match lyrics with
    | [] => simp
    | [_] => simp
    | a :: c :: rest => exact absurd rfl (h a c rest)

theorem exists_lyrics?_eq_some (p : Passage) (lyrics : List Char) :
    (∃ l, p.lyrics? lyrics = some l) ↔ (p.OpensWithBar → 2 ≤ lyrics.length) := by
  match p with
  | wordEnd => exact ⟨fun _ h => h.elim, fun _ => ⟨_, rfl⟩⟩
  | neume text signs =>
    rw [OpensWithBar]
    cases hsigns : signs.map (·.kind) with
    | nil => simp [lyrics?, hsigns, Tune.underAll]
    | cons kind rest =>
      simp only [lyrics?_cons hsigns, List.head?_cons, Option.some_inj, Option.map_eq_some_iff, exists_comm, exists_eq_right']
      unfold Tune.under
      by_cases hk : kind = .bar
      · subst hk
        simpa [Kind.sounds] using exists_underBar_eq_some text lyrics
      · simp only [hk, false_imp_iff, iff_true, decide_false, Bool.false_and]
        split <;> exact ⟨_, rfl⟩

/-- The lyrics behind some passages. -/
def lyricsBehind? (ps : List Passage) (lyrics : List Char) : Option (List Char) :=
  ps.foldlM (fun l p => p.lyrics? l) lyrics

theorem lyricsBehind?_cons (p : Passage) (ps : List Passage) (lyrics : List Char) :
    lyricsBehind? (p :: ps) lyrics = (p.lyrics? lyrics).bind (lyricsBehind? ps) := by
  rw [lyricsBehind?, foldlM_cons]
  rfl

/-- Wherever a neume begins with a bar, the passages before it leave two letters at least. -/
def Room (ps : List Passage) (lyrics : List Char) : Prop :=
  Along (fun earlier p => p.OpensWithBar → ∃ l, lyricsBehind? earlier lyrics = some l ∧ 2 ≤ l.length) ps

theorem exists_lyricsBehind?_eq_some (ps : List Passage) (lyrics : List Char) :
    (∃ l, lyricsBehind? ps lyrics = some l) ↔ Room ps lyrics := by
  induction ps generalizing lyrics with
  | nil => exact ⟨fun _ => .nil, fun _ => ⟨lyrics, rfl⟩⟩
  | cons p rest ih =>
    rw [Room, Along.cons_iff]
    have hp := exists_lyrics?_eq_some p lyrics
    cases hl : p.lyrics? lyrics with
    | none =>
      simp only [hl, reduceCtorEq, exists_false, false_iff] at hp
      rw [lyricsBehind?_cons, hl, Option.bind_none]
      constructor
      · rintro ⟨_, ⟨⟩⟩
      · rintro ⟨hfirst, -⟩
        refine absurd (fun hopens => ?_) hp
        obtain ⟨_, ⟨⟩, hlen⟩ := hfirst hopens
        exact hlen
    | some l =>
      simp only [lyricsBehind?_cons, hl, Option.bind_some]
      rw [ih l, Room]
      exact ⟨fun h => ⟨fun hopens => ⟨lyrics, rfl, hp.mp ⟨l, hl⟩ hopens⟩, h⟩, fun h => h.2⟩

theorem exists_drafts (ps : List Passage) (d : Tune.Draft) :
    (∃ d', Tune.Drafts ps d d') ↔ (∀ p ∈ ps, ∃ r, p.music = .ok r) ∧ ∃ l, lyricsBehind? ps d.lyrics = some l := by
  induction ps generalizing d with
  | nil => exact ⟨fun _ => ⟨fun _ hp => absurd hp not_mem_nil, d.lyrics, rfl⟩, fun _ => ⟨d, rfl⟩⟩
  | cons p rest ih =>
    rw [forall_mem_cons, lyricsBehind?_cons]
    constructor
    · rintro ⟨d', r, l, hr, hl, hd⟩
      obtain ⟨hmusic, hlyrics⟩ := (ih _).mp ⟨d', hd⟩
      rw [hl]
      exact ⟨⟨⟨r, hr⟩, hmusic⟩, hlyrics⟩
    · rintro ⟨⟨⟨r, hr⟩, hmusic⟩, l', hl'⟩
      obtain ⟨l, hl, hrest⟩ := Option.bind_eq_some_iff.mp hl'
      obtain ⟨d', hd⟩ := (ih ⟨l, d.music ++ r⟩).mpr ⟨hmusic, l', hrest⟩
      exact ⟨d', r, l, hr, hl, hd⟩

theorem exists_music_eq_ok (p : Passage) : (∃ r, p.music = .ok r) ↔ ∀ g ∈ p.signs, ∃ r, g.abcText = .ok r := by
  match p with
  | wordEnd => exact ⟨fun _ _ hg => absurd hg not_mem_nil, fun _ => ⟨_, rfl⟩⟩
  | neume text signs => exact exists_bind_ok.trans exists_mapM_ok

end Passage

/-- There is room for the lyrics of the score: no bar asks for letters that are not there. -/
def Score.HasRoom (s : Score) : Prop := Passage.Room (s.passages s.text) []

theorem Tune.ofScore_ok_iff (s : Score) (title tempo : Datum) :
    (∃ t, Tune.ofScore s title tempo = .ok t) ↔
      (∀ g ∈ s.music.flatten, ∃ r, g.abcText = .ok r) ∧ s.HasRoom ∧ ∃ x, Tune.halfTempo tempo = .ok x := by
  have htexts : (∃ r, Tune.texts s = .ok r) ↔ (∀ g ∈ s.music.flatten, ∃ r, g.abcText = .ok r) ∧ s.HasRoom := by
    refine Iff.trans (exists_bind_ok (x := Tune.addWords s s.text {})) ?_
    simp only [Tune.addWords_eq_ok, Passage.exists_drafts, Passage.exists_lyricsBehind?_eq_some,
      Passage.exists_music_eq_ok, ← s.signs_passages, forall_mem_flatMap]
    exact Iff.rfl
  rw [← and_assoc, ← htexts]
  constructor
  · rintro ⟨t, ht⟩
    obtain ⟨texts, htexts, ht⟩ := bind_eq_ok.mp ht
    obtain ⟨x, hx, -⟩ := bind_eq_ok.mp ht
    exact ⟨⟨texts, htexts⟩, x, hx⟩
  · rintro ⟨⟨texts, htexts⟩, x, hx⟩
    exact ⟨_, bind_eq_ok.mpr ⟨texts, htexts, bind_eq_ok.mpr ⟨x, hx, rfl⟩⟩⟩

/-- A score that is read can be written in Lilypond if and only if no virgula stands in it, and
    in ABC if and only if besides there is room for its lyrics and the tempo has a half. -/
theorem engraved_iff_no_virgula {code : String} {transposition : Option Int} {s : Score}
    (hread : Score.read code transposition = (.ok (), s)) (title tempo : Datum) :
    ((∃ l, Lilypond.ofScore s = .ok l) ↔ ∀ g ∈ s.music.flatten, ¬ g.IsVirgula) ∧
    ((∃ t, Tune.ofScore s title tempo = .ok t) ↔
      (∀ g ∈ s.music.flatten, ¬ g.IsVirgula) ∧ s.HasRoom ∧ ∃ x, Tune.halfTempo tempo = .ok x) := by
  obtain ⟨body, items, -, -, hreads⟩ := Score.read_items hread
  have hbar : ∀ g ∈ s.music.flatten, g.kind = .bar → g.code ∈ barCodes := fun g hg => hreads.mem_barCodes hg
  constructor
  · rw [Lilypond.ofScore_ok_iff]
    exact forall₂_congr fun g hg => lilyText_ok_iff (hbar g hg)
  · rw [Tune.ofScore_ok_iff]
    refine and_congr_left fun _ => forall₂_congr fun g hg => abcText_ok_iff (hreads.whole.complete hg) (hbar g hg)

/-- A chant with a text under a bar. -/
theorem engraved_with_asterisk :
    ∃ s, Score.read "%%\n(c4) A(g) *(;) b(g) (::)" none = (.ok (), s) ∧ (∃ l, Lilypond.ofScore s = .ok l) ∧
      ∃ t, Tune.ofScore s (.text "T") (.int 165) = .ok t := by
  obtain ⟨s, hs⟩ : ∃ s, (Score.read "%%\n(c4) A(g) *(;) b(g) (::)" none).2 = s := ⟨_, rfl⟩
  have hread : Score.read "%%\n(c4) A(g) *(;) b(g) (::)" none = (.ok (), s) := by
    rw [Score.read_of_isOk (by decide +kernel), hs]
  have hfree : ∀ g ∈ s.music.flatten, ¬ g.IsVirgula := by
    rw [← hs]
    unfold Sign.IsVirgula
    decide +kernel
  have hroom : s.HasRoom := by
    refine (Passage.exists_lyricsBehind?_eq_some _ _).mp (Option.isSome_iff_exists.mp ?_)
    rw [← hs]
    decide +kernel
  obtain ⟨x, -, hx, -⟩ := halfTempo_of_lt (n := 165) (by decide) (by decide +kernel)
  obtain ⟨hlily, htune⟩ := engraved_iff_no_virgula hread (.text "T") (.int 165)
  exact ⟨s, hread, hlily.mpr hfree, htune.mpr ⟨hfree, hroom, x, hx⟩⟩

/-- A chant with a virgula is read, and can be written in neither of the two. -/
theorem virgula_not_engraved :
    ∃ s, Score.read "%%\n(c4) a(h\x60)" none = (.ok (), s) ∧ (¬ ∃ l, Lilypond.ofScore s = .ok l) ∧
      ∀ title tempo, ¬ ∃ t, Tune.ofScore s title tempo = .ok t := by
  obtain ⟨s, hs⟩ : ∃ s, (Score.read "%%\n(c4) a(h\x60)" none).2 = s := ⟨_, rfl⟩
  have hread : Score.read "%%\n(c4) a(h\x60)" none = (.ok (), s) := by
    rw [Score.read_of_isOk (by decide +kernel), hs]
  have hlily : ¬ ∀ g ∈ s.music.flatten, g.lilyText.isOk = true := by
    rw [← hs]
    decide +kernel
  have habc : ¬ ∀ g ∈ s.music.flatten, g.abcText.isOk = true := by
    rw [← hs]
    decide +kernel
  refine ⟨s, hread, ?_, fun title tempo => ?_⟩
  · rw [Lilypond.ofScore_ok_iff]
    exact fun h => hlily fun g hg => isOk_iff.mpr (h g hg)
  · rw [Tune.ofScore_ok_iff]
    exact fun h => habc fun g hg => isOk_iff.mpr (h.1 g hg)

end Plainsong.Chant
