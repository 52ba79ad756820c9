import Plainsong.Proofs.Chant.InForce
/- The spelling of a word. While a neume is read, the signs that stand in it form a
   thread, and each note among them has the pitch that the accidentals in force give
   it (`Standing`). A letter drafts a new sign (`Draft`), which may push out the one
   before it, and then lets it in; so the letters of a neume, one by one, keep its
   row as it should be, and the neumes of a word follow one another with the
   accidentals that each hands on to the next (`WordReads`). -/
namespace Plainsong.Chant

open List

/-! ## Standing rows -/

/-- Two states of a sign that is read the same: only its rhythm, its nuances, its texts and
    the sign behind it may differ. -/
structure Sign.Still (g g' : Sign) : Prop where
  kind : g'.kind = g.kind
  code : g'.code = g.code
  neume : g'.neume = g.neume
  before : g'.before = g.before
  accidentals : g'.accidentals = g.accidentals
  pitch : g'.pitch = g.pitch

namespace Sign.Still

theorem refl (g : Sign) : g.Still g := ⟨rfl, rfl, rfl, rfl, rfl, rfl⟩

theorem trans {g g' g'' : Sign} (h : g.Still g') (h' : g'.Still g'') : g.Still g'' :=
  ⟨h'.kind.trans h.kind, h'.code.trans h.code, h'.neume.trans h.neume, h'.before.trans h.before,
    h'.accidentals.trans h.accidentals, h'.pitch.trans h.pitch⟩

theorem glyph {g g' : Sign} (h : g.Still g') : g'.glyph = g.glyph := by
  rw [Sign.glyph, h.kind, h.code, h.pitch, Sign.glyph]

end Sign.Still

theorem Sign.Dressed.still {g g' : Sign} (h : g.Dressed g') : g.Still g' :=
  ⟨h.kind, h.code, h.neume, h.before, h.accidentals, h.pitch⟩

/-- The number of the clef in force in a word. -/
def Score.clefSign? (s : Score) (w : Nat) : Option Nat :=
  (s.wordsBackFrom (s.words.size + 1) (some w)).findSome? fun v => (s.word v).clef

theorem Score.clefSign?_of_words {s s' : Score} (hsize : s'.words.size = s.words.size)
    (hword : ∀ v, (s'.word v).before = (s.word v).before ∧ (s'.word v).clef = (s.word v).clef) (w : Nat) :
    s'.clefSign? w = s.clefSign? w := by
  have hback : ∀ fuel v, s'.wordsBackFrom fuel v = s.wordsBackFrom fuel v := by
    intro fuel
    induction fuel with
    | zero => exact fun _ => rfl
    | succ fuel ih =>
      rintro (_ | v)
      · rfl
      · rw [wordsBackFrom, wordsBackFrom, ih, (hword v).1]
  simp only [clefSign?, hback, hsize, (hword _).2]

theorem Score.clefSign?_of_words_eq {s s' : Score} (h : s'.words = s.words) (w : Nat) :
    s'.clefSign? w = s.clefSign? w :=
  clefSign?_of_words (by rw [h]) (fun v => by rw [Score.word, h, Score.word]; exact ⟨rfl, rfl⟩) w

/-- What stays the same while a neume is read: words and syllables, the clef, the number of
    the neume, the accidentals it took over, and their entries. -/
structure Frame where
  words : Array Word
  syllables : Array Syllable
  clef : String
  neume : Nat
  held : Option Accidentals
  own : Option Entries

/-- A code that begins with a plain letter. -/
def BeginsPlain (code : String) : Prop := ∃ c rest, code.toList = c :: rest ∧ c.toNat < 128

/-- The neume of the frame has the row of signs, all of them below `i`, and they look like
    the glyphs. -/
structure Standing (F : Frame) (row : List Nat) (glyphs : List Glyph) (i : Nat) (s : Score) : Prop where
  words : s.words = F.words
  syllables : s.syllables = F.syllables
  there : F.neume < s.neumes.size
  clef : ∃ j < i, s.clefSign? (s.syllable (s.neume F.neume).syllable).word = some j ∧ (s.sign j).code = F.clef
  held : (s.neume F.neume).accidentals = F.held
  tells : Option.Rel (Tells s.tables (clefFlatKey? F.clef)) F.held F.own
  signs : (s.neume F.neume).signs = row
  below : ∀ j ∈ row, j < i
  short : row.length ≤ i
  thread : Act.Thread s F.held row
  looks : row.map (fun j => (s.sign j).glyph) = glyphs
  reads : RowReads F.clef F.own glyphs
  ascii : ∀ g ∈ glyphs, g.kind.sounds = true → BeginsPlain g.code

namespace Standing

variable {F : Frame} {row : List Nat} {glyphs : List Glyph} {i : Nat} {s s' : Score}

theorem still (h : Standing F row glyphs i s) (hsign : ∀ j < i, (s.sign j).Still (s'.sign j))
    (hcount : s'.neumes.size = s.neumes.size) (hneume : (s.neume F.neume).Dressed (s'.neume F.neume))
    (hsyllables : s'.syllables = s.syllables) (hwords : s'.words = s.words)
    (htells : Option.Rel (Tells s'.tables (clefFlatKey? F.clef)) F.held F.own) : Standing F row glyphs i s' where
  words := hwords.trans h.words
  syllables := hsyllables.trans h.syllables
  there := hcount ▸ h.there
  clef := by
    obtain ⟨j, hj, hclef, hcode⟩ := h.clef
    refine ⟨j, hj, ?_, (hsign j hj).code.trans hcode⟩
    rw [Score.clefSign?_of_words_eq hwords, hneume.syllable, Score.syllable, hsyllables]
    exact hclef
  held := hneume.accidentals.trans h.held
  tells := htells
  signs := hneume.signs.trans h.signs
  below := h.below
  short := h.short
  thread := by
    intro base j later heq
    obtain ⟨hbefore, hshared⟩ := h.thread base j later heq
    have hj := hsign j (h.below j (by rw [heq]; simp))
    rw [hj.before, hj.kind, hj.accidentals]
    exact ⟨hbefore, hshared⟩
  looks := by
    rw [← h.looks]
    exact map_congr_left fun j hj => (hsign j (h.below j hj)).glyph
  reads := h.reads
  ascii := h.ascii

theorem dressed (h : Standing F row glyphs i s) (hs : s.Dressed s') : Standing F row glyphs i s' :=
  h.still (fun j _ => (hs.sign j).still) hs.neumeCount (hs.neume _) hs.syllables hs.words (hs.tables ▸ h.tells)

theorem looks_concat {base : List Nat} {j : Nat} (h : Standing F (base ++ [j]) glyphs i s) :
    glyphs = (base.map fun k => (s.sign k).glyph) ++ [(s.sign j).glyph] := by
  rw [← h.looks, map_append]
  rfl

theorem changeRow (h : Standing F row glyphs i s) {f : List Nat → List Nat} {row' : List Nat} {glyphs' : List Glyph}
    {i' : Nat} (hi : i ≤ i') (hf : f row = row') (hbelow : ∀ j ∈ row', j < i') (hshort : row'.length ≤ i')
    (hthread : Act.Thread s F.held row') (hlooks : row'.map (fun j => (s.sign j).glyph) = glyphs')
    (hreads : RowReads F.clef F.own glyphs')
    (hascii : ∀ g ∈ glyphs', g.kind.sounds = true → BeginsPlain g.code) :
    Standing F row' glyphs' i' { s with neumes := s.neumes.modify F.neume fun u => { u with signs := f u.signs } } := by
  set s' : Score := { s with neumes := s.neumes.modify F.neume fun u => { u with signs := f u.signs } } with hs'
  have hneume : s'.neume F.neume = { s.neume F.neume with signs := f (s.neume F.neume).signs } := by
    rw [hs', Score.neume_modify, if_pos ⟨rfl, h.there⟩]
  obtain ⟨j, hj, hclef, hcode⟩ := h.clef
  refine ⟨h.words, h.syllables, by simpa [hs'] using h.there, ⟨j, hj.trans_le hi, ?_, hcode⟩,
    by rw [hneume]; exact h.held, h.tells,
    by rw [hneume, h.signs]; exact hf, hbelow, hshort, hthread, hlooks, hreads, hascii⟩
  rw [Score.clefSign?_of_words_eq (show s'.words = s.words from rfl), hneume]
  exact hclef

theorem reword (h : Standing F row glyphs i s) (hsigns : s'.signs = s.signs) (hneumes : s'.neumes = s.neumes)
    (htables : s'.tables = s.tables) (hsize : s'.words.size = s.words.size)
    (hword : ∀ v, (s'.word v).before = (s.word v).before ∧ (s'.word v).clef = (s.word v).clef)
    (hsyllable : ∀ k, (s.syllable k).Alike (s'.syllable k)) :
    Standing { F with words := s'.words, syllables := s'.syllables } row glyphs i s' := by
  have hsign : s'.sign = s.sign := funext fun j => by rw [Score.sign, hsigns, Score.sign]
  have hneume : s'.neume = s.neume := funext fun n => by rw [Score.neume, hneumes, Score.neume]
  obtain ⟨j, hj, hclef, hcode⟩ := h.clef
  refine ⟨rfl, rfl, by rw [hneumes]; exact h.there, ⟨j, hj, ?_, by rw [hsign]; exact hcode⟩,
    by rw [hneume]; exact h.held, by rw [htables]; exact h.tells, by rw [hneume]; exact h.signs, h.below, h.short, ?_,
    by rw [hsign]; exact h.looks, h.reads, h.ascii⟩
  · rw [Score.clefSign?_of_words hsize hword, hneume, (hsyllable _).word]
    exact hclef
  · intro base k later heq
    rw [hsign]
    exact h.thread base k later heq

theorem dropLast (h : Standing F row glyphs i s) :
    Standing F row.dropLast glyphs.dropLast i
      { s with neumes := s.neumes.modify F.neume fun u => { u with signs := u.signs.dropLast } } := by
  refine h.changeRow (f := List.dropLast) le_rfl rfl (fun j hj => h.below j (mem_of_mem_dropLast hj))
    (by rw [length_dropLast]; exact (Nat.sub_le _ _).trans h.short) ?_ (by rw [map_dropLast, h.looks]) ?_
    fun g hg => h.ascii g (mem_of_mem_dropLast hg)
  · rcases eq_nil_or_concat row with rfl | ⟨base, j, rfl⟩
    · exact h.thread
    · rw [concat_eq_append, dropLast_concat]
      exact Along.take (concat_eq_append ▸ h.thread)
  · rcases eq_nil_or_concat glyphs with rfl | ⟨base, g, rfl⟩
    · exact h.reads
    · rw [concat_eq_append, dropLast_concat]
      exact Along.take (concat_eq_append ▸ h.reads)

end Standing

/-! ## Drafts -/

/-- Behind a standing row the sign `i` is drafted; it is read like `g`. -/
structure Draft (F : Frame) (row : List Nat) (glyphs : List Glyph) (i : Nat) (g : Sign) (s : Score) : Prop where
  standing : Standing F row glyphs i s
  new : i < s.signs.size
  looks : g.Still (s.sign i)

namespace Draft

variable {F : Frame} {row : List Nat} {glyphs : List Glyph} {i : Nat} {g g' : Sign} {s s' : Score}

theorem dressed (h : Draft F row glyphs i g s) (hs : s.Dressed s') : Draft F row glyphs i g s' :=
  ⟨h.standing.dressed hs, hs.signCount ▸ h.new, h.looks.trans (hs.sign i).still⟩

theorem quiet (h : Draft F row glyphs i g s) (hs : Act.Quiet s s')
    (htells : Option.Rel (Tells s'.tables (clefFlatKey? F.clef)) F.held F.own) : Draft F row glyphs i g s' := by
  refine ⟨h.standing.still (fun j _ => ?_) (by rw [hs.neumes]) ?_ hs.syllables hs.words htells, by rw [hs.signs]; exact h.new,
    by rw [hs.sign]; exact h.looks⟩
  · rw [hs.sign]
    exact .refl _
  · rw [hs.neume]
    exact .refl _

theorem change (h : Draft F row glyphs i g s) {f : Sign → Sign} (hf : ∀ x, g.Still x → g'.Still (f x)) :
    Draft F row glyphs i g' { s with signs := s.signs.modify i f } := by
  refine ⟨h.standing.still (fun j hj => ?_) rfl (.refl _) rfl rfl h.standing.tells, by simpa using h.new, ?_⟩
  · rw [Score.sign_modify, if_neg (by omega)]
    exact .refl _
  · rw [Score.sign_modify, if_pos ⟨rfl, h.new⟩]
    exact hf _ h.looks

theorem changeBehind (h : Draft F row glyphs i g s) (j k : Nat) :
    Draft F row glyphs i g { s with signs := s.signs.modify j ({ · with behind := some k }) } := by
  have hstill : ∀ m, (s.sign m).Still
      (({ s with signs := s.signs.modify j ({ · with behind := some k }) } : Score).sign m) := by
    intro m
    rw [Score.sign_modify]
    split
    · exact ⟨rfl, rfl, rfl, rfl, rfl, rfl⟩
    · exact .refl _
  exact ⟨h.standing.still (fun m _ => hstill m) rfl (.refl _) rfl rfl h.standing.tells, by simpa using h.new,
    h.looks.trans (hstill i)⟩

theorem dropLast (h : Draft F row glyphs i g s) :
    Draft F row.dropLast glyphs.dropLast i g
      { s with neumes := s.neumes.modify F.neume fun u => { u with signs := u.signs.dropLast } } :=
  ⟨h.standing.dropLast, h.new, h.looks⟩

theorem clefOf? (h : Draft F row glyphs i g s) (hneume : g.neume = F.neume) :
    (s.clefOf? (s.syllable (s.neume (s.sign i).neume).syllable).word).map Sign.code = some F.clef := by
  obtain ⟨j, -, hclef, hcode⟩ := h.standing.clef
  rw [h.looks.neume, hneume, show s.clefOf? _ = (s.clefSign? _).map s.sign from rfl, hclef]
  exact congrArg some hcode

theorem thread (h : Draft F row glyphs i g s) (hbefore : g.before = row.getLast?) (hheld : g.accidentals = F.held) :
    Act.Thread s F.held (row ++ [i]) :=
  h.standing.thread.concat ⟨h.looks.before.trans hbefore, fun _ => h.looks.accidentals.trans hheld⟩

end Draft

theorem Score.modify_eq_self {s : Score} {j : Nat} {f : Sign → Sign} (h : f (s.sign j) = s.sign j) :
    s.signs.modify j f = s.signs := by
  refine Array.ext (by simp) fun k h₁ h₂ => ?_
  rw [Array.getElem_modify]
  split
  next hjk =>
    subst hjk
    rw [Score.sign, Array.getD_eq_getD_getElem?, Array.getElem?_eq_getElem h₂] at h
    exact h
  next => rfl

namespace Act

variable {F : Frame} {row : List Nat} {glyphs : List Glyph} {i : Nat} {g : Sign} {s : Score}

theorem upon_dresses {α : Type} {x : Act α} {Q : α → Score → Prop} {E : Fault → Prop} (hx : Always Score.Dressed E x) (h : Draft F row glyphs i g s)
    (hQ : ∀ a s', Draft F row glyphs i g s' → Q a s') : Upon x s Q :=
  (hx s).mono (fun a s' hs => hQ a s' (h.dressed hs)) fun _ _ _ => trivial

variable {c : Char} {kind : Kind} {Q : Unit → Score → Prop}

theorem upon_setBefore (before : Option Nat) (h : Draft F row glyphs i g s)
    (hQ : ∀ s', Draft F row glyphs i { g with before } s' → Q () s') : Upon (setBefore i before) s Q := by
  have hset : Draft F row glyphs i { g with before } { s with signs := s.signs.modify i ({ · with before }) } :=
    h.change fun x hx => ⟨hx.kind, hx.code, hx.neume, rfl, hx.accidentals, hx.pitch⟩
  cases before with
  | none => exact hQ _ hset
  | some j => exact hQ _ (hset.changeBehind j i)

theorem upon_setAccidentalsFrom {held : Accidentals} {row : List Nat} (hrow : Thread s (some held) row) (fuel : Nat) :
    Upon (setAccidentalsFrom held fuel row.getLast?) s fun _ s' => s' = s := by
  induction row using List.reverseRecOn generalizing fuel with
  | nil => cases fuel <;> trivial
  | append_singleton base j ih =>
    cases fuel with
    | zero => trivial
    | succ fuel =>
      obtain ⟨hbefore, hshared⟩ := hrow.last
      rw [List.getLast?_concat, Upon, setAccidentalsFrom, ends_sign]
      by_cases hkind : (s.sign j).kind = .accidental
      · rw [if_pos hkind, hbefore]
        exact ih hrow.take fuel
      · rw [if_neg hkind]
        refine (ends_modify _).mpr ?_
        rw [Score.modify_eq_self (by rw [← hshared hkind])]

theorem upon_makeSign (kind : Kind) (code : String) (h : Standing F row glyphs s.signs.size s)
    {Q : Nat → Score → Prop}
    (hQ : ∀ s', Draft F row glyphs s.signs.size
      { kind, code, neume := F.neume, before := row.getLast?,
        accidentals := if kind = .accidental then none else F.held } s' → Q s.signs.size s') :
    Upon (makeSign kind code F.neume row.getLast? F.held) s Q := by
  set i := s.signs.size with hi
  rw [Upon, makeSign, ends_bind, ends_get, ends_bind, ends_modify, ends_bind]
  set blank : Sign := { kind, code, neume := F.neume, before := none } with hblank
  have hpush : Draft F row glyphs i blank { s with signs := s.signs.push blank } := by
    refine ⟨h.still (fun j hj => ?_) rfl (.refl _) rfl rfl h.tells, by simp [hi], ?_⟩
    · rw [Score.sign_push, if_neg (by omega)]
      exact .refl _
    · rw [Score.sign_push, if_pos hi]
      exact .refl _
  refine upon_setBefore row.getLast? hpush fun s₁ h₁ => ?_
  obtain ⟨words, syllables, clef, n, held, own⟩ := F
  have htells : Option.Rel _ held own := h₁.standing.tells
  have hthread : Thread s₁ held row := h₁.standing.thread
  cases htells with
  | none =>
    refine hQ s₁ ?_
    rw [ite_self]
    exact h₁
  | some htells =>
    next held entries =>
    rw [ends_bind, ends_get, htells.isVoid, if_pos Bool.not_false, ends_bind, setAccidentals, ends_bind, ends_get,
      setAccidentalsFrom, ends_bind]
    refine (Gives.ends (x := sign i) rfl).mpr ?_
    rw [h₁.looks.kind, h₁.looks.before]
    by_cases hkind : kind = .accidental
    · rw [if_pos hkind]
      refine (upon_setAccidentalsFrom hthread _).mono (fun _ s₂ hs₂ => ?_) fun _ _ => id
      subst hs₂
      refine hQ s₂ ?_
      rw [if_pos hkind]
      exact h₁
    · rw [if_neg hkind]
      refine hQ _ ?_
      rw [if_neg hkind]
      exact h₁.change fun x hx => ⟨hx.kind, hx.code, hx.neume, hx.before, rfl, hx.pitch⟩

theorem upon_changeSign (g' : Sign) {f : Sign → Sign} (h : Draft F row glyphs i g s)
    (hf : ∀ x, g.Still x → g'.Still (f x)) (hQ : ∀ s', Draft F row glyphs i g' s' → Q () s') :
    Upon (changeSign i f) s Q := hQ _ (h.change hf)

theorem upon_dropLast (h : Draft F row glyphs i g s)
    (hQ : ∀ s', Draft F row.dropLast glyphs.dropLast i g s' → Q () s') : Upon (dropLast F.neume) s Q :=
  hQ _ h.dropLast

theorem upon_takePlace {α : Type} {x : Act α} {base : List Nat} {j : Nat} {before : Option Nat}
    {Q : α → Score → Prop} (h : Draft F (base ++ [j]) glyphs i g s) (hbefore : before = (s.sign j).before)
    (hx : ∀ s', Draft F base glyphs.dropLast i { g with before := base.getLast? } s' → Upon x s' Q) :
    Upon (do setBefore i before; dropLast F.neume; x) s Q := by
  rw [Upon, ends_bind, hbefore, h.standing.thread.last.1]
  refine upon_setBefore _ h fun s₁ h₁ => ?_
  rw [ends_bind]
  refine upon_dropLast h₁ fun s₂ h₂ => ?_
  rw [dropLast_concat] at h₂
  exact hx s₂ h₂

/-! ## The makers -/

/-- A draft that may come to stand behind the row. -/
structure Ripe (F : Frame) (row : List Nat) (glyphs : List Glyph) (g : Sign) : Prop where
  before : g.before = row.getLast?
  shared : g.kind ≠ .accidental → g.accidentals = F.held
  reads : g.kind.sounds = true → ReadsAs F.clef F.own glyphs g.glyph
  ascii : g.kind.sounds = true → BeginsPlain g.code

/-- The sign `i` is a ripe draft. -/
def Drafted (F : Frame) (i : Nat) (s : Score) : Prop :=
  ∃ row glyphs g, Draft F row glyphs i g s ∧ Ripe F row glyphs g

theorem Ripe.of_silent (hk : g.kind.sounds = false) (hbefore : g.before = row.getLast?)
    (hshared : g.kind ≠ .accidental → g.accidentals = F.held) : Ripe F row glyphs g := by
  have hno : ¬ g.kind.sounds = true := by simp [hk]
  exact ⟨hbefore, hshared, fun h => absurd h hno, fun h => absurd h hno⟩

theorem upon_makeSilent (hk : kind.sounds = false) (code : String) {Q : Nat → Score → Prop}
    (h : Standing F row glyphs s.signs.size s)
    (hQ : ∀ s' g, Draft F row glyphs s.signs.size g s' → Ripe F row glyphs g → g.kind.sounds = false →
      Q s.signs.size s') :
    Upon (makeSign kind code F.neume row.getLast? F.held) s Q := by
  refine upon_makeSign kind code h fun s' h' => hQ s' _ h' (.of_silent hk rfl fun hne => ?_) hk
  exact if_neg hne

section

variable (letter : String) (h : Standing F row glyphs s.signs.size s)

include h

theorem upon_makeRhythm :
    Upon (makeRhythm letter F.neume row.getLast? F.held) s (Drafted F) := by
  rw [makeRhythm, Upon, ends_bind]
  refine upon_makeSilent rfl letter h fun s₁ g h₁ hg _ => ?_
  refine ends_need_bind (fun nuance _ => ?_) trivial
  rw [ends_bind]
  exact upon_dresses (.orIfMissing (.applyNuance _ _) (Dresses.remark _)) h₁ fun _ s₂ h₂ => ⟨row, glyphs, g, h₂, hg⟩

theorem upon_makeCut :
    Upon (makeOf .cut letter F.neume row.getLast? F.held) s (Drafted F) := by
  rw [makeOf, Upon, ends_bind]
  refine upon_makeSilent rfl letter h fun s₁ g h₁ hg _ => ?_
  rw [ends_bind]
  exact upon_dresses (.endElement _) h₁ fun _ s₂ h₂ => ⟨row, glyphs, g, h₂, hg⟩

theorem upon_makeCustos :
    Upon (makeCustos letter F.neume row.getLast? F.held) s (Drafted F) := by
  rw [makeCustos, Upon, ends_bind]
  refine upon_makeSilent rfl letter h fun s₁ g h₁ hg hk => ?_
  refine ends_need_bind (fun j hj => ?_) trivial
  obtain ⟨base, rfl⟩ := List.getLast?_eq_some_iff.mp hj
  rw [ends_sign]
  exact upon_takePlace h₁ rfl fun s₂ h₂ => ⟨base, _, _, h₂, .of_silent hk rfl hg.shared⟩

theorem upon_makeAccidental :
    Upon (makeAccidental letter F.neume row.getLast? F.held) s (Drafted F) := by
  rw [makeAccidental, Upon, ends_bind]
  refine upon_makeSilent rfl letter h fun s₁ g h₁ hg hk => ?_
  refine ends_need_bind (fun j hj => ?_) trivial
  obtain ⟨base, rfl⟩ := List.getLast?_eq_some_iff.mp hj
  rw [ends_sign, ends_bind]
  refine upon_changeSign { g with code := (s₁.sign j).code ++ letter } h₁
    (fun x hx => ⟨hx.kind, rfl, hx.neume, hx.before, hx.accidentals, hx.pitch⟩) fun s₂ h₂ => ?_
  rw [ends_bind, ends_get]
  refine ends_need_bind (fun opens _ => ?_) trivial
  have hend : ∀ s', Draft F (base ++ [j]) glyphs s.signs.size { g with code := (s₁.sign j).code ++ letter } s' →
      Upon (do setBefore s.signs.size (← sign j).before; dropLast F.neume; return s.signs.size) s' (Drafted F) := by
    intro s' h'
    rw [Upon, ends_sign]
    exact upon_takePlace h' rfl fun s₃ h₃ => ⟨base, _, _, h₃, .of_silent hk rfl hg.shared⟩
  dsimp only
  split
  · rw [ends_bind]
    exact upon_dresses (Dresses.changeNeume fun _ => ⟨rfl, rfl, rfl, id⟩) h₂ fun _ s₃ h₃ => hend s₃ h₃
  · exact hend s₂ h₂

theorem upon_makeBar :
    Upon (makeBar letter F.neume row.getLast? F.held) s (Drafted F) := by
  rw [makeBar, Upon, ends_bind]
  refine upon_makeSilent rfl letter h fun s₁ g h₁ hg hk => ?_
  have hend : ∀ {row : List Nat} {glyphs : List Glyph} {g : Sign} {s' : Score}, Draft F row glyphs s.signs.size g s' →
      Ripe F row glyphs g → Upon (do endElement s.signs.size; restBefore s.signs.size; return s.signs.size) s' (Drafted F) := by
    intro row glyphs g s' h' hg'
    rw [Upon, ends_bind]
    refine upon_dresses (.endElement _) h' fun _ s₂ h₂ => ?_
    rw [ends_bind]
    exact upon_dresses (.restBefore _) h₂ fun _ s₃ h₃ => ⟨row, glyphs, g, h₃, hg'⟩
  dsimp only
  split
  next j hj =>
    obtain ⟨base, rfl⟩ := List.getLast?_eq_some_iff.mp hj
    rw [ends_sign]
    split
    · split
      · rw [ends_bind]
        refine upon_changeSign { g with code := "::" } h₁
          (fun x hx => ⟨hx.kind, rfl, hx.neume, hx.before, hx.accidentals, hx.pitch⟩) fun s₂ h₂ => ?_
        have hbefore : (s₁.sign j).before = (s₂.sign j).before :=
          h₁.standing.thread.last.1.trans h₂.standing.thread.last.1.symm
        exact upon_takePlace h₂ hbefore fun s₃ h₃ => hend h₃ (.of_silent hk rfl hg.shared)
      · trivial
    · exact hend h₁ hg
  next => exact hend h₁ hg

end

/-! ## Notes -/

/-- The pitch that a code has behind the glyphs. -/
def Sounds (F : Frame) (glyphs : List Glyph) (code : String) (pitch : Int) : Prop :=
  ∃ letter name height, (Text.lower code).toList.head? = some letter ∧
    letterNote? (clefWithoutFlat F.clef) letter = some (name, height) ∧
    pitch = height + movedAt F.clef (F.own.or (inForce F.own glyphs)) letter

theorem upon_pitchOf (code : String) {Q : Int → Score → Prop} (h : Draft F row glyphs i g s) (hneume : g.neume = F.neume)
    (hbefore : g.before = row.getLast?) (hheld : g.accidentals = F.held) (hkind : g.kind ≠ .accidental)
    (hQ : ∀ pitch s', Draft F row glyphs i g s' → Sounds F glyphs code pitch → Q pitch s') :
    Upon (pitchOf i code) s Q := by
  refine (ends_pitchOf code (h.clefOf? hneume) h.standing.tells (h.thread hbefore hheld) (h.standing.short.trans_lt h.new)
    (by rwa [h.looks.kind])).mono (fun pitch s' hs' => ?_) fun _ _ => id
  obtain ⟨hquiet, htells, hsounds⟩ := hs'
  rw [h.standing.looks] at hsounds
  exact hQ pitch s' (h.quiet hquiet htells) hsounds

theorem upon_soundNote (code : String) (h : Draft F row glyphs i g s)
    (hneume : g.neume = F.neume) (hbefore : g.before = row.getLast?) (hheld : g.accidentals = F.held)
    (hkind : g.kind ≠ .accidental)
    (hQ : ∀ pitch s', Draft F row glyphs i { g with pitch := some pitch } s' → Sounds F glyphs code pitch → Q () s') :
    Upon (soundNote i code) s Q := by
  rw [soundNote, Upon, ends_bind]
  refine upon_pitchOf code h hneume hbefore hheld hkind fun pitch s₁ h₁ hsounds => ?_
  rw [ends_bind]
  refine upon_changeSign { g with pitch := some pitch } h₁
    (fun x hx => ⟨hx.kind, hx.code, hx.neume, hx.before, hx.accidentals, rfl⟩) fun s₂ h₂ => ?_
  refine ends_need_bind (fun lily _ => ?_) trivial
  rw [ends_bind]
  refine upon_changeSign _ h₂
    (fun x hx => ⟨hx.kind, hx.code, hx.neume, hx.before, hx.accidentals, hx.pitch⟩) fun s₃ h₃ => ?_
  refine ends_need_bind (fun abc _ => ?_) trivial
  exact upon_changeSign _ h₃ (fun x hx => ⟨hx.kind, hx.code, hx.neume, hx.before, hx.accidentals, hx.pitch⟩)
    fun s₄ h₄ => hQ pitch s₄ h₄ hsounds

theorem upon_enterElement (n : Nat) (h : Draft F row glyphs i g s)
    (hQ : ∀ s', Draft F row glyphs i g s' → Q () s') : Upon (enterElement n i) s Q := by
  rw [enterElement, Upon, ends_bind]
  refine upon_dresses (Dresses.changeNeume fun _ => ⟨rfl, rfl, rfl, fun _ => rfl⟩) h fun _ s₁ h₁ => ?_
  rw [ends_neume]
  have hmark : ∀ opens s', Draft F row glyphs i g s' →
      Upon (changeSign i ({ · with opensElement := some opens })) s' Q := fun opens s' h' =>
    upon_changeSign _ h' (fun x hx => ⟨hx.kind, hx.code, hx.neume, hx.before, hx.accidentals, hx.pitch⟩) hQ
  dsimp only
  split
  · rw [ends_bind]
    exact upon_dresses (dresses_openElement i) h₁ fun _ s₂ h₂ => hmark _ s₂ h₂
  · exact hmark _ s₁ h₁

theorem upon_makeNote (hk : kind.sounds = true) (code : String) {Q : Nat → Score → Prop}
    (h : Standing F row glyphs s.signs.size s)
    (hQ : ∀ pitch s', Draft F row glyphs s.signs.size
        { kind, code, neume := F.neume, before := row.getLast?, accidentals := F.held, pitch := some pitch } s' →
      Sounds F glyphs code pitch → Q s.signs.size s') :
    Upon (makeNote kind code F.neume row.getLast? F.held) s Q := by
  have hkind : kind ≠ .accidental := by
    rintro rfl
    cases hk
  rw [makeNote, Upon, ends_bind]
  refine upon_makeSign kind code h fun s₁ h₁ => ?_
  rw [if_neg hkind] at h₁
  rw [ends_bind]
  refine upon_soundNote code h₁ rfl rfl rfl hkind fun pitch s₂ h₂ hsounds => ?_
  rw [ends_bind]
  exact upon_enterElement _ h₂ fun s₃ h₃ => hQ pitch s₃ h₃ hsounds

theorem head?_lower {code : String} {rest : List Char} (h : code.toList = c :: rest) (hc : c.toNat < 128) :
    (Text.lower code).toList.head? = some c.toLower := by
  have hsigma : c ≠ 'Σ' := by
    rintro rfl
    revert hc
    decide
  rw [Text.lower, h, Text.lowerFrom, if_neg hsigma, Text.lowerChar, if_pos hc, String.toList_ofList]
  rfl

theorem upon_makeOfNote (hc : c.toNat < 128) (h : Standing F row glyphs s.signs.size s) :
    Upon (makeNote .note (String.singleton c) F.neume row.getLast? F.held) s (Drafted F) := by
  refine upon_makeNote rfl _ h fun pitch s' h' hsounds => ⟨row, glyphs, _, h', rfl, fun _ => rfl, fun _ => ?_, fun _ => ?_⟩
  · obtain ⟨letter, name, height, hletter, hplace, rfl⟩ := hsounds
    rw [head?_lower (show (String.singleton c).toList = [c] by simp) hc] at hletter
    refine ⟨letter, name, height, ?_, hplace, rfl⟩
    rw [Glyph.letter?, if_neg (by simp [Sign.glyph])]
    simpa [Sign.glyph] using hletter
  · exact ⟨c, [], by simp, hc⟩

theorem readsAs_again {earlier : List Glyph} (on : Glyph) {pitch : Int} (c : Char)
    (h : Sounds F (earlier ++ [on]) on.code pitch) (hplain : BeginsPlain on.code) :
    ReadsAs F.clef F.own (earlier ++ [on]) ⟨.special, String.singleton c, some pitch⟩ := by
  obtain ⟨letter, name, height, hletter, hplace, rfl⟩ := h
  obtain ⟨d, rest, hd, hplain⟩ := hplain
  rw [head?_lower hd hplain] at hletter
  refine ⟨letter, name, height, ?_, hplace, rfl⟩
  rw [Glyph.letter?, if_pos ⟨rfl, by simp⟩]
  simpa [hd] using hletter

theorem readsAs_upon {earlier : List Glyph} (on : Glyph) {pitch : Int} (c : Char)
    (h : Sounds F (earlier ++ [on]) on.code pitch) (hkind : on.kind ≠ .accidental) (hplain : BeginsPlain on.code) :
    ReadsAs F.clef F.own earlier ⟨.special, on.code ++ String.singleton c, some pitch⟩ := by
  obtain ⟨letter, name, height, hletter, hplace, rfl⟩ := h
  obtain ⟨d, rest, hd, hplain⟩ := hplain
  rw [head?_lower hd hplain] at hletter
  refine ⟨letter, name, height, ?_, hplace, ?_⟩
  · have hlength : (on.code ++ String.singleton c).length ≠ 1 := by
      rw [← String.length_toList, String.toList_append, hd]
      simp
    rw [Glyph.letter?, if_neg fun h => hlength h.2]
    simpa [hd] using hletter
  · -- the note it is put on adds nothing to what is in force
    rw [inForce_concat, if_neg hkind, ← Option.or_assoc, Option.or_self]

/-- A special note as it is drafted. -/
def specialDraft (F : Frame) (before : Option Nat) (code : String) (pitch : Int) : Sign :=
  { kind := .special, code, neume := F.neume, before, accidentals := F.held, pitch := some pitch }

theorem upon_makeSpecial (hc : c.toNat < 128) (h : Standing F row glyphs s.signs.size s) :
    Upon (makeSpecial (String.singleton c) F.neume row.getLast? F.held) s (Drafted F) := by
  rw [makeSpecial, Upon]
  refine ends_need_bind (fun j hj => ?_) trivial
  obtain ⟨base, rfl⟩ := List.getLast?_eq_some_iff.mp hj
  rw [ends_sign, ends_bind]
  refine upon_makeNote rfl (s.sign j).code h fun pitch s₁ h₁ hsounds => ?_
  have hglyphs := h₁.standing.looks_concat
  generalize base.map (fun k => (s₁.sign k).glyph) = earlier at hglyphs
  subst hglyphs
  have hcode : (s.sign j).code = (s₁.sign j).code := by
    obtain ⟨-, hlast⟩ := List.append_inj' h.looks_concat rfl
    exact (congrArg Glyph.code (List.singleton_inj.mp hlast)).symm
  rw [hcode] at h₁ hsounds
  have hplain : (s₁.sign j).kind.sounds = true → BeginsPlain (s₁.sign j).code :=
    h₁.standing.ascii (s₁.sign j).glyph (by simp)
  rw [ends_sign]
  split
  next hkind =>
    have hreads := readsAs_again (s₁.sign j).glyph c hsounds (hplain (by rw [hkind]; rfl))
    rw [ends_bind]
    refine upon_changeSign (specialDraft F (some j) (String.singleton c) pitch) h₁ ?_ fun s₂ h₂ => ?_
    · exact fun x hx => ⟨hx.kind, rfl, hx.neume, by rw [hx.before, List.getLast?_concat]; rfl, hx.accidentals, hx.pitch⟩
    · exact ⟨_, _, _, h₂, (List.getLast?_concat).symm, fun _ => rfl, fun _ => hreads, fun _ => ⟨c, [], by simp [specialDraft], hc⟩⟩
  next hkind =>
    have hplain := hplain (by rw [hkind]; rfl)
    have hreads := readsAs_upon (s₁.sign j).glyph c hsounds (fun h => Kind.noConfusion (hkind.symm.trans h)) hplain
    have hend : ∀ s', Draft F (base ++ [j]) (earlier ++ [(s₁.sign j).glyph]) s.signs.size
          (specialDraft F (some j) ((s₁.sign j).code ++ String.singleton c) pitch) s' →
        Upon (do setBefore s.signs.size (s₁.sign j).before; dropLast F.neume; return s.signs.size) s' (Drafted F) := by
      intro s' h'
      have hbefore : (s₁.sign j).before = (s'.sign j).before :=
        h₁.standing.thread.last.1.trans h'.standing.thread.last.1.symm
      refine upon_takePlace h' hbefore fun s₃ h₃ => ?_
      rw [List.dropLast_concat] at h₃
      refine ⟨base, earlier, _, h₃, rfl, fun _ => rfl, fun _ => hreads, fun _ => ?_⟩
      obtain ⟨d, rest, hd, hd'⟩ := hplain
      exact ⟨d, rest ++ [c], by simp [specialDraft, hd], hd'⟩
    dsimp only
    rw [ends_bind]
    refine upon_changeSign (specialDraft F (some j) ((s₁.sign j).code ++ String.singleton c) pitch) h₁ ?_ fun s₂ h₂ => ?_
    · exact fun x hx => ⟨hx.kind, rfl, hx.neume, by rw [hx.before, List.getLast?_concat]; rfl, hx.accidentals, hx.pitch⟩
    split
    · rw [ends_bind]
      exact upon_dresses (dresses_openElement _) h₂ fun _ s₃ h₃ => hend s₃ h₃
    · exact hend s₂ h₂
  next => trivial

/-! ## Letters -/

theorem toNat_lt_of_ofLetter? (h : Kind.ofLetter? c = some kind) : c.toNat < 128 := by
  have hlist : ∀ l : List Char, (∀ d ∈ l, d.toNat < 128) → l.contains c = true → c.toNat < 128 :=
    fun l hl hc => hl c (contains_iff_mem.mp hc)
  unfold Kind.ofLetter? at h
  split_ifs at h with hnote hrhythm hspecial hbar haccidental hcut hcustos hend hcaesura
  · exact hlist _ (all_iff_forall_prop.mp (by decide)) hnote
  · exact hlist _ (all_iff_forall_prop.mp (by decide)) hrhythm
  · exact hlist _ (all_iff_forall_prop.mp (by decide)) hspecial
  · rcases Bool.or_eq_true_iff.mp hbar with hbar | hbar
    · rw [decide_eq_true_eq] at hbar
      omega
    · exact hlist _ (all_iff_forall_prop.mp (by decide)) hbar
  · exact hlist _ (all_iff_forall_prop.mp (by decide)) haccidental
  · exact hlist _ (all_iff_forall_prop.mp (by decide)) hcut
  · subst hcustos
    decide
  · subst hend
    decide
  · subst hcaesura
    decide

/-- The letters that stand for a sign. -/
def signLetters : List Char := "abcdefghijklmABCDEFGHIJKLM_.'w~osvOSV\x60,;:xy#/ +z!".toList

theorem mem_signLetters (hc : Kind.ofLetter? c = some kind) : c ∈ signLetters := by
  have hall : ∀ k < 128, (Kind.ofLetter? (Char.ofNat k)).isSome = true → Char.ofNat k ∈ signLetters := by decide +kernel
  have hmem := hall c.toNat (toNat_lt_of_ofLetter? hc)
  rw [Char.ofNat_toNat, hc] at hmem
  exact hmem rfl

theorem of_ofLetter? {P : Char → Prop} [DecidablePred P] (hc : Kind.ofLetter? c = some kind)
    (h : signLetters.all (fun c => decide (P c)) = true) : P c :=
  of_decide_eq_true (all_eq_true.mp h c (mem_signLetters hc))

theorem upon_makeOf (hc : c.toNat < 128) (kind : Kind) (h : Standing F row glyphs s.signs.size s) :
    Upon (makeOf kind (String.singleton c) F.neume row.getLast? F.held) s (Drafted F) := by
  have hsilent : ∀ kind : Kind, kind.sounds = false →
      Upon (makeSign kind (String.singleton c) F.neume row.getLast? F.held) s (Drafted F) := fun kind hk =>
    upon_makeSilent hk _ h fun s' g h' hg _ => ⟨row, glyphs, g, h', hg⟩
  cases kind with
  | note => exact upon_makeOfNote hc h
  | special => exact upon_makeSpecial hc h
  | rhythm => exact upon_makeRhythm _ h
  | bar => exact upon_makeBar _ h
  | accidental => exact upon_makeAccidental _ h
  | custos => exact upon_makeCustos _ h
  | cut => exact upon_makeCut _ h
  | lineEnd => exact hsilent _ rfl
  | caesura => exact hsilent _ rfl
  | clef => exact hsilent _ rfl

/-- The row of the neume stands among all the signs there are. -/
def Stands (F : Frame) (s : Score) : Prop := ∃ row glyphs, Standing F row glyphs s.signs.size s

theorem Stands.dressed {s' : Score} (h : Stands F s) (hs : s.Dressed s') : Stands F s' := by
  obtain ⟨row, glyphs, h⟩ := h
  exact ⟨row, glyphs, hs.signCount ▸ h.dressed hs⟩

theorem upon_appendSign (h : Drafted F i s) : Upon (appendSign F.neume i) s fun _ => Stands F := by
  obtain ⟨row, glyphs, g, h, hg⟩ := h
  have hrow := h.standing
  refine ⟨row ++ [i], glyphs ++ [g.glyph], hrow.changeRow (f := (· ++ [i])) h.new.le rfl (fun j hj => ?_) ?_ ?_ ?_
    (hrow.reads.concat hg.reads) fun g' hg' => ?_⟩
  · rcases mem_append.mp hj with hj | hj
    · exact (hrow.below j hj).trans h.new
    · exact mem_singleton.mp hj ▸ h.new
  · rw [length_append, length_singleton]
    exact hrow.short.trans_lt h.new
  · refine hrow.thread.concat ⟨h.looks.before.trans hg.before, fun hkind => ?_⟩
    rw [h.looks.kind] at hkind
    exact h.looks.accidentals.trans (hg.shared hkind)
  · rw [map_append, hrow.looks, map_cons, map_nil, h.looks.glyph]
  · rcases mem_append.mp hg' with hg' | hg'
    · exact hrow.ascii g' hg'
    · exact mem_singleton.mp hg' ▸ hg.ascii

theorem upon_addLetter (c : Char) (h : Stands F s) : Upon (addLetter F.neume c) s fun _ => Stands F := by
  unfold addLetter
  split
  · exact h
  next kind hkind =>
    obtain ⟨row, glyphs, h⟩ := h
    rw [Upon, ends_neume, ends_bind, h.signs, h.held]
    exact (upon_makeOf (toNat_lt_of_ofLetter? hkind) kind h).mono (fun i s₁ h₁ => upon_appendSign h₁) fun _ _ => id

theorem upon_readLetters (letters : List Char) (h : Stands F s) :
    Upon (readLetters F.neume letters) s fun _ => Stands F := by
  rw [readLetters, Upon]
  refine (Ends.forM (fun c _ s' h' => upon_addLetter c h') h).seq fun _ s₁ h₁ => ?_
  exact (dresses_frameNeume F.neume s₁).mono (fun _ s₂ h₂ => h₁.dressed h₂) fun _ _ _ => trivial

end Act

end Plainsong.Chant
