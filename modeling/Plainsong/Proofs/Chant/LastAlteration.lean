import Plainsong.Proofs.Chant.ClefSearch
/- Signs of alteration within one neume. A note finds the accidentals in force by going back
   along the signs that stand before it, each of which knows only the one before itself, and on
   the way every sign of alteration enters its letter into a table. Signs that push out others
   mend these links, so the way back is the row of the neume read from the note to its start.
   What the table says of a letter in the end is what the last sign of alteration on this letter
   says (`lastAlteration?`), and so a neume that has taken over no accidentals has just these
   pitches (`Act.pitch_eq_lastAlteration`). -/
namespace Plainsong.Chant

open List

/-! ## Looking back along a row -/

/-- By how much the mark in a code moves a note: the letter of the place comes first and the
    mark behind it. -/
def markOf? (code : String) : Option Int := code.toList[1]?.bind Act.alteration?

/-- A sign of alteration on this letter. -/
def altersLetter (letter : Char) (f : Figure) : Bool := f.1 = .accidental && f.2.toList.head? = some letter

/-- By how much the last sign of alteration on a letter moves it; nothing if its mark is none. -/
def lastAlteration? (row : List Figure) (letter : Char) : Option Int :=
  match row.reverse.find? (altersLetter letter) with
  | none => some 0
  | some f => markOf? f.2

/-- Every sign of alteration has its mark behind its letter. -/
def Legible (row : List Figure) : Prop := ∀ f ∈ row, f.1 = .accidental → (markOf? f.2).isSome

variable {row : List Figure}

theorem legible_concat {f : Figure} :
    Legible (row ++ [f]) ↔ Legible row ∧ (f.1 = .accidental → (markOf? f.2).isSome) := by
  simp [Legible, or_imp, forall_and]

def Glyph.figure (g : Glyph) : Figure := (g.kind, g.code)

theorem lastAlteration?_concat (row : List Figure) (f : Figure) (letter : Char) :
    lastAlteration? (row ++ [f]) letter =
      if altersLetter letter f then markOf? f.2 else lastAlteration? row letter := by
  rw [lastAlteration?, reverse_append, reverse_singleton, singleton_append, List.find?_cons]
  cases altersLetter letter f <;> rfl

theorem entries_of_mark {g : Glyph} {value : Int} (h : markOf? g.code = some value) :
    ∃ letter, g.code.toList.head? = some letter ∧ g.entries = [(letter, value)] := by
  rw [markOf?] at h
  rw [Glyph.entries]
  generalize g.code.toList = letters at h ⊢
  rcases letters with _ | ⟨letter, _ | ⟨mark, rest⟩⟩
  · cases h
  · cases h
  · refine ⟨letter, rfl, ?_⟩
    have hmark : Act.alteration? mark = some value := h
    simp only [hmark, Option.map_some, Option.toList_some]

theorem lastAlteration?_eq_movedBy {glyphs : List Glyph} (h : Legible (glyphs.map Glyph.figure)) (letter : Char) :
    lastAlteration? (glyphs.map Glyph.figure) letter = some (movedBy ((inForce none glyphs).getD []) letter) := by
  induction glyphs using List.reverseRecOn with
  | nil => rfl
  | append_singleton row g ih =>
    rw [map_append, map_singleton] at h ⊢
    obtain ⟨hbase, hg⟩ := legible_concat.mp h
    have hrow := ih hbase
    rw [lastAlteration?_concat, inForce_concat]
    by_cases hkind : g.kind = .accidental
    · obtain ⟨value, hvalue⟩ := Option.isSome_iff_exists.mp (hg hkind)
      obtain ⟨place, hplace, hentries⟩ := entries_of_mark hvalue
      rw [if_pos hkind, hentries, Option.getD_some, movedBy_concat, hvalue]
      have halters : altersLetter letter g.figure = decide (place = letter) := by
        simp [altersLetter, Glyph.figure, hkind, hplace]
      by_cases hletter : place = letter
      · simp [halters, hletter]
      · simp [halters, hletter, hrow]
    · have halters : altersLetter letter g.figure = false := by simp [altersLetter, Glyph.figure, hkind]
      rw [halters, if_neg hkind, Option.none_or, if_neg Bool.false_ne_true, hrow]

/-! ## What a note can be read behind -/

/-- Before every note of the row the signs of alteration have their marks. -/
def ReadableRow (row : List Figure) : Prop := Along (fun earlier f => f.1.sounds = true → Legible earlier) row

theorem ReadableRow.dropLast (h : ReadableRow row) : ReadableRow row.dropLast := by
  rcases eq_nil_or_concat row with rfl | ⟨base, f, rfl⟩
  · exact h
  · rw [concat_eq_append] at h ⊢
    rw [dropLast_concat]
    exact Along.take h

theorem ReadableRow.silent {f : Figure} (h : ReadableRow row) (hf : f.1.sounds = false) : ReadableRow (row ++ [f]) :=
  Along.concat h fun hsounds => absurd (hf.symm.trans hsounds) Bool.false_ne_true

theorem ReadableRow.enter {c : Char} (h : ReadableRow row)
    (hnote : ∀ kind, Kind.ofLetter? c = some kind → kind.sounds = true → Legible row) : ReadableRow (enter row c) := by
  unfold Chant.enter
  split
  next => exact h
  next code hkind _ =>
    refine h.dropLast.concat fun _ f hf => ?_
    exact hnote _ hkind rfl f (mem_of_mem_dropLast hf)
  next => exact h.dropLast.silent rfl
  next => exact h.dropLast.silent rfl
  next => exact h.dropLast.silent rfl
  next kind hkind _ _ _ _ => exact h.concat fun hsounds => hnote kind hkind hsounds

namespace Act

def figuresAt (s : Score) (row : List Nat) : List Figure := row.map fun i => (s.sign i).figure

section Search

variable {s : Score} {row : List Nat} {i : Nat}

theorem ends_accidentalsFrom_legible (hrow : Thread s none row) {fuel : Nat} (hfuel : row.length < fuel) :
    Ends (accidentalsFrom fuel row.getLast?) s (fun _ _ => Legible (figuresAt s row))
      (fun f _ => f = .value .noProperty → Legible (figuresAt s row)) := by
  obtain ⟨fuel, rfl⟩ : ∃ k, fuel = k + 1 := ⟨fuel - 1, by omega⟩
  induction row using List.reverseRecOn generalizing fuel with
  | nil => exact fun _ f hf => absurd hf not_mem_nil
  | append_singleton base i ih =>
    obtain ⟨hbefore, hshared⟩ := hrow.last
    have hlen : base.length < fuel := by simpa using hfuel
    obtain ⟨fuel, rfl⟩ : ∃ k, fuel = k + 1 := ⟨fuel - 1, by omega⟩
    replace ih := ih hrow.take fuel hlen
    rw [figuresAt, map_append, map_singleton, legible_concat, List.getLast?_concat, accidentalsFrom, ends_sign]
    rw [hbefore]
    by_cases hkind : (s.sign i).kind = .accidental
    · rw [if_pos hkind, ends_bind]
      -- whichever table the letter is entered into, its mark has to be read
      have hmark : ∀ held s', Legible (figuresAt s base) →
          Ends (do
              let value ← need .missing (alteration? (← need .outOfRange (s.sign i).code.toList[1]?))
              let letter ← need .outOfRange (s.sign i).code.toList[0]?
              putAccidental held (String.singleton letter) value
              return held) s'
            (fun _ _ => Legible (figuresAt s base) ∧ ((s.sign i).kind = .accidental → (markOf? (s.sign i).code).isSome))
            (fun f _ => f = .value .noProperty →
              Legible (figuresAt s base) ∧ ((s.sign i).kind = .accidental → (markOf? (s.sign i).code).isSome)) := by
        intro held s' hbase
        refine ends_need_bind (fun mark hmark => ?_) (fun h => by simp at h)
        refine ends_need_bind (fun value hvalue => ?_) (fun h => by simp at h)
        have hsome : (markOf? (s.sign i).code).isSome := by
          rw [markOf?, hmark, Option.bind_some, hvalue]
          rfl
        exact (Upon.of_prop ⟨hbase, fun _ => hsome⟩).mono (fun _ _ => id) fun _ _ _ _ => ⟨hbase, fun _ => hsome⟩
      refine ends_orIfMissing (ih.mono (fun held s' hbase => hmark held s' hbase) fun f s' hbase => ⟨fun hf => ?_, fun hf h => absurd h hf⟩)
      rw [newTable, ends_modifyGet]
      exact hmark _ _ (hbase hf)
    · rw [if_neg hkind, hshared hkind]
      exact ih.mono (fun _ _ hbase => ⟨hbase, fun h => absurd h hkind⟩) fun _ _ hbase hf => ⟨hbase hf, fun h => absurd h hkind⟩

theorem upon_pitchOf_legible (code : String) (hrow : Thread s none (row ++ [i])) (hlen : row.length < s.signs.size) :
    Upon (pitchOf i code) s fun _ _ => Legible (figuresAt s row) := by
  have hfound : Ends (accidentalsOf i) s (fun _ _ => Legible (figuresAt s row))
      (fun f _ => f = .value .noProperty → Legible (figuresAt s row)) := by
    rw [accidentalsOf, ends_bind, ends_get]
    have h := ends_accidentalsFrom_legible hrow (show (row ++ [i]).length < s.signs.size + 1 by simpa using hlen)
    have hbase : Legible (figuresAt s (row ++ [i])) → Legible (figuresAt s row) := by
      rw [figuresAt, map_append, map_singleton, legible_concat]
      exact And.left
    rw [List.getLast?_concat] at h
    exact h.mono (fun _ _ => hbase) fun _ _ h hf => hbase (h hf)
  -- neither a second search nor a new table can take back what the first search has shown
  have hrest : ∀ {x : Act Accidentals} {s₁ : Score}, Legible (figuresAt s row) →
      Ends x s₁ (fun _ _ => Legible (figuresAt s row)) fun f s₂ =>
        (f = .value .noProperty → Upon newTable s₂ fun _ _ => Legible (figuresAt s row)) ∧ (f ≠ .value .noProperty → True) :=
    fun h => (Upon.of_prop h).mono (fun _ _ => id) fun _ _ _ => ⟨fun _ => Upon.of_prop h, fun _ => trivial⟩
  have hnote : Upon (noteAccidentals i) s fun _ _ => Legible (figuresAt s row) := by
    rw [noteAccidentals]
    refine ends_orIfMissing ?_
    exact hfound.andThen (fun _ _ h => hrest h) fun f s₁ h => ⟨fun hf => Upon.of_prop (h hf), fun _ => trivial⟩
  rw [pitchOf, Upon, ends_bind, clefAt, ends_bind, ends_get]
  exact ends_need_bind (fun _ _ => hnote.first) trivial

end Search

section Letters

variable {F : Frame} {row : List Nat} {glyphs : List Glyph} {l : Nat → List Nat} {s s' : Score}

theorem upon_makeNote_legible {kind : Kind} (hk : kind.sounds = true) (code : String) (hheld : F.held = none)
    (h : Standing F row glyphs s.signs.size s) :
    Upon (makeNote kind code F.neume row.getLast? F.held) s fun _ _ => Legible (glyphs.map Glyph.figure) := by
  have hkind : kind ≠ .accidental := by
    rintro rfl
    cases hk
  rw [makeNote, Upon, ends_bind]
  refine upon_makeSign kind code h fun s₁ h₁ => ?_
  have hthread : Thread s₁ none (row ++ [s.signs.size]) := by
    rw [← hheld]
    refine h₁.standing.thread.concat ⟨h₁.looks.before, fun _ => ?_⟩
    rw [h₁.looks.accidentals, if_neg hkind]
  have hlooks : figuresAt s₁ row = glyphs.map Glyph.figure := by
    rw [← h₁.standing.looks, map_map]
    rfl
  have hpitch := upon_pitchOf_legible code hthread (h₁.standing.short.trans_lt h₁.new)
  rw [hlooks] at hpitch
  rw [soundNote]
  exact hpitch.first.first

theorem upon_addLetter_legible {c : Char} {kind : Kind} (hc : Kind.ofLetter? c = some kind) (hk : kind.sounds = true)
    (hheld : F.held = none) (h : Stands F s) :
    Upon (addLetter F.neume c) s fun _ _ => Legible (s.figures F.neume) := by
  obtain ⟨row, glyphs, h⟩ := h
  have hfigures : s.figures F.neume = glyphs.map Glyph.figure := by
    rw [← h.looks, map_map, Score.figures, h.signs]
    rfl
  rw [addLetter, hc, Upon, ends_neume, h.signs, h.held, hfigures]
  refine Upon.first ?_
  cases kind with
  | note => exact upon_makeNote_legible rfl _ hheld h
  | special =>
    rw [makeOf, makeSpecial, Upon]
    refine ends_need_bind (fun j _ => ?_) trivial
    rw [ends_sign]
    exact (upon_makeNote_legible rfl _ hheld h).first
  | _ => cases hk

/-- The neume stands, and its notes could be read. -/
def Sings (F : Frame) (l : Nat → List Nat) (s : Score) : Prop :=
  Stands F s ∧ ∃ row, Shows F.neume l row s ∧ ReadableRow row

theorem upon_singLetter (c : Char) (hheld : F.held = none) (h : Sings F l s) :
    Upon (addLetter F.neume c) s fun _ => Sings F l := by
  obtain ⟨hstands, row, hrow, hreadable⟩ := h
  have hlegible : Upon (addLetter F.neume c) s fun _ _ =>
      ∀ kind, Kind.ofLetter? c = some kind → kind.sounds = true → Legible row := by
    by_cases hc : ∃ kind, Kind.ofLetter? c = some kind ∧ kind.sounds = true
    · obtain ⟨kind, hc, hk⟩ := hc
      have h := upon_addLetter_legible hc hk hheld hstands
      rw [hrow.figures] at h
      exact h.mono (fun _ _ h _ _ _ => h) fun _ _ => id
    · exact Upon.of_prop fun kind hkind hsounds => absurd ⟨kind, hkind, hsounds⟩ hc
  refine (((upon_addLetter c hstands).and (upon_showLetter hrow c)).and hlegible).mono (fun _ s₁ h₁ => ?_) fun _ _ _ => trivial
  obtain ⟨⟨hstands₁, hrow₁⟩, hnote⟩ := h₁
  exact ⟨hstands₁, _, hrow₁, hreadable.enter hnote⟩

theorem upon_singLetters (letters : List Char) (hheld : F.held = none) (h : Sings F l s) :
    Upon (readLetters F.neume letters) s fun _ => Sings F l := by
  rw [readLetters, Upon]
  refine (Ends.forM (fun c _ s' h' => upon_singLetter c hheld h') h).seq fun _ s₁ h₁ => ?_
  obtain ⟨hstands, row, hrow, hreadable⟩ := h₁
  refine ((dresses_frameNeume F.neume s₁).and (upon_showFrame hrow)).mono (fun _ s₂ h₂ => ?_) fun _ _ _ => trivial
  exact ⟨hstands.dressed h₂.1, row, h₂.2, hreadable⟩

end Letters

/-! ## The way back and the row -/

variable {s : Score}

theorem Thread.chainFrom {a : Option Accidentals} {row : List Nat} (h : Thread s a row) {fuel : Nat}
    (hfuel : row.length < fuel) : s.chainFrom fuel row.getLast? = row.reverse := by
  obtain ⟨fuel, rfl⟩ : ∃ k, fuel = k + 1 := ⟨fuel - 1, by omega⟩
  induction row using List.reverseRecOn generalizing fuel with
  | nil => rfl
  | append_singleton base i ih =>
    have hlen : base.length < fuel := by simpa using hfuel
    obtain ⟨fuel, rfl⟩ : ∃ k, fuel = k + 1 := ⟨fuel - 1, by omega⟩
    rw [List.getLast?_concat, Score.chainFrom, h.last.1, ih h.take fuel hlen, reverse_append, reverse_singleton,
      singleton_append]

theorem Thread.chain {a : Option Accidentals} {earlier later : List Nat} {i : Nat}
    (h : Thread s a (earlier ++ i :: later)) (hshort : (earlier ++ i :: later).length ≤ s.signs.size) :
    s.chain (some i) = i :: earlier.reverse := by
  rw [append_cons] at h hshort
  have hthread : Thread s a (earlier ++ [i]) := h.take
  have hlength : (earlier ++ [i]).length < s.signs.size + 1 := by
    rw [length_append] at hshort
    omega
  have hchain := hthread.chainFrom hlength
  rwa [List.getLast?_concat, reverse_append, reverse_singleton] at hchain

theorem plain_of_length {clef : String} (h : clef.length = 2) : clefLowers? clef = none ∧ clefWithoutFlat clef = clef := by
  rw [← String.length_toList] at h
  rw [clefLowers?, clefWithoutFlat]
  obtain ⟨family, line, hclef⟩ := length_eq_two.mp h
  rw [hclef]
  refine ⟨?_, rfl⟩
  split
  next heq => cases heq
  next heq => cases heq
  next => rfl

theorem clefSign?_of_code {w : Nat} {clef : String} (hclef : (s.clefOf? w).map Sign.code = some clef)
    (hne : clef ≠ "") : ∃ j < s.signs.size, s.clefSign? w = some j ∧ (s.sign j).code = clef := by
  obtain ⟨g, hg, rfl⟩ := Option.map_eq_some_iff.mp hclef
  obtain ⟨j, hj, rfl⟩ := Option.map_eq_some_iff.mp hg
  refine ⟨j, ?_, hj, rfl⟩
  by_contra hlt
  apply hne
  rw [Score.sign, Array.getD_eq_getD_getElem?, Array.getElem?_eq_none (by omega)]
  rfl

theorem sings_empty {n : Nat} {clef : String} (hn : n < s.neumes.size) (hempty : (s.neume n).signs = [])
    (hheld : (s.neume n).accidentals = none)
    (hclef : (s.clefOf? (s.syllable (s.neume n).syllable).word).map Sign.code = some clef) (hne : clef ≠ "") :
    Sings ⟨s.words, s.syllables, clef, n, none, none⟩ s.lists s := by
  exact ⟨⟨[], [], rfl, rfl, hn, clefSign?_of_code hclef hne, hheld, .none, hempty, by simp, by simp, Along.nil, rfl, Along.nil, by simp⟩,
    [], shows_empty hn hempty, Along.nil⟩

/-- In a neume that starts empty and takes over no accidentals, under a clef without flat, every
    note has the pitch of its letter on the staff, moved as the last sign of alteration on this
    letter before it in the row says; and the signs before it in the row are those that are met
    on the way back from it. -/
theorem pitch_eq_lastAlteration {s s' : Score} {n : Nat} {code clef : String} (hn : n < s.neumes.size)
    (hempty : (s.neume n).signs = []) (hheld : (s.neume n).accidentals = none)
    (hclef : (s.clefOf? (s.syllable (s.neume n).syllable).word).map Sign.code = some clef) (hplain : clef.length = 2)
    (hfree : ClefFree code) (h : Gives (readCode n code) s () s') {earlier later : List Nat} {i : Nat}
    (hrow : (s'.neume n).signs = earlier ++ i :: later) (hsounds : (s'.sign i).kind.sounds = true) :
    s'.chain (some i) = i :: earlier.reverse ∧
      ∃ letter name height moved,
        (s'.sign i).glyph.letter? (earlier.map fun j => (s'.sign j).glyph) = some letter ∧
        letterNote? clef letter = some (name, height) ∧
        lastAlteration? (earlier.map fun j => (s'.sign j).figure) letter = some moved ∧
        (s'.sign i).pitch = some (height + moved) := by
  obtain ⟨hlowers, hwithout⟩ := plain_of_length hplain
  have hne : clef ≠ "" := by
    rintro rfl
    exact absurd hplain (by decide)
  have hstart := sings_empty hn hempty hheld hclef hne
  have hread := upon_singLetters code.toList rfl hstart
  rw [readCode, texts?_eq_none_of_clefFree hfree] at h
  obtain ⟨⟨row, glyphs, hstands⟩, figures, hshows, hreadable⟩ := hread.of_gives h
  have hsigns : row = earlier ++ i :: later := hstands.signs.symm.trans hrow
  subst hsigns
  refine ⟨hstands.thread.chain hstands.short, ?_⟩
  have hglyphs : glyphs = (earlier.map fun j => (s'.sign j).glyph) ++ (s'.sign i).glyph :: (later.map fun j => (s'.sign j).glyph) := by
    rw [← hstands.looks, List.map_append, List.map_cons]
  have hfigures : figures = (earlier.map fun j => (s'.sign j).figure) ++ (s'.sign i).figure :: (later.map fun j => (s'.sign j).figure) := by
    rw [← hshows.figures, Score.figures, hrow, List.map_append, List.map_cons]
  obtain ⟨letter, name, height, hletter, hplace, hpitch⟩ := hstands.reads _ _ _ hglyphs hsounds
  have hlegible := hreadable _ _ _ hfigures hsounds
  have hmap : (earlier.map fun j => (s'.sign j).figure) = (earlier.map fun j => (s'.sign j).glyph).map Glyph.figure := by
    rw [List.map_map]
    rfl
  have hmoved : movedAt clef (inForce none (earlier.map fun j => (s'.sign j).glyph)) letter =
      movedBy ((inForce none (earlier.map fun j => (s'.sign j).glyph)).getD []) letter := by
    rw [movedAt, hlowers, if_neg (Option.some_ne_none letter).symm]
  rw [hmap] at hlegible ⊢
  refine ⟨letter, name, height, _, hletter, by rwa [hwithout] at hplace, lastAlteration?_eq_movedBy hlegible letter, ?_⟩
  rw [← hmoved]
  exact hpitch

/-- A special note behind a natural and a flat on its letter. -/
theorem pitch_eq_lastAlteration_flat :
    ∃ s', Gives (readCode 1 "iyhixis") underC4 () s' ∧ (s'.neume 1).signs = [2, 3, 5, 7] ∧ (s'.sign 7).pitch = some 70 ∧
      s'.chain (some 7) = [7, 5, 3, 2] ∧
      ∃ letter name height moved,
        (s'.sign 7).glyph.letter? ([2, 3, 5].map fun j => (s'.sign j).glyph) = some letter ∧
        letterNote? "c4" letter = some (name, height) ∧
        lastAlteration? ([2, 3, 5].map fun j => (s'.sign j).figure) letter = some moved ∧
        (s'.sign 7).pitch = some (height + moved) := by
  obtain ⟨s', hs'⟩ : ∃ s', ((readCode 1 "iyhixis").run.run underC4).2 = s' := ⟨_, rfl⟩
  have hgives : Gives (readCode 1 "iyhixis") underC4 () s' := by
    rw [← hs']
    exact Gives.of_toOption (by decide +kernel)
  have hsigns : (s'.neume 1).signs = [2, 3, 5] ++ 7 :: [] := by
    rw [← hs']
    decide +kernel
  have hsounds : (s'.sign 7).kind.sounds = true := by
    rw [← hs']
    decide +kernel
  have hpitch : (s'.sign 7).pitch = some 70 := by
    rw [← hs']
    decide +kernel
  have hclef : (underC4.clefOf? (underC4.syllable (underC4.neume 1).syllable).word).map Sign.code = some "c4" := by
    decide +kernel
  exact ⟨s', hgives, hsigns, hpitch, pitch_eq_lastAlteration (by decide) rfl rfl hclef (by decide)
    (by decide +kernel) hgives hsigns hsounds⟩

end Act

end Plainsong.Chant
