import Plainsong.Proofs.Chant.LastAlteration
import Plainsong.Proofs.Chant.Trail
/- Notes struck again. A letter of the staff can always be read: under every clef it has a
   place, and every table of accidentals has an entry for it (`Act.ends_soundNote_letter`). A
   special note is read by the letter that stands first in the code of the sign before it. On a
   note this is the letter of the staff, and so it is on the special note that has taken the
   place of that note, whose code goes on with the letter of the note. A further special note
   has only its own letter, which has no place on the staff. So a note is struck twice more at
   most (`Act.repercussions_at_letter`). -/
namespace Plainsong.Chant

open List

/-- The clefs: a family, a flat or none, and a line. -/
def clefs : List String :=
  ["c1", "c2", "c3", "c4", "f1", "f2", "f3", "f4", "cb1", "cb2", "cb3", "cb4", "fb1", "fb2", "fb3", "fb4"]

variable {s : Score} {clef : String}

theorem clefOffset?_of_mem_clefs (h : clef ∈ clefs) : (clefOffset? (clefWithoutFlat clef)).isSome = true := by
  have hall : ∀ clef ∈ clefs, (clefOffset? (clefWithoutFlat clef)).isSome = true := by decide +kernel
  exact hall clef h

theorem clefFlat?_isSome (h : (clefOffset? clef).isSome = true) : (clefFlat? clef).isSome = true := by
  unfold clefOffset? at h
  split at h
  case h_9 => cases h
  all_goals rfl

theorem letterNote?_isSome (h : (clefOffset? clef).isSome = true) (letter : Char) :
    (letterNote? clef letter).isSome = true ↔ letter ∈ staffLetters := by
  obtain ⟨offset, hoffset⟩ := Option.isSome_iff_exists.mp h
  have hplace : (letterNote? clef letter).isSome = (staffLetters.findIdx? (· == letter)).isSome := by
    rw [letterNote?, hoffset]
    cases staffLetters.findIdx? (· == letter) <;> rfl
  rw [hplace, List.findIdx?_isSome, any_beq', contains_iff_mem]

/-! ## Durations that can be compared -/

theorem before?_isSome {a b : Datum} (ha : Lasts a) (hb : Lasts b) : (a.before? b).isSome = true := by
  cases a <;> cases b <;> first | rfl | exact absurd ha id | exact absurd hb id

theorem Score.Lasting.inherited (h : s.Lasting) {i : Option Nat} {d : Datum}
    (hd : s.inherited i (·.duration) = some d) : Lasts d := by
  obtain ⟨j, -, hj⟩ := exists_of_findSome?_eq_some hd
  exact h j d hj

namespace Act

theorem succeeds_equalise (h : s.Lasting) (i : Nat) : Succeeds (equalise i) s := by
  refine ends_orIfMissing ?_
  rw [ends_bind, durationOf, ends_bind, ends_get]
  refine ends_need (fun own hown => ?_) ⟨fun _ => trivial, fun hne => hne rfl⟩
  rw [ends_sign, ends_bind, durationOf, ends_bind, ends_get]
  refine ends_need (fun before hbefore => ?_) ⟨fun _ => trivial, fun hne => hne rfl⟩
  obtain ⟨shorter, hshorter⟩ := Option.isSome_iff_exists.mp (before?_isSome (h.inherited hown) (h.inherited hbefore))
  rw [ends_bind, less, hshorter]
  refine (Gives.ends (Gives.of_pure shorter s)).mpr ?_
  split <;> trivial

theorem succeeds_frameNeume (h : s.Lasting) (n : Nat) : Succeeds (frameNeume n) s := by
  rw [frameNeume, Succeeds, ends_bind, ends_get]
  dsimp only
  split
  next i j _ _ =>
    refine ((dresses_openNeume i s).and (show Succeeds (openNeume i) s from trivial)).andThen (fun _ s₁ h₁ => ?_) fun _ _ h₁ => h₁.2
    rw [closeNeume]
    exact (succeeds_equalise (h₁.1.lasting h) j).seq fun _ _ _ => trivial
  next => trivial

/-! ## Letters of the staff -/

section Letter

variable {s : Score} {a : Option Accidentals} {own : Option Entries} {row : List Nat} {i : Nat} {clef code : String}
  {letter : Char}

theorem ends_accidentalsFrom_unaltered (hrow : Thread s a row) (hplain : ∀ j ∈ row, (s.sign j).kind ≠ .accidental)
    (fuel : Nat) :
    Ends (accidentalsFrom fuel row.getLast?) s (fun _ s' => s' = s) fun f _ => f = .value .noProperty := by
  induction row using List.reverseRecOn generalizing fuel with
  | nil => cases fuel <;> rfl
  | append_singleton base j ih =>
    cases fuel with
    | zero => rfl
    | succ fuel =>
      have hbase := ih hrow.take (fun k hk => hplain k (by simp [hk])) fuel
      rw [List.getLast?_concat, accidentalsFrom, ends_sign, if_neg (hplain j (by simp)), hrow.last.1]
      split
      · rfl
      · exact hbase

theorem succeeds_noteAccidentals (hrow : Thread s a (row ++ [i]))
    (hplain : ∀ j ∈ row ++ [i], (s.sign j).kind ≠ .accidental) : Succeeds (noteAccidentals i) s := by
  have hsearch : Ends (accidentalsOf i) s (fun _ s' => s' = s) fun f _ => f = .value .noProperty := by
    have h := ends_accidentalsFrom_unaltered hrow hplain (s.signs.size + 1)
    rw [List.getLast?_concat] at h
    rwa [accidentalsOf, ends_bind, ends_get]
  have hnew : ∀ f s', f = Fault.value .noProperty →
      (f = .value .noProperty → Succeeds newTable s') ∧ (f ≠ .value .noProperty → False) :=
    fun _ _ hf => ⟨fun _ => trivial, fun hne => hne hf⟩
  refine ends_orIfMissing ?_
  refine hsearch.andThen (fun held s' hs' => ?_) hnew
  subst hs'
  rw [ends_bind, ends_get]
  split
  · trivial
  · exact hsearch.mono (fun _ _ _ => trivial) hnew

theorem succeeds_plainClef {held : Accidentals} {entries : Entries}
    (hknown : (clefOffset? (clefWithoutFlat clef)).isSome = true) (h : Tells s.tables (clefFlatKey? clef) held entries) :
    Succeeds (plainClef clef held) s := by
  rcases plainClef_cases clef with ⟨family, line, -, hwithout, hclef⟩ | ⟨-, -, hclef⟩
  · rw [hwithout] at hknown
    obtain ⟨entry, hentry⟩ := Option.isSome_iff_exists.mp (clefFlat?_isSome hknown)
    obtain ⟨t, table, rfl, -⟩ := h
    rw [hclef, hentry]
    trivial
  · rw [hclef]
    trivial

variable (hclef : (s.clefOf? (s.syllable (s.neume (s.sign i).neume).syllable).word).map Sign.code = some clef)
  (hknown : (clefOffset? (clefWithoutFlat clef)).isSome = true)
  (hown : Option.Rel (Tells s.tables (clefFlatKey? clef)) a own) (hrow : Thread s a (row ++ [i]))
  (hlen : row.length < s.signs.size) (hplain : ∀ j ∈ row ++ [i], (s.sign j).kind ≠ .accidental)
  (hletter : (Text.lower code).toList.head? = some letter)
include hclef hknown hown hrow hlen hplain hletter

theorem ends_pitchOf_letter :
    Ends (pitchOf i code) s (fun _ _ => letter ∈ staffLetters) fun f _ => letter ∉ staffLetters ∧ f = .value .missing := by
  obtain ⟨g, hg, rfl⟩ := Option.map_eq_some_iff.mp hclef
  have hat : Gives (clefAt i) s g.code s := by
    refine Gives.of_bind (Gives.of_get s) ?_
    dsimp only
    rw [hg]
    exact Gives.of_pure _ _
  have hkind : (s.sign i).kind ≠ .accidental := hplain i (by simp)
  rw [pitchOf, ends_bind, hat.ends]
  refine ((succeeds_noteAccidentals hrow hplain).and (ends_noteAccidentals hown hrow hlen hkind)).andThen
    (fun held s₁ h₁ => ?_) fun _ _ h₁ => h₁.1.elim
  obtain ⟨-, -, entries, htells, -⟩ := h₁
  refine ((succeeds_plainClef hknown htells).and (ends_plainClef htells)).andThen (fun plain s₂ h₂ => ?_) fun _ _ h₂ => h₂.1.elim
  obtain ⟨-, rfl, -, htells₂, hflat⟩ := h₂
  obtain ⟨offset, hoffset⟩ := Option.isSome_iff_exists.mp hknown
  rw [ends_bind, hoffset]
  refine (Gives.ends (Gives.of_pure offset s₂)).mpr ?_
  rw [ends_bind, hletter]
  refine (Gives.ends (Gives.of_pure letter s₂)).mpr ?_
  by_cases hmem : letter ∈ staffLetters
  · obtain ⟨place, hplace⟩ := Option.isSome_iff_exists.mp ((letterNote?_isSome hknown letter).mpr hmem)
    rw [ends_bind, hplace]
    refine (Gives.ends (Gives.of_pure place s₂)).mpr ?_
    rw [ends_bind, (gives_accidentalAt htells₂ hflat hmem).ends]
    dsimp only
    split
    · exact hmem
    · exact hmem
  · have hnone : letterNote? (clefWithoutFlat g.code) letter = none := by
      rw [← Option.not_isSome_iff_eq_none, letterNote?_isSome hknown]
      exact hmem
    rw [ends_bind, hnone]
    exact ⟨hmem, rfl⟩

theorem ends_soundNote_letter (hs : s.Tempered) :
    Ends (soundNote i code) s (fun _ _ => letter ∈ staffLetters) fun f _ => letter ∉ staffLetters ∧ f = .value .missing := by
  rw [soundNote, ends_bind]
  refine ((ends_pitchOf_letter hclef hknown hown hrow hlen hplain hletter).and
    ((Quietly.pitchOf i code s).and (upon_pitchOf_inRange i code s))).mono (fun pitch s₁ h₁ => ?_) fun _ _ h₁ => h₁.1
  obtain ⟨hmem, hquiet, hrange⟩ := h₁
  obtain ⟨hlily, habc⟩ := named_of_inRange (hrange (hquiet.tempered hs))
  obtain ⟨lily, hlily⟩ := Option.isSome_iff_exists.mp hlily
  obtain ⟨abc, habc⟩ := Option.isSome_iff_exists.mp habc
  rw [hlily, habc]
  exact hmem

end Letter

/-! ## Letters of a neume -/

variable {kind : Kind}

theorem succeeds_makeSign (hkind : kind ≠ .accidental) (code : String) (n : Nat) (before : Option Nat)
    (held : Option Accidentals) (s : Score) : Succeeds (makeSign kind code n before held) s := by
  rw [makeSign, Succeeds, ends_bind, ends_get, ends_bind, ends_modify, ends_bind]
  set g : Sign := { kind, code, neume := n, before := none }
  have hset : Succeeds (setBefore s.signs.size before) { s with signs := s.signs.push g } := by
    cases before <;> trivial
  refine (hset.and (relinked_setBefore _ _ _)).mono (fun _ s₁ h₁ => ?_) fun _ _ h₁ => h₁.1
  cases held with
  | none => trivial
  | some a =>
    -- the new sign is none of alteration, so it keeps the accidentals to itself
    have hsign : (s₁.sign s.signs.size).kind = kind := by
      obtain ⟨_, _, _, hsign⟩ := h₁.2.sign s.signs.size
      rw [hsign, Score.sign_push, if_pos rfl]
    rw [ends_bind, ends_get]
    split
    · rw [ends_bind, setAccidentals, ends_bind, ends_get, setAccidentalsFrom, ends_sign, hsign, if_neg hkind]
      trivial
    · trivial

section Row

variable {F : Frame} {row : List Nat} {glyphs : List Glyph} {s : Score} {code : String} {letter : Char}

theorem ends_makeNote_letter (hk : kind.sounds = true) (h : Standing F row glyphs s.signs.size s)
    (hs : s.Whole) (hknown : (clefOffset? (clefWithoutFlat F.clef)).isSome = true)
    (hplain : ∀ g ∈ glyphs, g.kind ≠ .accidental) (hletter : (Text.lower code).toList.head? = some letter) :
    Ends (makeNote kind code F.neume row.getLast? F.held) s (fun _ _ => letter ∈ staffLetters)
      fun f _ => letter ∉ staffLetters ∧ f = .value .missing := by
  have hkind : kind ≠ .accidental := by
    rintro rfl
    cases hk
  have hmake : Ends (makeSign kind code F.neume row.getLast? F.held) s
      (fun i s₁ => i = s.signs.size ∧ s₁.Whole ∧ Draft F row glyphs s.signs.size
        { kind, code, neume := F.neume, before := row.getLast?, accidentals := F.held } s₁) fun _ _ => False := by
    have hdraft := upon_makeSign kind code h (Q := fun i s₁ => i = s.signs.size ∧ Draft F row glyphs s.signs.size
      { kind, code, neume := F.neume, before := row.getLast?, accidentals := F.held } s₁) fun s₁ h₁ => by
        rw [if_neg hkind] at h₁
        exact ⟨rfl, h₁⟩
    refine ((succeeds_makeSign hkind code F.neume row.getLast? F.held s).and (hdraft.and
      (ends_makeSign kind code F.neume row.getLast? F.held (start_in s)))).mono (fun i s₁ h₁ => ?_) fun _ _ h₁ => h₁.1
    exact ⟨h₁.2.1.1, h₁.2.2.1.whole hs, h₁.2.1.2⟩
  rw [makeNote]
  refine hmake.andThen (fun i s₁ h₁ => ?_) fun _ _ => False.elim
  obtain ⟨rfl, hwhole, hdraft⟩ := h₁
  have hrow : ∀ j ∈ row ++ [s.signs.size], (s₁.sign j).kind ≠ .accidental := by
    intro j hj
    rcases mem_append.mp hj with hj | hj
    · exact hplain (s₁.sign j).glyph (by rw [← hdraft.standing.looks]; exact mem_map_of_mem hj)
    · rw [mem_singleton.mp hj, hdraft.looks.kind]
      exact hkind
  rw [ends_bind]
  refine (ends_soundNote_letter (hdraft.clefOf? rfl) hknown hdraft.standing.tells (hdraft.thread rfl rfl)
    (hdraft.standing.short.trans_lt hdraft.new) hrow hletter hwhole.tempered).mono (fun _ s₂ hmem => ?_) fun _ _ => id
  -- nothing more can go wrong
  rw [ends_bind]
  have henter : Succeeds (enterElement F.neume s.signs.size) s₂ := by
    rw [enterElement, Succeeds, ends_bind]
    refine (ends_modify _).mpr ?_
    rw [ends_neume]
    dsimp only
    split <;> trivial
  exact henter.mono (fun _ _ _ => hmem) fun _ _ => False.elim

/-- A neume that is being read: its row stands, it has these figures, and the score is whole. -/
def Underway (F : Frame) (l : Nat → List Nat) (row : List Figure) (s : Score) : Prop :=
  Stands F s ∧ Shows F.neume l row s ∧ s.Whole

variable {l : Nat → List Nat} {figures : List Figure} {c : Char}

theorem upon_addLetter_underway (c : Char) (h : Underway F l figures s) :
    Upon (addLetter F.neume c) s fun _ => Underway F l (enter figures c) := by
  obtain ⟨hstands, hshows, hwhole⟩ := h
  refine (((upon_addLetter c hstands).and (upon_showLetter hshows c)).and
    (grows_addLetter (b := start) (Nat.zero_le F.neume) c s (start_in s))).mono (fun _ s₁ h₁ => ?_) fun _ _ _ => trivial
  exact ⟨h₁.1.1, h₁.1.2, h₁.2.whole hwhole⟩

theorem figures_eq_map (h : Standing F row glyphs s.signs.size s) (hshows : Shows F.neume l figures s) :
    figures = glyphs.map Glyph.figure := by
  rw [← hshows.figures, ← h.looks, map_map, Score.figures, h.signs]
  rfl

theorem ends_addLetter_note (hc : Kind.ofLetter? c = some .note) (hstaff : c.toLower ∈ staffLetters)
    (h : Underway F l figures s) (hknown : (clefOffset? (clefWithoutFlat F.clef)).isSome = true)
    (hplain : ∀ f ∈ figures, f.1 ≠ .accidental) :
    Ends (addLetter F.neume c) s (fun _ => Underway F l (enter figures c)) fun _ _ => False := by
  have hletter : (Text.lower (String.singleton c)).toList.head? = some c.toLower :=
    head?_lower (show (String.singleton c).toList = [c] by simp) (toNat_lt_of_ofLetter? hc)
  have hmade : Succeeds (addLetter F.neume c) s := by
    obtain ⟨⟨row, glyphs, hstanding⟩, hshows, hwhole⟩ := h
    have hplain' : ∀ g ∈ glyphs, g.kind ≠ .accidental := fun g hg =>
      hplain g.figure (by rw [figures_eq_map hstanding hshows]; exact mem_map_of_mem hg)
    rw [addLetter, hc, Succeeds, ends_neume, hstanding.signs, hstanding.held]
    exact (ends_makeNote_letter rfl hstanding hwhole hknown hplain' hletter).andThen (fun _ _ _ => trivial) fun _ _ hf => hf.1 hstaff
  exact (hmade.and (upon_addLetter_underway c h)).mono (fun _ _ h => h.2) fun _ _ h => h.1

theorem ends_addLetter_special (hc : Kind.ofLetter? c = some .special) (h : Underway F l figures s)
    (hknown : (clefOffset? (clefWithoutFlat F.clef)).isSome = true) (hplain : ∀ f ∈ figures, f.1 ≠ .accidental)
    {code : String} {d : Char} {rest : List Char} (hlast : figures.getLast? = some (kind, code))
    (hkind : kind = .note ∨ kind = .special) (hd : code.toList = d :: rest) :
    Ends (addLetter F.neume c) s (fun _ s' => d.toLower ∈ staffLetters ∧ Underway F l (enter figures c) s')
      fun f _ => d.toLower ∉ staffLetters ∧ f = .value .missing := by
  have hmade : Ends (addLetter F.neume c) s (fun _ _ => d.toLower ∈ staffLetters)
      fun f _ => d.toLower ∉ staffLetters ∧ f = .value .missing := by
    obtain ⟨⟨row, glyphs, hstanding⟩, hshows, hwhole⟩ := h
    have hfigures := figures_eq_map hstanding hshows
    have hplain' : ∀ g ∈ glyphs, g.kind ≠ .accidental := fun g hg =>
      hplain g.figure (by rw [hfigures]; exact mem_map_of_mem hg)
    -- the last sign of the row has the last figure
    obtain ⟨g, hg, hfigure⟩ : ∃ g, glyphs.getLast? = some g ∧ g.figure = (kind, code) := by
      rw [hfigures, List.getLast?_map] at hlast
      exact Option.map_eq_some_iff.mp hlast
    obtain ⟨hgkind, hgcode⟩ := Prod.mk.inj hfigure
    obtain ⟨j, hj, hjg⟩ : ∃ j, row.getLast? = some j ∧ (s.sign j).glyph = g := by
      rw [← hstanding.looks, List.getLast?_map] at hg
      exact Option.map_eq_some_iff.mp hg
    have hsounds : g.kind.sounds = true := by
      rw [hgkind]
      rcases hkind with rfl | rfl <;> rfl
    have hcode : (s.sign j).code = code := (congrArg Glyph.code hjg).trans hgcode
    obtain ⟨d', rest', hd', hascii⟩ := hstanding.ascii g (mem_of_getLast? hg) hsounds
    obtain ⟨rfl, rfl⟩ : d' = d ∧ rest' = rest := by
      rw [hgcode, hd] at hd'
      cases hd'
      exact ⟨rfl, rfl⟩
    have hletter : (Text.lower (s.sign j).code).toList.head? = some d'.toLower :=
      head?_lower (by rw [hcode, hd]) hascii
    have hnote := ends_makeNote_letter (show Kind.special.sounds = true from rfl) hstanding hwhole hknown hplain' hletter
    have hkept := upon_makeNote (show Kind.special.sounds = true from rfl) (s.sign j).code hstanding
      (Q := fun _ s₁ => (s₁.sign j).kind = kind) fun pitch s₁ h₁ _ => by
        have hlooks := congrArg List.getLast? h₁.standing.looks
        rw [List.getLast?_map, hj, hg] at hlooks
        exact (congrArg Glyph.kind (Option.some.inj hlooks)).trans hgkind
    rw [addLetter, hc, ends_neume, hstanding.signs, hstanding.held, ends_bind, makeOf, makeSpecial, hj, ends_bind]
    refine (Gives.ends (Gives.of_pure j s)).mpr ?_
    rw [ends_sign, ends_bind, ← hj]
    refine (hnote.and hkept).mono (fun i s₁ h₁ => ?_) fun _ _ h₁ => h₁.1
    obtain ⟨hstaff, hon⟩ := h₁
    rw [ends_sign]
    generalize s₁.sign j = on at hon ⊢
    -- the rest only moves signs about
    rcases hkind with rfl | rfl
    · rw [hon]
      obtain ⟨_, _, _, before, _⟩ := on
      cases before <;> (dsimp only; split <;> exact hstaff)
    · rw [hon]
      exact hstaff
  exact (hmade.and (upon_addLetter_underway c h)).mono (fun _ _ h => h) fun _ _ h => h.1

end Row

/-! ## A letter and special notes -/

theorem places_of_ofLetter? {c : Char} (hc : Kind.ofLetter? c = some kind) :
    (Kind.ofLetter? c = some .note → c.toLower ∈ staffLetters) ∧
    (Kind.ofLetter? c = some .special → c.toLower ∉ staffLetters) ∧ isLine c = false :=
  of_ofLetter? (P := fun c => (Kind.ofLetter? c = some .note → c.toLower ∈ staffLetters) ∧
    (Kind.ofLetter? c = some .special → c.toLower ∉ staffLetters) ∧ isLine c = false) hc (by decide +kernel)

section Strikes

variable {F : Frame} {l : Nat → List Nat} {s : Score} {letter c d : Char} {specials : List Char}
  (hletter : Kind.ofLetter? letter = some .note)

include hletter in
theorem enter_note : enter [] letter = [(.note, String.singleton letter)] := by
  rw [enter, hletter]
  rfl

theorem enter_special (hc : Kind.ofLetter? c = some .special) (letter : String) :
    enter [(.note, letter)] c = [(.special, letter ++ String.singleton c)] ∧
    enter [(.special, letter)] c = [(.special, letter), (.special, String.singleton c)] := by
  rw [enter, enter, hc]
  exact ⟨rfl, rfl⟩

variable (hspecials : ∀ c ∈ specials, Kind.ofLetter? c = some .special)
include hletter hspecials

section Reading

variable (hknown : (clefOffset? (clefWithoutFlat F.clef)).isSome = true) (h : Underway F l [] s)
include hknown h

theorem ends_strikes :
    Ends ((letter :: specials).forM (addLetter F.neume)) s
      (fun _ s' => specials.length ≤ 2 ∧ Underway F l ((letter :: specials).foldl enter []) s')
      fun f _ => 3 ≤ specials.length ∧ f = .value .missing := by
  have hstaff := (places_of_ofLetter? hletter).1 hletter
  show Ends (addLetter F.neume letter >>= fun _ => specials.forM (addLetter F.neume)) s _ _
  refine (ends_addLetter_note hletter hstaff h hknown (by simp)).andThen (fun _ s₁ h₁ => ?_) fun _ _ => False.elim
  rw [foldl_cons]
  rw [enter_note hletter] at h₁ ⊢
  rcases specials with _ | ⟨c, rest⟩
  · exact ⟨Nat.zero_le _, h₁⟩
  -- the first special note takes the place of the note, and has its letter
  have hc : Kind.ofLetter? c = some .special := hspecials c (by simp)
  have hcode : (String.singleton letter ++ String.singleton c).toList = letter :: [c] := by simp
  show Ends (addLetter F.neume c >>= fun _ => rest.forM (addLetter F.neume)) s₁ _ _
  rw [ends_bind]
  refine (ends_addLetter_special hc h₁ hknown (by simp) rfl (.inl rfl)
    (show (String.singleton letter).toList = letter :: [] by simp)).mono (fun _ s₂ h₂ => ?_) fun _ _ hf => absurd hstaff hf.1
  rw [foldl_cons]
  rw [(enter_special hc _).1] at h₂ ⊢
  rcases rest with _ | ⟨d, rest⟩
  · exact ⟨by simp, h₂.2⟩
  -- the second stands behind it, and is read by the same letter
  have hd : Kind.ofLetter? d = some .special := hspecials d (by simp)
  show Ends (addLetter F.neume d >>= fun _ => rest.forM (addLetter F.neume)) s₂ _ _
  refine (ends_addLetter_special hd h₂.2 hknown (by simp) rfl (.inr rfl) hcode).andThen (fun _ s₃ h₃ => ?_)
    fun _ _ hf => absurd hstaff hf.1
  rw [foldl_cons]
  rw [(enter_special hd _).2] at h₃ ⊢
  rcases rest with _ | ⟨e, rest⟩
  · exact ⟨by simp, h₃.2⟩
  -- the third would be read by the letter of the second
  have he : Kind.ofLetter? e = some .special := hspecials e (by simp)
  show Ends (addLetter F.neume e >>= fun _ => rest.forM (addLetter F.neume)) s₃ _ _
  rw [ends_bind]
  exact (ends_addLetter_special he h₃.2 hknown (by simp) rfl (.inr rfl)
    (show (String.singleton d).toList = d :: [] by simp)).mono
      (fun _ _ h₄ => absurd h₄.1 ((places_of_ofLetter? hd).2.1 hd)) fun _ _ hf => ⟨by simp, hf.2⟩

theorem ends_readStrikes :
    Ends (readCode F.neume (String.ofList (letter :: specials))) s
      (fun _ s' => specials.length ≤ 2 ∧ Underway F l ((letter :: specials).foldl enter []) s')
      fun f _ => 3 ≤ specials.length ∧ f = .value .missing := by
  have hfree : ClefFree (String.ofList (letter :: specials)) := by
    rw [ClefFree, String.toList_ofList]
    refine firstClef?_eq_none_of_lineless fun c hc => ?_
    rcases mem_cons.mp hc with rfl | hc
    · exact (places_of_ofLetter? hletter).2.2
    · exact (places_of_ofLetter? (hspecials c hc)).2.2
  rw [readCode, texts?_eq_none_of_clefFree hfree]
  dsimp only
  rw [String.toList_ofList, readLetters]
  refine (ends_strikes hletter hspecials hknown h).seq fun _ s₁ h₁ => ?_
  obtain ⟨hlength, hstands, hshows, hwhole⟩ := h₁
  refine ((succeeds_frameNeume hwhole.lasting F.neume).and ((dresses_frameNeume F.neume s₁).and (upon_showFrame hshows))).mono
    (fun _ s₂ h₂ => ?_) fun _ _ h₂ => h₂.1.elim
  obtain ⟨-, hdressed, hshows₂⟩ := h₂
  exact ⟨hlength, hstands.dressed hdressed, hshows₂, (Score.Grown.of_dressed (b := start) hdressed).whole hwhole⟩

end Reading

/-- The pitch of a letter under a clef, moved by the entries in force. -/
def letterPitch? (clef : String) (held : Option Entries) (letter : Char) : Option Int :=
  (letterNote? (clefWithoutFlat clef) letter).map fun place => place.2 + movedAt clef held letter

omit hletter hspecials in
theorem pitch_of_readsAs {own : Option Entries} {earlier : List Glyph} {g : Glyph}
    (h : ReadsAs clef own earlier g) (hplain : inForce own earlier = none ∨ inForce own earlier = own) {letter : Char}
    (hletter : g.letter? earlier = some letter) : g.pitch = letterPitch? clef own letter := by
  obtain ⟨letter', name, height, hletter', hplace, hpitch⟩ := h
  obtain rfl : letter' = letter := Option.some.inj (hletter'.symm.trans hletter)
  have hheld : own.or (inForce own earlier) = own := by
    rcases hplain with hplain | hplain
    · rw [hplain, Option.or_none]
    · rw [hplain, Option.or_self]
  rw [hpitch, hheld, letterPitch?, hplace]
  rfl

theorem row_of_strikes (h : Underway F l ((letter :: specials).foldl enter []) s) (hlength : specials.length ≤ 2) :
    (s.row F.neume).map (fun g => (g.kind, g.pitch)) =
      if specials = [] then [(.note, letterPitch? F.clef F.own letter.toLower)]
      else List.replicate specials.length (.special, letterPitch? F.clef F.own letter.toLower) := by
  obtain ⟨⟨row, glyphs, hstanding⟩, hshows, -⟩ := h
  have hfigures := figures_eq_map hstanding hshows
  have hreads := hstanding.reads
  rw [foldl_cons, enter_note hletter] at hfigures
  rw [Stands.row_eq hstanding]
  rcases specials with _ | ⟨c, rest⟩
  · obtain ⟨⟨kind, code, pitch⟩, rfl, hg⟩ := map_eq_singleton_iff.mp hfigures.symm
    obtain ⟨rfl, rfl⟩ := Prod.mk.inj hg
    have hpitch := pitch_of_readsAs (hreads [] _ [] rfl rfl) (.inl rfl)
      (show Glyph.letter? [] ⟨.note, String.singleton letter, pitch⟩ = some letter.toLower by simp [Glyph.letter?])
    simpa using hpitch
  · have hc : Kind.ofLetter? c = some .special := hspecials c (by simp)
    have hfirst : ∀ pitch, Glyph.letter? [] ⟨.special, String.singleton letter ++ String.singleton c, pitch⟩ =
        some letter.toLower := by
      intro pitch
      have hlong : (String.singleton letter ++ String.singleton c).length ≠ 1 := by
        rw [← String.length_toList]
        simp
      rw [Glyph.letter?, if_neg fun h => hlong h.2]
      simp
    rw [foldl_cons, (enter_special hc _).1] at hfigures
    rcases rest with _ | ⟨d, rest⟩
    · obtain ⟨⟨kind, code, pitch⟩, rfl, hg⟩ := map_eq_singleton_iff.mp hfigures.symm
      obtain ⟨rfl, rfl⟩ := Prod.mk.inj hg
      have hpitch := pitch_of_readsAs (hreads [] _ [] rfl rfl) (.inl rfl) (hfirst pitch)
      simpa using hpitch
    · obtain rfl : rest = [] := by simpa using hlength
      have hd : Kind.ofLetter? d = some .special := hspecials d (by simp)
      rw [foldl_cons, (enter_special hd _).2, foldl_nil] at hfigures
      obtain ⟨⟨kind, code, pitch⟩, tail, rfl, hg, htail⟩ := map_eq_cons_iff.mp hfigures.symm
      obtain ⟨rfl, rfl⟩ := Prod.mk.inj hg
      obtain ⟨⟨kind', code', pitch'⟩, rfl, hg'⟩ := map_eq_singleton_iff.mp htail
      obtain ⟨rfl, rfl⟩ := Prod.mk.inj hg'
      have hpitch := pitch_of_readsAs (hreads [] _ _ rfl rfl) (.inl rfl) (hfirst pitch)
      have hagain : Glyph.letter? [⟨.special, String.singleton letter ++ String.singleton c, pitch⟩]
          ⟨.special, String.singleton d, pitch'⟩ = some letter.toLower := by
        rw [Glyph.letter?, if_pos ⟨rfl, by simp⟩]
        simp
      have hpitch' := pitch_of_readsAs (hreads [_] _ [] rfl rfl) (.inr (by simp [inForce])) hagain
      simp only at hpitch hpitch'
      simp [hpitch, hpitch', List.replicate]

end Strikes

theorem underway_empty {n : Nat} {own : Option Entries} (hs : s.Whole) (hn : n < s.neumes.size)
    (hempty : (s.neume n).signs = [])
    (hheld : Option.Rel (Tells s.tables (clefFlatKey? clef)) (s.neume n).accidentals own)
    (hclef : (s.clefOf? (s.syllable (s.neume n).syllable).word).map Sign.code = some clef) (hne : clef ≠ "") :
    Underway ⟨s.words, s.syllables, clef, n, (s.neume n).accidentals, own⟩ s.lists [] s :=
  ⟨⟨[], [], rfl, rfl, hn, clefSign?_of_code hclef hne, rfl, hheld, hempty, by simp, by simp, Along.nil, rfl, Along.nil, by simp⟩,
    shows_empty hn hempty, hs⟩

/-- A letter of a note and special notes behind it, in a neume without signs, whatever accidentals
    it has taken over, under any clef. The letter alone is read as a note. With one or two
    special notes behind it there are just these special notes, all at the pitch of the note. With
    three or more the neume is refused: a special note behind a special note is looked up on the
    staff by the first letter of that one, and from the second one on this is not the letter of the
    note. -/
theorem repercussions_at_letter {s : Score} {n : Nat} {clef : String} {own : Option Entries} {letter : Char}
    {specials : List Char} (hs : s.Whole) (hn : n < s.neumes.size) (hempty : (s.neume n).signs = [])
    (hheld : Option.Rel (Tells s.tables (clefFlatKey? clef)) (s.neume n).accidentals own)
    (hclef : (s.clefOf? (s.syllable (s.neume n).syllable).word).map Sign.code = some clef) (hmem : clef ∈ clefs)
    (hletter : Kind.ofLetter? letter = some .note) (hspecials : ∀ c ∈ specials, Kind.ofLetter? c = some .special)
    (hne : specials ≠ []) :
    ∃ p : Int,
      (∃ s', Gives (readCode n (String.singleton letter)) s () s' ∧
        (s'.row n).map (fun g => (g.kind, g.pitch)) = [(.note, some p)]) ∧
      (specials.length ≤ 2 → ∃ s', Gives (readCode n (String.ofList (letter :: specials))) s () s' ∧
        (s'.row n).map (fun g => (g.kind, g.pitch)) = List.replicate specials.length (.special, some p)) ∧
      (3 ≤ specials.length → Fails (readCode n (String.ofList (letter :: specials))) s (.value .missing)) := by
  have hknown := clefOffset?_of_mem_clefs hmem
  let F : Frame := ⟨s.words, s.syllables, clef, n, (s.neume n).accidentals, own⟩
  have hstart : Underway F s.lists [] s := underway_empty hs hn hempty hheld hclef (by rintro rfl; exact absurd hmem (by decide))
  obtain ⟨place, hplace⟩ := Option.isSome_iff_exists.mp ((letterNote?_isSome hknown letter.toLower).mpr ((places_of_ofLetter? hletter).1 hletter))
  have hpitch : letterPitch? clef own letter.toLower = some (place.2 + movedAt clef own letter.toLower) := by
    rw [letterPitch?, hplace]
    rfl
  -- up to two special notes are let in, and there may be none
  have haccepted : ∀ more : List Char, (∀ c ∈ more, Kind.ofLetter? c = some .special) → more.length ≤ 2 →
      ∃ s', Gives (readCode n (String.ofList (letter :: more))) s () s' ∧
        (s'.row n).map (fun g => (g.kind, g.pitch)) =
          if more = [] then [(.note, some (place.2 + movedAt clef own letter.toLower))]
          else List.replicate more.length (.special, some (place.2 + movedAt clef own letter.toLower)) := by
    intro more hmore hlength
    have hread := ends_readStrikes (F := F) hletter hmore hknown hstart
    obtain ⟨_, s', hgives, -, hunderway⟩ := Ends.exists_gives (hread.mono (fun _ _ h => h) fun _ _ hf => by
      have := hf.1
      omega)
    have hrow := row_of_strikes hletter hmore hunderway hlength
    rw [hpitch] at hrow
    exact ⟨s', hgives, hrow⟩
  refine ⟨place.2 + movedAt clef own letter.toLower, ?_, ?_, ?_⟩
  · have hletterOnly := haccepted [] (by simp) (by simp)
    rwa [if_pos rfl, ← String.singleton_eq_ofList] at hletterOnly
  · intro hlength
    have hstruck := haccepted specials hspecials hlength
    rwa [if_neg hne] at hstruck
  · intro hlength
    have hrefused : Ends (readCode n (String.ofList (letter :: specials))) s (fun _ _ => False) fun f _ => f = .value .missing := by
      refine (ends_readStrikes (F := F) hletter hspecials hknown hstart).mono (fun _ _ h => ?_) fun _ _ hf => hf.2
      have := h.1
      omega
    exact hrefused.fails

/-- Whether the accidentals are a table that has the entries at every letter of the staff. -/
def hasEntries (tables : Array (Table String Int)) (entries : Entries) : Accidentals → Bool
  | .table t => (tables[t]?).any fun table =>
      !table.isEmpty && staffLetters.all fun c => Table.find? (String.singleton c) table == some (movedBy entries c)
  | .loose _ => false

theorem tells_of_hasEntries {tables : Array (Table String Int)} {entries : Entries} {held : Accidentals}
    (h : hasEntries tables entries held = true) (flat : Option String) : Tells tables flat held entries := by
  cases held with
  | loose value => exact absurd h Bool.false_ne_true
  | table t =>
    obtain ⟨table, htable, hboth⟩ := (Option.any_eq_true _ _).mp h
    obtain ⟨hfull, hfind⟩ := Bool.and_eq_true_iff.mp hboth
    refine ⟨t, table, rfl, htable, ?_, fun c hc _ => eq_of_beq (all_eq_true.mp hfind c hc)⟩
    rintro rfl
    exact absurd hfull (by decide)

/-- Two special notes on the B that an earlier syllable of the word has lowered. -/
theorem repercussions_at_letter_inherited_flat :
    ∃ s, (Score.read "%%\n(c4) a(ixi)b()" none).2 = s ∧ (s.neume 2).signs = [] ∧ (s.neume 2).accidentals.isSome = true ∧
      ∃ p : Int,
        (∃ s', Gives (readCode 2 (String.singleton 'i')) s () s' ∧
          (s'.row 2).map (fun g => (g.kind, g.pitch)) = [(.note, some p)]) ∧
        (2 ≤ 2 → ∃ s', Gives (readCode 2 (String.ofList ['i', 's', 'v'])) s () s' ∧
          (s'.row 2).map (fun g => (g.kind, g.pitch)) = List.replicate 2 (.special, some p)) ∧
        (3 ≤ 2 → Fails (readCode 2 (String.ofList ['i', 's', 'v'])) s (.value .missing)) := by
  obtain ⟨s, hread⟩ : ∃ s, (Score.read "%%\n(c4) a(ixi)b()" none).2 = s := ⟨_, rfl⟩
  have hs : s.Whole := hread ▸ Score.read_whole _ _
  have hn : 2 < s.neumes.size := by
    rw [← hread]
    decide +kernel
  have hempty : (s.neume 2).signs = [] := by
    rw [← hread]
    decide +kernel
  have hclef : (s.clefOf? (s.syllable (s.neume 2).syllable).word).map Sign.code = some "c4" := by
    rw [← hread]
    decide +kernel
  obtain ⟨held, haccidentals, hentries⟩ : ∃ held, (s.neume 2).accidentals = some held ∧
      hasEntries s.tables [('i', -1)] held = true := by
    rw [← hread]
    exact (Option.any_eq_true _ _).mp (by decide +kernel)
  have hheld : Option.Rel (Tells s.tables (clefFlatKey? "c4")) (s.neume 2).accidentals (some [('i', -1)]) := by
    rw [haccidentals]
    exact .some (tells_of_hasEntries hentries _)
  have hspecials : ∀ c ∈ ['s', 'v'], Kind.ofLetter? c = some .special := List.all_iff_forall_prop.mp (by decide)
  exact ⟨s, hread, hempty, by rw [haccidentals]; rfl,
    repercussions_at_letter hs hn hempty hheld hclef (by decide) rfl hspecials (List.cons_ne_nil _ _)⟩

end Act

/-- A third special note on one letter is refused, and the chant with it. -/
theorem third_repercussion_refused :
    (Score.read "%%\n(c4) a(hss)" none).2.notes.map (fun g => (g.kind, g.pitch)) = [(.special, some 69), (.special, some 69)] ∧
    (Score.read "%%\n(c4) a(hss)" none).1.toOption = some () ∧
    (Score.read "%%\n(c4) a(hsss)" none).1.toOption = none := by
  decide +kernel

end Plainsong.Chant
