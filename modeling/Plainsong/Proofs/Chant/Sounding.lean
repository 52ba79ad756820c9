import Plainsong.Chant.Lilypond
import Plainsong.Proofs.Chant.MusicLine
import Plainsong.Proofs.Chant.Playing
/- What a Lilypond file sounds like. A pitch is written as a letter, a sharp or a flat and marks
   for its octave; a word that begins with a pitch and goes on with a length is a note, and a
   line that begins with a percent sign is a remark. Read so (`Lilypond.musicPitches`), the music
   of a score holds the pitches of its notes. The names of the transpositions run out one
   semitone too early: an octave up has the name of an octave down. So the file sounds like the
   melody that is played, and two octaves below it if the score is transposed an octave up. -/
namespace Plainsong.Chant

open List

namespace Lilypond

/-! ## Reading pitches -/

/-- How many semitones above C a letter stands. -/
def step? : Char → Option Int
  | 'c' => some 0
  | 'd' => some 2
  | 'e' => some 4
  | 'f' => some 5
  | 'g' => some 7
  | 'a' => some 9
  | 'b' => some 11
  | _ => none

/-- A sharp or a flat, and what stands behind it. -/
def readAlteration : List Char → Int × List Char
  | 'i' :: 's' :: rest => (1, rest)
  | 'e' :: 's' :: rest => (-1, rest)
  | rest => (0, rest)

/-- The marks of an octave, and what stands behind them. -/
def readOctave : List Char → Int × List Char
  | '\'' :: rest => ((readOctave rest).1 + 12, (readOctave rest).2)
  | ',' :: rest => ((readOctave rest).1 - 12, (readOctave rest).2)
  | rest => (0, rest)

/-- A pitch and what stands behind it; without marks the octave is the one below the middle C. -/
def readPitch? : List Char → Option (Int × List Char)
  | [] => none
  | c :: rest => (step? c).map fun step =>
    let (alteration, rest) := readAlteration rest
    let (octave, rest) := readOctave rest
    (48 + step + alteration + octave, rest)

/-- The pitch of a word that is a note: a length follows it. -/
def notePitch? (word : List Char) : Option Int :=
  match readPitch? word with
  | some (p, c :: _) => if c.isDigit then some p else none
  | _ => none

/-- Blanks and brackets stand between words. -/
def isBreak (c : Char) : Bool := c = ' ' || isBracket c

/-- The pitches of the notes of a line. -/
def linePitches (line : List Char) : List Int := (line.splitOnP isBreak).filterMap notePitch?

/-- The pitches of the notes of some music, the remarks left out. -/
def musicPitches (music : List Char) : List Int :=
  ((music.splitOnP (· == '\n')).filter fun line => line.head? != some '%').flatMap linePitches

/-- The pitches that are heard: all are moved as far as C is moved. -/
def sounding? (l : Lilypond) : Option (List Int) :=
  (readPitch? l.transposition.toList).map fun (target, _) =>
    (musicPitches l.music.toList).map (· + (target - 48))

/-! ## Lines -/

theorem linePitches_append_break {c : Char} (hc : isBreak c = true) (t u : List Char) :
    linePitches (t ++ c :: u) = linePitches t ++ linePitches u := by
  rw [linePitches, splitOnP_append_cons _ _ hc, filterMap_append]
  rfl

theorem linePitches_word {w : List Char} (h : ∀ c ∈ w, isBreak c = false) : linePitches w = (notePitch? w).toList := by
  rw [linePitches, splitOnP_eq_singleton h]
  cases hw : notePitch? w <;> simp [hw]

variable {brackets name : List Char} {s : Score} {g : Sign} {notes text : String}

theorem linePitches_append_brackets (t : List Char) (h : ∀ c ∈ brackets, isBracket c = true) :
    linePitches (t ++ brackets) = linePitches t := by
  induction brackets generalizing t with
  | nil => rw [append_nil]
  | cons c rest ih =>
    have hc : isBreak c = true := by rw [isBreak, h c mem_cons_self, Bool.or_true]
    have hrest := ih (t ++ [c]) fun x hx => h x (mem_cons_of_mem _ hx)
    rw [append_assoc, singleton_append] at hrest
    rw [hrest, linePitches_append_break hc]
    exact append_nil _

theorem linePitches_note {mark : List Char} {p : Int} (hname : ∀ c ∈ name, isBreak c = false)
    (hpitch : ∀ rest, notePitch? (name ++ rest) = some p) (hbrackets : ∀ c ∈ brackets, isBracket c = true)
    (hmark : ∀ c ∈ mark, isBreak c = false) (hsilent : notePitch? mark = none) :
    linePitches (name ++ brackets ++ mark) = [p] := by
  have hmarks : ∀ {b : List Char}, (∀ c ∈ b, isBracket c = true) → linePitches (b ++ mark) = [] := by
    intro b hb
    induction b with
    | nil => rw [nil_append, linePitches_word hmark, hsilent, Option.toList_none]
    | cons c b ih =>
      have hc : isBreak c = true := by rw [isBreak, hb c mem_cons_self, Bool.or_true]
      have := linePitches_append_break hc [] (b ++ mark)
      rw [nil_append] at this
      rw [cons_append, this, ih fun x hx => hb x (mem_cons_of_mem _ hx)]
      rfl
  cases brackets with
  | nil =>
    rw [append_nil, linePitches_word, hpitch, Option.toList_some]
    intro c hc
    rcases mem_append.mp hc with hc | hc
    · exact hname c hc
    · exact hmark c hc
  | cons c rest =>
    have hc : isBreak c = true := by rw [isBreak, hbrackets c mem_cons_self, Bool.or_true]
    have hown := hpitch []
    rw [append_nil] at hown
    rw [append_assoc, cons_append, linePitches_append_break hc, linePitches_word hname, hown,
      hmarks fun x hx => hbrackets x (mem_cons_of_mem _ hx)]
    rfl

/-! ## Signs -/

/-- What a line and a remark begin with. -/
def isMark (c : Char) : Bool := c = '\n' || c = '%'

theorem exists_name {p : Int} (hp : InRange p) :
    ∃ name : List Char, lilyName? p = some (String.ofList (name ++ ['8'])) ∧
      (∀ c ∈ name, isBreak c = false ∧ isMark c = false ∧ c ≠ '8') ∧
      ∀ d ∈ ['8', '4'], ∀ rest, notePitch? (name ++ d :: rest) = some p := by
  obtain ⟨hlow, hhigh⟩ := hp
  refine ⟨((lilyName? p).getD "").toList.dropLast, ?_, ?_, ?_⟩
  · interval_cases p <;> rfl
  · interval_cases p <;> exact all_iff_forall_prop.mp (by decide)
  · rw [forall_mem_cons, forall_mem_singleton]
    interval_cases p <;> exact ⟨fun _ => rfl, fun _ => rfl⟩

/-- The articulation of a note. -/
def articulation (g : Sign) : String :=
  (if g.hasNuance "episeme" then "--" else "") ++ (if g.hasNuance "ictus" then "-!" else "") ++
    if g.hasNuance "quilisma" then "\\prall" else ""

theorem articulation_letters (g : Sign) :
    (∀ c ∈ (articulation g).toList, isBreak c = false ∧ isMark c = false) ∧ notePitch? (articulation g).toList = none := by
  have hall : ∀ e i q : Bool, let text := (if e then "--" else "") ++ (if i then "-!" else "") ++ if q then "\\prall" else ""
      text.toList.all (fun c => !isBreak c && !isMark c) = true ∧ notePitch? text.toList = none := by
    decide
  obtain ⟨hletters, hsilent⟩ := hall (g.hasNuance "episeme") (g.hasNuance "ictus") (g.hasNuance "quilisma")
  refine ⟨fun c hc => ?_, hsilent⟩
  simpa using all_eq_true.mp hletters c hc

theorem noteLily_eq (g : Sign) :
    let text := if g.hasNuance "point" then (" " ++ g.lily).map fun c => if c = '8' then '4' else c else " " ++ g.lily
    g.noteLily = if g.hasNuance "liquescence" then " \\tiny" ++ (text ++ articulation g) ++ " \\normalsize"
      else text ++ articulation g := by
  dsimp only [Sign.noteLily, articulation]
  generalize (if g.hasNuance "point" then (" " ++ g.lily).map fun c => if c = '8' then '4' else c else " " ++ g.lily) = text
  cases g.hasNuance "episeme" <;> cases g.hasNuance "ictus" <;> cases g.hasNuance "quilisma" <;>
    simp [String.append_assoc]

theorem exists_length (hlily : g.lily.toList = name ++ '8' :: brackets)
    (hname : '8' ∉ name) (hbrackets : '8' ∉ brackets) :
    ∃ d ∈ ['8', '4'], (if g.hasNuance "point" then (" " ++ g.lily).map fun c => if c = '8' then '4' else c
      else " " ++ g.lily).toList = ' ' :: (name ++ d :: brackets) := by
  have hkeep : ∀ l : List Char, '8' ∉ l → (l.map fun c => if c = '8' then '4' else c) = l := by
    intro l hl
    refine (map_congr_left fun c hc => ?_).trans (map_id _)
    rw [if_neg, id]
    rintro rfl
    exact hl hc
  split
  · refine ⟨'4', by decide, ?_⟩
    rw [String.toList_map, String.toList_append, hlily, map_append, map_append, map_cons, hkeep _ hname,
      hkeep _ hbrackets]
    rfl
  · refine ⟨'8', by decide, ?_⟩
    rw [String.toList_append, hlily]
    rfl

theorem not_isMark_of_isBracket {c : Char} (h : isBracket c = true) : isMark c = false := by
  rw [isMark, Bool.or_eq_false_iff, decide_eq_false_iff_not, decide_eq_false_iff_not]
  constructor <;> rintro rfl <;> exact absurd h (by decide)

theorem linePitches_noteLily (hg : g.Complete) (hs : g.kind.sounds = true) {p : Int} (hp : g.pitch = some p)
    (hrange : InRange p) :
    (∀ c ∈ g.noteLily.toList, isMark c = false) ∧ ∀ t, linePitches (t ++ g.noteLily.toList) = linePitches t ++ [p] := by
  obtain ⟨p', text, hp', htext, brackets, hbrackets, hlily⟩ := hg.named hs
  obtain rfl : p = p' := Option.some.inj (hp.symm.trans hp')
  obtain ⟨name, hname, hletters, hpitch⟩ := exists_name hrange
  rw [hname] at htext
  cases htext
  rw [String.toList_ofList, append_assoc, singleton_append] at hlily
  obtain ⟨d, hd, hbody⟩ := exists_length hlily (fun h => (hletters _ h).2.2 rfl)
    fun h => absurd (hbrackets _ h) (by decide)
  obtain ⟨hmark, hsilent⟩ := articulation_letters g
  have hdigit : isBreak d = false ∧ isMark d = false := by
    rcases mem_cons.mp hd with rfl | hd
    · decide
    · rw [mem_singleton.mp hd]
      decide
  have hnote : linePitches (name ++ d :: brackets ++ (articulation g).toList) = [p] := by
    rw [← singleton_append, ← append_assoc name]
    refine linePitches_note (fun c hc => ?_) (fun rest => ?_) hbrackets (fun c hc => (hmark c hc).1) hsilent
    · rcases mem_append.mp hc with hc | hc
      · exact (hletters c hc).1
      · exact mem_singleton.mp hc ▸ hdigit.1
    · rw [append_assoc, singleton_append]
      exact hpitch d hd rest
  have hfree : ∀ c ∈ name ++ d :: brackets ++ (articulation g).toList, isMark c = false := by
    simp only [forall_mem_append, forall_mem_cons]
    exact ⟨⟨fun c hc => (hletters c hc).2.1, hdigit.2, fun c hc => not_isMark_of_isBracket (hbrackets c hc)⟩,
      fun c hc => (hmark c hc).2⟩
  generalize hbody' : name ++ d :: brackets ++ (articulation g).toList = body at hnote hfree
  rw [noteLily_eq]
  split
  · have htext : ∀ t : List Char, t ++ (" \\tiny" ++ ((if g.hasNuance "point" then (" " ++ g.lily).map fun c => if c = '8' then '4' else c
        else " " ++ g.lily) ++ articulation g) ++ " \\normalsize").toList =
        t ++ ' ' :: ("\\tiny".toList ++ ' ' :: (body ++ ' ' :: "\\normalsize".toList)) := by
      intro t
      rw [String.toList_append, String.toList_append, String.toList_append, hbody, cons_append, hbody']
      simp
    have hsize : linePitches "\\tiny".toList = [] ∧ linePitches "\\normalsize".toList = [] := by decide
    refine ⟨?_, fun t => ?_⟩
    · have := htext []
      rw [nil_append, nil_append] at this
      rw [this]
      simp only [forall_mem_append, forall_mem_cons]
      exact ⟨by decide, all_iff_forall_prop.mp (by decide), by decide, hfree, by decide,
        all_iff_forall_prop.mp (by decide)⟩
    · rw [htext, linePitches_append_break (by decide), linePitches_append_break (by decide),
        linePitches_append_break (by decide), hsize.1, hsize.2, hnote]
      rfl
  · rw [String.toList_append, hbody, cons_append, hbody']
    refine ⟨by rw [forall_mem_cons]; exact ⟨by decide, hfree⟩, fun t => ?_⟩
    rw [linePitches_append_break (by decide), hnote]

/-- The pitches of the notes among some signs. -/
def pitchesOf (signs : List Sign) : List Int := (signs.filter fun g => g.kind.sounds).map fun g => g.pitch.getD 0

theorem pitchesOf_append (signs signs' : List Sign) : pitchesOf (signs ++ signs') = pitchesOf signs ++ pitchesOf signs' := by
  rw [pitchesOf, filter_append, map_append]
  rfl

/-- A sign that can be written in full, within the range of the staff. -/
def Engravable (g : Sign) : Prop := g.Complete ∧ ∀ p, g.pitch = some p → InRange p

/-- The text goes on with a line and adds the pitches of the signs to it. -/
def Adds (text : String) (signs : List Sign) : Prop :=
  (∀ c ∈ text.toList, isMark c = false) ∧ ∀ t, linePitches (t ++ text.toList) = linePitches t ++ pitchesOf signs

theorem Adds.join {α ε : Type} {f : α → Except ε String} {signs : α → List Sign} {l : List α} {texts : List String}
    (h : ∀ a ∈ l, ∀ text, f a = .ok text → Adds text (signs a)) (htexts : l.mapM f = .ok texts) :
    Adds (String.join texts) (l.flatMap signs) := by
  induction l generalizing texts with
  | nil =>
    cases htexts
    exact ⟨by simp, fun t => by simp [pitchesOf]⟩
  | cons a l ih =>
    obtain ⟨text, texts, htext, hrest, rfl⟩ := mapM_eq_ok_cons.mp htexts
    obtain ⟨hfree, hline⟩ := h a mem_cons_self text htext
    obtain ⟨hfree', hline'⟩ := ih (fun a' ha' => h a' (mem_cons_of_mem _ ha')) hrest
    rw [Adds, String.join_cons, String.toList_append, forall_mem_append, flatMap_cons, pitchesOf_append]
    refine ⟨⟨hfree, hfree'⟩, fun t => ?_⟩
    rw [← append_assoc, hline', hline, append_assoc]

theorem adds_barLily (hs : g.kind.sounds = false) (h : Sign.barLily g.code = .ok text) : Adds text [g] := by
  have hbar : ∃ quoted, text.toList = ' ' :: ("\\bar".toList ++ ' ' :: quoted) ∧ linePitches quoted = [] ∧
      text.toList.all (!isMark ·) = true := by
    unfold Sign.barLily at h
    split at h <;> cases h
    all_goals exact ⟨_, rfl, by decide, by decide⟩
  obtain ⟨quoted, htext, hquoted, hfree⟩ := hbar
  refine ⟨fun c hc => by simpa using all_eq_true.mp hfree c hc, fun t => ?_⟩
  rw [htext, linePitches_append_break (by decide), linePitches_append_break (by decide), hquoted,
    show linePitches "\\bar".toList = [] by decide, show pitchesOf [g] = [] by simp [pitchesOf, hs]]
  rfl

theorem adds_lilyText (hg : Engravable g) (h : g.lilyText = .ok text) : Adds text [g] := by
  obtain ⟨hg, hrange⟩ := hg
  rw [Sign.lilyText] at h
  by_cases hs : g.kind.sounds = true
  · rw [if_pos hs] at h
    cases h
    obtain ⟨p, -, hp, -⟩ := hg.named hs
    rw [Adds, show pitchesOf [g] = [p] by simp [pitchesOf, hs, hp]]
    exact linePitches_noteLily hg hs hp (hrange p hp)
  · rw [if_neg hs] at h
    rw [Bool.not_eq_true] at hs
    split at h
    · exact adds_barLily hs h
    · cases h
      obtain ⟨brackets, hbrackets, hlily⟩ := hg.nameless hs
      rw [nil_append] at hlily
      rw [Adds, hlily, show pitchesOf [g] = [] by simp [pitchesOf, hs]]
      refine ⟨fun c hc => not_isMark_of_isBracket (hbrackets c hc), fun t => ?_⟩
      rw [linePitches_append_brackets t hbrackets, append_nil]

theorem adds_neumeText {signs : List Sign} (hsigns : ∀ g ∈ signs, Engravable g) (h : neumeText signs = .ok text) : Adds text signs := by
  obtain ⟨texts, htexts, ⟨⟩⟩ := bind_eq_ok.mp h
  have hjoin := Adds.join (fun g hg text => adds_lilyText (hsigns g hg)) htexts
  rwa [flatMap_singleton'] at hjoin

/-! ## Music -/

def signsOfWord (s : Score) (w : Nat) : List Sign :=
  ((s.word w).syllables.map s.syllable).flatMap fun y => s.signsOf y.neume

theorem adds_wordTexts {w : Nat} (hsigns : ∀ g ∈ signsOfWord s w, Engravable g) (h : wordTexts s w = .ok (text, notes)) : Adds notes (signsOfWord s w) := by
  obtain ⟨texts, htexts, ⟨⟩⟩ := bind_eq_ok.mp h
  refine Adds.join (fun y hy text => adds_neumeText fun g hg => hsigns g ?_) htexts
  exact mem_flatMap.mpr ⟨y, hy, hg⟩

/-- The text is empty or ends with a line. -/
def Closed (music : List Char) : Prop := music = [] ∨ ∃ lines, music = lines ++ ['\n']

theorem musicPitches_append_line (lines more : List Char) :
    musicPitches (lines ++ '\n' :: more) = musicPitches lines ++ musicPitches more := by
  rw [musicPitches, splitOnP_append_cons _ _ (by decide), filter_append, flatMap_append]
  rfl

theorem Closed.musicPitches_append {music : List Char} (h : Closed music) (more : List Char) :
    musicPitches (music ++ more) = musicPitches music ++ musicPitches more := by
  rcases h with rfl | ⟨lines, rfl⟩
  · rfl
  · rw [append_assoc, singleton_append, musicPitches_append_line, musicPitches_append_line]
    simp [musicPitches, linePitches, notePitch?, readPitch?, splitOnP_nil]

theorem musicPitches_line {line : List Char} (h : ∀ c ∈ line, isMark c = false) : musicPitches line = linePitches line := by
  have hline : ∀ c ∈ line, (c == '\n') = false := by
    intro c hc
    have := h c hc
    rw [isMark, Bool.or_eq_false_iff] at this
    simpa using this.1
  have hhead : (line.head? != some '%') = true := by
    cases line with
    | nil => rfl
    | cons c rest =>
      have := h c mem_cons_self
      rw [isMark, Bool.or_eq_false_iff] at this
      simpa using this.2
  rw [musicPitches, splitOnP_eq_singleton hline, filter_singleton, hhead]
  simp

theorem musicPitches_remark {text : List Char} (h : ∀ c ∈ text, (c == '\n') = false) : musicPitches ('%' :: text) = [] := by
  rw [musicPitches, splitOnP_eq_singleton]
  · rfl
  · rw [forall_mem_cons]
    exact ⟨by decide, h⟩

theorem musicPitches_addTexts {done : Nat × String × String} (hdone : Closed done.2.2.toList) (text : String) {signs : List Sign} (hnotes : Adds notes signs) :
    Closed (addTexts done (text, notes)).2.2.toList ∧
      musicPitches (addTexts done (text, notes)).2.2.toList = musicPitches done.2.2.toList ++ pitchesOf signs := by
  obtain ⟨i, lyrics, music⟩ := done
  obtain ⟨hfree, hline⟩ := hnotes
  have hpitches : linePitches notes.toList = pitchesOf signs := by
    have := hline []
    rwa [nil_append] at this
  rw [addTexts]
  dsimp only
  split
  next hempty =>
    refine ⟨hdone, ?_⟩
    rw [Bool.and_eq_true, String.isEmpty_iff, String.isEmpty_iff] at hempty
    rw [← hpitches, hempty.2]
    exact (append_nil _).symm
  next =>
    have hdigits : ∀ c ∈ (toString (i + 1)).toList, (c == '\n') = false := by
      intro c hc
      rw [Nat.toString_eq_repr, Nat.toList_repr] at hc
      have := Nat.isDigit_of_mem_toDigits (by decide) (by decide) hc
      rw [beq_eq_false_iff_ne]
      rintro rfl
      exact absurd this (by decide)
    have htext : (music ++ ("%" ++ toString (i + 1)) ++ "\n" ++ notes ++ "\n").toList =
        music.toList ++ (('%' :: (toString (i + 1)).toList) ++ '\n' :: (notes.toList ++ ['\n'])) := by
      simp
    rw [htext]
    refine ⟨.inr ⟨music.toList ++ (('%' :: (toString (i + 1)).toList) ++ '\n' :: notes.toList), by simp⟩, ?_⟩
    rw [hdone.musicPitches_append, musicPitches_append_line, musicPitches_remark hdigits, musicPitches_append_line,
      musicPitches_line hfree, hpitches]
    simp [musicPitches, linePitches, notePitch?, readPitch?, splitOnP_nil]

theorem musicPitches_words {ws : List Nat} (hsigns : ∀ w ∈ ws, ∀ g ∈ signsOfWord s w, Engravable g)
    {texts : List (String × String)} (htexts : ws.mapM (wordTexts s) = .ok texts) {done : Nat × String × String}
    (hdone : Closed done.2.2.toList) :
    musicPitches (texts.foldl addTexts done).2.2.toList =
      musicPitches done.2.2.toList ++ pitchesOf (ws.flatMap (signsOfWord s)) := by
  induction ws generalizing texts done with
  | nil =>
    cases htexts
    simp [pitchesOf]
  | cons w ws ih =>
    obtain ⟨⟨text, notes⟩, texts, hword, hrest, rfl⟩ := mapM_eq_ok_cons.mp htexts
    have hnotes := adds_wordTexts (hsigns w mem_cons_self) hword
    obtain ⟨hclosed, hpitches⟩ := musicPitches_addTexts hdone text hnotes
    rw [foldl_cons, ih (fun w' hw' => hsigns w' (mem_cons_of_mem _ hw')) hrest hclosed, hpitches,
      append_assoc, flatMap_cons, pitchesOf_append]

/-! ## The whole file -/

theorem engravable_of_whole (h : s.Whole) (hg : g ∈ s.music.flatten) : Engravable g := by
  refine ⟨h.complete hg, ?_⟩
  obtain ⟨signs, hsigns, hg⟩ := mem_flatten.mp hg
  obtain ⟨y, -, rfl⟩ := mem_map.mp hsigns
  obtain ⟨i, -, rfl⟩ := mem_map.mp hg
  exact h.tempered.pitches i

theorem music_flatten_eq (s : Score) : s.music.flatten = s.text.flatMap (signsOfWord s) := by
  rw [Score.music, Score.allSyllables, ← flatMap_def, flatMap_assoc]
  rfl

theorem musicPitches_ofScore (hs : s.Whole) {l : Lilypond} (h : ofScore s = .ok l) :
    musicPitches l.music.toList = s.notes.map fun g => g.pitch.getD 0 := by
  obtain ⟨⟨lyrics, music⟩, htexts, ⟨⟩⟩ := bind_eq_ok.mp h
  obtain ⟨texts, hwords, htexts⟩ := bind_eq_ok.mp htexts
  have hsigns : ∀ w ∈ s.text, ∀ g ∈ signsOfWord s w, Engravable g := fun w hw g hg =>
    engravable_of_whole hs (by rw [music_flatten_eq]; exact mem_flatMap.mpr ⟨w, hw, hg⟩)
  have hclosed : Closed ((0, "", "") : Nat × String × String).2.2.toList := .inl rfl
  have hmusic := musicPitches_words hsigns hwords hclosed
  rw [show (texts.foldl addTexts (0, "", "")).2 = (lyrics, music) from Except.ok.inj htexts] at hmusic
  rw [hmusic, ← music_flatten_eq]
  rfl

theorem readPitch?_transpositionName (shift : Int) :
    ∃ rest, readPitch? (transpositionName shift).toList = some (36 + Int.fmod (shift + 12) 24, rest) := by
  have hlow : 0 ≤ Int.fmod (shift + 12) 24 := Int.fmod_nonneg_of_pos _ (by decide)
  have hhigh : Int.fmod (shift + 12) 24 < 24 := Int.fmod_lt_of_pos _ (by decide)
  rw [transpositionName]
  generalize Int.fmod (shift + 12) 24 = k at hlow hhigh
  interval_cases k
  all_goals exact ⟨_, rfl⟩

end Lilypond

/-- A score that is read and transposed by no more than an octave sounds alike from its
    Lilypond file and from the melody that is played; only when it is transposed a whole octave
    up, the file sounds two octaves below the melody. -/
theorem lilypond_sounds_as_played {code : String} {transposition : Option Int} {s : Score}
    (hread : (Score.read code transposition).2 = s) {l : Lilypond} (hl : Lilypond.ofScore s = .ok l)
    (hlow : -12 ≤ s.shift) (hhigh : s.shift ≤ 12) :
    (s.shift < 12 → l.sounding? = some (s.sung.map fun n => (n.key : Int))) ∧
    (s.shift = 12 → l.sounding? = some (s.sung.map fun n => (n.key : Int) - 24)) := by
  have hwhole : s.Whole := hread ▸ Score.read_whole code transposition
  have hname : l.transposition = Lilypond.transpositionName s.shift := by
    obtain ⟨texts, -, ⟨⟩⟩ := bind_eq_ok.mp hl
    rfl
  obtain ⟨rest, hpitch⟩ := Lilypond.readPitch?_transpositionName s.shift
  have hkeys : s.sung.map (fun n => (n.key : Int)) = s.notes.map fun g => g.pitch.getD 0 + s.shift := by
    have hsung := congrArg (List.map fun n : Nat × Nat => (n.1 : Int)) s.map_sung
    rw [List.map_map, List.map_map] at hsung
    refine hsung.trans (List.map_congr_left fun g hg => ?_)
    obtain ⟨hg, hs⟩ := List.mem_filter.mp hg
    obtain ⟨hcomplete, hrange⟩ := Lilypond.engravable_of_whole hwhole hg
    obtain ⟨p, -, hp, -⟩ := hcomplete.named hs
    obtain ⟨hp52, -⟩ := hrange p hp
    simp only [Function.comp_apply, hp, Option.getD_some]
    omega
  have hsounding : l.sounding? =
      some (s.notes.map fun g => g.pitch.getD 0 + (36 + Int.fmod (s.shift + 12) 24 - 48)) := by
    rw [Lilypond.sounding?, hname, hpitch, Option.map_some, Lilypond.musicPitches_ofScore hwhole hl]
    dsimp only
    rw [List.map_map]
    rfl
  constructor
  · intro hlt
    have hmod : Int.fmod (s.shift + 12) 24 = s.shift + 12 := by
      rw [Int.fmod_eq_emod_of_nonneg _ (by decide)]
      omega
    rw [hsounding, hkeys, hmod]
    congr 2
    funext g
    omega
  · intro heq
    have hlowered : s.sung.map (fun n => (n.key : Int) - 24) = s.notes.map fun g => g.pitch.getD 0 + s.shift - 24 := by
      have h := congrArg (List.map fun k : Int => k - 24) hkeys
      rwa [List.map_map, List.map_map] at h
    rw [hsounding, hlowered, heq]
    congr 2
    funext g
    have hmod : Int.fmod (12 + 12) 24 = 0 := by decide
    omega

/-- A chant with a flat, transposed a fourth up. -/
theorem lilypond_sounds_as_played_fourth :
    ∃ s l, (Score.read "%%\n(c4) a(ixi) b(g.) (::)" (some 5)).2 = s ∧ Lilypond.ofScore s = .ok l ∧
      s.sung.map (·.key) = [75, 72] ∧ l.sounding? = some [75, 72] := by
  obtain ⟨s, hread⟩ : ∃ s, (Score.read "%%\n(c4) a(ixi) b(g.) (::)" (some 5)).2 = s := ⟨_, rfl⟩
  have hok : (Lilypond.ofScore s).isOk = true := by
    rw [← hread]
    decide +kernel
  have hshift : s.shift = 5 := by
    rw [← hread]
    decide +kernel
  have hkeys : s.sung.map (·.key) = [75, 72] := by
    rw [← hread]
    decide +kernel
  cases hl : Lilypond.ofScore s with
  | error f =>
    rw [hl] at hok
    cases hok
  | ok l =>
    have hsounding := (lilypond_sounds_as_played hread hl (by omega) (by omega)).1 (by omega)
    have hmap := congrArg (List.map fun k : Nat => (k : Int)) hkeys
    rw [List.map_map] at hmap
    exact ⟨s, l, hread, hl, hkeys, hsounding.trans (congrArg some hmap)⟩

/-- A chant transposed an octave up: an A is played above the staff, and the file sounds the A
    below the middle C. -/
theorem octave_up_sounds_octave_down :
    ∃ s, (Score.read "%%\n(c4) a(h) (::)" (some 12)).2 = s ∧ s.shift = 12 ∧ s.sung.map (·.key) = [81] ∧
      (Lilypond.ofScore s).toOption.bind (·.sounding?) = some [57] := by
  refine ⟨_, rfl, ?_, ?_, ?_⟩ <;> decide +kernel

end Plainsong.Chant
