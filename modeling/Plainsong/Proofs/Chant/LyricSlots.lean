import Plainsong.Proofs.Chant.Engraving
import Plainsong.Proofs.Chant.SungText
/- How lyrics are dealt out to notes. A line of lyrics is a row of slots, one for each note: a
   syllable up to a blank or with its hyphen, and every line, star or hyphen that stands alone
   (`Slots`). Each neume adds a slot for each of its notes, the first one with its text, as
   long as every sign of alteration in it leads to a note. A bar adds none: its text is joined
   to the slot before it. To that end it takes the last letters of the lyrics away, and where
   these do not end as it expects (`Joinable`) a slot is lost or there is one too many. But for
   such bars the lyrics of a score keep step with its notes (`lyrics_keep_step`). -/
namespace Plainsong.Chant

open List

/-! ## Slots -/

/-- The slots that are full, and the letters of the one that has begun. -/
structure Slots where
  full : List (List Char) := []
  begun : List Char := []

namespace Slots

def all (r : Slots) : List (List Char) := if r.begun.isEmpty then r.full else r.full ++ [r.begun]

/-- Reads one letter: a hyphen ends a syllable and belongs to it, a line or a star has a slot of
    its own, and whatever else is no letter of a syllable ends one. -/
def next (r : Slots) (c : Char) : Slots :=
  if isSyllabic c then { r with begun := r.begun ++ [c] }
  else if c = '-' then { full := r.full ++ [r.begun ++ ['-']] }
  else if c = '_' || c = '*' then { full := r.all ++ [[c]] }
  else { full := r.all }

/-- Reads lyrics that stand with the last letter first. -/
def ofLyrics (lyrics : List Char) : Slots := lyrics.foldr (fun c r => r.next c) {}

def ofLine (line : String) : List (List Char) := (line.toList.foldl next {}).all

theorem ofLine_reverse (lyrics : List Char) : ofLine (String.ofList lyrics.reverse) = (ofLyrics lyrics).all := by
  rw [ofLine, String.toList_ofList, foldl_reverse]
  rfl

theorem ofLyrics_cons (c : Char) (lyrics : List Char) : ofLyrics (c :: lyrics) = (ofLyrics lyrics).next c := rfl

theorem all_of_begun_eq_nil {r : Slots} (h : r.begun = []) : r.all = r.full := by
  rw [all, h]
  rfl

theorem all_of_begun_ne_nil {r : Slots} (h : r.begun ≠ []) : r.all = r.full ++ [r.begun] := by
  rw [all, if_neg (by simpa using h)]

theorem next_syllabic (r : Slots) {c : Char} (h : isSyllabic c = true) : r.next c = { r with begun := r.begun ++ [c] } := by
  rw [next, if_pos h]

theorem next_blank (r : Slots) : r.next ' ' = { full := r.all } := rfl

theorem next_hyphen (r : Slots) : r.next '-' = { full := r.full ++ [r.begun ++ ['-']] } := rfl

theorem next_line (r : Slots) : r.next '_' = { full := r.all ++ [['_']] } := rfl

theorem begun_next {r : Slots} {c : Char} (h : isSyllabic c = false) : (r.next c).begun = [] := by
  rw [next, if_neg (by rw [h]; exact Bool.false_ne_true)]
  split
  · rfl
  · split <;> rfl

/-- No syllable has begun behind the lyrics. -/
def Shut (lyrics : List Char) : Prop := (ofLyrics lyrics).begun = []

theorem ofLyrics_letters {letters : List Char} (h : ∀ c ∈ letters, isSyllabic c = true) (lyrics : List Char) :
    ofLyrics (letters.reverse ++ lyrics) = ⟨(ofLyrics lyrics).full, (ofLyrics lyrics).begun ++ letters⟩ := by
  induction letters using List.reverseRecOn with
  | nil => simp
  | append_singleton letters c ih =>
    rw [reverse_append, reverse_singleton, singleton_append, cons_append, ofLyrics_cons,
      ih fun x hx => h x (mem_append_left _ hx), next_syllabic _ (h c (by simp)), append_assoc]

theorem all_lines (n : Nat) (lyrics : List Char) :
    (ofLyrics (List.replicate n '_' ++ lyrics)).all = (ofLyrics lyrics).all ++ List.replicate n ['_'] := by
  induction n with
  | zero => simp
  | succ n ih =>
    rw [replicate_succ, cons_append, ofLyrics_cons, next_line, ih, replicate_succ', ← append_assoc]
    rfl

theorem Shut.lines {lyrics : List Char} (h : Shut lyrics) (n : Nat) : Shut (List.replicate n '_' ++ lyrics) := by
  cases n with
  | zero => exact h
  | succ n => rfl

/-- A text under a neume: letters of a syllable, and a hyphen if its word goes on. -/
def IsText (text : String) : Prop :=
  ∃ letters : List Char, (∀ c ∈ letters, isSyllabic c = true) ∧ (text.toList = letters ∨ text.toList = letters ++ ['-'])

theorem all_text {text : String} (h : IsText text) (hne : text ≠ "") (lyrics : List Char) :
    (ofLyrics (text.toList.reverse ++ lyrics)).all =
      (ofLyrics lyrics).full ++ [(ofLyrics lyrics).begun ++ text.toList] := by
  have hne' : text.toList ≠ [] := fun h => hne (String.toList_eq_nil_iff.mp h)
  obtain ⟨letters, hletters, htext | htext⟩ := h
  · rw [htext] at hne' ⊢
    rw [ofLyrics_letters hletters, all_of_begun_ne_nil]
    exact append_ne_nil_of_right_ne_nil _ hne'
  · rw [htext, reverse_append, reverse_singleton, singleton_append, cons_append, ofLyrics_cons,
      ofLyrics_letters hletters, next_hyphen, all_of_begun_eq_nil rfl, append_assoc]

theorem shut_of_hyphen {text : String} (letters : String) (h : text = letters ++ "-") (lyrics : List Char) :
    Shut (text.toList.reverse ++ lyrics) := by
  rw [h, String.toList_append, show "-".toList = ['-'] from rfl, reverse_append, reverse_singleton]
  rfl

/-- How lyrics end to which the text of a bar can be joined. It takes the place of their last
    letter, and of the one before if that is a line. -/
def Joinable : List Char → Bool
  | c :: c' :: _ => c' ≠ '_' && ((c = ' ' && isSyllabic c') || c = '-' || (c = '_' && !isSyllabic c'))
  | _ => false

/-- How the lyrics must end before a neume that begins with a bar. -/
def Fits (text : String) (lyrics : List Char) : Prop :=
  if text = "" then ∀ c ∈ lyrics.head?, c = ' ' else Joinable lyrics = true

end Slots

/-! ## Signs -/

/-- The notes among the signs. -/
def notesIn (kinds : List Kind) : Nat := kinds.countP (·.sounds)

/-- Every sign of alteration leads to a note: right behind it stands one, or another sign of
    alteration. -/
def leadsOn : List Kind → Bool
  | [] => true
  | kind :: rest => (kind ≠ .accidental || rest.head?.any (·.hasSlot)) && leadsOn rest

theorem notesIn_cons (kind : Kind) (rest : List Kind) :
    notesIn (kind :: rest) = (if kind.sounds then 1 else 0) + notesIn rest := by
  rw [notesIn, countP_cons, Nat.add_comm]
  rfl

theorem linesUnder_add {kind : Kind} {rest : List Kind} (h : leadsOn (kind :: rest) = true) :
    linesUnder (some kind) rest + (if kind.hasSlot then 1 else 0) = notesIn (kind :: rest) := by
  induction rest generalizing kind with
  | nil => cases kind <;> simp_all [leadsOn, linesUnder, notesIn, Kind.hasSlot]
  | cons next rest ih =>
    rw [leadsOn, Bool.and_eq_true] at h
    have hnext := ih h.2
    rw [linesUnder, notesIn_cons kind, ← hnext]
    by_cases hk : kind = .accidental
    · have hslot : next.hasSlot = true := by simpa [hk] using h.1
      have hown : Kind.accidental.hasSlot = true ∧ Kind.accidental.sounds = false := by decide
      simp [hk, hslot, hown]
    · simp [hk, Kind.hasSlot]
      omega

/-! ## Passages -/

namespace Passage

def text : Passage → String
  | neume text _ => text
  | wordEnd => ""

def kinds (p : Passage) : List Kind := p.signs.map (·.kind)

def notes (p : Passage) : Nat := notesIn p.kinds

/-- The neume begins with a note, or with a sign of alteration before one. -/
def OpensWithNote (p : Passage) : Prop := p.kinds.head?.any (·.hasSlot) = true

/-- The text of the syllable itself, without a hyphen. -/
def letters (p : Passage) : List Char := p.text.toList.takeWhile (· ≠ '-')

/-- What a neume does to the lyrics: it puts its text under its first note, or it joins the text to the lyrics before
    it if it begins with a bar, and under every other note it draws a line. -/
theorem lyrics?_eq_some {text : String} {signs : List Sign} (hleads : leadsOn (neume text signs).kinds = true) {lyrics lyrics' : List Char}
    (h : (neume text signs).lyrics? lyrics = some lyrics') :
    ((neume text signs).OpensWithNote ∧ ∃ n, n + 1 = (neume text signs).notes ∧
      lyrics' = List.replicate n '_' ++ ((if text.isEmpty then "_" else text).toList.reverse ++ lyrics)) ∨
    (¬ (neume text signs).OpensWithNote ∧ ∃ l, lyrics' = List.replicate (neume text signs).notes '_' ++ l ∧
      ((neume text signs).OpensWithBar ∧ Tune.underBar text lyrics = some l ∨ l = lyrics)) := by
  change leadsOn (signs.map (·.kind)) = true at hleads
  change ((signs.map (·.kind)).head?.any (·.hasSlot) = true ∧ ∃ n, n + 1 = notesIn (signs.map (·.kind)) ∧ _) ∨
    (¬ (signs.map (·.kind)).head?.any (·.hasSlot) = true ∧ ∃ l, lyrics' = List.replicate (notesIn (signs.map (·.kind))) '_' ++ l ∧
      ((signs.map (·.kind)).head? = some .bar ∧ _ ∨ _))
  cases hsigns : signs.map (·.kind) with
  | nil =>
    rw [lyrics?, hsigns] at h
    exact .inr ⟨by simp, lyrics', rfl, .inr (Option.some_inj.mp h).symm⟩
  | cons kind rest =>
    rw [hsigns] at hleads
    rw [lyrics?_cons hsigns, Tune.under] at h
    have hnotes := linesUnder_add hleads
    obtain ⟨l, hl, rfl⟩ := Option.map_eq_some_iff.mp h
    split at hl
    next hslot =>
      cases hl
      exact .inl ⟨hslot, _, by rw [← hnotes, if_pos (by exact hslot)], rfl⟩
    next hslot =>
      rw [if_neg (by exact hslot)] at hnotes
      refine .inr ⟨hslot, l, by rw [← hnotes]; rfl, ?_⟩
      split at hl
      next hbar => exact .inl ⟨congrArg some (by simpa using hbar), hl⟩
      next => exact .inr (Option.some_inj.mp hl).symm

/-- All notes of some passages. -/
def allNotes (ps : List Passage) : Nat := (ps.map notes).sum

theorem allNotes_append (ps qs : List Passage) : allNotes (ps ++ qs) = allNotes ps + allNotes qs := by
  rw [allNotes, map_append, sum_append]
  rfl

theorem letters_of_isText {p : Passage} (h : Slots.IsText p.text) : ∀ c ∈ p.letters, isSyllabic c = true := by
  obtain ⟨letters, hletters, htext⟩ := h
  intro c hc
  have hmem : c ∈ letters ++ ['-'] := by
    rcases htext with htext | htext
    · exact mem_append_left _ (htext ▸ ( takeWhile_prefix _).mem hc)
    · exact htext ▸ ( takeWhile_prefix _).mem hc
  have hne : c ≠ '-' := by simpa using mem_takeWhile_imp hc
  exact hletters c (by simpa [hne] using hmem)

end Passage

/-! ## Keeping step -/

namespace Slots

/-- The slots keep step with the passages: there is one for each note, and the slot of the first
    note of a neume begins with the text of the neume. -/
structure Aligned (ps : List Passage) (slots : List (List Char)) : Prop where
  count : slots.length = Passage.allNotes ps
  texts : Along (fun earlier p => p.OpensWithNote → ∃ slot ∈ slots[Passage.allNotes earlier]?, p.letters <+: slot) ps

namespace Aligned

variable {ps : List Passage} {p : Passage} {slots : List (List Char)} {lyrics lyrics' : List Char} {text : String}
  {signs : List Sign}

theorem nil : Aligned [] [] := ⟨rfl, .nil⟩

theorem append (h : Aligned ps slots) {more : List (List Char)} (hcount : more.length = p.notes)
    (htext : p.OpensWithNote → ∃ slot ∈ more.head?, p.letters <+: slot) : Aligned (ps ++ [p]) (slots ++ more) := by
  constructor
  · rw [length_append, h.count, hcount, Passage.allNotes_append]
    simp [Passage.allNotes]
  · refine Along.concat (fun earlier q later heq hq => ?_) fun hp => ?_
    · obtain ⟨slot, hslot, hletters⟩ := h.texts earlier q later heq hq
      refine ⟨slot, ?_, hletters⟩
      rw [Option.mem_def] at hslot ⊢
      rw [List.getElem?_append_left (List.getElem?_eq_some_iff.mp hslot).1, hslot]
    · obtain ⟨slot, hslot, hletters⟩ := htext hp
      refine ⟨slot, ?_, hletters⟩
      rw [Option.mem_def, ← h.count, List.getElem?_append_right le_rfl, Nat.sub_self, ← List.head?_eq_getElem?]
      exact hslot

theorem join (h : Aligned ps slots) (htexts : ∀ p ∈ ps, IsText p.text) {full : List (List Char)} {begun tail : List Char}
    (hslots : slots = full ++ [begun ++ tail]) (htail : tail = [] ∨ ∃ c, tail = [c] ∧ isSyllabic c = false)
    (text : List Char) : Aligned ps (full ++ [begun ++ text]) := by
  subst hslots
  constructor
  · rw [← h.count]
    simp
  · intro earlier p later heq hp
    obtain ⟨slot, hslot, hletters⟩ := h.texts earlier p later heq hp
    have hlt := (List.getElem?_eq_some_iff.mp hslot).1
    rw [length_append, length_singleton] at hlt
    rcases Nat.lt_succ_iff_lt_or_eq.mp hlt with hlt | heq'
    · refine ⟨slot, ?_, hletters⟩
      rw [Option.mem_def, List.getElem?_append_left hlt] at hslot ⊢
      exact hslot
    · rw [heq', Option.mem_def, List.getElem?_concat_length, Option.some_inj] at hslot
      subst hslot
      refine ⟨begun ++ text, ?_, ?_⟩
      · rw [heq', Option.mem_def, List.getElem?_concat_length]
      · refine List.IsPrefix.trans ?_ (prefix_append _ _)
        rcases htail with rfl | ⟨c, rfl, hc⟩
        · rwa [append_nil] at hletters
        · rcases prefix_concat_iff.mp hletters with hall | hletters
          · have hmem : c ∈ p.letters := by
              rw [hall]
              simp
            have hsyllabic := Passage.letters_of_isText (htexts p (by simp [heq])) c hmem
            rw [hc] at hsyllabic
            cases hsyllabic
          · exact hletters

theorem note (h : Aligned ps (ofLyrics lyrics).all) (hshut : Shut lyrics) (htext : IsText text) {n : Nat}
    (hn : n + 1 = (Passage.neume text signs).notes) : Aligned (ps ++ [.neume text signs])
      (ofLyrics (List.replicate n '_' ++ ((if text.isEmpty then "_" else text).toList.reverse ++ lyrics))).all := by
  have hslot : ∃ slot, (Passage.neume text signs).letters <+: slot ∧
      (ofLyrics ((if text.isEmpty then "_" else text).toList.reverse ++ lyrics)).all = (ofLyrics lyrics).all ++ [slot] := by
    by_cases hempty : text = ""
    · subst hempty
      exact ⟨['_'], nil_prefix, rfl⟩
    · refine ⟨text.toList, takeWhile_prefix _, ?_⟩
      rw [if_neg (by simpa using hempty), all_text htext hempty, all_of_begun_eq_nil hshut]
      rw [Shut] at hshut
      rw [hshut, nil_append]
  obtain ⟨slot, hletters, hall⟩ := hslot
  rw [all_lines, hall, append_assoc]
  refine h.append ?_ fun _ => ⟨slot, rfl, hletters⟩
  rw [← hn, singleton_append, length_cons, length_replicate]

theorem bar_text (h : Aligned ps (ofLyrics lyrics).all) (htexts : ∀ p ∈ ps, IsText p.text) (htext : IsText text)
    (hne : text ≠ "") (hjoin : Joinable lyrics = true) (hunder : Tune.underBar text lyrics = some lyrics') :
    Aligned ps (ofLyrics lyrics').all := by
  match lyrics with
  | [] => cases hjoin
  | [_] => cases hjoin
  | c :: c' :: rest =>
    rw [Joinable, Bool.and_eq_true, decide_eq_true_iff] at hjoin
    obtain ⟨hline, hends⟩ := hjoin
    obtain rfl : text.toList.reverse ++ c' :: rest = lyrics' := by
      rw [Tune.underBar] at hunder
      · exact Option.some_inj.mp hunder
      · exact hline
    rw [all_text htext hne]
    rw [ofLyrics_cons c] at h
    simp only [Bool.or_eq_true, Bool.and_eq_true, decide_eq_true_eq, Bool.not_eq_true'] at hends
    rcases hends with (⟨rfl, hsyllabic⟩ | rfl) | ⟨rfl, hsyllabic⟩
    · have hbegun : (ofLyrics (c' :: rest)).begun ≠ [] := by
        rw [ofLyrics_cons, next_syllabic _ hsyllabic]
        exact concat_ne_nil _ _
      refine h.join htexts ?_ (Or.inl rfl) _
      rw [next_blank, all_of_begun_eq_nil rfl, all_of_begun_ne_nil hbegun, append_nil]
    · exact h.join htexts rfl (Or.inr ⟨'-', rfl, by decide⟩) _
    · have hbegun : (ofLyrics (c' :: rest)).begun = [] := begun_next hsyllabic
      refine h.join htexts ?_ (Or.inr ⟨'_', rfl, by decide⟩) _
      rw [next_line, all_of_begun_eq_nil rfl, all_of_begun_eq_nil hbegun, hbegun, nil_append]

theorem bar_empty (h : Aligned ps (ofLyrics lyrics).all) (hblank : ∀ c ∈ lyrics.head?, c = ' ')
    (hunder : Tune.underBar "" lyrics = some lyrics') : Aligned ps (ofLyrics lyrics').all := by
  match lyrics with
  | [] => cases hunder
  | [_] => cases hunder
  | c :: c' :: rest =>
    obtain rfl : c = ' ' := hblank c rfl
    obtain rfl : c' :: rest = lyrics' := by
      by_cases hline : c' = '_'
      · subst hline
        exact Option.some_inj.mp hunder
      · rw [Tune.underBar] at hunder
        · exact Option.some_inj.mp hunder
        · exact hline
    rwa [ofLyrics_cons ' ', next_blank, all_of_begun_eq_nil rfl] at h

theorem lines (h : Aligned ps (ofLyrics lyrics).all) (hopens : ¬ p.OpensWithNote) :
    Aligned (ps ++ [p]) (ofLyrics (List.replicate p.notes '_' ++ lyrics)).all := by
  rw [all_lines]
  exact h.append (length_replicate) fun h => absurd h hopens

theorem neume (h : Aligned ps (ofLyrics lyrics).all) (htexts : ∀ p ∈ ps, IsText p.text) (hshut : Shut lyrics)
    (htext : IsText text) (hleads : leadsOn (Passage.neume text signs).kinds = true)
    (hbar : (Passage.neume text signs).OpensWithBar → Fits text lyrics)
    (hlyrics : (Passage.neume text signs).lyrics? lyrics = some lyrics') :
    Aligned (ps ++ [.neume text signs]) (ofLyrics lyrics').all := by
  obtain ⟨-, n, hn, rfl⟩ | ⟨hnote, l, rfl, ⟨hopens, hl⟩ | rfl⟩ := Passage.lyrics?_eq_some hleads hlyrics
  · exact h.note hshut htext hn
  · have hfits := hbar hopens
    rw [Fits] at hfits
    refine Aligned.lines ?_ hnote
    split at hfits
    next hempty =>
      subst hempty
      exact h.bar_empty hfits hl
    next hne => exact h.bar_text htexts htext hne hfits hl
  · exact h.lines hnote

theorem wordEnd (h : Aligned ps (ofLyrics lyrics).all) : Aligned (ps ++ [.wordEnd]) (ofLyrics (' ' :: lyrics)).all := by
  rw [ofLyrics_cons, next_blank, all_of_begun_eq_nil rfl, ← append_nil (ofLyrics lyrics).all]
  exact h.append rfl fun hopens => absurd hopens Bool.false_ne_true

end Aligned

theorem Shut.neume {text letters : String} {signs : List Sign} {lyrics lyrics' : List Char} (h : Shut lyrics)
    (hhyphen : text = letters ++ "-") (hleads : leadsOn (Passage.neume text signs).kinds = true)
    (hlyrics : (Passage.neume text signs).lyrics? lyrics = some lyrics') : Shut lyrics' := by
  obtain ⟨-, n, -, rfl⟩ | ⟨-, l, rfl, ⟨-, hl⟩ | rfl⟩ := Passage.lyrics?_eq_some hleads hlyrics
  · rw [if_neg (by simp [hhyphen])]
    exact (shut_of_hyphen letters hhyphen lyrics).lines n
  · refine Shut.lines ?_ _
    unfold Tune.underBar at hl
    split at hl
    · cases hl
      exact shut_of_hyphen letters hhyphen _
    · cases hl
      exact shut_of_hyphen letters hhyphen _
    · cases hl
  · exact h.lines _

end Slots

/-! ## Words -/

namespace Passage

theorem lyricsBehind?_append (ps qs : List Passage) (lyrics : List Char) :
    lyricsBehind? (ps ++ qs) lyrics = (lyricsBehind? ps lyrics).bind (lyricsBehind? qs) := by
  rw [lyricsBehind?, foldlM_append]
  rfl

variable {ps : List Passage}

theorem lyricsBehind?_of_drafts {d d' : Tune.Draft} (h : Tune.Drafts ps d d') :
    lyricsBehind? ps d.lyrics = some d'.lyrics := by
  induction ps generalizing d with
  | nil =>
    cases h
    rfl
  | cons p rest ih =>
    obtain ⟨r, l, -, hl, h⟩ := h
    rw [lyricsBehind?_cons, hl, Option.bind_some]
    exact ih h

/-- Wherever a neume with a text begins with a bar, its text can be joined to the lyrics before it. -/
def joins : List Char → List Passage → Bool
  | _, [] => true
  | lyrics, p :: rest =>
    (p.kinds.head? ≠ some .bar || p.text = "" || Slots.Joinable lyrics) && (p.lyrics? lyrics).all (joins · rest)

theorem joins_cons {lyrics l : List Char} {p : Passage} (h : joins lyrics (p :: ps) = true)
    (hl : p.lyrics? lyrics = some l) :
    (p.OpensWithBar → p.text ≠ "" → Slots.Joinable lyrics = true) ∧ joins l ps = true := by
  rw [joins, hl, Option.all_some, Bool.and_eq_true] at h
  refine ⟨fun hbar htext => ?_, h.2⟩
  have hkind : p.kinds.head? = some .bar := by
    match p with
    | neume _ _ => exact hbar
    | wordEnd => exact hbar.elim
  simpa [hkind, htext] using h.1

theorem joins_append {lyrics l : List Char} {qs : List Passage} (hl : lyricsBehind? ps lyrics = some l) :
    joins lyrics (ps ++ qs) = (joins lyrics ps && joins l qs) := by
  induction ps generalizing lyrics with
  | nil =>
    cases hl
    rfl
  | cons p ps ih =>
    rw [lyricsBehind?_cons] at hl
    obtain ⟨l', hl', hl⟩ := Option.bind_eq_some_iff.mp hl
    rw [cons_append, joins, joins, hl', Option.all_some, Option.all_some, ih hl, Bool.and_assoc]

end Passage

namespace Slots

theorem isText_abc {y : Syllable} (h : ∀ c ∈ y.text.toList, isLyric c = true) (last : Bool) :
    IsText (if last then y.abc else y.abc ++ "-") := by
  refine ⟨y.abc.toList, Syllable.isSyllabic_abc h, ?_⟩
  cases last with
  | true => exact Or.inl rfl
  | false => exact Or.inr (String.toList_append ..)

theorem isText_passagesOf {s : Score} {ys : List Syllable} (h : ∀ y ∈ ys, ∀ c ∈ y.text.toList, isLyric c = true) :
    ∀ p ∈ s.passagesOf ys, IsText p.text := by
  induction ys with
  | nil => exact fun p hp => absurd hp not_mem_nil
  | cons y rest ih =>
    rw [forall_mem_cons] at h
    rw [Score.passagesOf, forall_mem_cons]
    exact ⟨isText_abc h.1 _, ih h.2⟩

namespace Aligned

variable {s : Score} {ps : List Passage} {lyrics lyrics' : List Char}

theorem syllables {ys : List Syllable} (h : Aligned ps (ofLyrics lyrics).all) (htexts : ∀ p ∈ ps, IsText p.text)
    (hshut : Shut lyrics) (hlyric : ∀ y ∈ ys, ∀ c ∈ y.text.toList, isLyric c = true)
    (hleads : ∀ y ∈ ys, leadsOn ((s.signsOf y.neume).map (·.kind)) = true)
    (hfirst : (∀ y ∈ ys.head?, y.abc ≠ "") ∨ ∀ c ∈ lyrics.head?, c = ' ') (hrest : ∀ y ∈ ys.tail, y.abc ≠ "")
    (hjoins : Passage.joins lyrics (s.passagesOf ys) = true)
    (hlyrics : Passage.lyricsBehind? (s.passagesOf ys) lyrics = some lyrics') :
    Aligned (ps ++ s.passagesOf ys) (ofLyrics lyrics').all := by
  induction ys generalizing ps lyrics with
  | nil =>
    cases hlyrics
    rwa [Score.passagesOf, append_nil]
  | cons y rest ih =>
    rw [forall_mem_cons] at hlyric hleads
    rw [Score.passagesOf] at hjoins hlyrics ⊢
    rw [Passage.lyricsBehind?_cons] at hlyrics
    obtain ⟨l, hl, hlyrics⟩ := Option.bind_eq_some_iff.mp hlyrics
    have htext := isText_abc hlyric.1 rest.isEmpty
    generalize hT : (if rest.isEmpty then y.abc else y.abc ++ "-") = text at hjoins hl htext ⊢
    have hempty : text = "" → y.abc = "" := by
      rintro rfl
      cases rest with
      | nil => exact hT
      | cons y' rest => exact absurd (congrArg String.toList hT) (by simp)
    obtain ⟨hjoin, hbehind⟩ := Passage.joins_cons hjoins hl
    have hfits : (Passage.neume text (s.signsOf y.neume)).OpensWithBar → Fits text lyrics := by
      intro hbar
      by_cases htext' : text = ""
      · rw [Fits, if_pos htext']
        exact hfirst.resolve_left fun hne => hne y rfl (hempty htext')
      · rw [Fits, if_neg htext']
        exact hjoin hbar htext'
    have hstep := h.neume htexts hshut htext hleads.1 hfits hl
    rw [append_cons]
    cases rest with
    | nil =>
      cases hlyrics
      rwa [Score.passagesOf, append_nil]
    | cons y' rest =>
      refine ih hstep ?_ (hshut.neume hT.symm hleads.1 hl) hlyric.2 hleads.2 (Or.inl ?_)
        (fun z hz => hrest z (mem_of_mem_tail hz)) hbehind hlyrics
      · simp only [forall_mem_append, forall_mem_singleton]
        exact ⟨htexts, htext⟩
      · intro z hz
        cases hz
        exact hrest _ mem_cons_self

theorem words {ws : List Nat} (h : Aligned ps (ofLyrics lyrics).all) (htexts : ∀ p ∈ ps, IsText p.text)
    (hshut : Shut lyrics) (hblank : ∀ c ∈ lyrics.head?, c = ' ')
    (hlyric : ∀ w ∈ ws, ∀ y ∈ (s.word w).syllables.map s.syllable, ∀ c ∈ y.text.toList, isLyric c = true)
    (hleads : ∀ w ∈ ws, ∀ y ∈ (s.word w).syllables.map s.syllable, leadsOn ((s.signsOf y.neume).map (·.kind)) = true)
    (hrest : ∀ w ∈ ws, ∀ y ∈ ((s.word w).syllables.map s.syllable).tail, y.abc ≠ "")
    (hjoins : Passage.joins lyrics (s.passages ws) = true)
    (hlyrics : Passage.lyricsBehind? (s.passages ws) lyrics = some lyrics') :
    Aligned (ps ++ s.passages ws) (ofLyrics lyrics').all := by
  induction ws generalizing ps lyrics with
  | nil =>
    cases hlyrics
    rwa [Score.passages, flatMap_nil, append_nil]
  | cons w rest ih =>
    rw [forall_mem_cons] at hlyric hleads hrest
    have hpassages : s.passages (w :: rest) =
        s.passagesOf ((s.word w).syllables.map s.syllable) ++ ([.wordEnd] ++ s.passages rest) := by
      rw [Score.passages, flatMap_cons, append_assoc]
      rfl
    rw [hpassages] at hjoins hlyrics ⊢
    rw [Passage.lyricsBehind?_append] at hlyrics
    obtain ⟨l, hl, hlyrics⟩ := Option.bind_eq_some_iff.mp hlyrics
    rw [Passage.joins_append hl, Bool.and_eq_true] at hjoins
    have hword := h.syllables htexts hshut hlyric.1 hleads.1 (Or.inr hblank) hrest.1 hjoins.1 hl
    rw [← append_assoc, ← append_assoc]
    refine ih hword.wordEnd ?_ rfl (fun c hc => by cases hc; rfl) hlyric.2 hleads.2 hrest.2
      (Passage.joins_cons hjoins.2 rfl).2 hlyrics
    simp only [forall_mem_append, forall_mem_singleton]
    exact ⟨⟨htexts, isText_passagesOf hlyric.1⟩, [], by simp, Or.inl rfl⟩

end Aligned

end Slots

/-! ## Scores -/

theorem Score.Reads.not_opensWord {items : List (String × String)} {s : Score} (h : s.Reads (split [] items)) {w : Nat}
    (hw : w ∈ s.text) : ∀ y ∈ ((s.word w).syllables.map s.syllable).tail, opensWord y.text = false := by
  intro y hy
  have hwords : ∀ word ∈ split [] items, ∀ item ∈ word.tail, opensWord item.1 = false := by
    obtain ⟨words, hsplit, -, hwords⟩ := exists_split_eq [] items
    rw [hsplit, forall_mem_cons]
    constructor
    · intro item hitem
      simpa using mem_takeWhile_imp (mem_of_mem_tail hitem)
    · intro word hword item hitem
      obtain ⟨first, rest, rfl, -, hrest⟩ := hwords word hword
      exact hrest item hitem
  obtain ⟨word, hword, heq⟩ := h.exists_word hw
  rw [← map_tail] at hy
  obtain ⟨k, hk, rfl⟩ := mem_map.mp hy
  obtain ⟨item, hitem, hitem'⟩ := mem_map.mp (map_tail ▸ heq ▸ map_tail ▸ mem_map.mpr ⟨k, hk, rfl⟩ : s.entry k ∈ word.tail.map entryOf)
  have htext : item.1 = (s.syllable k).text := congrArg Prod.fst hitem'
  rw [← htext]
  exact hwords word hword item hitem

theorem Score.allNotes_passages (s : Score) : Passage.allNotes (s.passages s.text) = s.notes.length := by
  have hall : ∀ ps : List Passage, Passage.allNotes ps = (ps.flatMap Passage.signs).countP (·.kind.sounds) := by
    intro ps
    induction ps with
    | nil => rfl
    | cons p ps ih =>
      rw [flatMap_cons, countP_append, ← ih, Passage.allNotes, map_cons, sum_cons, Passage.notes,
        notesIn, Passage.kinds, countP_map]
      rfl
  rw [hall, s.signs_passages, countP_eq_length_filter, Score.notes]

/-- The lyrics of a score that is read keep step with its notes, if its texts are without marks
    and hyphens, its signs of alteration lead to notes and the texts of its bars can be joined
    to the lyrics before them: there is one slot for each note, and at the first note of a
    syllable stands the slot with its text. -/
theorem lyrics_keep_step {code : String} {transposition : Option Int} {s : Score}
    (hread : Score.read code transposition = (.ok (), s))
    (htexts : ∀ y ∈ s.allSyllables, ∀ c ∈ y.text.toList, isLyric c = true)
    (hleads : ∀ signs ∈ s.music, leadsOn (signs.map (·.kind)) = true)
    (hjoins : Passage.joins [] (s.passages s.text) = true)
    {lyrics music : String} (htune : Tune.texts s = .ok (lyrics, music)) :
    (Slots.ofLine lyrics).length = s.notes.length ∧
    Along (fun earlier p => p.OpensWithNote →
      ∃ slot ∈ (Slots.ofLine lyrics)[Passage.allNotes earlier]?, p.letters <+: slot) (s.passages s.text) := by
  obtain ⟨_, items, -, -, hreads⟩ := Score.read_items hread
  obtain ⟨d, hd, ⟨⟩⟩ := bind_eq_ok.mp htune
  have hlyrics := Passage.lyricsBehind?_of_drafts (Tune.addWords_eq_ok.mp hd)
  have hlyric : ∀ w ∈ s.text, ∀ y ∈ (s.word w).syllables.map s.syllable, ∀ c ∈ y.text.toList, isLyric c = true :=
    fun w hw y hy => htexts y (List.mem_flatMap.mpr ⟨w, hw, hy⟩)
  have hnil : Slots.Aligned [] (Slots.ofLyrics []).all := .nil
  have haligned := hnil.words (fun _ hp => absurd hp List.not_mem_nil) rfl
    (fun _ hc => absurd hc (by simp)) hlyric
    (fun w hw y hy => hleads _ (List.mem_map.mpr ⟨y, List.mem_flatMap.mpr ⟨w, hw, hy⟩, rfl⟩))
    (fun w hw y hy => Syllable.abc_ne_empty (hlyric w hw y (List.mem_of_mem_tail hy)) (hreads.not_opensWord hw y hy))
    hjoins hlyrics
  rw [List.nil_append, ← Slots.ofLine_reverse] at haligned
  exact ⟨haligned.count.trans s.allNotes_passages, haligned.texts⟩

/-- A melisma in the midst of a word, a star at a bar and a flat. -/
theorem lyrics_keep_step_star :
    ∃ s lyrics music, Score.read "%%\n(c4) A(gh)men(g) *(;) b(ixi) (::)" none = (.ok (), s) ∧
      Tune.texts s = .ok (lyrics, music) ∧ (Slots.ofLine lyrics).length = s.notes.length := by
  obtain ⟨s, hs⟩ : ∃ s, (Score.read "%%\n(c4) A(gh)men(g) *(;) b(ixi) (::)" none).2 = s := ⟨_, rfl⟩
  have hread : Score.read "%%\n(c4) A(gh)men(g) *(;) b(ixi) (::)" none = (.ok (), s) := by
    rw [Score.read_of_isOk (by decide +kernel), hs]
  have htexts : (s.allSyllables.all fun y => y.text.toList.all isLyric) = true := by
    rw [← hs]
    decide +kernel
  have hleads : ∀ signs ∈ s.music, leadsOn (signs.map (·.kind)) = true := by
    rw [← hs]
    decide +kernel
  have hjoins : Passage.joins [] (s.passages s.text) = true := by
    rw [← hs]
    decide +kernel
  have hok : (Tune.texts s).isOk = true := by
    rw [← hs]
    decide +kernel
  obtain ⟨⟨lyrics, music⟩, htune⟩ := isOk_iff.mp hok
  refine ⟨s, lyrics, music, hread, htune, (lyrics_keep_step hread ?_ hleads hjoins htune).1⟩
  exact fun y hy => List.all_eq_true.mp (List.all_eq_true.mp htexts y hy)

/-- A star at a bar behind a melisma: its text takes the place of the line, and the slot of a note is lost. -/
theorem melisma_before_bar_loses_slot :
    ∃ s lyrics music, Score.read "%%\n(c4) A(gh) *(;) b(g) (::)" none = (.ok (), s) ∧
      Tune.texts s = .ok (lyrics, music) ∧ lyrics = "  A~✶ b " ∧ s.notes.length = 3 ∧
      Slots.ofLine lyrics = ["A~✶".toList, "b".toList] := by
  obtain ⟨s, hs⟩ : ∃ s, (Score.read "%%\n(c4) A(gh) *(;) b(g) (::)" none).2 = s := ⟨_, rfl⟩
  have hread : Score.read "%%\n(c4) A(gh) *(;) b(g) (::)" none = (.ok (), s) := by
    rw [Score.read_of_isOk (by decide +kernel), hs]
  have htexts : (Tune.texts s).toOption.map (·.1) = some "  A~✶ b " := by
    rw [← hs]
    decide +kernel
  have hnotes : s.notes.length = 3 := by
    rw [← hs]
    decide +kernel
  cases htune : Tune.texts s with
  | error e =>
    rw [htune] at htexts
    cases htexts
  | ok texts =>
    obtain ⟨lyrics, music⟩ := texts
    rw [htune] at htexts
    obtain rfl : lyrics = "  A~✶ b " := Option.some_inj.mp htexts
    exact ⟨s, _, music, hread, htune, rfl, hnotes, by decide⟩

end Plainsong.Chant
