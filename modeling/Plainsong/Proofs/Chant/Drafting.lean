import Plainsong.Chant.Tune
import Plainsong.Proofs.Outcome
/- How a tune is drafted. The words of a score are gone through as a row of passages, a
   neume with its text or the end of a word (`Score.passages`), and each passage adds to the
   music and to the lyrics. What it adds to the music is the text of its signs, and what it
   does to the lyrics depends on the kinds of its signs alone (`Tune.under`): so a draft fails
   where a sign has no text or where a bar asks for more lyrics than there are, and nowhere
   else (`Tune.addWords_eq_ok`). -/
namespace Plainsong.Chant

theorem mapM_eq_ok_cons {ε α β : Type} {f : α → Except ε β} {a : α} {l : List α} {bs : List β} :
    (a :: l).mapM f = .ok bs ↔ ∃ b bs', f a = .ok b ∧ l.mapM f = .ok bs' ∧ bs = b :: bs' := by
  rw [List.mapM_cons, bind_eq_ok]
  refine exists_congr fun b => ?_
  rw [bind_eq_ok]
  constructor
  · rintro ⟨h, bs', h', ⟨⟩⟩
    exact ⟨bs', h, h', rfl⟩
  · rintro ⟨bs', h, h', rfl⟩
    exact ⟨h, bs', h', rfl⟩

namespace Tune

/-! ## Signs -/

/-- The lyrics behind a bar that opens its neume, the last letter first: the text takes the
    place of their last letter, and of a line before it. -/
def underBar (text : String) : List Char → Option (List Char)
  | _ :: '_' :: rest => some (text.toList.reverse ++ if text.isEmpty then '_' :: rest else rest)
  | _ :: c :: rest => some (text.toList.reverse ++ c :: rest)
  | _ => none

/-- The lyrics behind a sign of a neume with this text, which stands at a place of its
    neume behind a sign of the kind `last`. -/
def under (text : String) (place : Nat) (last : Option Kind) (kind : Kind) (lyrics : List Char) : Option (List Char) :=
  if kind.sounds || kind = .accidental then
    if place = 0 then some ((if text.isEmpty then "_" else text).toList.reverse ++ lyrics)
    else if last = some .accidental then some lyrics
    else some ('_' :: lyrics)
  else if kind = .bar && place = 0 then underBar text lyrics
  else some lyrics

theorem draft_eq_ok {lyrics : List Char} {music : String} {d : Draft} :
    (Except.ok ⟨lyrics, music⟩ : Except Datum.Fault Draft) = .ok d ↔ d.music = music ∧ some lyrics = some d.lyrics := by
  obtain ⟨lyrics', music'⟩ := d
  simp only [Except.ok.injEq, Draft.mk.injEq, Option.some.injEq]
  exact ⟨fun ⟨h, h'⟩ => ⟨h'.symm, h⟩, fun ⟨h, h'⟩ => ⟨h', h.symm⟩⟩

theorem addSign_eq_ok {text : String} {d d' : Draft} {place : Nat} {last : Option Sign} {g : Sign} :
    addSign text d place last g = .ok d' ↔
      ∃ r, g.abcText = .ok r ∧ d'.music = d.music ++ r ∧
        under text place (last.map (·.kind)) g.kind d.lyrics = some d'.lyrics := by
  obtain ⟨lyrics, music⟩ := d
  rw [addSign, bind_eq_ok]
  refine exists_congr fun r => and_congr_right fun _ => ?_
  unfold under
  dsimp only
  split
  · split
    · exact draft_eq_ok
    · split
      · exact draft_eq_ok
      · exact draft_eq_ok
  · split
    · match lyrics with
      | [] => simp [underBar, throw, throwThe, MonadExceptOf.throw]
      | [_] => simp [underBar, throw, throwThe, MonadExceptOf.throw]
      | _ :: b :: rest =>
        by_cases hb : b = '_'
        · subst hb
          exact draft_eq_ok
        · rw [underBar]
          · simp only
            exact draft_eq_ok
          · intro h
            exact hb h
    · exact draft_eq_ok

/-- The lyrics behind the signs of a neume. -/
def underAll (text : String) : Nat → Option Kind → List Kind → List Char → Option (List Char)
  | _, _, [], lyrics => some lyrics
  | place, last, kind :: rest, lyrics =>
    (under text place last kind lyrics).bind (underAll text (place + 1) (some kind) rest)

theorem addSigns_eq_ok {text : String} {signs : List Sign} {place : Nat} {last : Option Sign} {d d' : Draft} :
    addSigns text place last signs d = .ok d' ↔
      ∃ rs, signs.mapM (·.abcText) = .ok rs ∧ d'.music = d.music ++ String.join rs ∧
        underAll text place (last.map (·.kind)) (signs.map (·.kind)) d.lyrics = some d'.lyrics := by
  induction signs generalizing place last d with
  | nil =>
    obtain ⟨lyrics, music⟩ := d
    show (Except.ok ⟨lyrics, music⟩ : Except Datum.Fault Draft) = .ok d' ↔ _
    rw [draft_eq_ok, List.map_nil, underAll]
    constructor
    · rintro ⟨h, h'⟩
      exact ⟨[], rfl, by simp [h], h'⟩
    · rintro ⟨_, ⟨⟩, h, h'⟩
      exact ⟨by simpa using h, h'⟩
  | cons g rest ih =>
    rw [addSigns, bind_eq_ok, List.map_cons, underAll]
    constructor
    · rintro ⟨d₁, h₁, h₂⟩
      obtain ⟨r, hr, hmusic, hlyrics⟩ := addSign_eq_ok.mp h₁
      obtain ⟨rs, hrs, hmusic', hlyrics'⟩ := ih.mp h₂
      refine ⟨r :: rs, mapM_eq_ok_cons.mpr ⟨r, rs, hr, hrs, rfl⟩, ?_, ?_⟩
      · rw [hmusic', hmusic, String.join_cons, String.append_assoc]
      · rw [hlyrics, Option.bind_some]
        exact hlyrics'
    · rintro ⟨_, hall, hmusic, hlyrics⟩
      obtain ⟨r, rs, hr, hrs, rfl⟩ := mapM_eq_ok_cons.mp hall
      obtain ⟨lyrics, hunder, hlyrics⟩ := Option.bind_eq_some_iff.mp hlyrics
      refine ⟨⟨lyrics, d.music ++ r⟩, addSign_eq_ok.mpr ⟨r, hr, rfl, hunder⟩, ih.mpr ⟨rs, hrs, ?_, hlyrics⟩⟩
      rw [hmusic, String.join_cons, String.append_assoc]

end Tune

/-! ## Passages -/

/-- A neume with its text, or the end of a word. -/
inductive Passage where
  | neume (text : String) (signs : List Sign)
  | wordEnd

namespace Passage

/-- What the passage adds to the music. -/
def music : Passage → Except Datum.Fault String
  | neume _ signs => do return String.join (← signs.mapM (·.abcText))
  | wordEnd => .ok " "

/-- The lyrics behind the passage, the last letter first, if there are enough before it. -/
def lyrics? : Passage → List Char → Option (List Char)
  | neume text signs, lyrics => Tune.underAll text 0 none (signs.map (·.kind)) lyrics
  | wordEnd, lyrics => some (' ' :: lyrics)

end Passage

/-- The syllables of a word as passages; all but the last one go on with a hyphen. -/
def Score.passagesOf (s : Score) : List Syllable → List Passage
  | [] => []
  | y :: rest => .neume (if rest.isEmpty then y.abc else y.abc ++ "-") (s.signsOf y.neume) :: s.passagesOf rest

def Score.passages (s : Score) (words : List Nat) : List Passage :=
  words.flatMap fun w => s.passagesOf ((s.word w).syllables.map s.syllable) ++ [.wordEnd]

namespace Tune

/-- The passages, one after the other, make `d'` out of `d`. -/
def Drafts : List Passage → Draft → Draft → Prop
  | [], d, d' => d = d'
  | p :: rest, d, d' => ∃ r lyrics, p.music = .ok r ∧ p.lyrics? d.lyrics = some lyrics ∧
      Drafts rest ⟨lyrics, d.music ++ r⟩ d'

theorem drafts_append {ps qs : List Passage} {d d' : Draft} :
    Drafts (ps ++ qs) d d' ↔ ∃ d₁, Drafts ps d d₁ ∧ Drafts qs d₁ d' := by
  induction ps generalizing d with
  | nil => exact ⟨fun h => ⟨d, rfl, h⟩, fun ⟨_, h, h'⟩ => by cases h; exact h'⟩
  | cons p ps ih =>
    constructor
    · rintro ⟨r, lyrics, hr, hlyrics, h⟩
      obtain ⟨d₁, h₁, h₂⟩ := ih.mp h
      exact ⟨d₁, ⟨r, lyrics, hr, hlyrics, h₁⟩, h₂⟩
    · rintro ⟨d₁, ⟨r, lyrics, hr, hlyrics, h₁⟩, h₂⟩
      exact ⟨r, lyrics, hr, hlyrics, ih.mpr ⟨d₁, h₁, h₂⟩⟩

theorem addSyllables_eq_ok {s : Score} {ys : List Syllable} {d d' : Draft} :
    addSyllables s ys d = .ok d' ↔ Drafts (s.passagesOf ys) d d' := by
  induction ys generalizing d with
  | nil => exact ⟨fun h => by cases h; rfl, fun h => by cases h; rfl⟩
  | cons y rest ih =>
    rw [addSyllables, bind_eq_ok, Score.passagesOf]
    constructor
    · rintro ⟨⟨lyrics, music⟩, h₁, h₂⟩
      obtain ⟨rs, hrs, hmusic, hlyrics⟩ := addSigns_eq_ok.mp h₁
      obtain rfl : music = _ := hmusic
      exact ⟨String.join rs, lyrics, bind_eq_ok.mpr ⟨rs, hrs, rfl⟩, hlyrics, ih.mp h₂⟩
    · rintro ⟨r, lyrics, hr, hlyrics, h⟩
      obtain ⟨rs, hrs, ⟨⟩⟩ := bind_eq_ok.mp hr
      exact ⟨⟨lyrics, _⟩, addSigns_eq_ok.mpr ⟨rs, hrs, rfl, hlyrics⟩, ih.mpr h⟩

theorem addWords_eq_ok {s : Score} {ws : List Nat} {d d' : Draft} :
    addWords s ws d = .ok d' ↔ Drafts (s.passages ws) d d' := by
  induction ws generalizing d with
  | nil => exact ⟨fun h => by cases h; rfl, fun h => by cases h; rfl⟩
  | cons w rest ih =>
    rw [addWords, bind_eq_ok, Score.passages, List.flatMap_cons, drafts_append]
    constructor
    · rintro ⟨d₁, h₁, h₂⟩
      exact ⟨_, drafts_append.mpr ⟨d₁, addSyllables_eq_ok.mp h₁, _, _, rfl, rfl, rfl⟩, ih.mp h₂⟩
    · rintro ⟨d₂, hword, h₂⟩
      obtain ⟨d₁, h₁, _, _, ⟨⟩, ⟨⟩, ⟨⟩⟩ := drafts_append.mp hword
      exact ⟨d₁, addSyllables_eq_ok.mpr h₁, ih.mpr h₂⟩

end Tune

end Plainsong.Chant
