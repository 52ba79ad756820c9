import Plainsong.Proofs.Chant.Playing
import Plainsong.Proofs.Midi.Filing
/- The range of a score and the transposition that centres it. The range is a
   running minimum and maximum that takes zero for "nothing yet"; since a letter of
   the staff stands well above zero under every clef, the running range spans what
   it has seen (`Spans`). The transposition brings the middle of the range to F
   sharp, and as no range is wider than the staff, every note of the file that is
   played from the score has a pitch that fits its data byte (`File.InKeys`). -/
namespace Plainsong.Midi

/-- The value is the content of one data byte. -/
def IsKey (d : Datum) : Prop := ∃ b : UInt8, d.toByte = .ok b ∧ b < 128

theorem isKey_int {n : Int} (hlow : 0 ≤ n) (hhigh : n ≤ 127) : IsKey (.int n) := by
  refine ⟨UInt8.ofNat n.toNat, ?_, ?_⟩
  · have hfits : (0 ≤ n && n < 256) = true := by simp; omega
    show Datum.byte n = _
    rw [Datum.byte, if_pos hfits]
  · rw [UInt8.lt_iff_toNat_lt, UInt8.toNat_ofNat']
    have h128 : (128 : UInt8).toNat = 128 := rfl
    omega

/-- The pitch of a deed that begins or ends a note. -/
def Deed.pitch? : Deed → Option Datum
  | .noteOn _ pitch .. => some pitch
  | .noteOff _ pitch .. => some pitch
  | _ => none

namespace File

/-- Every pitch that stands in the file fits its data byte. -/
def InKeys (f : File) : Prop := ∀ t ∈ f.tracks, ∀ e ∈ t.events, ∀ d ∈ e.deed.pitch?, IsKey d

theorem inKeys_empty : (ofEvents [] [] 0).InKeys := by
  intro t ht e he
  obtain rfl : t = Track.ofEvents [] := by simpa [ofEvents] using ht
  simp [Track.ofEvents] at he

/-- The act adds no pitch that does not fit. -/
abbrev KeepsKeys {α : Type} (x : Act File α) : Prop := ∀ f : File, f.InKeys → Upon x f fun _ => InKeys

namespace KeepsKeys

variable {α β : Type}

theorem pure (a : α) : KeepsKeys (Pure.pure a) := fun _ hf => hf

theorem get : KeepsKeys (MonadState.get : Act File File) := fun _ hf => hf

theorem bind {x : Act File α} {g : α → Act File β} (hx : KeepsKeys x) (hg : ∀ a, KeepsKeys (g a)) :
    KeepsKeys (x >>= g) := by
  intro f hf
  rw [Upon]
  exact (hx f hf).seq fun a f' => hg a f'

theorem except (e : Except Fault α) : KeepsKeys (liftM e : Act File α) := by
  intro f hf
  rw [Upon, ends_except]
  exact ⟨fun _ _ => hf, fun _ _ => trivial⟩

end KeepsKeys

theorem keepsKeys_put (i : Nat) (tick : Datum) {deed : Deed} (hdeed : ∀ d ∈ deed.pitch?, IsKey d) :
    KeepsKeys (put i tick deed) := by
  intro f hf
  rw [put, Upon, ends_bind, ends_get, ends_onTrack, ends_modify]
  intro t ht e he d hd
  rw [Array.mem_iff_getElem] at ht
  obtain ⟨j, hj, rfl⟩ := ht
  rw [Array.size_setIfInBounds] at hj
  rw [Array.getElem_setIfInBounds hj] at he
  split at he
  · -- the track of the new event
    next hij =>
    subst hij
    have htrack : f.tracks.getD i default ∈ f.tracks := by
      rw [Array.getD_eq_getD_getElem?, Array.getElem?_eq_getElem hj]
      exact Array.getElem_mem hj
    rw [Track.add, Array.mem_push] at he
    rcases he with he | rfl
    · exact hf _ htrack e he d hd
    · exact hdeed d hd
  · exact hf _ (Array.getElem_mem hj) e he d hd

theorem keepsKeys_count : KeepsKeys count := fun _ hf => hf

theorem keepsKeys_putAt (place : Except Fault Nat) (time : Datum) {deed : Except Fault Deed}
    (hdeed : ∀ d, deed = .ok d → d.pitch? = none) : KeepsKeys (putAt place time deed) := by
  refine .bind (.except _) fun i => .bind .get fun f => .bind (.except _) fun tick => ?_
  intro f hf
  rw [Upon, ends_bind, ends_except]
  refine ⟨fun d hd => ?_, fun _ _ => trivial⟩
  have hnone : ∀ p ∈ d.pitch?, IsKey p := by simp [hdeed d hd]
  exact KeepsKeys.bind (keepsKeys_put i tick hnone) (fun _ => keepsKeys_count) f hf

theorem keepsKeys_addNote (track channel time duration volume annotation : Datum) {pitch : Datum} (hpitch : IsKey pitch) :
    KeepsKeys (addNote track channel pitch time duration volume annotation) := by
  refine .bind .get fun f => .bind (.except _) fun i => .bind (.except _) fun tick => .bind (.except _) fun length =>
    .bind (keepsKeys_put _ _ ?_) fun _ => .bind (.except _) fun stop => .bind (keepsKeys_put _ _ ?_) fun _ =>
      keepsKeys_count
  · simpa [Deed.pitch?] using hpitch
  · simpa [Deed.pitch?] using hpitch

theorem pitch?_of_map {α : Type} {x : Except Fault α} {deed : α → Deed} (h : ∀ a, (deed a).pitch? = none) (d : Deed)
    (hd : x.map deed = .ok d) : d.pitch? = none := by
  cases x with
  | error e => cases hd
  | ok a =>
    cases hd
    exact h a

theorem keepsKeys_addTrackName (track time name : Datum) : KeepsKeys (addTrackName track time name) :=
  .bind .get fun _ => keepsKeys_putAt _ _ (pitch?_of_map fun _ => rfl)

theorem keepsKeys_addTempo (track time tempo : Datum) : KeepsKeys (addTempo track time tempo) :=
  .bind .get fun _ => keepsKeys_putAt _ _ (pitch?_of_map fun _ => rfl)

theorem keepsKeys_addText (track time text : Datum) : KeepsKeys (addText track time text) :=
  .bind .get fun _ => keepsKeys_putAt _ _ (pitch?_of_map fun _ => rfl)

theorem keepsKeys_addProgramChange (track channel time program : Datum) :
    KeepsKeys (addProgramChange track channel time program) := by
  refine .bind .get fun _ => keepsKeys_putAt _ _ ?_
  rintro d ⟨⟩
  rfl

end File

end Plainsong.Midi

namespace Plainsong.Chant

open Midi (File)

/-! ## The running range -/

/-- The range after one more pitch; a lowest pitch of zero stands for none. -/
def widen (r : Int × Int) (p : Int) : Int × Int :=
  (if r.1 = 0 || p < r.1 then p else r.1, if r.2 < p then p else r.2)

theorem rangeOf_eq_foldl (pitches : List Int) : Score.rangeOf pitches = pitches.foldl widen (0, 0) := rfl

/-- The range goes from the lowest to the highest of the pitches. -/
def Spans (pitches : List Int) (r : Int × Int) : Prop :=
  IsLeast {p | p ∈ pitches} r.1 ∧ IsGreatest {p | p ∈ pitches} r.2

theorem spans_first {p : Int} (hp : 0 < p) : Spans [p] (widen (0, 0) p) := by
  have hwiden : widen (0, 0) p = (p, p) := by simp [widen, hp]
  rw [hwiden]
  exact ⟨⟨by simp, by simp⟩, by simp, by simp⟩

theorem Spans.widen {seen : List Int} {r : Int × Int} (h : Spans seen r) (hseen : ∀ q ∈ seen, 0 < q) (p : Int) :
    Spans (seen ++ [p]) (widen r p) := by
  obtain ⟨⟨hlow, hbelow⟩, hhigh, habove⟩ := h
  have hpos : r.1 ≠ 0 := (hseen _ hlow).ne'
  have hbelow' : ∀ q ∈ seen, r.1 ≤ q := fun q hq => hbelow hq
  have habove' : ∀ q ∈ seen, q ≤ r.2 := fun q hq => habove hq
  refine ⟨⟨?_, ?_⟩, ?_, ?_⟩
  · by_cases hp : p < r.1
    · simp [Chant.widen, hp]
    · simpa [Chant.widen, hp, hpos] using Or.inl hlow
  · intro q hq
    have hle : (Chant.widen r p).1 ≤ min r.1 p := by
      simp only [Chant.widen, hpos, decide_false, Bool.false_or, decide_eq_true_eq]
      split <;> omega
    rcases List.mem_append.mp hq with hq | hq
    · exact hle.trans ((min_le_left _ _).trans (hbelow' q hq))
    · rw [List.mem_singleton.mp hq]
      exact hle.trans (min_le_right _ _)
  · by_cases hp : r.2 < p
    · simp [Chant.widen, hp]
    · simpa [Chant.widen, hp] using Or.inl hhigh
  · intro q hq
    have hle : max r.2 p ≤ (Chant.widen r p).2 := by
      simp only [Chant.widen]
      split <;> omega
    rcases List.mem_append.mp hq with hq | hq
    · exact ((habove' q hq).trans (le_max_left _ _)).trans hle
    · rw [List.mem_singleton.mp hq]
      exact (le_max_right _ _).trans hle

theorem Spans.foldl {seen rest : List Int} {r : Int × Int} (h : Spans seen r) (hpos : ∀ q ∈ seen ++ rest, 0 < q) :
    Spans (seen ++ rest) (rest.foldl Chant.widen r) := by
  induction rest generalizing seen r with
  | nil => simpa using h
  | cons p rest ih =>
    have hone := h.widen (fun q hq => hpos q (by simp [hq])) p
    rw [List.append_cons] at hpos ⊢
    exact ih hone hpos

theorem spans_rangeOf {pitches : List Int} (hne : pitches ≠ []) (hpos : ∀ q ∈ pitches, 0 < q) :
    Spans pitches (Score.rangeOf pitches) := by
  cases pitches with
  | nil => exact absurd rfl hne
  | cons p rest =>
    rw [rangeOf_eq_foldl, List.foldl_cons]
    exact (spans_first (hpos p (by simp))).foldl hpos

/-! ## The range of a score -/

/-- The pitches of the notes of a score. -/
def Score.pitches (s : Score) : Set Int := {p | ∃ g ∈ s.notes, g.pitch = some p}

variable {s : Score}

theorem Score.Whole.pitch (h : s.Whole) {g : Sign} (hg : g ∈ s.notes) : ∃ p, g.pitch = some p ∧ InRange p := by
  rw [Score.notes_eq] at hg
  obtain ⟨y, -, hg⟩ := List.mem_flatMap.mp hg
  obtain ⟨hg, hsounds⟩ := List.mem_filter.mp hg
  obtain ⟨i, hi, rfl⟩ := List.mem_map.mp hg
  obtain ⟨-, -, p, -, -, hp, -⟩ := (h.members _ i hi).2.sound hsounds
  exact ⟨p, hp, h.tempered.pitches i p hp⟩

theorem Score.range_eq (hfree : s.transposition = none) : s.range = Score.rangeOf (s.notes.filterMap (·.pitch)) := by
  rw [Score.range, hfree]

theorem Score.Whole.range (h : s.Whole) (hfree : s.transposition = none) (hsung : s.notes ≠ []) :
    IsLeast s.pitches s.range.1 ∧ IsGreatest s.pitches s.range.2 := by
  have hmem : {p | p ∈ s.notes.filterMap (·.pitch)} = s.pitches := by
    ext p
    exact List.mem_filterMap
  have hpos : ∀ q ∈ s.notes.filterMap (·.pitch), 0 < q := by
    intro q hq
    obtain ⟨g, hg, hgq⟩ := List.mem_filterMap.mp hq
    obtain ⟨p, hp, hrange⟩ := h.pitch hg
    obtain rfl : p = q := Option.some.inj (hp.symm.trans hgq)
    have := hrange.1
    omega
  have hne : s.notes.filterMap (·.pitch) ≠ [] := by
    obtain ⟨g, hg⟩ := List.exists_mem_of_ne_nil _ hsung
    obtain ⟨p, hp, -⟩ := h.pitch hg
    exact List.ne_nil_of_mem (List.mem_filterMap.mpr ⟨g, hg, hp⟩)
  rw [Score.range_eq hfree, ← hmem]
  exact spans_rangeOf hne hpos

theorem Score.middle_add_shift (hfree : s.transposition = none) (hlow : 0 ≤ s.range.1)
    (hhigh : 0 ≤ s.range.2) : (s.range.1 + s.range.2) / 2 + s.shift = 66 := by
  have hshift : s.shift = 66 - Int.tdiv (s.range.1 + s.range.2) 2 := by
    rw [Score.shift, hfree]
  have hdiv : Int.tdiv (s.range.1 + s.range.2) 2 = (s.range.1 + s.range.2) / 2 :=
    Int.tdiv_eq_ediv_of_nonneg (by omega)
  omega

/-! ## Playing within the keys -/

section Playing

open Midi

variable {shift : Int} {tempo : Float}

theorem keepsKeys_playNote {g : Sign} (hg : IsKey (.int (g.pitch.getD 0 + shift))) (text : Option String) (time : Datum) :
    File.KeepsKeys (Performance.playNote shift tempo text time g) := by
  refine .bind (.except _) fun beats => .bind (.except _) fun length => .bind (.except _) fun counted => ?_
  dsimp only
  by_cases hzero : (length == 0) = true
  · rw [if_pos hzero]
    exact fun _ _ => trivial
  · rw [if_neg hzero]
    refine .bind (File.keepsKeys_addTempo _ _ _) fun _ => .bind (File.keepsKeys_addNote _ _ _ _ _ _ hg) fun _ => ?_
    cases text with
    | none => exact .except _
    | some t => exact .bind (File.keepsKeys_addText _ _ _) fun _ => .except _

theorem keepsKeys_playNotes {notes : List Sign} (hnotes : ∀ g ∈ notes, IsKey (.int (g.pitch.getD 0 + shift)))
    (text : Option String) (time : Datum) : File.KeepsKeys (Performance.playNotes shift tempo text notes time) := by
  induction notes generalizing text time with
  | nil => exact .pure time
  | cons g rest ih =>
    exact .bind (keepsKeys_playNote (hnotes g (by simp)) text time) fun time' =>
      ih (fun g hg => hnotes g (by simp [hg])) none time'

theorem keepsKeys_playSyllables {ys : List Syllable}
    (hys : ∀ y ∈ ys, ∀ g ∈ s.notesOf y, IsKey (.int (g.pitch.getD 0 + s.shift))) (time : Datum) :
    File.KeepsKeys (Performance.playSyllables s tempo ys time) := by
  induction ys generalizing time with
  | nil => exact .pure time
  | cons y rest ih =>
    exact .bind (keepsKeys_playNotes (hys y (by simp)) _ time) fun time' => ih (fun y hy => hys y (by simp [hy])) time'

theorem keepsKeys_playWords {ws : List Nat}
    (hws : ∀ w ∈ ws, ∀ y ∈ (s.word w).syllables.map s.syllable, ∀ g ∈ s.notesOf y,
      IsKey (.int (g.pitch.getD 0 + s.shift))) (time : Datum) :
    File.KeepsKeys (Performance.playWords s tempo ws time) := by
  induction ws generalizing time with
  | nil => exact .pure time
  | cons w rest ih =>
    exact .bind (keepsKeys_playSyllables (hws w (by simp)) time) fun time' =>
      ih (fun w hw => hws w (by simp [hw])) time'

theorem keepsKeys_play (hs : ∀ g ∈ s.notes, IsKey (.int (g.pitch.getD 0 + s.shift))) (title : Datum) :
    File.KeepsKeys (Performance.play s title tempo) := by
  have hwords : ∀ w ∈ s.text, ∀ y ∈ (s.word w).syllables.map s.syllable, ∀ g ∈ s.notesOf y,
      IsKey (.int (g.pitch.getD 0 + s.shift)) := by
    intro w hw y hy g hg
    apply hs g
    rw [Score.notes_eq]
    exact List.mem_flatMap.mpr ⟨y, List.mem_flatMap.mpr ⟨w, hw, hy⟩, hg⟩
  refine .bind (.except _) fun name => .bind (File.keepsKeys_addTrackName _ _ _) fun _ =>
    .bind (File.keepsKeys_addTempo _ _ _) fun _ => .bind (File.keepsKeys_addProgramChange _ _ _ _) fun _ => ?_
  intro f hf
  rw [Upon, ends_discard]
  exact keepsKeys_playWords hwords (.int 0) f hf

theorem inKeys_ofScore (hs : ∀ g ∈ s.notes, IsKey (.int (g.pitch.getD 0 + s.shift))) {title tempo : Datum}
    {file : File} (hfile : Performance.ofScore s title tempo = .ok file) : file.InKeys := by
  obtain ⟨t, -, hfile⟩ := bind_eq_ok.mp hfile
  rw [File.create_default] at hfile
  obtain ⟨empty, hempty, hfile⟩ := bind_eq_ok.mp hfile
  cases hempty
  have hplay : Upon (Performance.play s title t) (File.ofEvents [] [] 0) fun _ => File.InKeys :=
    keepsKeys_play hs title _ File.inKeys_empty
  rw [Upon, Ends] at hplay
  generalize (Performance.play s title t).run.run (File.ofEvents [] [] 0) = r at hplay hfile
  obtain ⟨r, file'⟩ := r
  cases r with
  | error f => cases hfile
  | ok a =>
    cases hfile
    exact hplay

end Playing

/-- A score that is read without a transposition centres itself: its range goes from its lowest
    to its highest pitch, the middle of the range comes to F sharp, every note comes to a pitch
    from 0 to 127, and so does every pitch of every file that is played from it. -/
theorem shift_centres_range {code : String} {s : Score} (hread : (Score.read code none).2 = s) (hsung : s.notes ≠ []) :
    IsLeast s.pitches s.range.1 ∧ IsGreatest s.pitches s.range.2 ∧
    (s.range.1 + s.range.2) / 2 + s.shift = 66 ∧
    (∀ g ∈ s.notes, ∃ p, g.pitch = some p ∧ 0 ≤ p + s.shift ∧ p + s.shift ≤ 127) ∧
    ∀ title tempo file, Performance.ofScore s title tempo = .ok file → file.InKeys := by
  have hwhole : s.Whole := hread ▸ Score.read_whole code none
  have hfree : s.transposition = none := hread ▸ Score.read_transposition code none
  obtain ⟨hleast, hgreatest⟩ := hwhole.range hfree hsung
  have hends : ∀ p ∈ s.pitches, InRange p := by
    rintro p ⟨g, hg, hp⟩
    obtain ⟨q, hq, hrange⟩ := hwhole.pitch hg
    rwa [Option.some.inj (hp.symm.trans hq)]
  obtain ⟨hlow, hlow'⟩ := hends _ hleast.1
  obtain ⟨hhigh, hhigh'⟩ := hends _ hgreatest.1
  have hmiddle := Score.middle_add_shift hfree (by omega) (by omega)
  have hkeys : ∀ g ∈ s.notes, ∃ p, g.pitch = some p ∧ 0 ≤ p + s.shift ∧ p + s.shift ≤ 127 := by
    intro g hg
    obtain ⟨p, hp, -⟩ := hwhole.pitch hg
    have hbelow : s.range.1 ≤ p := hleast.2 ⟨g, hg, hp⟩
    have habove : p ≤ s.range.2 := hgreatest.2 ⟨g, hg, hp⟩
    exact ⟨p, hp, by omega, by omega⟩
  refine ⟨hleast, hgreatest, hmiddle, hkeys, fun title tempo file hfile => inKeys_ofScore (fun g hg => ?_) hfile⟩
  obtain ⟨p, hp, hkey, hkey'⟩ := hkeys g hg
  rw [hp]
  exact Midi.isKey_int hkey hkey'

/-- The lowest letter of one clef with a flat and the highest of another with a sharp. -/
theorem shift_centres_range_flat_and_sharp :
    ∃ s, (Score.read "%%\n(f3) a(axa) (f4) b(m#m)" none).2 = s ∧ s.notes ≠ [] ∧
      IsLeast s.pitches 52 ∧ IsGreatest s.pitches 84 ∧ s.shift = -2 ∧
      ∃ file, Performance.ofScore s (.text "T") (.int (165 : Nat)) = .ok file ∧ file.InKeys := by
  obtain ⟨s, hread⟩ : ∃ s, (Score.read "%%\n(f3) a(axa) (f4) b(m#m)" none).2 = s := ⟨_, rfl⟩
  have hsung : s.notes ≠ [] := by
    rw [← hread]
    decide +kernel
  have hrange : s.range = (52, 84) := by
    rw [← hread]
    decide +kernel
  obtain ⟨hleast, hgreatest, hmiddle, hkeys, hfile⟩ := shift_centres_range hread hsung
  rw [hrange] at hleast hgreatest hmiddle
  refine ⟨s, hread, hsung, hleast, hgreatest, by omega, ?_⟩
  -- the file is made: the texts are short and the notes can be played
  have hwhole : s.Whole := hread ▸ Score.read_whole _ none
  have htexts : ∀ y ∈ s.allSyllables, OneByte y.text := by
    rw [← hread]
    decide +kernel
  have hsingable : ∀ y ∈ s.allSyllables, Singable s y := by
    refine fun y hy => ⟨htexts y hy, fun g hg => ?_⟩
    have hg : g ∈ s.notes := by
      rw [Score.notes_eq]
      exact List.mem_flatMap.mpr ⟨y, hy, hg⟩
    refine hwhole.playable hg fun p hp => ?_
    obtain ⟨q, hq, hkey⟩ := hkeys g hg
    rwa [Option.some.inj (hp.symm.trans hq)]
  have hbeats : Midi.Melody.totalBeats s.sung ≤ beatLimit := by
    rw [← hread]
    decide +kernel
  obtain ⟨t, v, ht, hv, hhalf⟩ := halfTempo_of_lt (show 0 < 165 by omega) (by decide +kernel)
  obtain ⟨m₀, ps, counter, -, -, -, hplay⟩ := play_gives hv hhalf hsingable hbeats (show OneByte (plain "T") by decide +kernel)
  have hscore : Performance.ofScore s (.text "T") (.int (165 : Nat)) = .ok _ := ofScore_eq ht hplay
  exact ⟨_, hscore, hfile _ _ _ hscore⟩

end Plainsong.Chant
