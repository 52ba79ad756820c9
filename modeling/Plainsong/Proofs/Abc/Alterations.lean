import Plainsong.Abc.Score.Part
import Plainsong.Proofs.Abc.Beams
/- Alterations of notes. The notes of a measure ask for their pitches one after
   another, and between them nothing changes what an alteration depends on but
   the ties (`Sings`, `sings_nodes`). The accidentals that the measure remembers
   are then the last ones of the notes so far that no tie leads to (`Heard`). -/
namespace Plainsong.Abc.Score

/-- A note that asks for its pitch: the score it finds, how it is written, and the alteration it gets. -/
structure Sung where
  before : Score
  accidental : String
  letter : String
  octave : Int
  alter : String

namespace Sung

/-- The tie that is open at the letter and octave marks of the note, in whatever overlay. -/
def tie? (x : Sung) : Option Tie := x.before.ties.find? (x.letter, x.octave)

/-- The step and octave of the note. -/
def place (x : Sung) : String × Int := (Text.upper x.letter, letterOctave x.letter + x.octave + x.before.octaveShift)

/-- How far its accidental alters. -/
def ownAlter (x : Sung) : String := (alterations.find? x.accidental).getD ""

/-- Whether its accidental holds for the rest of the measure. -/
def holds (x : Sung) : Bool := x.tie?.isNone && !x.accidental.isEmpty

/-- The latest of some notes whose accidental holds at a step and octave; the latest comes first. -/
def last? (place : String × Int) (xs : List Sung) : Option Sung := xs.find? fun x => x.holds && x.place = place

/-- The alteration of a note: that of a tie of its overlay, and none if the tie is one of another overlay; without a tie
    that of its accidental, or what the measure remembers, or that of the key. -/
def altered (x : Sung) (remembered : Option String) : String :=
  match x.tie? with
  | some tie => if tie.overlay = x.before.overlay then tie.alter else ""
  | none =>
    if !x.accidental.isEmpty then x.ownAlter
    else remembered.getD ((x.before.keyAlters.find? (Text.upper x.letter)).getD "")

end Sung

/-- The notes of a pitched voice ask for their pitches, the latest first in the list. -/
inductive Sings (s : Score) : List Sung → Score → Prop
  | start {s' : Score} (hscale : s'.scale = s.scale) : Sings s [] s'
  | note {s₁ s₂ s' : Score} {accidental letter : String} {octave level : Int} {w : Written} {xs : List Sung} (h : Sings s xs s₁)
      (hpitch : (pitch accidental letter octave level).Ran s₁ w s₂) (hscale : s'.scale = s₂.scale) :
      Sings s (⟨s₁, accidental, letter, octave, w.alter⟩ :: xs) s'

variable {s s' s₁ s₂ : Score} {accidental letter : String} {octave level : Int} {w : Written} {e m : Nat} {u : Unit}

/-! ## One note -/

/-- The scale behind a note of a pitched voice. -/
def scaleAfter (x : Sung) : Int × Table String String × Table (String × Int) String × Int × Bool :=
  (x.before.overlay, x.before.keyAlters,
    if x.holds then x.before.measureAlters.put x.place x.ownAlter else x.before.measureAlters, x.before.octaveShift, x.before.isPercussion)

theorem alteration_eq {text : String} {x : Sung} (h : (alteration x.accidental x.letter x.octave x.place.2).Ran s text s')
    (hties : s.ties = x.before.ties) (hscale : s.scale = x.before.scale) :
    s'.scale = scaleAfter x ∧ text = x.altered (x.before.measureAlters.find? x.place) := by
  simp only [scale, Prod.mk.injEq] at hscale
  obtain ⟨hoverlay, hkey, hmeasure, hshift, hdrums⟩ := hscale
  have hplace : (Text.upper x.letter, x.place.2) = x.place := rfl
  have htie : s.ties.find? (x.letter, x.octave) = x.tie? := by rw [hties]; rfl
  simp only [scaleAfter, Sung.holds, Sung.altered, ← hoverlay, ← hkey, ← hmeasure, ← hshift, ← hdrums]
  simp [alteration, htie, hplace] at h
  obtain ⟨tie, htie⟩ | htie : (∃ tie, x.tie? = some tie) ∨ x.tie? = none := by grind
  · simp [htie] at h ⊢
    grind [scale]
  · by_cases hsign : x.accidental = ""
    · obtain ⟨alter, hmark⟩ | hmark : (∃ alter, s.measureAlters.find? x.place = some alter) ∨ s.measureAlters.find? x.place = none := by grind
      all_goals
        simp [htie, hsign, hmark] at h ⊢
        grind [scale]
    · simp [htie, hsign] at h ⊢
      obtain ⟨⟨_, h⟩, rfl⟩ := h
      cases h
      exact ⟨rfl, rfl⟩

theorem pitch_eq (h : (pitch accidental letter octave level).Ran s w s') (hpitched : s.isPercussion = false)
    {x : Sung} (hx : x = ⟨s, accidental, letter, octave, w.alter⟩) :
    s'.scale = scaleAfter x ∧ x.alter = x.altered (s.measureAlters.find? x.place) := by
  simp only [pitch] at h
  rw [ScoreM.ran_bind] at h
  obtain ⟨_, _, h₀, h⟩ := h
  obtain ⟨rfl, rfl⟩ := ScoreM.ran_get.mp h₀
  simp [hpitched] at h
  obtain ⟨s₁, a, h₁, s₂, ⟨_, h₂⟩, s₃, alter, h₃, h⟩ := h
  have hties : s₂.ties = s.ties := (keeps_addText ties (fun _ _ => rfl) h₂).trans (keeps_newElem ties (fun _ _ => rfl) h₁)
  have hbefore : s₂.scale = s.scale := (keeps_addText scale (fun _ _ => rfl) h₂).trans (scale_newElem h₁)
  have hrest : s'.scale = s₃.scale ∧ w.alter = alter := by
    split at h
    · obtain ⟨⟨_, h₄⟩, rfl⟩ := h
      exact ⟨keeps_addText scale (fun _ _ => rfl) h₄, rfl⟩
    · obtain ⟨s₄, ⟨_, h₄⟩, ⟨_, h₅⟩, rfl⟩ := h
      exact ⟨(keeps_addText scale (fun _ _ => rfl) h₅).trans (keeps_addText scale (fun _ _ => rfl) h₄), rfl⟩
  subst hx
  obtain ⟨hscale, halter⟩ := alteration_eq (x := ⟨s, accidental, letter, octave, w.alter⟩) h₃ hties hbefore
  exact ⟨hrest.1.trans hscale, hrest.2.trans halter⟩

/-! ## The notes of a measure -/

variable {xs : List Sung}

theorem Sings.heard (h : Sings s xs s') (hpitched : s.isPercussion = false) (hnone : s.measureAlters = []) :
    s'.isPercussion = false ∧ ∀ place, s'.measureAlters.find? place = (Sung.last? place xs).map Sung.ownAlter := by
  induction h with
  | start hscale =>
    simp only [scale, Prod.mk.injEq] at hscale
    exact ⟨hscale.2.2.2.2.trans hpitched, fun place => by simp [hscale.2.2.1, hnone, Table.find?, Sung.last?]⟩
  | @note s₁ s₂ s' accidental letter octave level w xs h hpitch hscale ih =>
    obtain ⟨hdrums, hheard⟩ := ih
    have hafter := hscale.trans (pitch_eq hpitch hdrums rfl).1
    simp only [scale, scaleAfter, Prod.mk.injEq] at hafter
    refine ⟨hafter.2.2.2.2.trans hdrums, fun place => ?_⟩
    rw [hafter.2.2.1, Sung.last?, List.find?_cons]
    generalize (⟨s₁, accidental, letter, octave, w.alter⟩ : Sung) = x
    -- a note that a tie leads to leaves what is remembered as it is, also if it has an accidental
    by_cases hholds : x.holds
    · by_cases hplace : x.place = place
      · simp [hholds, hplace, Table.find?_put_self]
      · simp [hholds, hplace, Table.find?_put_of_ne, hheard, Sung.last?]
    · simp [hholds, hheard, Sung.last?]

theorem Sings.congr (h : Sings s xs s₁) (hscale : s'.scale = s₁.scale) : Sings s xs s' := by
  cases h with
  | start h => exact .start (hscale.trans h)
  | note h hpitch h' => exact .note h hpitch (hscale.trans h')

theorem Sings.altered (h : Sings s xs s') (hpitched : s.isPercussion = false) (hnone : s.measureAlters = [])
    {later earlier : List Sung} {x : Sung} (hxs : xs = later ++ x :: earlier) :
    x.alter = x.altered ((Sung.last? x.place earlier).map Sung.ownAlter) := by
  induction h generalizing later with
  | start hscale => simp at hxs
  | @note s₁ s₂ s' accidental letter octave level w xs h hpitch hscale ih =>
    cases later with
    | nil =>
      obtain ⟨rfl, rfl⟩ := List.cons.inj hxs
      obtain ⟨hdrums, hheard⟩ := h.heard hpitched hnone
      rw [← hheard]
      exact (pitch_eq hpitch hdrums rfl).2
    | cons y later => exact ih (List.cons.inj hxs).2

/-- The node is that of the note that asks for its pitch. -/
def Sung.From (node : Node) (x : Sung) : Prop := (writtenPitch node).Ran x.before (x.accidental, x.letter, x.octave) x.before

theorem sings_pitched {node : Node} (h : Pitched node s₁ s') (hsings : Sings s xs s₁) :
    node.name = "rest" ∧ Sings s xs s' ∨ node.name ≠ "rest" ∧ ∃ x, Sung.From node x ∧ Sings s (x :: xs) s' := by
  obtain ⟨s₂, s₃, hbefore, hpitched, hafter⟩ := h
  have hsings₂ := hsings.congr hbefore
  cases hpitched with
  | rest hname hquiet => exact .inl ⟨hname, hsings₂.congr (hafter.trans hquiet.2)⟩
  | pitch hname hwritten hpitch hquiet =>
    refine .inr ⟨hname, _, ?_, hsings₂.note hpitch (hafter.trans hquiet.2)⟩
    exact hwritten

theorem sings_nodes {nodes : List Node} {atStart o o' : Bool} {ns : List Nat} (hnames : ∀ n ∈ nodes, n.name = "note" ∨ n.name = "rest") (h : s₁.InMeasure m ns) (hsings : Sings s xs s₁)
    (hrun : (measureNodes m level nodes atStart o).Ran s₁ o' s') : ∃ ys, Sings s (ys ++ xs) s' ∧
      List.Forall₂ Sung.From (nodes.filter (·.name ≠ "rest")) ys.reverse := by
  induction nodes generalizing s₁ ns xs atStart o with
  | nil =>
    obtain ⟨-, rfl⟩ := ScoreM.ran_pure.mp hrun
    exact ⟨[], hsings, .nil⟩
  | cons node rest ih =>
    obtain ⟨s₂, b, h₁, hrun⟩ := ScoreM.ran_bind.mp hrun
    obtain ⟨e, h', hpitched⟩ := inMeasure_node (hnames node (by simp)) h h₁
    have hrest : ∀ n ∈ rest, n.name = "note" ∨ n.name = "rest" := fun n hn => hnames n (by simp [hn])
    rcases sings_pitched hpitched hsings with ⟨hname, hsings⟩ | ⟨hname, x, hx, hsings⟩
    · obtain ⟨ys, hys, hof⟩ := ih hrest h' hsings hrun
      exact ⟨ys, hys, by simpa [hname] using hof⟩
    · obtain ⟨ys, hys, hof⟩ := ih hrest h' hsings hrun
      exact ⟨ys ++ [x], by simpa using hys, by simpa [hname] using List.Forall₂.cons hx hof⟩

/-- However the notes of a pitched voice ask for their pitches from the start of a measure on, each gets the alteration of
    the tie at its letter if that is one of its own overlay, and none if it is one of another overlay; without such a tie
    it gets that of its own accidental, or else of the last accidental at its step and octave of a note without a tie, or
    else of the key. The notes of every measure of notes and rests that is written ask so for their pitches, in order. -/
theorem alterations_in_measure (number : Nat) (level : Int) (nodes : List Node) (hnames : ∀ n ∈ nodes, n.name = "note" ∨ n.name = "rest") :
    (∀ {s s' : Score} {xs : List Sung}, s.isPercussion = false → s.measureAlters = [] → Sings s xs s' →
      ∀ later x earlier, xs = later ++ x :: earlier → x.alter = x.altered ((Sung.last? x.place earlier).map Sung.ownAlter)) ∧
    ∀ {s s' : Score} {m : Nat} {o : Bool}, s.Sound → s.lastBeamed = none → (measure number nodes level []).Ran s (m, o) s' →
      ∃ s₁ s₂ xs, s₁.scale = (s.overlay, s.keyAlters, [], s.octaveShift, s.isPercussion) ∧ Sings s₁ xs s₂ ∧
        List.Forall₂ Sung.From (nodes.filter (·.name ≠ "rest")) xs.reverse := by
  refine ⟨fun hpitched hnone h later x earlier hxs => h.altered hpitched hnone hxs, fun hs hlast h => ?_⟩
  obtain ⟨s₁, s₂, hin, hscale, hrun, -⟩ := measure_ran h hs hlast
  obtain ⟨xs, hsings, hof⟩ := sings_nodes hnames hin (.start rfl) hrun
  exact ⟨s₁, s₂, xs, hscale, by simpa using hsings, hof⟩

/-- A sharp and the same note without a sign. -/
theorem alterations_in_measure_sharp : ∃ (s₁ s₂ : Score) (xs : List Sung),
    List.Forall₂ Sung.From [noteOf [.text "^", .text "C", .int 0] 1, noteOf [.text "C", .int 0] 1] xs.reverse ∧ Sings s₁ xs s₂ ∧
      ∀ later x earlier, xs = later ++ x :: earlier → x.alter = x.altered ((Sung.last? x.place earlier).map Sung.ownAlter) := by
  have htexts : firstBeams [noteOf [.text "^", .text "C", .int 0] 1, noteOf [.text "C", .int 0] 1] = [some "begin", some "end"] := by
    decide +kernel
  obtain ⟨haltered, hsung⟩ :=
    alterations_in_measure 1 1 [noteOf [.text "^", .text "C", .int 0] 1, noteOf [.text "C", .int 0] 1] (by simp [noteOf])
  unfold firstBeams at htexts
  split at htexts
  · rename_i m o s' hrun
    obtain ⟨s₁, s₂, xs, hscale, hsings, hfrom⟩ := hsung (sound_new {}) rfl hrun
    simp only [scale, Prod.mk.injEq] at hscale
    exact ⟨s₁, s₂, xs, hfrom, hsings, haltered hscale.2.2.2.2 hscale.2.2.1 hsings⟩
  · cases htexts

/-- The alterations that the notes of a part are written with. -/
def partAlters (measures : List (List Node)) : Option (List (Option String)) :=
  match (writePart measures "P1" 1 [] 0 false).run { converter := {} } with
  | .ok p s => some ((s.tree.findAll p ["measure", "note", "pitch", "alter"]).map fun e => (s.tree.get e).text)
  | .error .. => none

/-- A sharp in an overlay is written as an alteration, but not if a note of the voice below it is tied at that letter. -/
theorem overlay_sharp_unheard_under_tie :
    partAlters [[noteOf [.text "C", .int 0] 8, { name := "rbar", leaves := [.text "&"] }], [noteOf [.text "^", .text "C", .int 0] 8]] =
      some [some "1"] ∧
    partAlters [[(noteOf [.text "C", .int 0] 8).put "tie" [{ name := "tie", leaves := [.text "-"] }],
      { name := "rbar", leaves := [.text "&"] }], [noteOf [.text "^", .text "C", .int 0] 8]] = some [] := by
  decide +kernel

end Plainsong.Abc.Score
