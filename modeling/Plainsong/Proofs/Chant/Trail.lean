import Plainsong.Proofs.Chant.Sparing
import Plainsong.Proofs.Chant.Spelling
/- The way back along the signs of a neume. Each sign knows the one before it, and a note asks the
   signs on its way back for accidentals and a bar asks them for a note that can rest. `Score.Trail`
   says which figures they meet. Where each of these figures can be read (`Spelt`), a note gets its
   pitch, or it fails for some other reason than that it asked for a place that is not there
   (`Act.sure_soundNote`). -/
namespace Plainsong.Chant

/-! ## Figures that can be read -/

/-- Every figure begins with a plain letter, and a sign of alteration has a mark behind it. -/
def Spelt (row : List Figure) : Prop := ∀ f ∈ row, BeginsPlain f.2 ∧ (f.1 = .accidental → 2 ≤ f.2.toList.length)

theorem Spelt.nil : Spelt [] := fun _ hf => absurd hf List.not_mem_nil

theorem spelt_concat {row : List Figure} {f : Figure} :
    Spelt (row ++ [f]) ↔ Spelt row ∧ BeginsPlain f.2 ∧ (f.1 = .accidental → 2 ≤ f.2.toList.length) := by
  simp only [Spelt, List.forall_mem_append, List.forall_mem_singleton]

theorem Spelt.dropLast {row : List Figure} (h : Spelt row) : Spelt row.dropLast :=
  fun f hf => h f (List.mem_of_mem_dropLast hf)

/-! ## The way back -/

/-- A sign that a pause comes to rest on. -/
def Kind.bears (kind : Kind) : Bool := kind.sounds || kind == .bar

namespace Score

/-- The way back from `place` leads over signs below `top` that have the figures `row`, the
    last one first, and every note on it has a duration. -/
inductive Trail (s : Score) : Nat → Option Nat → List Figure → Prop where
  | start (top : Nat) : Trail s top none []
  | step {top i : Nat} {row : List Figure} (below : i < top)
      (lasts : (s.sign i).kind.sounds = true → (s.sign i).duration.isSome = true)
      (rest : Trail s i (s.sign i).before row) : Trail s top (some i) (row ++ [(s.sign i).figure])

namespace Trail

variable {s s' : Score} {top top' i fuel : Nat} {place : Option Nat} {row : List Figure}

theorem mono (h : s.Trail top place row) (htop : top ≤ top') : s.Trail top' place row := by
  cases h with
  | start => exact .start top'
  | step below lasts rest => exact .step (below.trans_le htop) lasts rest

theorem settled (h : s.Trail top place row) (hs : ∀ i < top, (s.sign i).Settled (s'.sign i)) :
    s'.Trail top place row := by
  induction h with
  | start top => exact .start top
  | step below lasts rest ih =>
    have hi := hs _ below
    rw [← hi.figure]
    refine .step below (fun hsounds => hi.lasts (lasts ?_)) ?_
    · rwa [← show (s'.sign _).kind = (s.sign _).kind from congrArg Prod.fst hi.figure]
    · rw [hi.before]
      exact ih fun j hj => hs j (hj.trans below)

theorem of_some (h : s.Trail top (some i) row) :
    i < top ∧ row = row.dropLast ++ [(s.sign i).figure] ∧ s.Trail i (s.sign i).before row.dropLast := by
  cases h with
  | step below lasts rest =>
    rw [List.dropLast_concat]
    exact ⟨below, rfl, rest⟩

theorem of_none (h : s.Trail top none row) : row = [] := by
  cases h
  rfl

theorem find?_isSome (h : s.Trail top place row) (hfuel : top < fuel) :
    ((s.chainFrom fuel place).find? fun j => (s.sign j).kind.bears).isSome = row.any (·.1.bears) := by
  induction h generalizing fuel with
  | start =>
    obtain ⟨fuel, rfl⟩ : ∃ k, fuel = k + 1 := ⟨fuel - 1, by omega⟩
    rfl
  | @step top i row below lasts rest ih =>
    obtain ⟨fuel, rfl⟩ : ∃ k, fuel = k + 1 := ⟨fuel - 1, by omega⟩
    have hrest := ih (show i < fuel by omega)
    rw [chainFrom, List.find?_cons, List.any_append, List.any_cons, List.any_nil, Bool.or_false, ← hrest]
    show _ = (_ || (s.sign i).kind.bears)
    cases (s.sign i).kind.bears with
    | true => simp
    | false => simp

theorem lasts_of_mem (h : s.Trail top place row) {j : Nat} (hj : j ∈ s.chainFrom fuel place)
    (hsounds : (s.sign j).kind.sounds = true) : (s.sign j).duration.isSome = true := by
  induction h generalizing fuel with
  | start => cases fuel <;> cases hj
  | step below lasts rest ih =>
    cases fuel with
    | zero => cases hj
    | succ fuel =>
      rw [chainFrom] at hj
      rcases List.mem_cons.mp hj with rfl | hj
      · exact lasts hsounds
      · exact ih hj

end Trail

end Score

/-! ## Accidentals and pitches -/

namespace Act

/-- If the act fails, it is not for want of a place. -/
abbrev Sure {α : Type} (x : Act α) (s : Score) : Prop := Ends x s (fun _ _ => True) fun f _ => f.Mild

variable {s : Score} {i top : Nat} {place : Option Nat} {row : List Figure}

theorem sure_putAccidental (held : Accidentals) (entry : String) (value : Int) : Sure (putAccidental held entry value) s := by
  cases held with
  | table n => trivial
  | loose d => rintro ⟨⟩

theorem sure_accidentalAt (held : Accidentals) (entry : String) : Sure (accidentalAt held entry) s := by
  cases held with
  | table n =>
    rw [accidentalAt, Sure, ends_bind, ends_get]
    exact ends_need (fun _ _ => trivial) (by rintro ⟨⟩)
  | loose d => rintro ⟨⟩

theorem sure_plainClef (clef : String) (held : Accidentals) : Sure (plainClef clef held) s := by
  unfold plainClef
  split
  · rw [Sure]
    refine ends_need_bind (fun entry _ => ?_) (by rintro ⟨⟩)
    exact (sure_putAccidental held _ _).seq fun _ _ _ => trivial
  · trivial

theorem sure_accidentalsFrom (h : s.Trail top place row) (hspelt : Spelt row) (fuel : Nat) :
    Sure (accidentalsFrom fuel place) s := by
  induction h generalizing fuel with
  | start => cases fuel <;> rintro ⟨⟩
  | @step top i row below lasts rest ih =>
    obtain ⟨hrow, hi⟩ := spelt_concat.mp hspelt
    cases fuel with
    | zero => rintro ⟨⟩
    | succ fuel =>
      rw [accidentalsFrom, Sure, ends_sign]
      by_cases hkind : (s.sign i).kind = .accidental
      · rw [if_pos hkind, ends_bind]
        have hlength : 2 ≤ (s.sign i).code.toList.length := hi.2 hkind
        have henter : ∀ held s', Sure (do
            let value ← need .missing (alteration? (← need .outOfRange (s.sign i).code.toList[1]?))
            let letter ← need .outOfRange (s.sign i).code.toList[0]?
            putAccidental held (String.singleton letter) value
            return held) s' := by
          intro held s'
          rw [List.getElem?_eq_getElem (by omega), List.getElem?_eq_getElem (by omega), Sure, ends_bind]
          refine (Gives.ends (Gives.of_pure _ _)).mpr ?_
          refine ends_need_bind (fun value _ => ?_) (by rintro ⟨⟩)
          rw [ends_bind]
          refine (Gives.ends (Gives.of_pure _ _)).mpr ?_
          exact (sure_putAccidental held _ _).seq fun _ _ _ => trivial
        refine ends_orIfMissing ((ih hrow fuel).mono (fun held s' _ => henter held s') fun f s' hf => ⟨fun _ => ?_, fun _ => hf⟩)
        rw [newTable, ends_modifyGet]
        exact henter _ _
      · rw [if_neg hkind]
        split
        · trivial
        · exact ih hrow fuel

theorem sure_accidentalsOf (h : s.Trail top (some i) row) (hspelt : Spelt row) : Sure (accidentalsOf i) s := by
  rw [accidentalsOf, Sure, ends_bind, ends_get]
  exact sure_accidentalsFrom h hspelt _

theorem sure_accidentalsOf_note (hkind : (s.sign i).kind.sounds = true) (h : s.Trail top (s.sign i).before row)
    (hspelt : Spelt row) : Sure (accidentalsOf i) s := by
  rw [accidentalsOf, Sure, ends_bind, ends_get, accidentalsFrom, ends_sign]
  have hne : (s.sign i).kind ≠ .accidental := by
    intro heq
    rw [heq] at hkind
    cases hkind
  rw [if_neg hne]
  split
  · trivial
  · exact sure_accidentalsFrom h hspelt _

theorem sure_noteAccidentals (hkind : (s.sign i).kind.sounds = true) (h : s.Trail top (s.sign i).before row)
    (hspelt : Spelt row) : Sure (noteAccidentals i) s := by
  refine ends_orIfMissing ?_
  refine ((sure_accidentalsOf_note hkind h hspelt).and (Quietly.accidentalsOf i s)).andThen (fun held s' hs' => ?_)
    fun _ _ hs' => ⟨fun _ => trivial, fun _ => hs'.1⟩
  obtain ⟨-, hquiet⟩ := hs'
  rw [ends_bind, ends_get]
  split
  · trivial
  · have h' := h.settled fun j _ => (Score.Spared.of_quiet hquiet).sign j
    rw [← hquiet.sign] at hkind h'
    exact (sure_accidentalsOf_note hkind h' hspelt).mono (fun _ _ => id) fun _ _ hf => ⟨fun _ => trivial, fun _ => hf⟩

theorem sure_pitchOf {code : String} (hcode : BeginsPlain code) (hkind : (s.sign i).kind.sounds = true)
    (h : s.Trail top (s.sign i).before row) (hspelt : Spelt row) : Sure (pitchOf i code) s := by
  obtain ⟨c, rest, heq, hc⟩ := hcode
  rw [pitchOf, Sure, ends_bind, clefAt, ends_bind, ends_get]
  refine ends_need_bind (fun clef _ => ?_) (by rintro ⟨⟩)
  rw [ends_pure]
  refine (sure_noteAccidentals hkind h hspelt).seq fun held s₁ _ => ?_
  refine (sure_plainClef clef.code held).seq fun clef s₂ _ => ?_
  refine ends_need_bind (fun _ _ => ?_) (by rintro ⟨⟩)
  rw [head?_lower heq hc, ends_bind]
  refine (Gives.ends (Gives.of_pure _ _)).mpr ?_
  refine ends_need_bind (fun place _ => ?_) (by rintro ⟨⟩)
  refine (sure_accidentalAt held _).seq fun altered s₃ _ => ?_
  dsimp only
  split <;> trivial

theorem named_of_inRange {p : Int} (h : InRange p) : (lilyName? p).isSome = true ∧ (abcName? p).isSome = true := by
  obtain ⟨hlow, hhigh⟩ := h
  interval_cases p <;> exact ⟨rfl, rfl⟩

theorem sure_soundNote {code : String} (hcode : BeginsPlain code) (hkind : (s.sign i).kind.sounds = true)
    (h : s.Trail top (s.sign i).before row) (hspelt : Spelt row) (hs : s.Tempered) : Sure (soundNote i code) s := by
  rw [soundNote, Sure]
  refine ((sure_pitchOf hcode hkind h hspelt).and ((Quietly.pitchOf i code s).and (upon_pitchOf_inRange i code s))).andThen
    (fun pitch s₁ h₁ => ?_) fun _ _ h₁ => h₁.1
  obtain ⟨-, hquiet, hrange⟩ := h₁
  obtain ⟨hlily, habc⟩ := named_of_inRange (hrange (hquiet.tempered hs))
  obtain ⟨lily, hlily⟩ := Option.isSome_iff_exists.mp hlily
  obtain ⟨abc, habc⟩ := Option.isSome_iff_exists.mp habc
  rw [hlily, habc]
  trivial

end Act

end Plainsong.Chant
