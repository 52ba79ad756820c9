import Plainsong.Proofs.Abc.Sparing
/- Brackets of tuplets. Of the score they depend on two things only: how many
   notes the tuplet still lacks, and whether notes of an unfinished tuplet are
   kept (`Tuplets`). Measures begin without a tuplet, but the notes that are kept
   stay. -/
namespace Plainsong.Abc

/-- How many notes a tuplet lacks, below zero outside of tuplets, and whether notes of it have come. -/
structure Tuplets where
  left : Int := -1
  begun : Bool := false
  deriving DecidableEq

/-- A tuplet of so many notes is announced, a note comes, which may join the one before it, or a measure begins. -/
inductive Turn
  | tuplet (notes : Int)
  | note (joins : Bool)
  | measure

namespace Tuplets

/-- The bracket at a turn, and what follows. -/
def turn (t : Tuplets) : Turn → String × Tuplets
  | .tuplet notes => ("", { t with left := notes })
  | .measure => ("", { t with left := -1 })
  | .note joins =>
    let left := if 0 ≤ t.left && !joins then t.left - 1 else t.left
    if left < 0 then ("", { t with left })
    else if left = 0 then (if joins then "" else "stop", { left, begun := false })
    else (if t.begun then "" else "start", { left, begun := true })

/-- The brackets of some turns, one for each. -/
def brackets : Tuplets → List Turn → List String
  | _, [] => []
  | t, a :: rest => (t.turn a).1 :: brackets (t.turn a).2 rest

/-- Brackets that start and stop by turns, if one is open at first. -/
def Alternate : Bool → List String → Prop
  | _, [] => True
  | isOpen, b :: rest => if b = "" then Alternate isOpen rest else b = (if isOpen then "stop" else "start") ∧ Alternate (!isOpen) rest

/-- A tuplet that lacks one note has begun, and one that lacks none is over. -/
structure Proper (t : Tuplets) : Prop where
  one : t.left = 1 → t.begun = true
  none : t.left = 0 → t.begun = false

variable {t : Tuplets}

theorem proper_turn (t : Tuplets) (a : Turn) (ha : ∀ n, a = .tuplet n → 2 ≤ n) : (t.turn a).2.Proper := by
  cases a with
  | tuplet n =>
    have hn := ha n rfl
    constructor <;> intro hleft <;> simp [Tuplets.turn] at hleft <;> omega
  | measure => constructor <;> simp [Tuplets.turn]
  | note joins =>
    simp only [Tuplets.turn]
    split_ifs <;> constructor <;> intro hleft <;> simp at hleft ⊢ <;> omega

theorem Proper.bracket (h : t.Proper) (a : Turn) :
    (t.turn a).1 = "" ∧ (t.turn a).2.begun = t.begun ∨
    (t.turn a).1 = (if t.begun then "stop" else "start") ∧ (t.turn a).2.begun = !t.begun := by
  obtain ⟨hone, hnone⟩ := h
  cases a with
  | tuplet n => exact .inl ⟨rfl, rfl⟩
  | measure => exact .inl ⟨rfl, rfl⟩
  | note joins =>
    cases joins <;> simp only [Tuplets.turn] <;> grind

theorem Proper.alternate (h : t.Proper) {turns : List Turn} (hturns : ∀ n, .tuplet n ∈ turns → 2 ≤ n) :
    Alternate t.begun (t.brackets turns) := by
  -- the bracket is open exactly while notes are kept
  induction turns generalizing t with
  | nil => trivial
  | cons a rest ih =>
    have hrest := ih (proper_turn t a fun n hn => hturns n (by simp [hn])) fun n hn => hturns n (by simp [hn])
    rw [brackets, Alternate]
    rcases h.bracket a with ⟨hnone, hsame⟩ | ⟨hsome, hother⟩
    · rwa [if_pos hnone, ← hsame]
    · rw [if_neg (by rw [hsome]; split <;> decide), ← hother]
      exact ⟨hsome, hrest⟩

theorem brackets_begun {k : Int} {js : List Bool} (hk : js.count false + 1 = k) :
    brackets { left := k, begun := true } (js.map .note ++ [.note false]) = List.replicate js.length "" ++ ["stop"] := by
  induction js generalizing k with
  | nil =>
    obtain rfl : 1 = k := by simpa using hk
    rfl
  | cons j rest ih =>
    cases j with
    | true =>
      have hpos : ¬ k < 0 ∧ ¬ k = 0 := by simp at hk; omega
      simp [brackets, turn, hpos, List.replicate_succ, ih (by simpa using hk)]
    | false =>
      have hrest : (rest.count false : Int) + 1 = k - 1 := by simp at hk; omega
      have hpos : 0 ≤ k ∧ ¬ k - 1 < 0 ∧ ¬ k - 1 = 0 := by omega
      simp [brackets, turn, hpos, List.replicate_succ, ih hrest]

end Tuplets

namespace Score

variable {s s' s₁ s₂ : Score} {e : Nat} {level : Int} {u : Unit}

def tuplets (s : Score) : Tuplets := { left := s.tupletLeft, begun := !s.tuplet.isEmpty }

theorem eq_modify {f : Score → Score} (h : (modify f : ScoreM Unit).Ran s u s') : s' = f s := by
  cases h
  rfl

theorem tuplets_newElem {x : Xml.Element} (h : (newElem x).Ran s e s') : s'.tupletLeft = s.tupletLeft ∧ s'.tuplet = s.tuplet :=
  ⟨keeps_newElem tupletLeft (fun _ _ => rfl) h, keeps_newElem tuplet (fun _ _ => rfl) h⟩

theorem tuplets_addText {parent : Nat} {tag text : String} (h : (addText parent tag text level).Ran s e s') :
    s'.tupletLeft = s.tupletLeft ∧ s'.tuplet = s.tuplet :=
  ⟨keeps_addText tupletLeft (fun _ _ => rfl) h, keeps_addText tuplet (fun _ _ => rfl) h⟩

theorem tupletLeft_forIn {α : Type} {l : List α} {f : α → PUnit → ScoreM (ForInStep PUnit)} (h : (forIn l PUnit.unit f).Ran s u s')
    (hf : ∀ {a u s r s'}, (f a u).Ran s r s' → s'.tupletLeft = s.tupletLeft) : s'.tupletLeft = s.tupletLeft := by
  induction l generalizing s with
  | nil =>
    obtain ⟨-, rfl⟩ := ScoreM.ran_pure.mp h
    rfl
  | cons a rest ih =>
    rw [List.forIn_cons, ScoreM.ran_bind] at h
    obtain ⟨s₁, r, h₁, h⟩ := h
    cases r with
    | done =>
      obtain ⟨-, rfl⟩ := ScoreM.ran_pure.mp h
      exact hf h₁
    | yield => exact (ih h).trans (hf h₁)

theorem tuplets_nameNormalType {ticks : Int} (h : (nameNormalType ticks level).Ran s u s') : s'.tupletLeft = s.tupletLeft ∧ s'.tuplet = [] := by
  unfold nameNormalType at h
  rw [ScoreM.ran_bind] at h
  obtain ⟨_, _, h₁, h⟩ := h
  extract_lets done named lengths at h
  revert h
  have hdone : ∀ {s u}, (done u).Ran s () s' → s'.tupletLeft = s.tupletLeft ∧ s'.tuplet = [] := fun h => by
    rw [eq_modify h]
    exact ⟨rfl, rfl⟩
  clear_value done
  have hnamed : ∀ {s u}, (named u).Ran s () s' → s'.tupletLeft = s.tupletLeft ∧ s'.tuplet = [] := by
    intro s u h
    simp only [named, ScoreM.ran_bind, ScoreM.ran_get] at h
    obtain ⟨_, _, ⟨rfl, rfl⟩, h⟩ := h
    split at h
    · obtain ⟨s₁, _, h₁, h⟩ := ScoreM.ran_bind.mp h
      have hloop := tupletLeft_forIn h₁ fun h => by
        simp at h
        grind [→ tuplets_addText]
      exact ⟨(hdone h).1.trans hloop, (hdone h).2⟩
    · exact hdone h
  clear_value named
  intro h
  simp at h
  grind -funext [→ eq_modify]

theorem tuplets_countTuplet {n : Node} (h : (countTuplet n).Ran s u s') : s'.tuplet = s.tuplet ∧
    s'.tupletLeft = if 0 ≤ s.tupletLeft && !(n.isGrace || n.has "chord") then s.tupletLeft - 1 else s.tupletLeft := by
  simp [countTuplet] at h
  split at h
  next hcond => simp [eq_modify h, hcond]
  next hcond =>
    subst h
    refine ⟨rfl, (if_neg fun hc => hcond ?_).symm⟩
    simpa [and_assoc] using hc

theorem tuplets_addTuplet {ticks : Int} {bracket : String} (h : (addTuplet e ticks level).Ran s bracket s') : s'.tupletLeft = s.tupletLeft ∧
    (s.tupletLeft < 0 → bracket = "" ∧ s'.tuplet = s.tuplet) ∧
    (s.tupletLeft = 0 → bracket = (if ticks = 0 then "" else "stop") ∧ s'.tuplet = []) ∧
    (0 < s.tupletLeft → bracket = (if s.tuplet = [] then "start" else "") ∧ s'.tuplet ≠ []) := by
  simp [addTuplet, addElem, elem] at h
  split at h
  · grind
  obtain ⟨s₁, x, h₁, s₂, ⟨_, h₂⟩, s₃, ⟨_, h₃⟩, s₄, ⟨_, h₄⟩, s₅, ⟨_, h₅⟩, h⟩ := h
  have hkept : s₅.tupletLeft = s.tupletLeft ∧ s₅.tuplet ≠ [] := by
    rw [eq_modify h₅, eq_modify h₄]
    have := tuplets_newElem h₁
    have := tuplets_addText h₂
    have := tuplets_addText h₃
    exact ⟨by grind, by simp⟩
  clear h₁ h₂ h₃ h₄ h₅
  grind [→ tuplets_nameNormalType]

theorem turn_note {n : Node} {ticks : Int} {bracket : String} (hcount : (countTuplet n).Ran s u s₁)
    (hbetween : s₂.tupletLeft = s₁.tupletLeft ∧ s₂.tuplet = s₁.tuplet) (hadd : (addTuplet e ticks level).Ran s₂ bracket s')
    (hticks : ticks = 0 ↔ n.isGrace || n.has "chord") : s.tuplets.turn (.note (n.isGrace || n.has "chord")) = (bracket, s'.tuplets) := by
  obtain ⟨hkept, hleft⟩ := tuplets_countTuplet hcount
  obtain ⟨hsame, hbelow, hover, hwithin⟩ := tuplets_addTuplet hadd
  generalize (n.isGrace || n.has "chord") = joins at *
  rw [hbetween.1, hleft] at hsame hbelow hover hwithin
  rw [hbetween.2, hkept] at hbelow hwithin
  simp only [tuplets, Tuplets.turn]
  split_ifs <;> grind

end Score

/-- Tuplets of two notes and more have brackets that start and stop by turns, however measures cut them off, and one
    that gets all its notes stops at the last of them; it starts at its first note unless notes of one that was cut off
    are still kept. So it is in the score: a note there makes its turn, and so does what announces a tuplet. -/
theorem tuplet_brackets (t : Tuplets) (turns : List Turn) :
    ((∀ n, .tuplet n ∈ turns → 2 ≤ n) → Tuplets.Alternate false (Tuplets.brackets {} turns)) ∧
    (∀ (n : Int) (js : List Bool), 2 ≤ n → js.count false + 1 = n →
      t.brackets (.tuplet n :: js.map .note ++ [.note false]) =
        "" :: (if t.begun then "" else "start") :: List.replicate (js.length - 1) "" ++ ["stop"]) ∧
    (∀ {s s₁ s₂ s' : Score} {n : Node} {e : Nat} {ticks level : Int} {bracket : String} {u : Unit}, (Score.countTuplet n).Ran s u s₁ →
      s₂.tupletLeft = s₁.tupletLeft ∧ s₂.tuplet = s₁.tuplet → (Score.addTuplet e ticks level).Ran s₂ bracket s' →
      (ticks = 0 ↔ n.isGrace || n.has "chord") → s.tuplets.turn (.note (n.isGrace || n.has "chord")) = (bracket, s'.tuplets)) ∧
    ∀ {s s' : Score} {leaves : List Leaf} {u : Unit}, (Score.startTuplet leaves).Ran s u s' →
      s.tuplets.turn (.tuplet s'.tupletLeft) = ("", s'.tuplets) := by
  refine ⟨fun hturns => Tuplets.Proper.alternate (t := {}) ⟨by decide, by decide⟩ hturns, fun n js hn hjs => ?_, Score.turn_note, fun h => ?_⟩
  · obtain ⟨left, begun⟩ := t
    cases js with
    | nil => simp at hjs; omega
    | cons j rest =>
      cases j with
      | true =>
        have hrest : (rest.count false : Int) + 1 = n := by simpa using hjs
        have hpos : ¬ n < 0 ∧ ¬ n = 0 := by omega
        cases begun <;> simp [Tuplets.brackets, Tuplets.turn, hpos, Tuplets.brackets_begun hrest]
      | false =>
        have hrest : (rest.count false : Int) + 1 = n - 1 := by simp at hjs; omega
        have hpos : 0 ≤ n ∧ ¬ n - 1 < 0 ∧ ¬ n - 1 = 0 := by omega
        cases begun <;> simp [Tuplets.brackets, Tuplets.turn, hpos, Tuplets.brackets_begun hrest]
  · cases h
    rfl

/-- A score at the start of a measure. -/
def Score.untimed : Score := { converter := {}, tupletLeft := -1 }

/-- Three notes, of which a note joins the second; a note outside of tuplets; and a tuplet announced. -/
theorem tuplet_brackets_three :
    Tuplets.Alternate false (Tuplets.brackets {} [.tuplet 3, .note false, .note false, .note true, .note false]) ∧
    Tuplets.brackets {} [.tuplet 3, .note false, .note false, .note true, .note false] = ["", "start", "", "", "stop"] ∧
    Score.untimed.tuplets.turn (.note false) = ("", {}) ∧ Score.untimed.tuplets.turn (.tuplet 3) = ("", { left := 3 }) := by
  obtain ⟨halternate, hall, hnote, hstart⟩ := tuplet_brackets {} [.tuplet 3, .note false, .note false, .note true, .note false]
  have hcount : (Score.countTuplet { name := "note" }).Ran Score.untimed () Score.untimed := rfl
  have hadd : (Score.addTuplet 0 1 0).Ran Score.untimed "" Score.untimed := rfl
  have hthree : (Score.startTuplet [.int 3]).Ran Score.untimed () { Score.untimed with tupletCount := 3, tupletInto := 2, tupletLeft := 3 } := rfl
  exact ⟨halternate (by simp), hall 3 [false, false, true] (by decide) (by decide), hnote hcount ⟨rfl, rfl⟩ hadd (by decide), hstart hthree⟩

/-- A tuplet of which a measure takes only two notes, and the next one with all its notes: it has no start. -/
theorem tuplet_after_cut_off_lacks_start :
    Tuplets.brackets {} [.tuplet 3, .note false, .note false, .measure, .tuplet 3, .note false, .note false, .note false] =
      ["", "start", "", "", "", "", "", "stop"] := by
  decide

end Plainsong.Abc
