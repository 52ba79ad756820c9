import Plainsong.Proofs.Abc.Alterations
import Plainsong.Proofs.Abc.Broken
/- How long notes last. Four whole notes of 2520 parts each are divided evenly by every power of two
   up to 32, so notes of such lengths last exactly as long as written; a note of an odd number
   of sixty-fourths lasts half a part less (`lengths_counted`). -/
namespace Plainsong.Abc.Score

variable {s : Score} {n : Node}

/-- How many whole notes a node lasts by the unit in force. -/
def wholeNotes (s : Score) (n : Node) : ℚ := n.time * s.unitNow.1 / s.unitNow.2

/-- A node that lasts some time, and not as a rest for a whole measure. -/
def Timed (n : Node) : Prop := (∃ d ∈ n.duration?, 0 < d.2) ∧ ¬ (n.name = "rest" ∧ ("Z" ∈ n.texts ∨ "X" ∈ n.texts))

theorem lowest_eq {a b : Int} (hb : 0 < b) : lowest a b = pure (((a : ℚ) / b).num, (((a : ℚ) / b).den : Int)) := by
  rw [lowest, simplify_eq hb]
  rfl

/-- The parts that a length in lowest terms is counted in. -/
theorem fdiv_of_den_eq_pow {q : ℚ} {k : Nat} (hk : k ≤ 6) (hq : q.den = 2 ^ k) :
    ((4 * divisions * q.num).fdiv q.den : ℚ) = 4 * divisions * q - if q.den = 64 then 1 / 2 else 0 := by
  have hodd : k = 6 → q.num % 2 = 1 := by
    rintro rfl
    have hcoprime : q.num.natAbs.Coprime 2 := q.reduced.coprime_dvd_right (by rw [hq]; decide)
    rw [Nat.coprime_two_right] at hcoprime
    grind
  have hparts : 2 * 2 ^ k * (4 * divisions * q.num).fdiv q.den = 2 * (4 * divisions * q.num) - if k = 6 then 64 else 0 := by
    rw [hq, Int.fdiv_eq_ediv_of_nonneg _ (by positivity)]
    interval_cases k <;> simp [divisions] at hodd ⊢ <;> omega
  have hrat : 2 * 2 ^ k * ((4 * divisions * q.num).fdiv q.den : ℚ) = 2 * (4 * divisions * q.num) - if k = 6 then 64 else 0 := by
    exact_mod_cast hparts
  have hnum : (q.num : ℚ) = q * 2 ^ k := by
    have := Rat.mul_den_eq_num q
    rw [← this, hq]
    push_cast
    rfl
  rw [hnum] at hrat
  have hsame : q.den = 64 ↔ k = 6 := by
    rw [hq]
    exact (Nat.pow_right_injective (le_refl 2)).eq_iff (b := 6)
  simp only [hsame]
  by_cases h : k = 6
  · subst h
    norm_num at hrat ⊢
    linarith
  · rw [if_neg h, sub_zero] at hrat ⊢
    exact mul_left_cancel₀ (show (2 * 2 ^ k : ℚ) ≠ 0 by positivity) (by rw [hrat]; ring)

theorem ran_lengthOf (htremolo : s.inTremolo = false) (hunit : 0 < s.unitNow.2) (hn : Timed n) {k : Nat} (hk : k ≤ 6)
    (hden : (s.wholeNotes n).den = 2 ^ k) : ∃ l, (lengthOf n).Ran s l s ∧
      (l.ticks : ℚ) = 4 * divisions * s.wholeNotes n - if (s.wholeNotes n).den = 64 then 1 / 2 else 0 := by
  obtain ⟨⟨⟨num, den⟩, hd, hpos⟩, hrest⟩ := hn
  have hq : ((num * s.unitNow.1 : Int) : ℚ) / (den * s.unitNow.2 : Int) = s.wholeNotes n := by
    simp only [wholeNotes, Node.time, Option.mem_def.mp hd]
    push_cast
    field_simp
  have hle : (s.wholeNotes n).den ≤ 64 := hden ▸ Nat.pow_le_pow_right (by decide) hk
  have hlimit : limitDenominator (s.wholeNotes n).num (s.wholeNotes n).den = pure ((s.wholeNotes n).num, ((s.wholeNotes n).den : Int)) := by
    rw [limitDenominator, if_neg (by exact_mod_cast Nat.not_lt.mpr hle)]
  have hquotient (a : Int) : quotient a (s.wholeNotes n).den = pure (a.fdiv (s.wholeNotes n).den) := by
    rw [quotient, if_neg (by exact_mod_cast (s.wholeNotes n).den_ne_zero)]
  have hlowest := lowest_eq (a := num * s.unitNow.1) (mul_pos hpos hunit)
  rw [hq] at hlowest
  have hpositive : 0 < ((s.wholeNotes n).den : Int) * 4 := by positivity
  suffices ∃ l, (lengthOf n).Ran s l s ∧ l.ticks = (4 * divisions * (s.wholeNotes n).num).fdiv (s.wholeNotes n).den by
    obtain ⟨l, hran, hticks⟩ := this
    exact ⟨l, hran, by rw [hticks, fdiv_of_den_eq_pow hk hden]⟩
  simp [lengthOf, Option.mem_def.mp hd, htremolo, hpos.ne', hlowest, hlimit, if_neg hrest, hquotient, lowest_eq hpositive]

/-- Outside tremolos, notes whose lengths are some power-of-two part of a whole note, up to a sixty-fourth, are counted one by one in the
    parts of a quarter: exactly, but that half a part is lost of a length in sixty-fourths. -/
theorem lengths_counted (s : Score) (htremolo : s.inTremolo = false) (hunit : 0 < s.unitNow.2) (ns : List Node)
    (hns : ∀ n ∈ ns, Timed n ∧ ∃ k ≤ 6, (s.wholeNotes n).den = 2 ^ k) : ∃ ls, (ns.mapM lengthOf).Ran s ls s ∧
      (ls.map fun l => (l.ticks : ℚ)) = ns.map (fun n => 4 * divisions * s.wholeNotes n - if (s.wholeNotes n).den = 64 then 1 / 2 else 0) ∧
      ((∀ n ∈ ns, (s.wholeNotes n).den ≠ 64) → (ls.map fun l => (l.ticks : ℚ)).sum = 4 * divisions * (ns.map s.wholeNotes).sum) := by
  have hlist : ∃ ls, (ns.mapM lengthOf).Ran s ls s ∧
      (ls.map fun l => (l.ticks : ℚ)) = ns.map fun n => 4 * divisions * s.wholeNotes n - if (s.wholeNotes n).den = 64 then 1 / 2 else 0 := by
    induction ns with
    | nil => exact ⟨[], by simp⟩
    | cons n ns ih =>
      obtain ⟨⟨hn, k, hk, hden⟩, hns⟩ := List.forall_mem_cons.mp hns
      obtain ⟨l, hl, hticks⟩ := ran_lengthOf htremolo hunit hn hk hden
      obtain ⟨ls, hls, hmap⟩ := ih hns
      exact ⟨l :: ls, by simpa [List.mapM_cons] using ⟨s, hl, hls⟩, by rw [List.map_cons, List.map_cons, hticks, hmap]⟩
  obtain ⟨ls, hran, hmap⟩ := hlist
  refine ⟨ls, hran, hmap, fun h => ?_⟩
  rw [hmap, List.map_congr_left fun n hn => by rw [if_neg (h n hn), sub_zero], List.sum_map_mul_left]

/-- A sixty-fourth, which is an eighth of an eighth. -/
def sixtyFourth : Node := (noteOf [.text "C", .int 0] 1).withDuration 1 8

theorem lengths_counted_two : ∃ ls, ([sixtyFourth, noteOf [.text "C", .int 0] 1].mapM lengthOf).Ran { converter := {} } ls { converter := {} } ∧
    (ls.map fun l => (l.ticks : ℚ)) = [157, 1260] := by
  obtain ⟨ls, hran, hmap, -⟩ := lengths_counted { converter := {} } rfl (by decide) [sixtyFourth, noteOf [.text "C", .int 0] 1]
    (List.forall_mem_cons.mpr ⟨⟨⟨⟨(1, 8), rfl, by decide⟩, by decide⟩, 6, le_rfl, by decide +kernel⟩,
      List.forall_mem_singleton.mpr ⟨⟨⟨(1, 1), rfl, by decide⟩, by decide⟩, 3, by decide, by decide +kernel⟩⟩)
  exact ⟨ls, hran, hmap.trans (by decide +kernel)⟩

/-- The durations that the notes of a measure are written with. -/
def writtenDurations (nodes : List Node) : Option (List (Option String)) :=
  match (writePart [nodes] "P1" 1 [] 0 false).run { converter := {} } with
  | .ok p s => some ((s.tree.findAll p ["measure", "note", "duration"]).map fun e => (s.tree.get e).text)
  | .error .. => none

/-- Two sixty-fourths last 315 parts, but are written with 157 each. -/
theorem sixty_fourths_written_short : writtenDurations [sixtyFourth, sixtyFourth] = some [some "157", some "157"] ∧
    4 * divisions * (wholeNotes { converter := {} } sixtyFourth + wholeNotes { converter := {} } sixtyFourth) = 315 := by
  decide +kernel

end Plainsong.Abc.Score
