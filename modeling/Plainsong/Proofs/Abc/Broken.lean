import Mathlib
import Plainsong.Abc.Rhythm
/- Broken rhythm. A sign between two notes, chords or rests lengthens one of them and shortens
   the other. The scan of a measure remembers one timed node and one sign; so in a measure made of
   single nodes and of pairs with a sign between them, each sign changes exactly its pair
   (`broken_rhythm`), and pairs of equal notes last as long as before. -/
namespace Plainsong.Abc

open List Int

/-! ## Lowest terms -/

theorem commonDivisorAt_spec {fuel : Nat} {a b : Int} (h : b.natAbs < fuel) :
    (commonDivisorAt fuel a b).natAbs = Int.gcd a b ∧ (0 < b → 0 < commonDivisorAt fuel a b) := by
  induction fuel generalizing a b with
  | zero => omega
  | succ fuel ih =>
    rw [commonDivisorAt]
    split
    next hb => simp [hb]
    next hb =>
      have hmod : a.fmod b = a - b * a.fdiv b := fmod_def a b
      have hlt : (a.fmod b).natAbs < b.natAbs := by
        rcases lt_or_gt_of_ne hb with hneg | hpos
        · have hneg' : 0 < -b := by omega
          have := fmod_lt_of_pos (-a) hneg'
          have := fmod_nonneg_of_pos (-a) hneg'
          rw [Int.neg_fmod_neg] at *
          omega
        · have := fmod_lt_of_pos a hpos
          have := fmod_nonneg_of_pos a hpos
          omega
      obtain ⟨hgcd, hpos⟩ := ih (a := b) (b := a.fmod b) (by omega)
      refine ⟨?_, fun hb' => ?_⟩
      · rw [hgcd, hmod, Int.gcd_comm a]
        simp
      · rcases (fmod_nonneg_of_pos a hb').eq_or_lt with hzero | hmore
        · rw [← hzero]
          cases fuel <;> simpa [commonDivisorAt] using hb'
        · exact hpos hmore

theorem commonDivisor_spec (a b : Int) : (commonDivisor a b).natAbs = Int.gcd a b ∧ (0 < b → 0 < commonDivisor a b) :=
  commonDivisorAt_spec (Nat.lt_succ_self _)

theorem simplify_eq {a b : Int} (hb : 0 < b) : simplify a b = .ok (((a : ℚ) / b).num, (((a : ℚ) / b).den : Int)) := by
  have hd : commonDivisor a b = Int.gcd a b := by
    have := (commonDivisor_spec a b).1
    have := (commonDivisor_spec a b).2 hb
    omega
  have hne : (Int.gcd a b : Int) ≠ 0 := by simp [Int.gcd_eq_zero_iff, hb.ne']
  rw [simplify, hd, if_neg hne, ← Rat.divInt_eq_div, Rat.num_divInt, Rat.den_divInt, if_neg hb.ne', sign_eq_one_of_pos hb, one_mul,
    Int.gcd_comm b, fdiv_eq_ediv_of_nonneg _ (by positivity), fdiv_eq_ediv_of_nonneg _ (by positivity)]
  simp [abs_of_pos hb]

/-! ## Nodes that last -/

namespace Node

/-- How long a node lasts. -/
def time (n : Node) : ℚ := match n.duration? with
  | some (num, den) => num / den
  | none => 0

def lasting (n : Node) (q : ℚ) : Node := n.withDuration q.num q.den

def isSign (n : Node) : Bool := n.name = "broken"

/-- A sign is one of the four, and what is timed lasts a time above zero. -/
abbrev Fit (n : Node) : Prop :=
  (n.isSign = true → n.text ∈ [">", "<", ">>", "<<"]) ∧ (n.isTimed = true → ∃ d ∈ n.duration?, 0 < d.1 ∧ 0 < d.2)

theorem get_put (n : Node) (key : String) (ns : List Node) : (n.put key ns).get key = ns := by
  obtain ⟨_, _, _, children, _, _, _⟩ := n
  simp only [put, has, get]
  induction children with
  | nil => simp
  | cons p rest ih => grind

@[simp] theorem duration?_withDuration (n : Node) (num den : Int) : (n.withDuration num den).duration? = some (num, den) := by
  simp [duration?, withDuration, one?, get_put, duration, Leaf.asInt]

@[simp] theorem name_withDuration (n : Node) (num den : Int) : (n.withDuration num den).name = n.name := by
  unfold withDuration put
  split <;> rfl

@[simp] theorem time_lasting (n : Node) (q : ℚ) : (n.lasting q).time = q := by
  simp [time, lasting, Rat.num_div_den]

@[simp] theorem isTimed_lasting (n : Node) (q : ℚ) : (n.lasting q).isTimed = n.isTimed := by
  simp [isTimed, lasting]

end Node

/-! ## The parts of a measure -/

/-- The parts by which a sign multiplies the node before it and the one behind it. -/
def shares : String → ℚ × ℚ
  | ">" => (3 / 2, 1 / 2)
  | ">>" => (7 / 4, 1 / 4)
  | "<" => (1 / 2, 3 / 2)
  | "<<" => (1 / 4, 7 / 4)
  | _ => (1, 1)

theorem shares_add (s : String) : (shares s).1 + (shares s).2 = 2 := by
  unfold shares
  split <;> norm_num

theorem brokenFactors?_eq {s : String} (hs : s ∈ [">", "<", ">>", "<<"]) : ∃ f g : Int × Int, brokenFactors? s = some (f, g) ∧
    (0 < f.1 ∧ 0 < f.2 ∧ (f.1 / f.2 : ℚ) = (shares s).1) ∧ 0 < g.1 ∧ 0 < g.2 ∧ (g.1 / g.2 : ℚ) = (shares s).2 := by
  simp only [mem_cons, not_mem_nil, or_false] at hs
  rcases hs with rfl | rfl | rfl | rfl <;> refine ⟨_, _, rfl, ?_⟩ <;> norm_num [shares]

theorem stretch_eq {n : Node} {f : Int × Int} {q : ℚ} (hn : n.Fit) (ht : n.isTimed = true) (hf : 0 < f.1 ∧ 0 < f.2 ∧ (f.1 / f.2 : ℚ) = q) :
    n.stretch f = .ok (n.lasting (n.time * q)) := by
  obtain ⟨⟨num, den⟩, hd, -, hden⟩ := hn.2 ht
  rw [Option.mem_def] at hd
  have hq : ((f.1 * num : Int) : ℚ) / (f.2 * den : Int) = n.time * q := by
    simp only [Node.time, hd, ← hf.2.2]
    push_cast
    field_simp
  simp only [Node.stretch, hd, simplify_eq (mul_pos hf.2.1 hden), hq]
  rfl

/-- A node that no sign is next to, or two timed nodes with one sign among the nodes between them. -/
inductive Block
  | single (x : Node) (hx : x.isSign = false)
  | pair (x y sign : Node) (between : List Node) (hx : x.isTimed = true) (hy : y.isTimed = true)
      (hbetween : ∀ z ∈ between, z.isTimed = false) (hsign : between.filter (·.isSign) = [sign])

namespace Block

def nodes : Block → List Node
  | single x _ => [x]
  | pair x y _ between .. => x :: between ++ [y]

def outcome : Block → List Node
  | single x _ => [x]
  | pair x y sign between .. =>
    x.lasting (x.time * (shares sign.text).1) :: between.filter (!·.isSign) ++ [y.lasting (y.time * (shares sign.text).2)]

/-- The nodes of a pair last equally long. -/
def Even : Block → Prop
  | single .. => True
  | pair x y .. => x.time = y.time

end Block

def totalTime (xs : List Node) : ℚ := ((xs.filter (·.isTimed)).map Node.time).sum

theorem totalTime_cons (x : Node) (xs : List Node) : totalTime (x :: xs) = (if x.isTimed then x.time else 0) + totalTime xs := by
  cases hx : x.isTimed <;> simp [totalTime, hx]

theorem totalTime_append (a b : List Node) : totalTime (a ++ b) = totalTime a + totalTime b := by simp [totalTime]

theorem totalTime_filter (xs : List Node) : totalTime (xs.filter (!·.isSign)) = totalTime xs := by
  rw [totalTime, filter_filter, totalTime]
  congr 2
  exact filter_congr fun x _ => by grind [Node.isSign, Node.isTimed]

theorem Block.totalTime_outcome {k : Block} (heven : k.Even) : totalTime k.outcome = totalTime k.nodes := by
  cases k with
  | single => rfl
  | pair x y sign between hx hy =>
    have heven : x.time = y.time := heven
    simp only [outcome, nodes, cons_append, totalTime_cons, totalTime_append, totalTime_filter, Node.isTimed_lasting, Node.time_lasting, hx, hy, heven, if_true]
    linear_combination y.time * shares_add sign.text

/-! ## The scan -/

variable {b : Breaking} {xs : List Node} {x : Node}

theorem foldl_untimed (hb : b.fault = none) (hxs : ∀ z ∈ xs, z.isTimed = false) : xs.foldl Breaking.step b = { b with
    out := b.out ++ (xs.filter (!·.isSign)).toArray, sign := ((xs.filter (·.isSign)).map Node.text).getLast?.getD b.sign } := by
  induction xs generalizing b with
  | nil => simp
  | cons x xs ih =>
    have hx := hxs x (by simp)
    cases hs : x.isSign with
    | true =>
      have hstep : b.step x = { b with sign := x.text } := by simp_all [Breaking.step, Node.isSign]
      rw [foldl_cons, ih (b := b.step x) (by rw [hstep, hb]) fun z hz => hxs z (by simp [hz]), hstep]
      simp [hs, List.getLast?_cons]
    | false =>
      have hstep : b.step x = { b with out := b.out.push x } := by simp_all [Breaking.step, Node.isSign]
      rw [foldl_cons, ih (b := b.step x) (by rw [hstep, hb]) fun z hz => hxs z (by simp [hz]), hstep]
      simp [hs]

theorem step_timed (hb : b.fault = none) (hsign : b.sign = "") (hx : x.isTimed = true) :
    b.step x = { b with out := b.out.push x, previous := some b.out.size } := by
  simp [Breaking.step, hb, hsign, hx]

theorem Block.foldl (k : Block) (hfit : ∀ z ∈ k.nodes, z.Fit) (hb : b.fault = none) (hsign : b.sign = "") :
    ∃ p, k.nodes.foldl Breaking.step b = { b with out := b.out ++ k.outcome.toArray, previous := p } := by
  cases k with
  | single x hx =>
    cases ht : x.isTimed with
    | true => exact ⟨_, by simpa [nodes, outcome] using step_timed hb hsign ht⟩
    | false =>
      have hstep : [x].foldl Breaking.step b = _ := foldl_untimed hb (by simpa using ht)
      exact ⟨b.previous, by simpa [nodes, outcome, hx] using hstep⟩
  | pair x y sign between hx hy hbetween hs =>
    have hmem : sign ∈ between.filter (·.isSign) := by simp [hs]
    obtain ⟨hmem, hsign'⟩ := mem_filter.mp hmem
    obtain ⟨f, g, hfactors, hf, hg⟩ := brokenFactors?_eq ((hfit sign (by simp [nodes, hmem])).1 hsign')
    have hxs := stretch_eq (hfit x (by simp [nodes])) hx hf
    have hys := stretch_eq (hfit y (by simp [nodes])) hy hg
    have htext : sign.text ≠ "" := by
      intro h
      rw [h] at hfactors
      cases hfactors
    obtain ⟨out, previous, pending, warnings, fault⟩ := b
    obtain ⟨rfl, rfl⟩ : fault = none ∧ pending = "" := ⟨hb, hsign⟩
    refine ⟨some out.size, ?_⟩
    rw [nodes, cons_append, foldl_cons, foldl_append, step_timed rfl rfl hx, foldl_untimed rfl hbetween, hs]
    simp [outcome, Breaking.step, Breaking.settle, hy, htext, hfactors, hxs, hys]

theorem Block.foldl_flatMap {ks : List Block} (hfit : ∀ z ∈ ks.flatMap nodes, z.Fit) (hb : b.fault = none) (hsign : b.sign = "") :
    ∃ p, (ks.flatMap nodes).foldl Breaking.step b = { b with out := b.out ++ (ks.flatMap outcome).toArray, previous := p } := by
  induction ks generalizing b with
  | nil => exact ⟨b.previous, by simp⟩
  | cons k ks ih =>
    obtain ⟨p, hp⟩ := k.foldl (fun z hz => hfit z (by simp [hz])) hb hsign
    obtain ⟨q, hq⟩ := ih (b := { b with out := b.out ++ k.outcome.toArray, previous := p }) (fun z hz => hfit z (by
      rw [flatMap_cons]
      exact mem_append_right _ hz)) hb hsign
    exact ⟨q, by simp [foldl_append, hp, hq]⟩

/-- A measure: the nodes up to a first timed node that has no other sign behind it, or none; then blocks; then no timed nodes. -/
structure Composition where
  opening : List Node
  blocks : List Block
  trail : List Node
  hopening : opening = [] ∨ ∃ l x, opening = l ++ [x] ∧ x.isTimed = true ∧ ∀ z ∈ l, z.isTimed = false
  htrail : ∀ z ∈ trail, z.isTimed = false

namespace Composition

def nodes (m : Composition) : List Node := m.opening ++ m.blocks.flatMap Block.nodes ++ m.trail

def outcome (m : Composition) : List Node :=
  m.opening.filter (!·.isSign) ++ m.blocks.flatMap Block.outcome ++ m.trail.filter (!·.isSign)

theorem foldl_opening (m : Composition) : ∃ b : Breaking, m.opening.foldl Breaking.step {} = b ∧ b.fault = none ∧ b.sign = "" ∧
    b.out = (m.opening.filter (!·.isSign)).toArray := by
  rcases m.hopening with h | ⟨l, x, h, hx, hl⟩
  · exact ⟨_, rfl, by simp [h]⟩
  · have hsign : x.isSign = false := by
      by_contra hs
      simp_all [Node.isSign, Node.isTimed]
    refine ⟨_, rfl, ?_⟩
    rw [h, foldl_append, foldl_untimed rfl hl]
    simp only [foldl_cons, foldl_nil, Breaking.step, Breaking.settle, hx]
    split_ifs <;> simp_all

theorem breakRhythm_nodes (m : Composition) (hfit : ∀ z ∈ m.nodes, z.Fit) :
    (breakRhythm m.nodes).fault = none ∧ (breakRhythm m.nodes).out.toList = m.outcome := by
  obtain ⟨b, hb, hfault, hsign, hout⟩ := m.foldl_opening
  have hblocks : ∀ z ∈ m.blocks.flatMap Block.nodes, z.Fit := fun z hz => hfit z (by simp only [nodes]; grind)
  obtain ⟨p, hp⟩ := Block.foldl_flatMap hblocks hfault hsign
  have htrail := foldl_untimed (b := { b with out := b.out ++ (m.blocks.flatMap Block.outcome).toArray, previous := p }) hfault m.htrail
  rw [breakRhythm, nodes, foldl_append, foldl_append, hb, hp, htrail, outcome]
  exact ⟨hfault, by simp [hout]⟩

theorem totalTime_outcome (m : Composition) (heven : ∀ k ∈ m.blocks, k.Even) : totalTime m.outcome = totalTime m.nodes := by
  have hblocks : totalTime (m.blocks.flatMap Block.outcome) = totalTime (m.blocks.flatMap Block.nodes) := by
    generalize m.blocks = ks at heven
    induction ks with
    | nil => rfl
    | cons k ks ih =>
      rw [flatMap_cons, flatMap_cons, totalTime_append, totalTime_append, Block.totalTime_outcome (heven k (by simp)),
        ih fun k hk => heven k (by simp [hk])]
  simp only [outcome, nodes, totalTime_append, totalTime_filter, hblocks]

end Composition

/-- In a measure in which no timed node is next to two signs, a sign between two of them multiplies their durations, given in
    lowest terms, by its two parts, and a sign without a timed node before or behind it does nothing; the signs go, and all
    else stays in order. If the nodes of each pair last equally long, so does the measure. -/
theorem broken_rhythm (m : Composition) (hfit : ∀ x ∈ m.nodes, x.Fit) :
    (breakRhythm m.nodes).fault = none ∧ (breakRhythm m.nodes).out.toList = m.outcome ∧
      ((∀ k ∈ m.blocks, k.Even) → totalTime (breakRhythm m.nodes).out.toList = totalTime m.nodes) := by
  obtain ⟨hfault, hout⟩ := m.breakRhythm_nodes hfit
  exact ⟨hfault, hout, fun heven => by rw [hout, m.totalTime_outcome heven]⟩

/-- A note of so many units. -/
def Node.ofUnits (n : Int) : Node := { name := "note", children := [("dur", [.duration n 1])] }

def Node.broken (sign : String) : Node := { name := "broken", leaves := [.text sign] }

/-- A sign that nothing stands before, two notes with a sign and a slur between them, and a sign that nothing stands behind. -/
def dottedMeasure : Composition where
  opening := [.broken "<", .ofUnits 3]
  blocks := [.pair (.ofUnits 2) (.ofUnits 2) (.broken ">>") [.broken ">>", { name := "slur_beg" }] rfl rfl (by decide) rfl]
  trail := [.broken ">"]
  hopening := .inr ⟨[.broken "<"], .ofUnits 3, rfl, rfl, by decide⟩
  htrail := by decide

theorem broken_rhythm_dotted : (breakRhythm dottedMeasure.nodes).out.toList = dottedMeasure.outcome ∧
    dottedMeasure.outcome.map Node.time = [3, 7 / 2, 0, 1 / 2] ∧ totalTime (breakRhythm dottedMeasure.nodes).out.toList = 7 := by
  obtain ⟨-, hout, htotal⟩ := broken_rhythm dottedMeasure (by decide +kernel)
  refine ⟨hout, by decide +kernel, (htotal (by simp [dottedMeasure, Block.Even])).trans (by decide +kernel)⟩

/-- A sign before the first note of a measure does not change the note behind it. -/
theorem sign_without_note_before : (breakRhythm [.broken ">", .ofUnits 1]).out.toList.map Node.time ≠ [(Node.ofUnits 1).time * (shares ">").2] := by
  decide +kernel

end Plainsong.Abc
