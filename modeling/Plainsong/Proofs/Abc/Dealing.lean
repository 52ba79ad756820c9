import Mathlib
import Plainsong.Abc.Lyrics
/- Lines of lyrics dealt out in order. While a verse is dealt out, a mark moves along it (`advance`): a
   note that takes a syllable takes what stands at the mark, and moves the mark on unless it is at a
   bar; a right bar line moves it over a bar. `place` is where the mark stands at each node of the
   music, and what a note takes is what stands there (`dealLyrics_eq`). The rest follows from how the
   mark moves: the syllables taken so far are those before the mark (`filter_taken`), and a mark at a
   bar stays there up to a right bar line (`place_eq_of_bar`). -/
namespace Plainsong.Abc

open List Option

namespace Node

/-- A bar in a line of lyrics. -/
def isBar (s : Node) : Bool := s.name = "sbar"

/-- A right bar line in the music. -/
def isRightBar (n : Node) : Bool := n.name = "rbar"

end Node

/-! ## The mark -/

/-- The mark of a verse stands at a bar. -/
def atBar (verse : List Node) (mark : Nat) : Bool := (verse[mark]?).any Node.isBar

/-- Where the mark of a verse stands behind a node. -/
def advance (verse : List Node) (mark : Nat) (n : Node) : Nat :=
  if n.takesSyllable then (if atBar verse mark then mark else mark + 1)
  else if n.isRightBar && atBar verse mark then mark + 1
  else mark

/-- Where the mark of a verse stands at the `i`-th node of the music. -/
def place (verse music : List Node) (i : Nat) : Nat := (music.take i).foldl (advance verse) 0

/-- What the verse has at the `i`-th node of the music; nothing behind its end. -/
def taken? (verse music : List Node) (i : Nat) : Option Node := verse[place verse music i]?

/-- Whether the `i`-th node of the music is a note that takes a syllable. -/
def takesAt (music : List Node) (i : Nat) : Bool := (music[i]?).any Node.takesSyllable

/-- What the notes before the `j`-th node take of a verse, in the order of the notes. -/
def taken (verse music : List Node) (j : Nat) : List Node :=
  ((List.range j).filter (takesAt music)).filterMap (taken? verse music)

variable {verse music : List Node} {i j k : Nat} {n : Node}

theorem place_succ (h : music[j]? = some n) : place verse music (j + 1) = advance verse (place verse music j) n := by
  rw [place, take_add_one, h, foldl_append]
  rfl

theorem place_end (h : music[j]? = none) : place verse music (j + 1) = place verse music j := by
  rw [place, take_add_one, h, toList_none, append_nil, place]

theorem dealLine_cons (n : Node) (rest verse : List Node) (mark : Nat) :
    dealLine (n :: rest) (verse.drop mark) =
      (if n.takesSyllable then n.sing ((verse[mark]?).getD filler).unescaped else n) ::
        dealLine rest (verse.drop (advance verse mark n)) := by
  rw [advance, atBar]
  cases hverse : verse.drop mark with
  | nil =>
    have hget : verse[mark]? = none := List.getElem?_eq_none (drop_eq_nil_iff.mp hverse)
    have hnext : verse.drop (mark + 1) = [] := by rw [← drop_drop, hverse, drop_nil]
    rw [hget, any_none, Bool.and_false]
    by_cases htakes : n.takesSyllable = true <;> simp [dealLine, htakes, hverse, hnext]
  | cons s more =>
    have hget : verse[mark]? = some s := by rw [← Nat.add_zero mark, ← List.getElem?_drop, hverse]; rfl
    have hnext : verse.drop (mark + 1) = more := by rw [← drop_drop, hverse]; rfl
    rw [hget, any_some, Node.isBar, Node.isRightBar]
    by_cases htakes : n.takesSyllable = true
    · by_cases hbar : s.name = "sbar" <;> simp [dealLine, htakes, hbar, hverse, hnext]
    · by_cases hright : n.name = "rbar" <;> by_cases hbar : s.name = "sbar" <;>
        simp [dealLine, htakes, hright, hbar, hverse, hnext]

theorem dealLine_eq (music verse : List Node) :
    dealLine music verse = music.mapIdx fun i n =>
      if n.takesSyllable then n.sing ((taken? verse music i).getD filler).unescaped else n := by
  have hdrop : ∀ mark, dealLine music (verse.drop mark) = music.mapIdx fun i n =>
      if n.takesSyllable then n.sing ((verse[(music.take i).foldl (advance verse) mark]?).getD filler).unescaped else n := by
    induction music with
    | nil => exact fun _ => rfl
    | cons n rest ih => exact fun mark => by rw [dealLine_cons, ih, mapIdx_cons]; rfl
  exact hdrop 0

/-! ## All lines -/

/-- What of a node moves the mark. -/
def Node.moves (n : Node) : Bool × Bool := (n.takesSyllable, n.isRightBar)

theorem place_congr {music' : List Node} (h : ∀ i : Nat, (music'[i]?).map Node.moves = (music[i]?).map Node.moves) (i : Nat) :
    place verse music' i = place verse music i := by
  induction i with
  | zero => rfl
  | succ i ih =>
    cases hn : music[i]? with
    | none =>
      have hn' : music'[i]? = none := map_eq_none_iff.mp ((h i).trans (by rw [hn]; rfl))
      rw [place_end hn, place_end hn', ih]
    | some n =>
      obtain ⟨n', hn', hmoves⟩ := map_eq_some_iff.mp ((h i).trans (by rw [hn]; rfl))
      obtain ⟨htakes, hright⟩ := Prod.mk.inj hmoves
      rw [place_succ hn, place_succ hn', ih, advance, advance, htakes, hright]

/-- The `i`-th node of the music with what it is given of every verse. -/
def given (verses : List (List Node)) (music : List Node) (i : Nat) (n : Node) : Node :=
  if n.takesSyllable then
    { n with items := n.items ++ verses.map fun verse => .inl ((taken? verse music i).getD filler).unescaped }
  else n

theorem moves_given (verses : List (List Node)) (music : List Node) (i : Nat) (n : Node) :
    (given verses music i n).moves = n.moves := by
  rw [given]
  split <;> rfl

theorem dealLyrics_eq (music : List Node) (verses : List (List Node)) :
    dealLyrics music verses = music.mapIdx (given verses music) := by
  induction verses using List.reverseRecOn with
  | nil =>
    have hid : given [] music = fun _ n => n := by
      funext i n
      cases n
      rw [given, map_nil, append_nil, ite_self]
    rw [hid]
    exact (mapIdx_eq_iff.mpr fun _ => Option.map_id'.symm).symm
  | append_singleton verses verse ih =>
    have hplace : ∀ i, place verse (music.mapIdx (given verses music)) i = place verse music i := place_congr fun i => by
      rw [List.getElem?_mapIdx, Option.map_map]
      exact Option.map_congr fun n _ => moves_given verses music i n
    have hstep : dealLyrics music (verses ++ [verse]) = dealLine (dealLyrics music verses) verse := foldl_concat ..
    rw [hstep, ih, dealLine_eq, mapIdx_mapIdx]
    congr 1
    funext i n
    have htakes : (given verses music i n).takesSyllable = n.takesSyllable := congrArg Prod.fst (moves_given verses music i n)
    rw [Function.comp_apply, htakes, taken?, hplace, ← taken?, given, given]
    split
    · simp [Node.sing]
    · rfl

/-! ## Order -/

theorem taken_succ (verse music : List Node) (j : Nat) :
    taken verse music (j + 1) = taken verse music j ++ if takesAt music j then (taken? verse music j).toList else [] := by
  rw [taken, range_succ, filter_append, filterMap_append, taken, filter_singleton]
  cases takesAt music j with
  | false => rfl
  | true => cases htaken : taken? verse music j <;> simp [htaken]

theorem filter_taken (verse music : List Node) (j : Nat) :
    (taken verse music j).filter (!·.isBar) = (verse.take (place verse music j)).filter (!·.isBar) := by
  induction j with
  | zero => rfl
  | succ j ih =>
    rw [taken_succ, filter_append, ih, takesAt]
    cases hn : music[j]? with
    | none => simp [place_end hn]
    | some n =>
      -- the mark moves over one object at most, and over a syllable only where a note takes it
      rw [place_succ hn, any_some, advance, atBar, taken?]
      cases hs : verse[place verse music j]? with
      | none =>
        have hend : ∀ m, place verse music j ≤ m → verse.take m = verse := fun m hm =>
          take_of_length_le ((List.getElem?_eq_none_iff.mp hs).trans hm)
        cases n.takesSyllable <;> simp [hend]
      | some s =>
        have hnext : verse.take (place verse music j + 1) = verse.take (place verse music j) ++ [s] := by
          rw [take_add_one, hs, toList_some]
        cases htakes : n.takesSyllable <;> cases hbar : s.isBar <;> cases n.isRightBar <;> simp [hnext, hbar]

theorem place_eq_of_bar (hbar : atBar verse (place verse music i) = true) (hij : i ≤ j)
    (hright : ∀ k, i ≤ k → k < j → (music[k]?).any Node.isRightBar = false) : place verse music j = place verse music i := by
  induction j, hij using Nat.le_induction with
  | base => rfl
  | succ j hij ih =>
    have ih := ih fun k hik hkj => hright k hik (by omega)
    cases hn : music[j]? with
    | none => rw [place_end hn, ih]
    | some n =>
      have hn' : n.isRightBar = false := by
        have := hright j hij (by omega)
        rwa [hn, any_some] at this
      rw [place_succ hn, advance, ih, hbar, hn', if_pos rfl, Bool.false_and, if_neg Bool.false_ne_true, ite_self]

theorem place_mono (verse music : List Node) : Monotone (place verse music) := by
  refine monotone_nat_of_le_succ fun j => ?_
  cases hn : music[j]? with
  | none => rw [place_end hn]
  | some n =>
    rw [place_succ hn, advance]
    split_ifs <;> omega

/-- Whatever the music and the verses: each note that is neither in a chord nor a grace note is given
    one object of every verse, and nothing else is given any. Of each verse, the syllables given out
    are its first ones, in their order; once its mark has come to a bar, no syllable is given out
    before the next right bar line; and a note that is given the filler comes behind all syllables of
    the verse, and no later note is given any. -/
theorem lyrics_dealt_in_order (music : List Node) (verses : List (List Node)) :
    dealLyrics music verses = music.mapIdx (given verses music) ∧
    ∀ verse ∈ verses,
      (∃ r, (taken verse music music.length).filter (!·.isBar) = (verse.filter (!·.isBar)).take r) ∧
      (∀ i j s t, i < j → taken? verse music i = some s → s.isBar → takesAt music j → taken? verse music j = some t → !t.isBar →
        ∃ k, i ≤ k ∧ k < j ∧ (music[k]?).any Node.isRightBar) ∧
      ∀ i, takesAt music i → taken? verse music i = none →
        (taken verse music i).filter (!·.isBar) = verse.filter (!·.isBar) ∧ ∀ j, i ≤ j → taken? verse music j = none := by
  refine ⟨dealLyrics_eq music verses, fun verse _ => ⟨?_, fun i j s t hij hs hbar _ ht hsyllable => ?_, fun i _ hnone => ?_⟩⟩
  · have hfront : (verse.take (place verse music music.length)).filter (!·.isBar) <+: verse.filter (!·.isBar) :=
      (List.take_prefix ..).filter _
    exact ⟨_, (filter_taken verse music music.length).trans (List.prefix_iff_eq_take.mp hfront)⟩
  · by_contra hno
    have hat : atBar verse (place verse music i) = true := by rwa [atBar, ← taken?, hs, Option.any_some]
    have hplace := place_eq_of_bar hat hij.le fun k hik hkj => Bool.eq_false_iff.mpr fun hright => hno ⟨k, hik, hkj, hright⟩
    rw [taken?, hplace, ← taken?, hs] at ht
    rw [← Option.some.inj ht, hbar] at hsyllable
    exact Bool.false_ne_true hsyllable
  · have hend : verse.length ≤ place verse music i := List.getElem?_eq_none_iff.mp hnone
    refine ⟨?_, fun j hij => List.getElem?_eq_none (hend.trans (place_mono verse music hij))⟩
    rw [filter_taken, List.take_of_length_le hend]

/-- A verse of two syllables with a bar between them, over two notes, a right bar line and three notes
    of which the first one is in a chord. -/
theorem lyrics_dealt_in_order_over_bar : ∃ music verse : List Node,
    music.map (fun n => (n.name, n.takesSyllable)) =
      [("note", true), ("note", true), ("rbar", false), ("note", false), ("note", true), ("note", true)] ∧
    verse.map (·.name) = ["syl", "sbar", "syl"] ∧
    (dealLyrics music [verse]).map (·.items.length) = [1, 1, 0, 0, 1, 1] ∧
    (∃ r, (taken verse music music.length).filter (!·.isBar) = (verse.filter (!·.isBar)).take r) ∧
    (∃ k, 1 ≤ k ∧ k < 4 ∧ (music[k]?).any Node.isRightBar) ∧
    (taken verse music 5).filter (!·.isBar) = verse.filter (!·.isBar) := by
  refine ⟨[{ name := "note" }, { name := "note" }, { name := "rbar" }, { name := "note", children := [("chord", [])] },
    { name := "note" }, { name := "note" }], [{ name := "syl" }, { name := "sbar" }, { name := "syl" }], rfl, rfl, ?_⟩
  obtain ⟨hdealt, hverses⟩ := lyrics_dealt_in_order
    [{ name := "note" }, { name := "note" }, { name := "rbar" }, { name := "note", children := [("chord", [])] },
      { name := "note" }, { name := "note" }] [[{ name := "syl" }, { name := "sbar" }, { name := "syl" }]]
  obtain ⟨hfront, hbars, hfillers⟩ := hverses _ (List.mem_singleton.mpr rfl)
  exact ⟨by rw [hdealt]; rfl, hfront, hbars 1 4 _ _ (by decide) rfl rfl rfl rfl rfl, (hfillers 5 rfl rfl).1⟩

end Plainsong.Abc
