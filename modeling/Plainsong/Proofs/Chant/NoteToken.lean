import Mathlib
import Plainsong.Chant.Tune
/- Reading notes in ABC notation. A note token is a name (a flat sign, a letter, octave
   marks) with its decorations before it and its length behind it, and `NoteToken.read?`
   reads a line of music that holds note tokens, bar lines, phrase marks and blanks. What
   stands behind a token does not change it unless it could be more octave marks or a length
   (`NoteToken.read?_append`), and blanks and bar lines at the end of a line say nothing
   (`NoteToken.read?_append_bars`). -/
namespace Plainsong.Chant

open List

/-- A note in ABC notation. -/
structure NoteToken where
  mordent : Bool
  wedge : Bool
  tenuto : Bool
  pitch : Int
  long : Bool
  deriving DecidableEq

namespace NoteToken

/-! ## The reader -/

/-- Takes a mark off the front of a line, if it stands there. -/
def takeMark (mark line : List Char) : Bool × List Char :=
  if mark.isPrefixOf line then (true, line.drop mark.length) else (false, line)

/-- The pitch a letter stands for. -/
def naturalOf? (c : Char) : Option Int :=
  [('C', 60), ('D', 62), ('E', 64), ('F', 65), ('G', 67), ('A', 69), ('B', 71),
    ('c', 72), ('d', 74), ('e', 76), ('f', 77), ('g', 79), ('a', 81), ('b', 83)].lookup c

/-- Takes the octave marks behind a letter. -/
def takeOctaves (line : List Char) : Int × List Char :=
  let low := line.dropWhile (· == '\'')
  (12 * (line.takeWhile (· == '\'')).length - 12 * (low.takeWhile (· == ',')).length, low.dropWhile (· == ','))

/-- Takes the name of a note. -/
def takeName? (line : List Char) : Option (Int × List Char) :=
  match (takeMark ['_'] line).2 with
  | [] => none
  | c :: rest => (naturalOf? c).map fun p =>
    (p + (takeOctaves rest).1 - (if (takeMark ['_'] line).1 then 1 else 0), (takeOctaves rest).2)

def mordentMark : List Char := ['P']
def wedgeMark : List Char := "!wedge!".toList
def tenutoMark : List Char := "!tenuto!".toList
def lengthMark : List Char := ['2']

/-- Takes a note with its decorations and its length. -/
def take? (line : List Char) : Option (NoteToken × List Char) :=
  let mordent := takeMark mordentMark line
  let wedge := takeMark wedgeMark mordent.2
  let tenuto := takeMark tenutoMark wedge.2
  (takeName? tenuto.2).map fun name =>
    (⟨mordent.1, wedge.1, tenuto.1, name.1, (takeMark lengthMark name.2).1⟩, (takeMark lengthMark name.2).2)

/-- A letter of a bar line, or a blank. -/
def isBar (c : Char) : Bool := [' ', '|', '[', ']'].contains c

def shortPhrase : List Char := "!shortphrase!".toList
def mediumPhrase : List Char := "!mediumphrase!".toList

theorem takeMark_length_le (mark line : List Char) : (takeMark mark line).2.length ≤ line.length := by
  rw [takeMark]
  split <;> simp

theorem takeOctaves_length_le (line : List Char) : (takeOctaves line).2.length ≤ line.length :=
  ((dropWhile_suffix _).trans (dropWhile_suffix _)).length_le

variable {line mark rest : List Char} {name : String}

theorem takeName?_length_lt {name : Int × List Char} (h : takeName? line = some name) :
    name.2.length < line.length := by
  have hmark := takeMark_length_le ['_'] line
  rw [takeName?] at h
  split at h
  · cases h
  · next c rest heq =>
    obtain ⟨_, -, rfl⟩ := Option.map_eq_some_iff.mp h
    have hoct := takeOctaves_length_le rest
    rw [heq, length_cons] at hmark
    exact Nat.lt_of_lt_of_le (Nat.lt_succ_of_le hoct) hmark

theorem take?_length_lt {n : NoteToken} (h : take? line = some (n, rest)) : rest.length < line.length := by
  obtain ⟨name, hname, hr⟩ := Option.map_eq_some_iff.mp h
  cases hr
  calc (takeMark lengthMark name.2).2.length
      ≤ name.2.length := takeMark_length_le ..
    _ < (takeMark tenutoMark (takeMark wedgeMark (takeMark mordentMark line).2).2).2.length := takeName?_length_lt hname
    _ ≤ (takeMark wedgeMark (takeMark mordentMark line).2).2.length := takeMark_length_le ..
    _ ≤ (takeMark mordentMark line).2.length := takeMark_length_le ..
    _ ≤ line.length := takeMark_length_le ..

/-- Reads a line of music: its notes in order, or nothing if it holds anything but notes,
    bar lines, phrase marks and blanks. -/
def read? (line : List Char) : Option (List NoteToken) :=
  match line with
  | [] => some []
  | c :: rest =>
    if isBar c then read? rest
    else if shortPhrase.isPrefixOf (c :: rest) then read? (rest.drop 12)
    else if mediumPhrase.isPrefixOf (c :: rest) then read? (rest.drop 13)
    else match _h : take? (c :: rest) with
      | none => none
      | some (n, tail) => (read? tail).map (n :: ·)
  termination_by line.length
  decreasing_by
  all_goals simp only [length_cons, length_drop]
  · omega
  · omega
  · omega
  · exact take?_length_lt _h

/-! ## What stands behind -/

/-- The line cannot go on with octave marks. -/
def EndsName (rest : List Char) : Prop := ∀ c ∈ rest.head?, c ≠ '\'' ∧ c ≠ ','

/-- The line cannot go on with a length either. -/
def EndsNote (rest : List Char) : Prop := EndsName rest ∧ ∀ c ∈ rest.head?, c ≠ '2'

theorem takeMark_self (mark line : List Char) : takeMark mark (mark ++ line) = (true, line) := by
  rw [takeMark, if_pos (by simp), drop_left]

theorem takeMark_of_head {m : Char} (h : ∀ c ∈ line.head?, c ≠ m) : takeMark (m :: mark) line = (false, line) := by
  cases line with
  | nil => rfl
  | cons c line =>
    have hc : c ≠ m := h c rfl
    rw [takeMark, if_neg (by simp [hc.symm])]

theorem takeWhile_append_of_head {f : Char → Bool} (h : ∀ c ∈ rest.head?, f c = false) :
    (line ++ rest).takeWhile f = line.takeWhile f := by
  induction line with
  | nil =>
    cases rest with
    | nil => rfl
    | cons c rest => simp [h c rfl]
  | cons c line ih => by_cases hc : f c = true <;> simp [hc, ih]

theorem dropWhile_append_of_head {f : Char → Bool} (h : ∀ c ∈ rest.head?, f c = false) :
    (line ++ rest).dropWhile f = line.dropWhile f ++ rest := by
  induction line with
  | nil =>
    cases rest with
    | nil => rfl
    | cons c rest => simp [h c rfl]
  | cons c line ih => by_cases hc : f c = true <;> simp [hc, ih]

theorem takeOctaves_append (line : List Char) (h : EndsName rest) :
    takeOctaves (line ++ rest) = ((takeOctaves line).1, (takeOctaves line).2 ++ rest) := by
  have hup : ∀ c ∈ rest.head?, (c == '\'') = false := fun c hc => by simp [(h c hc).1]
  have hdown : ∀ c ∈ rest.head?, (c == ',') = false := fun c hc => by simp [(h c hc).2]
  simp only [takeOctaves, takeWhile_append_of_head hup, dropWhile_append_of_head hup,
    takeWhile_append_of_head hdown, dropWhile_append_of_head hdown]

theorem takeName?_append {name : Int × List Char} (h : takeName? line = some name)
    (hrest : EndsName rest) : takeName? (line ++ rest) = some (name.1, name.2 ++ rest) := by
  cases line with
  | nil => cases h
  | cons c line =>
    by_cases hc : c = '_'
    · subst hc
      rw [takeName?, show '_' :: line = ['_'] ++ line from rfl, takeMark_self] at h
      rw [takeName?, show '_' :: line ++ rest = ['_'] ++ (line ++ rest) from rfl, takeMark_self]
      cases line with
      | nil => cases h
      | cons c line =>
        obtain ⟨p, hp, rfl⟩ := Option.map_eq_some_iff.mp h
        simp only [cons_append, hp, takeOctaves_append line hrest, Option.map_some]
    · rw [takeName?, takeMark_of_head (by simpa using hc)] at h
      rw [takeName?, takeMark_of_head (by simpa using hc)]
      obtain ⟨p, hp, rfl⟩ := Option.map_eq_some_iff.mp h
      simp only [cons_append, hp, takeOctaves_append line hrest, Option.map_some]

/-! ## Names -/

theorem abcName?_eq {p : Int} (h : abcName? p = some name) :
    ∃ k : Nat, k < 72 ∧ p = 22 + k ∧ abcNames[k % 36]? = some name := by
  have hlen : abcNames.length = 36 := rfl
  rw [abcName?, itemAt?, hlen] at h
  generalize hj : (if p - 58 < 0 then p - 58 + ((36 : Nat) : Int) else p - 58) = j at h
  split at h
  · cases h
  · have hk := (List.getElem?_eq_some_iff.mp h).1
    rw [hlen] at hk
    have hjp : j.toNat = (p - 22).toNat % 36 ∧ 22 ≤ p ∧ p < 94 := by
      split at hj <;> omega
    exact ⟨(p - 22).toNat, by omega, by omega, by rw [← hjp.1, h]⟩

theorem mem_abcNames {p : Int} (h : abcName? p = some name) : name ∈ abcNames := by
  obtain ⟨k, -, -, hk⟩ := abcName?_eq h
  exact mem_of_getElem? hk

theorem abcNames_head (name : String) (h : name ∈ abcNames) : ∃ c, name.toList.head? = some c ∧ c ≠ 'P' ∧ c ≠ '!' ∧
    isBar c = false ∧ c ≠ '\'' ∧ c ≠ ',' ∧ c ≠ '2' := by
  have hall : ∀ name ∈ abcNames, (name.toList.head?.any fun c => c ≠ 'P' ∧ c ≠ '!' ∧ isBar c = false ∧ c ≠ '\'' ∧
      c ≠ ',' ∧ c ≠ '2') = true := by
    decide +kernel
  have hname := hall name h
  cases hc : name.toList.head? with
  | none =>
    rw [hc] at hname
    cases hname
  | some c =>
    rw [hc] at hname
    exact ⟨c, rfl, of_decide_eq_true hname⟩

theorem takeName?_abcNames : ∀ k : Nat, k < 72 → ∀ name ∈ abcNames[k % 36]?,
    if 38 ≤ k then takeName? name.toList = some ((22 + k : Int), [])
    else ∃ q ∈ takeName? name.toList, q.1 ≠ (22 + k : Int) := by
  decide +kernel

theorem takeName?_of_le {p : Int} (h : abcName? p = some name) (hp : 60 ≤ p) :
    takeName? name.toList = some (p, []) := by
  obtain ⟨k, hk, rfl, hname⟩ := abcName?_eq h
  have := takeName?_abcNames k hk name hname
  rwa [if_pos (by omega)] at this

theorem takeName?_of_lt {p : Int} (h : abcName? p = some name) (hp : p < 60) :
    ∃ q ∈ takeName? name.toList, q.1 ≠ p := by
  obtain ⟨k, hk, rfl, hname⟩ := abcName?_eq h
  have := takeName?_abcNames k hk name hname
  rwa [if_neg (by omega)] at this

/-! ## Tokens -/

/-- The decorations of a note, in the order they are written. -/
def decorations (n : NoteToken) : List Char :=
  (if n.mordent then mordentMark else []) ++ ((if n.wedge then wedgeMark else []) ++ if n.tenuto then tenutoMark else [])

/-- A note as it is written under the given name. -/
def text (n : NoteToken) (name : List Char) : List Char :=
  n.decorations ++ (name ++ if n.long then lengthMark else [])

theorem take?_decorations (n : NoteToken) (h : ∀ c ∈ line.head?, c ≠ 'P' ∧ c ≠ '!') :
    take? (n.decorations ++ line) = (takeName? line).map fun name =>
      (⟨n.mordent, n.wedge, n.tenuto, name.1, (takeMark lengthMark name.2).1⟩, (takeMark lengthMark name.2).2) := by
  obtain ⟨mordent, wedge, tenuto, p, long⟩ := n
  have hP : ∀ mark, takeMark ('P' :: mark) line = (false, line) := fun _ => takeMark_of_head fun c hc => (h c hc).1
  have hB : ∀ mark, takeMark ('!' :: mark) line = (false, line) := fun _ => takeMark_of_head fun c hc => (h c hc).2
  have htenuto : takeMark tenutoMark ((if tenuto then tenutoMark else []) ++ line) = (tenuto, line) := by
    cases tenuto with
    | true => exact takeMark_self tenutoMark line
    | false => exact hB _
  have hwedge : takeMark wedgeMark ((if wedge then wedgeMark else []) ++ ((if tenuto then tenutoMark else []) ++ line)) =
      (wedge, (if tenuto then tenutoMark else []) ++ line) := by
    cases wedge with
    | true => exact takeMark_self wedgeMark _
    | false =>
      cases tenuto with
      | true => rfl
      | false => exact hB _
  have hmordent : takeMark mordentMark ((if mordent then mordentMark else []) ++
      ((if wedge then wedgeMark else []) ++ ((if tenuto then tenutoMark else []) ++ line))) =
      (mordent, (if wedge then wedgeMark else []) ++ ((if tenuto then tenutoMark else []) ++ line)) := by
    cases mordent with
    | true => exact takeMark_self mordentMark _
    | false =>
      cases wedge with
      | true => rfl
      | false =>
        cases tenuto with
        | true => rfl
        | false => exact hP _
  simp only [take?, decorations, append_assoc, hmordent, hwedge, htenuto]

theorem read?_note {c : Char} (hbar : isBar c = false)
    (hshort : shortPhrase.isPrefixOf (c :: rest) = false) (hmedium : mediumPhrase.isPrefixOf (c :: rest) = false) :
    read? (c :: rest) = (take? (c :: rest)).bind fun n => (read? n.2).map (n.1 :: ·) := by
  rw [read?, if_neg (by simp [hbar]), if_neg (by simp [hshort]), if_neg (by simp [hmedium])]
  split
  · next heq => rw [heq, Option.bind_none]
  · next heq => rw [heq, Option.bind_some]

theorem read?_decorations (n : NoteToken) {c : Char} (hbang : c ≠ '!') (hbar : isBar c = false) :
    read? (n.decorations ++ c :: line) =
      (take? (n.decorations ++ c :: line)).bind fun n => (read? n.2).map (n.1 :: ·) := by
  have hphrase : ∀ mark, List.isPrefixOf ('!' :: mark) (c :: line) = false := fun mark => by
    rw [isPrefixOf_cons_cons, beq_eq_false_iff_ne.mpr hbang.symm, Bool.false_and]
  obtain ⟨mordent, wedge, tenuto, p, long⟩ := n
  cases mordent with
  | true => exact read?_note rfl rfl rfl
  | false =>
    cases wedge with
    | true => exact read?_note rfl rfl rfl
    | false =>
      cases tenuto with
      | true => exact read?_note rfl rfl rfl
      | false => exact read?_note hbar (hphrase _) (hphrase _)

theorem takeMark_length (n : NoteToken) (hrest : EndsNote rest) :
    takeMark lengthMark ((if n.long then lengthMark else []) ++ rest) = (n.long, rest) := by
  cases n.long with
  | true => exact takeMark_self lengthMark rest
  | false => exact takeMark_of_head hrest.2

theorem read?_text_append (n : NoteToken) (h : abcName? n.pitch = some name) (rest : List Char) :
    read? (n.text name.toList ++ rest) =
      (takeName? (name.toList ++ ((if n.long then lengthMark else []) ++ rest))).bind fun q =>
        (read? (takeMark lengthMark q.2).2).map
          (⟨n.mordent, n.wedge, n.tenuto, q.1, (takeMark lengthMark q.2).1⟩ :: ·) := by
  obtain ⟨c, hc, hP, hbang, hbar, -⟩ := abcNames_head name (mem_abcNames h)
  obtain ⟨line, hline⟩ := List.head?_eq_some_iff.mp hc
  rw [text, hline, append_assoc, append_assoc, cons_append, read?_decorations n hbang hbar,
    take?_decorations n (by simp [hP, hbang])]
  cases takeName? (c :: (line ++ ((if n.long then lengthMark else []) ++ rest))) <;> rfl

theorem read?_text (n : NoteToken) (h : abcName? n.pitch = some name) (hp : 60 ≤ n.pitch) (hrest : EndsNote rest) :
    read? (n.text name.toList ++ rest) = (read? rest).map (n :: ·) := by
  have hname : EndsName ((if n.long then lengthMark else []) ++ rest) := by
    cases n.long with
    | true => intro c hc; cases hc; decide
    | false => exact hrest.1
  rw [read?_text_append n h, takeName?_append (takeName?_of_le h hp) hname]
  simp only [nil_append, Option.bind_some, takeMark_length n hrest]

theorem read?_text_iff (n : NoteToken) (h : abcName? n.pitch = some name) :
    read? (n.text name.toList) = some [n] ↔ 60 ≤ n.pitch := by
  constructor
  · intro hread
    refine Int.not_lt.mp fun hp => ?_
    obtain ⟨q, hq, hne⟩ := takeName?_of_lt h hp
    have hname : EndsName ((if n.long then lengthMark else []) ++ []) := by
      cases n.long <;> intro c hc <;> cases hc; decide
    rw [← append_nil (n.text _), read?_text_append n h, takeName?_append hq hname, Option.bind_some] at hread
    obtain ⟨l, -, hl⟩ := Option.map_eq_some_iff.mp hread
    exact hne (congrArg NoteToken.pitch (List.cons.inj hl).1)
  · intro hp
    rw [← append_nil (n.text _), read?_text n h hp (by constructor <;> intro c hc <;> cases hc), read?]
    rfl

/-! ## Tokens cut short -/

/-- Gives the first of some notes the decorations of `n`. -/
def decorate (n : NoteToken) : List NoteToken → List NoteToken
  | [] => []
  | x :: rest => { x with mordent := n.mordent, wedge := n.wedge, tenuto := n.tenuto } :: rest

theorem read?_decorate (n : NoteToken) {c : Char} (hP : c ≠ 'P') (hbang : c ≠ '!')
    (hbar : isBar c = false) : read? (n.decorations ++ c :: line) = (read? (c :: line)).map n.decorate := by
  have hhead : ∀ x ∈ (c :: line).head?, x ≠ 'P' ∧ x ≠ '!' := by simp [hP, hbang]
  have hplain : read? (c :: line) = _ := read?_decorations ⟨false, false, false, 0, false⟩ hbang hbar
  rw [take?_decorations _ hhead] at hplain
  rw [read?_decorations n hbang hbar, take?_decorations n hhead, hplain]
  cases takeName? (c :: line) with
  | none => rfl
  | some q => simp [decorate, Function.comp_def]

theorem read?_take_decorations : ∀ mordent wedge tenuto : Bool, ∀ j : Nat,
    j ≤ (⟨mordent, wedge, tenuto, 0, false⟩ : NoteToken).decorations.length →
    ∀ x ∈ read? ((⟨mordent, wedge, tenuto, 0, false⟩ : NoteToken).decorations.take j), x = [] := by
  decide +kernel

/-- No shorter part of the line is read as one note of the given pitch and length. -/
def Breaks (line : List Char) (p : Int) (long : Bool) : Prop :=
  ∀ j : Nat, j < line.length → ∀ x ∈ read? (line.take j), x.length ≤ 1 ∧ x.map (fun n => (n.pitch, n.long)) ≠ [(p, long)]

instance (line : List Char) (p : Int) (long : Bool) : Decidable (Breaks line p long) :=
  inferInstanceAs (Decidable (∀ j : Nat, j < line.length → ∀ x ∈ read? (line.take j),
    x.length ≤ 1 ∧ x.map (fun n => (n.pitch, n.long)) ≠ [(p, long)]))

theorem breaks_abcNames : ∀ k : Nat, k < 72 → 38 ≤ k → ∀ name ∈ abcNames[k % 36]?, ∀ long : Bool,
    Breaks (name.toList ++ if long then lengthMark else []) (22 + k) long := by
  decide +kernel

theorem read?_take_text (n : NoteToken) (h : abcName? n.pitch = some name) (hp : 60 ≤ n.pitch) {j : Nat}
    (hj : j < (n.text name.toList).length) {x : List NoteToken} (hx : read? ((n.text name.toList).take j) = some x) :
    x.length ≤ 1 ∧ x ≠ [n] := by
  obtain ⟨c, hc, hP, hbang, hbar, -⟩ := abcNames_head name (mem_abcNames h)
  obtain ⟨line, hline⟩ := List.head?_eq_some_iff.mp hc
  rw [text, length_append] at hj
  rw [text, take_append] at hx
  rcases Nat.lt_or_ge n.decorations.length j with hlt | hle
  · -- all decorations are left, and a part of what they decorate
    obtain ⟨k, hk, hpk, hname⟩ := abcName?_eq h
    have hbreaks := breaks_abcNames k hk (by omega) name hname n.long (j - n.decorations.length) (by omega)
    obtain ⟨i, hi⟩ : ∃ i, j - n.decorations.length = i + 1 := ⟨j - n.decorations.length - 1, by omega⟩
    rw [take_of_length_le (Nat.le_of_lt hlt), hi, hline, cons_append, take_succ_cons,
      read?_decorate n hP hbang hbar] at hx
    obtain ⟨y, hy, rfl⟩ := Option.map_eq_some_iff.mp hx
    rw [hi, hline, cons_append, take_succ_cons] at hbreaks
    obtain ⟨hle, hne⟩ := hbreaks y hy
    cases y with
    | nil => simp [decorate]
    | cons z rest =>
      refine ⟨hle, fun hz => hne ?_⟩
      obtain ⟨hz, hrest⟩ := List.cons.inj hz
      rw [hrest, ← hpk, ← hz]
      rfl
  · -- only decorations are left
    rw [Nat.sub_eq_zero_of_le hle, take_zero, append_nil] at hx
    have hnil : x = [] := read?_take_decorations n.mordent n.wedge n.tenuto j hle x hx
    simp [hnil]

/-! ## Blanks and bar lines at the end -/

section Bars

variable {bars : List Char} (hbars : ∀ c ∈ bars, isBar c = true)

include hbars

theorem isPrefixOf_append_bars (hmark : ∀ c ∈ mark, isBar c = false) (line : List Char) :
    mark.isPrefixOf (line ++ bars) = mark.isPrefixOf line := by
  induction mark generalizing line with
  | nil => simp
  | cons m mark ih =>
    cases line with
    | cons c line =>
      rw [cons_append, isPrefixOf_cons_cons, isPrefixOf_cons_cons, ih fun c hc => hmark c (by simp [hc])]
    | nil =>
      cases bars with
      | nil => rfl
      | cons b bars =>
        have hne : m ≠ b := by
          rintro rfl
          exact absurd (hbars m (by simp)) (by simp [hmark m (by simp)])
        rw [nil_append, isPrefixOf_cons_cons, beq_eq_false_iff_ne.mpr hne, Bool.false_and,
          isPrefixOf_cons_nil]

theorem takeMark_append_bars (hmark : ∀ c ∈ mark, isBar c = false) (line : List Char) :
    takeMark mark (line ++ bars) = ((takeMark mark line).1, (takeMark mark line).2 ++ bars) := by
  rw [takeMark, takeMark, isPrefixOf_append_bars hbars hmark]
  split
  · next h => rw [drop_append_of_le_length ( isPrefixOf_iff_prefix.mp h).length_le]
  · rfl

theorem endsNote_bars : EndsNote bars := by
  have hhead : ∀ c ∈ bars.head?, isBar c = true := fun c hc => hbars c (mem_of_head? hc)
  have hne : ∀ d, isBar d = false → ∀ c ∈ bars.head?, c ≠ d := fun d hd c hc h => by
    rw [← h, hhead c hc] at hd
    cases hd
  exact ⟨fun c hc => ⟨hne _ (by decide) c hc, hne _ (by decide) c hc⟩, hne _ (by decide)⟩

theorem takeName?_append_bars (line : List Char) :
    takeName? (line ++ bars) = (takeName? line).map fun q => (q.1, q.2 ++ bars) := by
  rw [takeName?, takeMark_append_bars hbars (all_iff_forall_prop.mp (by decide)), takeName?]
  cases (takeMark ['_'] line).2 with
  | cons c rest =>
    simp only [cons_append, takeOctaves_append rest (endsNote_bars hbars).1, Option.map_map]
    rfl
  | nil =>
    cases bars with
    | nil => rfl
    | cons b bars =>
      have hb : naturalOf? b = none := by
        have : ∀ b ∈ [' ', '|', '[', ']'], naturalOf? b = none := all_iff_forall_prop.mp (by decide)
        exact this b (by simpa [isBar] using hbars b (by simp))
      simp only [nil_append, hb, Option.map_none]

omit hbars in
theorem not_isBar_of_mem (mark : List Char) (hmark : mark ∈ [mordentMark, wedgeMark, tenutoMark, lengthMark]) :
    ∀ c ∈ mark, isBar c = false := by
  have hall : ∀ c ∈ [mordentMark, wedgeMark, tenutoMark, lengthMark].flatten, isBar c = false :=
    all_iff_forall_prop.mp (by decide)
  exact fun c hc => hall c (mem_flatten.mpr ⟨mark, hmark, hc⟩)

theorem take?_append_bars (line : List Char) :
    take? (line ++ bars) = (take? line).map fun n => (n.1, n.2 ++ bars) := by
  simp only [take?, takeMark_append_bars hbars (not_isBar_of_mem mordentMark (by simp)),
    takeMark_append_bars hbars (not_isBar_of_mem wedgeMark (by simp)),
    takeMark_append_bars hbars (not_isBar_of_mem tenutoMark (by simp)), takeName?_append_bars hbars,
    Option.map_map]
  congr 1
  funext q
  simp only [Function.comp_apply, takeMark_append_bars hbars (not_isBar_of_mem lengthMark (by simp))]

theorem read?_bars : read? bars = some [] := by
  induction bars with
  | nil => rw [read?]
  | cons b bars ih => rw [read?, if_pos (hbars b (by simp)), ih fun c hc => hbars c (by simp [hc])]

theorem read?_append_bars (line : List Char) : read? (line ++ bars) = read? line := by
  have hshort : ∀ line, shortPhrase.isPrefixOf (line ++ bars) = shortPhrase.isPrefixOf line :=
    isPrefixOf_append_bars hbars (all_iff_forall_prop.mp (by decide))
  have hmedium : ∀ line, mediumPhrase.isPrefixOf (line ++ bars) = mediumPhrase.isPrefixOf line :=
    isPrefixOf_append_bars hbars (all_iff_forall_prop.mp (by decide))
  induction line using read?.induct with
  | case1 => rw [nil_append, read?_bars hbars, read?]
  | case2 c rest hc ih => rw [cons_append, read?, if_pos hc, ih, read?, if_pos hc]
  | case3 c rest hc hs ih =>
    have hlen : 12 ≤ rest.length := Nat.le_of_succ_le_succ ( isPrefixOf_iff_prefix.mp hs).length_le
    rw [cons_append, read?, if_neg hc, ← cons_append, hshort, if_pos hs, drop_append_of_le_length hlen, ih,
      read?, if_neg hc, if_pos hs]
  | case4 c rest hc hs hm ih =>
    have hlen : 13 ≤ rest.length := Nat.le_of_succ_le_succ ( isPrefixOf_iff_prefix.mp hm).length_le
    rw [cons_append, read?, if_neg hc, ← cons_append, hshort, if_neg hs, hmedium, if_pos hm,
      drop_append_of_le_length hlen, ih, read?, if_neg hc, if_neg hs, if_pos hm]
  | case5 c rest hc hs hm hnone =>
    rw [Bool.not_eq_true] at hc hs hm
    rw [cons_append, read?_note hc (by rw [← cons_append, hshort, hs]) (by rw [← cons_append, hmedium, hm]),
      read?_note hc hs hm, ← cons_append, take?_append_bars hbars, hnone]
    rfl
  | case6 c rest hc hs hm n tail hsome ih =>
    rw [Bool.not_eq_true] at hc hs hm
    rw [cons_append, read?_note hc (by rw [← cons_append, hshort, hs]) (by rw [← cons_append, hmedium, hm]),
      read?_note hc hs hm, ← cons_append, take?_append_bars hbars, hsome]
    simp only [Option.map_some, Option.bind_some, ih]

end Bars

end NoteToken

end Plainsong.Chant
