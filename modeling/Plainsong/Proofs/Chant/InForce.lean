import Plainsong.Proofs.Chant.Building
/- The accidentals in force at a note. A neume takes accidentals over from the
   neume before it in its word, or none. As long as it has none of its own, every
   sign of alteration in it counts for the notes behind it; once it has taken some
   over, its notes go by those alone, and the signs of alteration in it count for
   the next neume only, and only if no other sign follows them (`inForce`). The
   tables in which a score keeps accidentals tell just these entries (`Tells`,
   `ends_accidentalsFrom`), and a note is read by them (`ends_pitchOf`). -/
namespace Plainsong.Chant

open List

/-- `P` holds of every item of the list and the items before it. -/
def Along {α : Type} (P : List α → α → Prop) (l : List α) : Prop :=
  ∀ earlier a later, l = earlier ++ a :: later → P earlier a

namespace Along

variable {α : Type} {P : List α → α → Prop}

theorem nil : Along P [] := by
  intro earlier a later h
  simp at h

theorem cons_iff {a : α} {l : List α} : Along P (a :: l) ↔ P [] a ∧ Along (fun earlier => P (a :: earlier)) l := by
  constructor
  · intro h
    refine ⟨h [] a l rfl, fun earlier b later heq => h (a :: earlier) b later ?_⟩
    rw [heq, cons_append]
  · rintro ⟨ha, h⟩ earlier b later heq
    match earlier with
    | [] =>
      cases heq
      exact ha
    | _ :: earlier =>
      cases heq
      exact h earlier b later rfl

theorem take {base later : List α} (h : Along P (base ++ later)) : Along P base := by
  intro earlier a later' heq
  exact h earlier a (later' ++ later) (by rw [heq, append_assoc, cons_append])

theorem concat {l : List α} {a : α} (h : Along P l) (ha : P l a) : Along P (l ++ [a]) := by
  intro earlier a' later heq
  rcases eq_nil_or_concat later with rfl | ⟨later, last, rfl⟩
  · obtain ⟨rfl, hlast⟩ := append_inj' heq rfl
    cases hlast
    exact ha
  · rw [concat_eq_append, ← cons_append, ← append_assoc] at heq
    obtain ⟨rfl, -⟩ := append_inj' heq rfl
    exact h earlier a' later rfl

theorem last {l : List α} {a : α} (h : Along P (l ++ [a])) : P l a := h l a [] rfl

end Along

/-! ## The rule -/

/-- What a reader sees of a sign, and how high it sounds. -/
structure Glyph where
  kind : Kind
  code : String
  pitch : Option Int
  deriving DecidableEq

def Sign.glyph (g : Sign) : Glyph := ⟨g.kind, g.code, g.pitch⟩

def Score.row (s : Score) (n : Nat) : List Glyph := (s.neume n).signs.map fun i => (s.sign i).glyph

/-- The neumes of a word, each as its signs. -/
def Score.rows (s : Score) (w : Nat) : List (List Glyph) :=
  (s.word w).syllables.map fun k => s.row (s.syllable k).neume

/-- Alterations of letters, in the order in which they were entered. -/
abbrev Entries := List (Char × Int)

/-- What a sign of alteration enters for the letter it stands on. -/
def Glyph.entries (g : Glyph) : Entries :=
  match g.code.toList with
  | letter :: mark :: _ => ((Act.alteration? mark).map fun value => (letter, value)).toList
  | _ => []

/-- The entries in force behind a row of signs, if its neume took over the entries `own`. -/
def inForce (own : Option Entries) (row : List Glyph) : Option Entries :=
  row.foldl (fun held g => if g.kind = .accidental then some (held.getD [] ++ g.entries) else own.or held) none

/-- By how much entries move a letter: the last one for it counts. -/
def movedBy (entries : Entries) (letter : Char) : Int :=
  entries.foldl (fun moved e => if e.1 = letter then e.2 else moved) 0

/-- The clef without its flat. -/
def clefWithoutFlat (clef : String) : String :=
  match clef.toList with
  | [family, _, line] => String.ofList [family, line]
  | _ => clef

/-- The letter that the flat of a clef lowers: there is one under two clefs only. -/
def clefLowers? (clef : String) : Option Char :=
  match clef.toList with
  | ['c', _, '3'] => some 'g'
  | ['f', _, '1'] => some 'g'
  | _ => none

/-- By how much a note on a letter is moved: by the flat of the clef if it lowers that letter,
    or else by the entries in force. -/
def movedAt (clef : String) (held : Option Entries) (letter : Char) : Int :=
  if clefLowers? clef = some letter then -1 else movedBy (held.getD []) letter

/-- The letter by which a note is read; a special note put on a special note has only its
    own letter, and repeats the note before it. -/
def Glyph.letter? (earlier : List Glyph) (g : Glyph) : Option Char :=
  let code := if g.kind = .special ∧ g.code.length = 1 then (earlier.getLast?.map (·.code)).getD "" else g.code
  code.toList.head?.map Char.toLower

/-- The note stands behind `earlier` in its neume and has the pitch of its letter on the
    staff, moved by the accidentals in force. -/
def ReadsAs (clef : String) (own : Option Entries) (earlier : List Glyph) (g : Glyph) : Prop :=
  ∃ letter name height, g.letter? earlier = some letter ∧
    letterNote? (clefWithoutFlat clef) letter = some (name, height) ∧
    g.pitch = some (height + movedAt clef (own.or (inForce own earlier)) letter)

/-- Every note of the row reads as it should behind the signs before it. -/
def RowReads (clef : String) (own : Option Entries) (row : List Glyph) : Prop :=
  Along (fun earlier g => g.kind.sounds = true → ReadsAs clef own earlier g) row

/-- Every row of a word reads with the entries that the rows before it hand on. -/
def WordReads (clef : String) (rows : List (List Glyph)) : Prop :=
  Along (fun earlier row => RowReads clef (earlier.foldl inForce none) row) rows

theorem inForce_concat (own : Option Entries) (row : List Glyph) (g : Glyph) :
    inForce own (row ++ [g]) =
      if g.kind = .accidental then some ((inForce own row).getD [] ++ g.entries) else own.or (inForce own row) := by
  rw [inForce, foldl_append, ← inForce]
  rfl

theorem movedBy_concat (entries : Entries) (c : Char) (v : Int) (letter : Char) :
    movedBy (entries ++ [(c, v)]) letter = if c = letter then v else movedBy entries letter := by
  rw [movedBy, foldl_append, ← movedBy]
  rfl

/-- The entry that the flat of a clef sets. -/
def clefFlatKey? (clef : String) : Option String :=
  match clef.toList with
  | [family, _, line] => clefFlat? (String.ofList [family, line])
  | _ => none

variable {s : Score} {clef : String}

theorem of_clefFlat?_eq_singleton {letter : Char} (h : clefFlat? clef = some (String.singleton letter)) :
    (clef = "c3" ∨ clef = "f1") ∧ letter = 'g' := by
  have hlist : ∀ entry : String, some entry = some (String.singleton letter) → entry.toList = [letter] := by
    rintro _ ⟨⟩
    simp
  unfold clefFlat? at h
  split at h
  case h_2 => exact ⟨.inl rfl, by simpa using (hlist _ h).symm⟩
  case h_8 => exact ⟨.inr rfl, by simpa using (hlist _ h).symm⟩
  case h_9 => cases h
  all_goals simpa using hlist _ h

theorem clefFlatKey?_eq_singleton_iff (clef : String) (letter : Char) :
    clefFlatKey? clef = some (String.singleton letter) ↔ clefLowers? clef = some letter := by
  rw [clefFlatKey?, clefLowers?]
  rcases clef.toList with _ | ⟨family, _ | ⟨flat, _ | ⟨line, _ | ⟨further, rest⟩⟩⟩⟩
  case cons.cons.cons.nil =>
    constructor
    · intro h
      obtain ⟨hclef | hclef, rfl⟩ := of_clefFlat?_eq_singleton h
      all_goals
        obtain ⟨rfl, rfl⟩ : family = _ ∧ line = _ := by simpa using congrArg String.toList hclef
        rfl
    · intro h
      split at h
      next heq => cases heq; cases h; rfl
      next heq => cases heq; cases h; rfl
      next => cases h
  all_goals simp

theorem mem_staffLetters_of_letterNote? {letter : Char} {r : String × Int}
    (h : letterNote? clef letter = some r) : letter ∈ staffLetters := by
  rw [letterNote?] at h
  obtain ⟨offset, -, h⟩ := Option.bind_eq_some_iff.mp h
  obtain ⟨place, hplace, -⟩ := Option.bind_eq_some_iff.mp h
  obtain ⟨hlt, hc, -⟩ := List.findIdx?_eq_some_iff_getElem.mp hplace
  rw [beq_iff_eq] at hc
  exact hc ▸ getElem_mem hlt

/-! ## Tables of accidentals -/

/-- The accidentals are a table that has the entries; the letter of the clef's flat is left open. -/
def Tells (tables : Array (Table String Int)) (flat : Option String) (a : Accidentals) (entries : Entries) : Prop :=
  ∃ t table, a = .table t ∧ tables[t]? = some table ∧ table ≠ [] ∧
    ∀ c ∈ staffLetters, flat ≠ some (String.singleton c) →
      table.find? (String.singleton c) = some (movedBy entries c)

theorem Score.table_eq {t : Nat} {table : Table String Int} (h : s.tables[t]? = some table) : s.table t = table := by
  rw [Score.table, Array.getD_eq_getD_getElem?, h]
  rfl

theorem singleton_inj {c d : Char} (h : String.singleton c = String.singleton d) : c = d := by
  have := congrArg String.toList h
  simpa using this

theorem put_ne_nil (key : String) (value : Int) (table : Table String Int) : table.put key value ≠ [] := by
  cases table with
  | nil => simp [Table.put]
  | cons p rest =>
    rw [Table.put]
    split <;> simp

namespace Tells

variable {tables : Array (Table String Int)} {flat : Option String} {a : Accidentals} {entries : Entries}

theorem isVoid (h : Tells s.tables flat a entries) : Act.isVoid s a = false := by
  obtain ⟨t, table, rfl, ht, hne, -⟩ := h
  rw [Act.isVoid, Score.table_eq ht]
  simpa using hne

theorem push {table : Table String Int} (hne : table ≠ [])
    (hzero : ∀ c ∈ staffLetters, table.find? (String.singleton c) = some 0) :
    Tells (tables.push table) flat (.table tables.size) [] :=
  ⟨tables.size, table, rfl, by simp, hne, fun c hc _ => hzero c hc⟩

theorem put {t : Nat} (h : Tells tables flat (.table t) entries) (letter : Char) (value : Int) :
    Tells (tables.modify t fun table => table.put (String.singleton letter) value) flat (.table t)
      (entries ++ [(letter, value)]) := by
  obtain ⟨t, table, ⟨⟩, ht, -, hfind⟩ := h
  refine ⟨t, table.put (String.singleton letter) value, rfl, by simp [Array.getElem?_modify, ht], put_ne_nil _ _ _,
    fun c hc hflat => ?_⟩
  rw [movedBy_concat]
  split
  next h => rw [h, Table.find?_put_self]
  next h => rw [Table.find?_put_of_ne _ _ fun he => h (singleton_inj he), hfind c hc hflat]

theorem put_flat {t : Nat} {entry : String} (h : Tells tables (some entry) (.table t) entries) (value : Int) :
    Tells (tables.modify t fun table => table.put entry value) (some entry) (.table t) entries := by
  obtain ⟨t, table, ⟨⟩, ht, -, hfind⟩ := h
  refine ⟨t, table.put entry value, rfl, by simp [Array.getElem?_modify, ht], put_ne_nil _ _ _,
    fun c hc hflat => ?_⟩
  rw [Table.find?_put_of_ne _ _ fun he => hflat (by rw [he]), hfind c hc hflat]

end Tells

/-! ## Finding the accidentals -/

namespace Act

theorem ends_orIfMissing {α : Type} {x y : Act α} {Q : α → Score → Prop} {E : Fault → Score → Prop}
    (h : Ends x s Q fun f s' => (f = .value .noProperty → Ends y s' Q E) ∧ (f ≠ .value .noProperty → E f s')) :
    Ends (orIfMissing x y) s Q E := by
  rw [orIfMissing, ends_tryCatch]
  refine h.mono (fun _ _ => id) fun f s' h => ?_
  split
  · exact h.1 rfl
  next hne => exact h.2 hne

theorem ends_newTable (flat : Option String) {Q : Accidentals → Score → Prop} {E : Fault → Score → Prop}
    (hQ : ∀ a s', Quiet s s' → Tells s'.tables flat a [] → Q a s') : Ends newTable s Q E := by
  rw [newTable, ends_modifyGet]
  exact hQ _ _ (Quietly.newTable s) (.push (by decide) (all_iff_forall_prop.mp (by decide)))

variable {held : Accidentals} {entries : Entries}

theorem ends_enter {flat : Option String} {g : Sign} {P : Prop} (h : Tells s.tables flat held entries) :
    Ends (do
        let value ← need .missing (alteration? (← need .outOfRange g.code.toList[1]?))
        let letter ← need .outOfRange g.code.toList[0]?
        putAccidental held (String.singleton letter) value
        return held) s
      (fun held s' => ∃ entries', some (entries ++ g.glyph.entries) = some entries' ∧ Tells s'.tables flat held entries')
      (fun f _ => f = .value .noProperty → P) := by
  refine ends_need_bind (fun mark hmark => ?_) (fun h => by simp at h)
  refine ends_need_bind (fun value hvalue => ?_) (fun h => by simp at h)
  refine ends_need_bind (fun letter hletter => ?_) (fun h => by simp at h)
  have hentries : g.glyph.entries = [(letter, value)] := by
    rw [Glyph.entries, Sign.glyph]
    generalize g.code.toList = l at hmark hletter
    match l with
    | c :: d :: _ =>
      simp only [List.getElem?_cons_zero, List.getElem?_cons_succ, Option.some.injEq] at hmark hletter
      subst hmark hletter
      simp [hvalue]
  obtain ⟨t, table, rfl, ht, hne, hfind⟩ := h
  rw [hentries]
  exact ⟨_, rfl, Tells.put ⟨t, table, rfl, ht, hne, hfind⟩ letter value⟩

/-- A row of signs as their neume has it: each comes behind the one before it, and all but
    signs of alteration share the accidentals of the neume. -/
def Thread (s : Score) (a : Option Accidentals) (row : List Nat) : Prop :=
  Along (fun earlier i => (s.sign i).before = earlier.getLast? ∧
    ((s.sign i).kind ≠ .accidental → (s.sign i).accidentals = a)) row

theorem ends_accidentalsFrom {flat : Option String} {a : Option Accidentals} {own : Option Entries}
    (hown : Option.Rel (Tells s.tables flat) a own) {row : List Nat} (hrow : Thread s a row) {fuel : Nat}
    (hfuel : row.length < fuel) :
    Ends (accidentalsFrom fuel row.getLast?) s
      (fun held s' => ∃ entries, inForce own (row.map fun i => (s.sign i).glyph) = some entries ∧
        Tells s'.tables flat held entries)
      (fun f _ => f = .value .noProperty → inForce own (row.map fun i => (s.sign i).glyph) = none) := by
  obtain ⟨fuel, rfl⟩ : ∃ k, fuel = k + 1 := ⟨fuel - 1, by omega⟩
  induction row using List.reverseRecOn generalizing fuel with
  | nil => exact fun _ => rfl
  | append_singleton base i ih =>
    obtain ⟨hbefore, hshared⟩ := hrow.last
    have hlen : base.length < fuel := by simpa using hfuel
    obtain ⟨fuel, rfl⟩ : ∃ k, fuel = k + 1 := ⟨fuel - 1, by omega⟩
    replace ih := ih hrow.take fuel hlen
    rw [List.getLast?_concat, accidentalsFrom, ends_sign, map_append, map_cons, map_nil, inForce_concat, hbefore]
    by_cases hkind : (s.sign i).kind = .accidental
    · rw [if_pos hkind, if_pos (show (s.sign i).glyph.kind = .accidental from hkind), ends_bind]
      refine ends_orIfMissing (ih.mono (fun held s' h => ?_) fun f s' hnone => ⟨fun hf => ?_, fun hf h => absurd h hf⟩)
      · obtain ⟨entries, heq, htells⟩ := h
        rw [heq]
        exact ends_enter htells
      · rw [hnone hf]
        exact ends_newTable flat fun held s'' _ htells => ends_enter htells
    · rw [if_neg hkind, if_neg (show (s.sign i).glyph.kind ≠ .accidental from hkind), hshared hkind]
      cases hown with
      | none => exact ih
      | some htells => exact ⟨_, rfl, htells⟩

theorem Thread.quiet {s' : Score} {a : Option Accidentals} {row : List Nat} (h : Thread s a row) (hs : Quiet s s') :
    Thread s' a row := by
  intro base i later heq
  rw [hs.sign]
  exact h base i later heq

/-! ## Pitch -/

section Pitch

variable {s : Score} {flat : Option String} {a : Option Accidentals} {own : Option Entries} {row : List Nat} {i : Nat}

theorem ends_accidentalsOf (hown : Option.Rel (Tells s.tables flat) a own) (hrow : Thread s a (row ++ [i]))
    (hlen : row.length < s.signs.size) :
    Ends (accidentalsOf i) s
      (fun held s' => Quiet s s' ∧ ∃ entries, Tells s'.tables flat held entries ∧
        inForce own ((row ++ [i]).map fun j => (s.sign j).glyph) = some entries)
      (fun f s' => Quiet s s' ∧
        (f = .value .noProperty → inForce own ((row ++ [i]).map fun j => (s.sign j).glyph) = none)) := by
  have hfound : Ends (accidentalsOf i) s
      (fun held s' => ∃ entries, Tells s'.tables flat held entries ∧
        inForce own ((row ++ [i]).map fun j => (s.sign j).glyph) = some entries)
      (fun f _ => f = .value .noProperty → inForce own ((row ++ [i]).map fun j => (s.sign j).glyph) = none) := by
    rw [accidentalsOf, ends_bind, ends_get]
    have h := ends_accidentalsFrom hown hrow (show (row ++ [i]).length < s.signs.size + 1 by simpa using hlen)
    rw [List.getLast?_concat] at h
    exact h.mono (fun held s' ⟨entries, heq, htells⟩ => ⟨entries, htells, heq⟩) fun _ _ => id
  exact ((Quietly.accidentalsOf i).within s).and hfound

/-- Accidentals that tell what is in force behind `glyphs`: new ones, or those of the neume. -/
def Found (s : Score) (flat : Option String) (a : Option Accidentals) (own : Option Entries) (glyphs : List Glyph)
    (held : Accidentals) (s' : Score) : Prop :=
  Quiet s s' ∧ ∃ entries, Tells s'.tables flat held entries ∧ (inForce own glyphs).getD [] = entries ∧
    (a = none ∧ own = none ∨ a = some held ∧ own = some entries)

theorem ends_noteAccidentals (hown : Option.Rel (Tells s.tables flat) a own) (hrow : Thread s a (row ++ [i]))
    (hlen : row.length < s.signs.size) (hkind : (s.sign i).kind ≠ .accidental) :
    Ends (noteAccidentals i) s (Found s flat a own ((row ++ [i]).map fun j => (s.sign j).glyph)) fun _ _ => True := by
  set glyphs := (row ++ [i]).map fun j => (s.sign j).glyph with hglyphs
  rw [noteAccidentals]
  refine ends_orIfMissing ?_
  rw [ends_bind]
  cases hown with
  | none =>
    -- whichever search finds nothing, there is nothing to be found
    have hnew : ∀ f s₁, Quiet s s₁ ∧ (f = Fault.value .noProperty → inForce none glyphs = none) →
        (f = .value .noProperty → Ends newTable s₁ (Found s flat none none glyphs) fun _ _ => True) ∧
        (f ≠ .value .noProperty → True) := by
      rintro f s₁ ⟨hs₁, hnone⟩
      refine ⟨fun hf => ends_newTable flat fun held s₂ hs₂ htells => ?_, fun _ => trivial⟩
      rw [Found, hnone hf]
      exact ⟨hs₁.trans hs₂, [], htells, rfl, .inl ⟨rfl, rfl⟩⟩
    have hfree : ∀ tables, Option.Rel (Tells tables flat) none none := fun _ => .none
    refine (ends_accidentalsOf (hfree _) hrow hlen).mono (fun held s₁ h => ?_) hnew
    obtain ⟨hs₁, entries, htells, -⟩ := h
    rw [ends_bind, ends_get, htells.isVoid, if_neg Bool.false_ne_true]
    have h := ends_accidentalsOf (hfree _) (hrow.quiet hs₁) (by rwa [hs₁.signs])
    simp only [hs₁.sign, ← hglyphs] at h
    refine h.mono (fun held s₂ h => ?_) fun f s₂ h => hnew f s₂ ⟨hs₁.trans h.1, h.2⟩
    obtain ⟨hs₂, entries, htells, heq⟩ := h
    exact ⟨hs₁.trans hs₂, entries, htells, by rw [heq]; rfl, .inl ⟨rfl, rfl⟩⟩
  | some htells =>
    next held entries =>
    have hgives : Gives (accidentalsOf i) s held s := by
      rw [accidentalsOf]
      refine Gives.of_bind (Gives.of_get s) ?_
      rw [accidentalsFrom]
      refine Gives.of_bind (show Gives (sign i) s (s.sign i) s from rfl) ?_
      rw [if_neg hkind, hrow.last.2 hkind]
      exact Gives.of_pure _ _
    have hforce : inForce (some entries) glyphs = some entries := by
      rw [hglyphs, map_append, map_cons, map_nil, inForce_concat,
        if_neg (show (s.sign i).glyph.kind ≠ .accidental from hkind)]
      rfl
    rw [hgives.ends, ends_bind, ends_get, htells.isVoid, if_neg Bool.false_ne_true, hgives.ends]
    exact ⟨.refl s, entries, htells, by rw [hforce]; rfl, .inr ⟨rfl, rfl⟩⟩

theorem gives_accidentalAt (h : Tells s.tables (clefFlatKey? clef) held entries)
    (hflat : ∀ entry, clefFlatKey? clef = some entry → ∃ t, held = .table t ∧ (s.table t).find? entry = some (-1))
    {letter : Char} (hletter : letter ∈ staffLetters) :
    Gives (accidentalAt held (String.singleton letter)) s (movedAt clef (some entries) letter) s := by
  obtain ⟨t, table, rfl, ht, -, hfind⟩ := h
  have hvalue : (s.table t).find? (String.singleton letter) = some (movedAt clef (some entries) letter) := by
    rw [movedAt]
    split
    next hlowers =>
      obtain ⟨t, ⟨⟩, hentry⟩ := hflat _ ((clefFlatKey?_eq_singleton_iff clef letter).mpr hlowers)
      exact hentry
    next hlowers =>
      have hentry := mt (clefFlatKey?_eq_singleton_iff clef letter).mp hlowers
      rw [Score.table_eq ht, hfind letter hletter hentry]
      rfl
  refine Gives.of_bind (Gives.of_get s) ?_
  rw [hvalue]
  exact Gives.of_pure _ _

theorem plainClef_cases (clef : String) :
    (∃ family line, clefFlatKey? clef = clefFlat? (String.ofList [family, line]) ∧
      clefWithoutFlat clef = String.ofList [family, line] ∧
      ∀ held, plainClef clef held = do
        putAccidental held (← need .missing (clefFlat? (String.ofList [family, line]))) (-1)
        return String.ofList [family, line]) ∨
    (clefFlatKey? clef = none ∧ clefWithoutFlat clef = clef ∧ ∀ held, plainClef clef held = return clef) := by
  simp only [clefFlatKey?, clefWithoutFlat, plainClef]
  rcases clef.toList with _ | ⟨family, _ | ⟨flat, _ | ⟨line, _ | ⟨further, rest⟩⟩⟩⟩
  case cons.cons.cons.nil => exact .inl ⟨family, line, rfl, rfl, fun _ => rfl⟩
  all_goals exact .inr ⟨rfl, rfl, fun _ => rfl⟩

theorem ends_plainClef (h : Tells s.tables (clefFlatKey? clef) held entries) : Ends (plainClef clef held) s
      (fun c s' => c = clefWithoutFlat clef ∧ Quiet s s' ∧ Tells s'.tables (clefFlatKey? clef) held entries ∧
        ∀ entry, clefFlatKey? clef = some entry → ∃ t, held = .table t ∧ (s'.table t).find? entry = some (-1))
      (fun _ _ => True) := by
  rcases plainClef_cases clef with ⟨family, line, hkey, hwithout, hplain⟩ | ⟨hkey, hwithout, hplain⟩
  · rw [hplain]
    refine ends_need_bind (fun entry hentry => ?_) trivial
    rw [hkey, hentry] at h ⊢
    have hput := h
    obtain ⟨t, table, rfl, ht, -⟩ := h
    refine ⟨hwithout.symm, Quietly.putAccidental (.table t) entry (by decide) s, hput.put_flat (-1), fun e he => ⟨t, rfl, ?_⟩⟩
    cases he
    rw [Score.table_eq (show _ = some (table.put entry (-1)) by simp [Array.getElem?_modify, ht]), Table.find?_put_self]
  · rw [hkey] at h ⊢
    rw [hplain]
    exact ⟨hwithout.symm, .refl s, h, fun _ h => (nomatch h)⟩

theorem ends_pitchOf (code : String)
    (hclef : (s.clefOf? (s.syllable (s.neume (s.sign i).neume).syllable).word).map Sign.code = some clef)
    (hown : Option.Rel (Tells s.tables (clefFlatKey? clef)) a own) (hrow : Thread s a (row ++ [i]))
    (hlen : row.length < s.signs.size) (hkind : (s.sign i).kind ≠ .accidental) :
    Ends (pitchOf i code) s
      (fun pitch s' => Quiet s s' ∧ Option.Rel (Tells s'.tables (clefFlatKey? clef)) a own ∧
        ∃ letter name height, (Text.lower code).toList.head? = some letter ∧
          letterNote? (clefWithoutFlat clef) letter = some (name, height) ∧
          pitch = height + movedAt clef (own.or (inForce own (row.map fun j => (s.sign j).glyph))) letter)
      (fun _ _ => True) := by
  obtain ⟨g, hg, rfl⟩ := Option.map_eq_some_iff.mp hclef
  have hat : Gives (clefAt i) s g.code s := by
    refine Gives.of_bind (Gives.of_get s) ?_
    dsimp only
    rw [hg]
    exact Gives.of_pure _ _
  rw [pitchOf, ends_bind, hat.ends]
  refine (ends_noteAccidentals hown hrow hlen hkind).seq fun held s₁ h => ?_
  obtain ⟨hs₁, entries, htells, hforce, hheld⟩ := h
  refine (ends_plainClef htells).seq fun plain s₂ h => ?_
  obtain ⟨rfl, hs₂, htells₂, hflat⟩ := h
  have hown₂ : Option.Rel (Tells s₂.tables (clefFlatKey? g.code)) a own := by
    rcases hheld with ⟨rfl, rfl⟩ | ⟨rfl, rfl⟩
    · exact .none
    · exact .some htells₂
  refine ends_need_bind (fun _ _ => ?_) trivial
  refine ends_need_bind (fun letter hletter => ?_) trivial
  refine ends_need_bind (fun place hplace => ?_) trivial
  obtain ⟨name, height⟩ := place
  have hvalue := gives_accidentalAt htells₂ hflat (mem_staffLetters_of_letterNote? hplace)
  have hmoved : movedAt g.code (own.or (inForce own (row.map fun j => (s.sign j).glyph))) letter =
      movedAt g.code (some entries) letter := by
    rw [map_append, map_cons, map_nil, inForce_concat,
      if_neg (show (s.sign i).glyph.kind ≠ .accidental from hkind)] at hforce
    rw [movedAt, hforce, movedAt]
    rfl
  rw [ends_bind, hvalue.ends]
  have hend : ∀ s₃, Quiet s₂ s₃ → s₃.tables = s₂.tables → Quiet s s₃ ∧
      Option.Rel (Tells s₃.tables (clefFlatKey? g.code)) a own ∧
        ∃ letter' name' height', (Text.lower code).toList.head? = some letter' ∧
          letterNote? (clefWithoutFlat g.code) letter' = some (name', height') ∧
          height + movedAt g.code (some entries) letter = height' +
            movedAt g.code (own.or (inForce own (row.map fun j => (s.sign j).glyph))) letter' := by
    intro s₃ hs₃ htables
    rw [htables]
    exact ⟨(hs₁.trans hs₂).trans hs₃, hown₂, letter, name, height, hletter, hplace, by rw [hmoved]⟩
  dsimp only
  split
  · exact hend _ (Quietly.warn _ s₂) rfl
  · exact hend s₂ (.refl s₂) rfl

end Pitch

end Act

end Plainsong.Chant
