import Plainsong.Abc.Score.Measure
import Plainsong.Proofs.Xml.Look
/- Writing that spares the notes and beams. -/
namespace Plainsong.Abc

variable {α β : Type} {s s' : Score}

/-! ## Runs -/

/-- The run ends with that result in that score. -/
def ScoreM.Ran (x : ScoreM α) (s : Score) (a : α) (s' : Score) : Prop := x.run s = .ok a s'

namespace ScoreM

variable {x y : ScoreM α} {f : α → ScoreM β} {a : α} {b : β} {r : Score} {c : Prop} [Decidable c]

@[simp, grind =] theorem ran_bind : Ran (x >>= f) s b s' ↔ ∃ s₁ a, x.Ran s a s₁ ∧ (f a).Ran s₁ b s' := by
  change EStateM.bind x f s = _ ↔ ∃ s₁ a, x s = _ ∧ _
  rw [EStateM.bind]
  cases hx : x s with
  | ok a s₁ => grind [Ran, EStateM.run]
  | error e s₁ => simp

@[simp, grind =] theorem ran_pure {a b : α} : Ran (pure a : ScoreM α) s b s' ↔ a = b ∧ s = s' := by
  change EStateM.Result.ok a s = _ ↔ _
  rw [EStateM.Result.ok.injEq]

@[simp, grind =] theorem ran_map {f : α → β} : Ran (f <$> x) s b s' ↔ ∃ a, x.Ran s a s' ∧ f a = b := by
  rw [← bind_pure_comp, ran_bind]
  grind

@[simp, grind =] theorem ran_get : Ran (get : ScoreM Score) s r s' ↔ s = r ∧ s = s' := ran_pure

@[simp, grind .] theorem ran_throw {e : Grammar.Fault} : ¬ Ran (throw e : ScoreM α) s a s' := fun h => by cases h

@[simp] theorem ran_ite : Ran (if c then x else y) s a s' ↔ if c then x.Ran s a s' else y.Ran s a s' := by split_ifs <;> rfl

end ScoreM

namespace Score

/-- An element that may be written into: it is there and is no beam. -/
abbrev Open (s : Score) (id : Nat) : Prop := s.tree.look.kind id ≠ some "beam" ∧ id < s.tree.elements.size

/-- An element that may be put anywhere: it is there and is neither note nor beam. -/
abbrev Loose (s : Score) (id : Nat) : Prop := s.tree.look.kind id = none ∧ id < s.tree.elements.size

/-- Every child is there, and the lyrics, tuplets and measure that the score will come back to may be written into. -/
structure Sound (s : Score) : Prop where
  closed : s.tree.Closed
  lyric : ∀ p ∈ s.lastLyric, s.Open p.2
  tuplet : ∀ p ∈ s.tuplet, s.Open p.2
  measure : ∀ m ∈ s.lastMeasure, s.Open m

/-- The second score is sound and shows that look, has the same note as the last one under a beam, and no
    element is lost. -/
abbrev Turns (s s' : Score) (l : Xml.Look) : Prop :=
  s'.Sound ∧ s'.tree.look = l ∧ s'.lastBeamed = s.lastBeamed ∧ s.tree.elements.size ≤ s'.tree.elements.size

/-- The second score shows the same notes and beams. -/
abbrev Spares (s s' : Score) : Prop := s.Turns s' s.tree.look

/-- What the alteration of a note depends on beside the ties. -/
@[grind =] def scale (s : Score) : Int × Table String String × Table (String × Int) String × Int × Bool :=
  (s.overlay, s.keyAlters, s.measureAlters, s.octaveShift, s.isPercussion)

/-- The second score shows the same notes and beams, and alters notes alike. -/
abbrev Quiet (s s' : Score) : Prop := s.Spares s' ∧ s'.scale = s.scale

variable {id parent child e : Nat} {tag text key value : String} {attributes : List (String × String)} {level : Int} {u : Unit}

theorem turns_tree {t : Xml.Tree} {l : Xml.Look} (hs : s.Sound) (hclosed : t.Closed) (hlook : t.look = l)
    (hsize : s.tree.elements.size ≤ t.elements.size) (hkind : ∀ id < s.tree.elements.size, l.kind id = s.tree.look.kind id) :
    s.Turns { s with tree := t } l := by
  have hopen : ∀ {id}, s.Open id → ({ s with tree := t } : Score).Open id := fun h =>
    ⟨by rw [hlook, hkind _ h.2]; exact h.1, h.2.trans_le hsize⟩
  exact ⟨⟨hclosed, fun p hp => hopen (hs.lyric p hp), fun p hp => hopen (hs.tuplet p hp), fun m hm => hopen (hs.measure m hm)⟩, hlook, rfl, hsize⟩

theorem spares_tree {t : Xml.Tree} (hs : s.Sound) (hclosed : t.Closed) (hlook : t.look = s.tree.look)
    (hsize : s.tree.elements.size ≤ t.elements.size) : s.Spares { s with tree := t } :=
  turns_tree hs hclosed hlook hsize fun _ _ => rfl

variable {ds signs : List String} {free : Option Bool} {x : Xml.Element}

theorem turns_newElem (h : (newElem x).Ran s e s') (hs : s.Sound) (hx : x.children = #[]) :
    s.Turns s' { s.tree.look with
      kind := Function.update s.tree.look.kind e (Xml.Tree.mark x.tag)
      text := Function.update s.tree.look.text e (if x.tag = "beam" then x.text else none) } ∧ e = s.tree.elements.size := by
  cases h
  exact ⟨turns_tree hs (Xml.Tree.closed_add hs.closed hx) (Xml.Tree.look_add hs.closed hx) (by simp) fun id hid =>
    Function.update_of_ne hid.ne .., rfl⟩

theorem run_newElem (h : (newElem x).Ran s e s') (hs : s.Sound) (hx : x.children = #[])
    (hnote : x.tag ≠ "note") (hbeam : x.tag ≠ "beam") : s.Quiet s' ∧ s'.Loose e := by
  cases h
  have hlook : (s.tree.add x).2.look = s.tree.look := Xml.Tree.look_add_eq hs.closed hx (by simp [Xml.Tree.mark, hnote, hbeam])
  refine ⟨⟨spares_tree hs (Xml.Tree.closed_add hs.closed hx) hlook (by simp), rfl⟩, ?_, by simp⟩
  rw [hlook]
  exact Xml.Tree.kind_of_size_le le_rfl

@[grind →] theorem run_elem (h : (elem tag attributes).Ran s e s') (hs : s.Sound) (hnote : tag ≠ "note") (hbeam : tag ≠ "beam") :
    s.Quiet s' ∧ s'.Loose e := run_newElem h hs rfl hnote hbeam

@[grind →] theorem run_elemWithText (h : (elemWithText tag text).Ran s e s') (hs : s.Sound) (hnote : tag ≠ "note") (hbeam : tag ≠ "beam") :
    s.Quiet s' ∧ s'.Loose e := run_newElem h hs rfl hnote hbeam

@[grind →] theorem run_addElem (h : (addElem parent child level).Ran s u s') (hs : s.Sound)
    (hparent : s.tree.look.kind parent ≠ some "beam") (hchild : s.Loose child) : s.Quiet s' := by
  cases h
  exact ⟨spares_tree hs (Xml.Tree.closed_append hs.closed hchild.2 level) (Xml.Tree.look_append_eq hparent hchild.1 level) (by simp), rfl⟩

@[grind →] theorem run_setAttr (h : (setAttr id key value).Ran s u s') (hs : s.Sound) : s.Quiet s' := by
  cases h
  have hsame : ∀ x : Xml.Element, (x.setAttr key value).tag = x.tag ∧ (x.setAttr key value).children = x.children ∧
      (x.setAttr key value).text = x.text := by grind [Xml.Element.setAttr]
  refine ⟨spares_tree hs (Xml.Tree.closed_change hs.closed ?_) (Xml.Tree.look_change_eq ?_ (hsame _).2.1 fun _ => (hsame _).2.2) (by simp), rfl⟩
  · rw [(hsame _).2.1]
    exact hs.closed id
  · rw [(hsame _).1]

@[grind →] theorem run_setText (h : (setText id text).Ran s u s') (hs : s.Sound) (hid : s.tree.look.kind id ≠ some "beam") :
    s.Quiet s' := by
  cases h
  exact ⟨spares_tree hs (Xml.Tree.closed_change hs.closed (hs.closed id)) (Xml.Tree.look_change_eq rfl rfl fun h => absurd h hid) (by simp), rfl⟩

@[grind →] theorem run_removeElem (h : (removeElem parent child).Ran s u s') (hs : s.Sound) (hchild : s.tree.look.kind child = none) :
    s.Quiet s' := by
  cases h
  exact ⟨spares_tree hs (Xml.Tree.closed_remove hs.closed parent child) (Xml.Tree.look_remove_eq hchild) (Xml.Tree.size_change ..).ge, rfl⟩

theorem run_modify_refs {f : Score → Score} (h : (modify f : ScoreM Unit).Ran s u s') (hs : s.Sound) (htree : (f s).tree = s.tree)
    (hlast : (f s).lastBeamed = s.lastBeamed) (hlyric : ∀ p ∈ (f s).lastLyric, s.Open p.2) (htuplet : ∀ p ∈ (f s).tuplet, s.Open p.2)
    (hmeasure : ∀ m ∈ (f s).lastMeasure, s.Open m) : s.Spares s' ∧ s'.scale = (f s).scale := by
  cases h
  have hopen : ∀ {id}, s.Open id → (f s).Open id := fun h => by rwa [Open, htree]
  exact ⟨⟨⟨htree ▸ hs.closed, fun p hp => hopen (hlyric p hp), fun p hp => hopen (htuplet p hp), fun m hm => hopen (hmeasure m hm)⟩,
    by rw [htree], hlast, by rw [htree]⟩, rfl⟩

@[grind →] theorem run_modify {f : Score → Score} (h : (modify f : ScoreM Unit).Ran s u s') (hs : s.Sound) (htree : (f s).tree = s.tree)
    (hlast : (f s).lastBeamed = s.lastBeamed) (hlyric : (f s).lastLyric = s.lastLyric) (htuplet : (f s).tuplet = s.tuplet)
    (hmeasure : (f s).lastMeasure = s.lastMeasure) : s.Spares s' ∧ s'.scale = (f s).scale :=
  run_modify_refs h hs htree hlast (hlyric ▸ hs.lyric) (htuplet ▸ hs.tuplet) (hmeasure ▸ hs.measure)

@[grind →] theorem run_addNew (h : (addNew parent tag attributes level).Ran s e s') (hs : s.Sound)
    (hparent : s.tree.look.kind parent ≠ some "beam") (hnote : tag ≠ "note") (hbeam : tag ≠ "beam") : s.Quiet s' ∧ s'.Loose e := by
  simp [addNew] at h
  grind

@[grind →] theorem run_addText (h : (addText parent tag text level).Ran s e s') (hs : s.Sound)
    (hparent : s.tree.look.kind parent ≠ some "beam") (hnote : tag ≠ "note") (hbeam : tag ≠ "beam") : s.Quiet s' ∧ s'.Loose e := by
  simp [addText] at h
  grind

/-! ## Asking -/

/-- What does not look at the elements stays as it is when they are made and put somewhere. -/
theorem keeps_newElem (g : Score → α) (hg : ∀ s tree, g { s with tree } = g s) (h : (newElem x).Ran s e s') : g s' = g s := by
  cases h
  exact hg ..

theorem keeps_addText (g : Score → α) (hg : ∀ s tree, g { s with tree } = g s) (h : (addText parent tag text level).Ran s e s') : g s' = g s := by
  simp [addText] at h
  obtain ⟨s₁, h₁, _, h₂⟩ := h
  cases h₂
  exact (hg ..).trans (keeps_newElem g hg h₁)

@[grind →] theorem run_warn (h : (warn text).Ran s u s') (hs : s.Sound) : s.Quiet s' := by
  simp [warn, say] at h
  grind

@[grind →] theorem run_readInt {k : Int} (h : (readInt text).Ran s k s') : s = s' := by
  unfold readInt at h
  split at h <;> simp at h
  exact h.2

@[grind →] theorem run_liftExcept {x : Except Grammar.Fault α} {a : α} (h : (liftExcept x).Ran s a s') : s = s' := by
  cases x with
  | ok => exact (ScoreM.ran_pure.mp h).2
  | error => cases h

variable {note notations technical : Nat} {accidental letter sound outer inner name sign : String} {octave octaveNumber a b : Int}
  {w : Written} {k : Int × Int}

@[grind →] theorem run_lowest (h : (lowest a b).Ran s k s') : s = s' := run_liftExcept h

@[grind →] theorem run_quotient {q : Int} (h : (quotient a b).Ran s q s') : s = s' := by
  simp [quotient] at h
  grind

@[grind →] theorem run_staff {k : Int} (h : staff.Ran s k s') : s = s' := by
  simp [staff] at h
  grind

@[grind →] theorem run_element (h : (element id).Ran s x s') : x = s.tree.get id ∧ s = s' := by
  simp [element] at h
  grind

@[grind →] theorem run_child? {x : Option Nat} (h : (child? id tag).Ran s x s') : x = s.tree.child? id tag ∧ s = s' := by
  simp [child?] at h
  grind

/-! ## Pitches -/

@[grind →] theorem run_drumPitch (h : (drumPitch accidental letter octave level).Ran s w s') (hs : s.Sound) :
    s.Quiet s' ∧ s'.Loose w.element := by
  simp [drumPitch] at h
  grind -funext

@[grind →] theorem run_alteration (h : (alteration accidental letter octave octaveNumber).Ran s text s') (hs : s.Sound) : s.Spares s' := by
  simp [alteration] at h
  grind -funext

@[grind →] theorem run_pitch (h : (pitch accidental letter octave level).Ran s w s') (hs : s.Sound) :
    s.Spares s' ∧ s'.Loose w.element := by
  simp [pitch] at h
  grind -funext

/-! ## Notations -/

@[grind →] theorem run_addIn (h : (addIn notations outer inner level).Ran s u s') (hs : s.Sound) (hopen : s.Open notations)
    (houter : outer ∉ ["note", "beam"]) (hinner : inner ∉ ["note", "beam"]) : s.Quiet s' := by
  simp [addIn] at h
  grind -funext

@[grind →] theorem run_writtenSound {r : Int × Int × String × Int} (h : (writtenSound note).Ran s r s') : s = s' := by
  simp [writtenSound] at h
  grind -funext

@[grind →] theorem run_searchString {span : Span} {strings : List (Int × Int)} {r r' : StringSearch}
    (h : (searchString a span strings r).Ran s r' s') (hs : s.Sound) : s.Quiet s' := by
  induction strings generalizing s r with
  | nil => grind [searchString]
  | cons p rest ih =>
    simp [searchString] at h
    grind -funext

@[grind →] theorem run_forceString {span : Span} (h : (forceString name span).Ran s u s') (hs : s.Sound) : s.Quiet s' := by
  simp [forceString] at h
  grind -funext

@[grind →] theorem run_addFret {wanted : String} {r : Option Bool} (h : (addFret note technical wanted free level).Ran s r s') (hs : s.Sound)
    (hopen : s.Open technical) : s.Quiet s' := by
  simp [addFret] at h
  grind -funext

theorem notMem_of_find? {table : Table String String} (htable : ∀ p ∈ table, p.2 ∉ ["note", "beam"]) (h : table.find? key = some name) :
    name ∉ ["note", "beam"] := htable _ (Table.mem_of_find? h)

@[grind →] theorem run_addArticulation {r : Option Bool × List String}
    (h : (addArticulation note notations level free text).Ran s r s') (hs : s.Sound) (hopen : s.Open notations) : s.Quiet s' := by
  have harticulations : ∀ name, articulations.find? text = some name → name ∉ ["note", "beam"] := fun _ => notMem_of_find? (by decide)
  have hornaments : ∀ name, ornaments.find? text = some name → name ∉ ["note", "beam"] := fun _ => notMem_of_find? (by decide)
  have htechnicals : ∀ name, technicals.find? text = some name → name ∉ ["note", "beam"] := fun _ => notMem_of_find? (by decide)
  unfold addArticulation at h
  split at h
  · grind
  split at h
  · grind
  · grind -funext

@[grind →] theorem run_addArticulations {names rest : List String} (h : (addArticulations note notations level names free).Ran s rest s') (hs : s.Sound) (hopen : s.Open notations) : s.Quiet s' := by
  induction names generalizing s free rest with
  | nil => grind [addArticulations]
  | cons a rest ih =>
    simp [addArticulations] at h
    grind -funext

@[grind →] theorem run_addLine {lineType : String} {starts : Bool} {count r : Int}
    (h : (addLine notations tag lineType starts count level).Ran s r s') (hs : s.Sound) (hopen : s.Open notations) (htag : tag ∉ ["note", "beam"]) :
    s.Quiet s' := by
  simp [addLine] at h
  grind -funext

@[grind →] theorem run_addDecorations {rest : List String} (h : (addDecorations notations level ds).Ran s rest s') (hs : s.Sound)
    (hopen : s.Open notations) : s.Quiet s' := by
  induction ds generalizing s rest with
  | nil => grind [addDecorations]
  | cons d ds ih =>
    simp [addDecorations] at h
    grind -funext

@[grind →] theorem run_closeSlurs (h : (closeSlurs notations level signs).Ran s u s') (hs : s.Sound)
    (hopen : s.Open notations) : s.Quiet s' := by
  induction signs generalizing s with
  | nil => grind [closeSlurs]
  | cons sign rest ih =>
    simp [closeSlurs] at h
    grind -funext

@[grind →] theorem run_openSlurs (h : (openSlurs notations level signs).Ran s u s') (hs : s.Sound)
    (hopen : s.Open notations) : s.Quiet s' := by
  induction signs generalizing s with
  | nil => grind [openSlurs]
  | cons sign rest ih =>
    simp [openSlurs] at h
    grind -funext

@[grind →] theorem run_starting (h : (starting id tag).Ran s e s') (htag : tag ∉ ["note", "beam"]) :
    s = s' ∧ s.tree.look.kind e = none := by
  unfold starting at h
  simp at h
  grind [Xml.Tree.look, Xml.Tree.childrenTagged, Xml.Tree.mark]

theorem run_setTag (h : (modify fun s => { s with tree := s.tree.change e fun x => { x with tag } } : ScoreM Unit).Ran s u s') (hs : s.Sound)
    (hkind : s.tree.look.kind e = none) (htag : tag ∉ ["note", "beam"]) : s.Quiet s' := by
  cases h
  refine ⟨spares_tree hs (Xml.Tree.closed_change hs.closed (hs.closed e)) (Xml.Tree.look_change_eq ?_ rfl fun _ => rfl) (by simp), rfl⟩
  exact (show Xml.Tree.mark tag = none by grind [Xml.Tree.mark]).trans hkind.symm

@[grind →] theorem run_mendTies {node : Node} {here : Option (String × Int)} {ties : List ((String × Int) × Tie)} (h : (mendTies node here ties).Ran s signs s') (hs : s.Sound) : s.Quiet s' := by
  induction ties generalizing s signs with
  | nil => grind [mendTies]
  | cons p rest ih =>
    simp [mendTies] at h
    split at h
    · exact ih h hs
    · obtain ⟨s₁, ⟨_, h₁⟩, s₂, ⟨_, h₂⟩, s₃, tie, h₃, s₄, ⟨_, h₄⟩, s₅, tied, h₅, s₆, ⟨_, h₆⟩, h⟩ := h
      have hrenamed := fun hs hkind => run_setTag h₆ hs hkind (by simp)
      grind

@[grind →] theorem run_addBracket {bracket : String} {r : Bool} (h : (addBracket notations bracket level).Ran s r s') (hs : s.Sound)
    (hopen : s.Open notations) : s.Quiet s' := by
  simp [addBracket] at h
  grind -funext

@[grind →] theorem run_notations {f : NoteFacts} (h : (Score.notations f level).Ran s u s') (hs : s.Sound) (hopen : s.Open f.element) :
    s.Quiet s' := by
  unfold Score.notations at h
  rw [ScoreM.ran_bind] at h
  obtain ⟨_, _, h₁, h⟩ := h
  rw [ScoreM.ran_bind] at h
  obtain ⟨s₂, added, h₂, h⟩ := h
  rw [ScoreM.ran_bind] at h
  obtain ⟨s₃, _, h₃, h⟩ := h
  split at h
  · grind
  rw [ScoreM.ran_bind] at h
  obtain ⟨s₄, e, h₄, h⟩ := h
  rw [ScoreM.ran_bind] at h
  obtain ⟨s₅, goesOn, h₅, h⟩ := h
  split at h
  · grind
  extract_lets slurred written tied stopped at h
  revert h
  have hslurred : ∀ {s u}, (slurred u).Ran s () s' → s.Sound → s.Loose e → s.Open f.element → s.Quiet s' := by
    intro s u h
    simp [slurred] at h
    grind -funext
  clear_value slurred
  have hwritten : ∀ {s u}, (written u).Ran s () s' → s.Sound → s.Loose e → s.Open f.element → s.Quiet s' := by
    intro s u h
    simp [written] at h
    grind -funext
  clear_value written
  have htied : ∀ {s u}, (tied u).Ran s () s' → s.Sound → s.Loose e → s.Open f.element → s.Quiet s' := by
    intro s u h
    simp only [tied] at h
    split at h
    · split at h <;> simp at h <;> grind -funext
    · exact hwritten h
  clear_value tied
  intro h
  grind -funext

variable {node : Node} {verse : Nat}

@[grind →] theorem mem_of_mem_put {key : α} [DecidableEq α] {value : β} {t : Table α β} {p : α × β} (h : p ∈ t.put key value) :
    p ∈ t ∨ p.2 = value := by
  induction t with
  | nil => grind [Table.put]
  | cons q t ih => grind [Table.put]

@[grind →] theorem Sound.open_of_find? (hs : s.Sound) (h : s.lastLyric.find? verse = some id) : s.Open id :=
  hs.lyric _ (Table.mem_of_find? h)

@[grind →] theorem run_addVerse (h : (addVerse note level verse node).Ran s u s') (hs : s.Sound) (hopen : s.Open note) : s.Quiet s' := by
  unfold addVerse at h
  rw [ScoreM.ran_bind] at h
  obtain ⟨s₁, e, h₁, h⟩ := h
  extract_lets keep dash extend at h
  revert h
  have hkeep : ∀ {s u}, keep.Ran s u s' → s.Sound → s.Loose e → s.Open note → s.Quiet s' := by
    intro s u h hs he hnote
    obtain ⟨s₂, _, h₂, h⟩ := ScoreM.ran_bind.mp h
    have h₂ := run_addElem h₂ hs hnote.1 he
    have := run_modify_refs h h₂.1.1 rfl rfl (fun p hp => by grind [h₂.1.1.lyric]) h₂.1.1.tuplet h₂.1.1.measure
    grind
  clear_value keep
  have hextend : ∀ {s u}, (extend u).Ran s () s' → s.Sound → s.Loose e → s.Open note → s.Quiet s' := by
    intro s u h
    simp [extend] at h
    grind
  clear_value extend
  intro h
  split at h
  · simp at h
    grind -funext
  · simp at h
    grind -funext

@[grind →] theorem run_addVerses {items : List Token} (h : (addVerses note level items verse).Ran s u s') (hs : s.Sound) (hopen : s.Open note) :
    s.Quiet s' := by
  induction items generalizing s verse with
  | nil => grind [addVerses]
  | cons item rest ih =>
    cases item with
    | inl n =>
      simp [addVerses] at h
      grind
    | inr l => cases h

/-! ## Lengths and tuplets -/

@[grind →] theorem run_countTuplet (h : (countTuplet node).Ran s u s') (hs : s.Sound) : s.Quiet s' := by
  simp [countTuplet] at h
  grind -funext

@[grind →] theorem run_limitDenominator (h : (limitDenominator a b).Ran s k s') (hs : s.Sound) : s.Quiet s' := by
  simp [limitDenominator] at h
  grind -funext

@[grind →] theorem run_lengthOf {l : Length} (h : (lengthOf node).Ran s l s') (hs : s.Sound) : s.Quiet s' := by
  simp [lengthOf] at h
  grind -funext

@[grind →] theorem run_typeOf {l : Length} {part : Int} {r : Int × String} (h : (typeOf l part).Ran s r s') (hs : s.Sound) : s.Quiet s' := by
  unfold typeOf at h
  grind -funext

theorem run_forIn {l : List α} {f : α → PUnit → ScoreM (ForInStep PUnit)} (h : (forIn l PUnit.unit f).Ran s u s') (hs : s.Sound)
    (hround : ∀ x ∈ l, ∀ s₁ s₂ r, (f x PUnit.unit).Ran s₁ r s₂ → s.Quiet s₁ → s₁.Quiet s₂) : s.Quiet s' := by
  induction l generalizing s with
  | nil =>
    simp at h
    grind
  | cons x rest ih =>
    simp at h
    obtain ⟨s₁, r, h₁, h⟩ := h
    have hone := hround x (by simp) s s₁ r h₁ (by grind)
    cases r with
    | done => grind
    | yield => grind

@[grind →] theorem run_nameNormalType {ticks : Int} (h : (nameNormalType ticks level).Ran s u s') (hs : s.Sound) : s.Quiet s' := by
  unfold nameNormalType at h
  rw [ScoreM.ran_bind] at h
  obtain ⟨_, _, h₁, h⟩ := h
  extract_lets done named lengths at h
  revert h
  have hdone : ∀ {s u}, (done u).Ran s () s' → s.Sound → s.Quiet s' := fun h hs =>
    run_modify_refs h hs rfl rfl hs.lyric (by simp) hs.measure
  clear_value done
  have hnamed : ∀ {s u}, (named u).Ran s () s' → s.Sound → s.Quiet s' := by
    intro s u h hs
    simp only [named, ScoreM.ran_bind, ScoreM.ran_get] at h
    obtain ⟨_, _, ⟨rfl, rfl⟩, h⟩ := h
    split at h
    · obtain ⟨s₁, _, h₁, h⟩ := ScoreM.ran_bind.mp h
      have := run_forIn h₁ hs fun p hp s₁ s₂ r h₂ => by
        have := hs.tuplet p hp
        simp at h₂
        grind
      grind
    · exact hdone h hs
  clear_value named
  intro h
  simp at h
  grind -funext

@[grind →] theorem run_addTuplet {ticks : Int} {bracket : String} (h : (addTuplet note ticks level).Ran s bracket s') (hs : s.Sound)
    (hopen : s.Open note) : s.Quiet s' := by
  simp [addTuplet] at h
  split at h
  · grind
  obtain ⟨s₁, e, h₁, s₂, ⟨_, h₂⟩, s₃, ⟨_, h₃⟩, s₄, ⟨_, h₄⟩, s₅, ⟨_, h₅⟩, h⟩ := h
  have hadded : s.Quiet s₄ ∧ s₄.Open e := by grind
  have hall : ∀ p ∈ s₄.tuplet ++ [(ticks, e)], s₄.Open p.2 :=
    List.forall_mem_append.mpr ⟨hadded.1.1.1.tuplet, by simpa using hadded.2⟩
  have hkept := run_modify_refs h₅ hadded.1.1.1 rfl rfl hadded.1.1.1.lyric hall hadded.1.1.1.measure
  clear h₅
  grind -funext

@[grind →] theorem run_meaning {name r : String} (h : (meaning name).Ran s r s') (hs : s.Sound) : s.Quiet s' := by
  simp [meaning] at h
  grind -funext

@[grind →] theorem run_meanings {names : List String} (h : (names.mapM meaning).Ran s ds s') (hs : s.Sound) : s.Quiet s' := by
  induction names generalizing s ds with
  | nil =>
    simp at h
    grind
  | cons name rest ih =>
    simp at h
    grind

@[grind →] theorem run_decorationsOf (h : (decorationsOf node).Ran s ds s') (hs : s.Sound) : s.Quiet s' := by
  simp [decorationsOf] at h
  grind -funext

@[grind →] theorem run_writtenPitch {r : String × String × Int} (h : (writtenPitch node).Ran s r s') : s = s' := by
  unfold writtenPitch at h
  split at h <;> simp at h <;> grind

@[grind →] theorem run_addInstrument (h : (addInstrument note sound level).Ran s u s') (hs : s.Sound) (hopen : s.Open note) : s.Quiet s' := by
  simp [addInstrument] at h
  grind -funext

@[grind →] theorem run_addHead {head : String} (h : (addHead note head level).Ran s u s') (hs : s.Sound) (hopen : s.Open note) :
    s.Quiet s' := by
  simp [addHead] at h
  grind -funext

@[grind →] theorem run_addMarks (h : (addMarks note node level).Ran s u s') (hs : s.Sound) (hopen : s.Open note) : s.Quiet s' := by
  simp [addMarks] at h
  grind -funext

@[grind →] theorem run_addStem {r : Bool} (h : (addStem note node ds level).Ran s r s') (hs : s.Sound) (hopen : s.Open note) :
    s.Quiet s' := by
  simp [addStem] at h
  grind -funext

/-! ## Notes -/

/-- How a note finds its pitch; a rest has none. -/
inductive Pitching (node : Node) (s s' : Score) : Prop
  | rest (hname : node.name = "rest") (hquiet : s.Quiet s')
  | pitch {accidental letter : String} {octave level : Int} {w : Written} {s₁ : Score} (hname : node.name ≠ "rest")
      (hwritten : (writtenPitch node).Ran s (accidental, letter, octave) s)
      (hpitch : (pitch accidental letter octave level).Ran s w s₁) (hquiet : s₁.Quiet s')

/-- What is done for a note, in order: its element is made, it finds its pitch, and it may be beamed. -/
inductive Noting (node : Node) (s : Score) (e : Nat) (s' : Score) : Prop
  | mk {s₁ s₂ s₃ s₄ s₅ s₆ : Score} (hfirst : s.Quiet s₁) (hnew : (elem "note" []).Ran s₁ e s₂)
      (hmarked : s₂.Quiet s₃) (hpitched : Pitching node s₃ s₄) (hwritten : s₄.Quiet s₅)
      (hbeamed : s₆ = s₅ ∨ ∃ part level, (beam node e part level).Ran s₅ () s₆) (hlast : s₆.Sound → s₆.Open e → s₆.Quiet s')

theorem Pitching.spares (h : Pitching node s s') (hs : s.Sound) : s.Spares s' := by
  cases h <;> grind

theorem noting_note (h : (Score.note node level).Ran s e s') (hs : s.Sound) : Noting node s e s' := by
  unfold Score.note at h
  rw [ScoreM.ran_bind] at h
  obtain ⟨s₁, _, h₁, h⟩ := h
  rw [ScoreM.ran_bind] at h
  obtain ⟨s₂, l, h₂, h⟩ := h
  extract_lets inner joins part isRest ticks at h
  rw [ScoreM.ran_bind] at h
  obtain ⟨s₃, e, h₃, h⟩ := h
  rw [ScoreM.ran_bind] at h
  obtain ⟨s₄, _, h₄, h⟩ := h
  rw [ScoreM.ran_bind] at h
  obtain ⟨s₅, ⟨part, typeName⟩, h₅, h⟩ := h
  rw [ScoreM.ran_bind] at h
  obtain ⟨s₆, ⟨accidental, key, pitch⟩, h₆, h⟩ := h
  rw [ScoreM.ran_bind] at h
  obtain ⟨_, _, h₇, h⟩ := h
  obtain ⟨rfl, rfl⟩ := ScoreM.ran_get.mp h₇
  have hfirst : s.Quiet s₂ := by grind
  have hnote : s₃.Sound ∧ s₃.Open e := by
    obtain ⟨hnew, rfl⟩ := turns_newElem h₃ hfirst.1.1 rfl
    exact ⟨hnew.1, by simp [hnew.2.1, Xml.Tree.mark], by cases h₃; simp⟩
  have hmarked : s₃.Quiet s₅ := by grind
  clear h₁ h₂ h₄ h₅ h₇
  have hpitched : Pitching node s₅ s₆ := by
    clear h
    split at h₆
    · refine .rest (by grind) ?_
      simp at h₆
      grind -funext
    · simp at h₆
      obtain ⟨_, accidental, letter, octave, h₇, s₈, h₈, h₉⟩ := h₆
      obtain rfl := run_writtenPitch h₇
      exact .pitch (by grind) h₇ h₈ (by grind)
  clear h₆
  have hopen : s₆.Sound ∧ s₆.Open e := by grind [hpitched.spares hmarked.1.1]
  -- the ways through a note meet again and again: from the last such place back to the first
  extract_lets stopsTie showsAccidental done dotted voiced sounded tied stopped timed at h
  have hdotted : ∀ {s₇ u r}, (dotted u).Ran s₇ r s' → s₆.Quiet s₇ → Noting node s r s' := by
    clear h timed stopped tied sounded voiced
    intro s₇ u r h hquiet
    replace h := ScoreM.ran_bind.mp h
    clear dotted
    obtain ⟨s₈, _, h₈, h⟩ := h
    rw [ScoreM.ran_bind] at h
    obtain ⟨s₉, decorations, h₉, h⟩ := h
    have hdots := run_forIn h₈ hquiet.1.1 fun _ _ s₁ s₂ _ h => by
      simp at h
      grind
    have hdecorated : s₆.Quiet s₉ := by grind
    clear h₈ h₉ hdots hquiet
    extract_lets isCourtesy left shown at h
    have hshown : ∀ {s₇ u r}, (shown u).Ran s₇ r s' → s₆.Quiet s₇ → Noting node s r s' := by
      clear h
      intro s₇ u r h hquiet
      replace h := ScoreM.ran_bind.mp h
      clear shown
      obtain ⟨s₈, bracket, h₈, h⟩ := h
      rw [ScoreM.ran_bind] at h
      obtain ⟨s₉, hasStem, h₉, h⟩ := h
      have hstemmed : s₆.Quiet s₉ := by grind
      clear h₈ h₉ hquiet
      extract_lets decorations finish beamed headed at h
      have hfinish : ∀ {s₇ u r}, (finish u).Ran s₇ r s' → (s₇.Sound → s₇.Open e → s₇.Quiet s') ∧ r = e := by
        clear h headed beamed
        intro s₇ u r h
        replace h := ScoreM.ran_bind.mp h
        obtain ⟨s₈, _, h₈, h⟩ := h
        split at h <;> simp [done] at h <;> obtain ⟨⟨_, h₉⟩, rfl⟩ := h <;> refine ⟨fun hs hopen => ?_, rfl⟩
        · have hnoted := run_notations h₈ hs hopen
          have := run_modify_refs h₉ hnoted.1.1 rfl rfl (by simp) hnoted.1.1.tuplet hnoted.1.1.measure
          grind
        · grind
      clear_value finish
      have hbeamed : ∀ {s₇ u r}, (beamed u).Ran s₇ r s' → s₆.Quiet s₇ → Noting node s r s' := by
        clear h headed
        intro s₇ u r h hquiet
        simp only [beamed] at h
        split at h
        · obtain ⟨s₈, _, h₈, h⟩ := ScoreM.ran_bind.mp h
          obtain ⟨hlast, rfl⟩ := hfinish h
          exact ⟨hfirst, h₃, hmarked, hpitched, hquiet, .inr ⟨_, _, h₈⟩, hlast⟩
        · obtain ⟨hlast, rfl⟩ := hfinish h
          exact ⟨hfirst, h₃, hmarked, hpitched, hquiet, .inl rfl, hlast⟩
      clear_value beamed
      have hheaded : ∀ {s₇ u r}, (headed u).Ran s₇ r s' → s₆.Quiet s₇ → Noting node s r s' := by
        clear h
        intro s₇ u r h hquiet
        simp [headed] at h
        grind
      clear_value headed
      simp at h
      grind
    clear_value shown
    simp at h
    grind
  clear_value dotted
  have hvoiced : ∀ {s₇ u r}, (voiced u).Ran s₇ r s' → s₆.Quiet s₇ → Noting node s r s' := by
    intro s₇ u r h
    simp [voiced] at h
    grind
  clear_value voiced
  have hsounded : ∀ {s₇ u r}, (sounded u).Ran s₇ r s' → s₆.Quiet s₇ → Noting node s r s' := by
    intro s₇ u r h
    simp [sounded] at h
    grind
  clear_value sounded
  have htied : ∀ {s₇ u r}, (tied u).Ran s₇ r s' → s₆.Quiet s₇ → Noting node s r s' := by
    intro s₇ u r h
    simp [tied] at h
    grind
  clear_value tied
  have hstopped : ∀ {s₇ u r}, (stopped u).Ran s₇ r s' → s₆.Quiet s₇ → Noting node s r s' := by
    intro s₇ u r h
    simp [stopped] at h
    grind
  clear_value stopped
  have htimed : ∀ {s₇ ticks r}, (timed ticks).Ran s₇ r s' → s₆.Quiet s₇ → Noting node s r s' := by
    intro s₇ ticks r h
    simp [timed] at h
    grind
  clear_value timed
  simp at h
  grind

end Score
end Plainsong.Abc
