import Mathlib
import Plainsong.Xml.Tree
/- What a store shows of its notes and beams. A look at a store says which elements
   are notes or beams, which of them each element holds, and what each beam says.
   Every change of a store is told by what it does to the look: most do nothing. -/
namespace Plainsong.Xml

open Function (update update_eq_self)

/-- Which elements are notes or beams, the notes and the beams in each element, and what each beam says. -/
structure Look where
  kind : Nat → Option String
  notes : Nat → List Nat
  beams : Nat → List Nat
  text : Nat → Option String

namespace Tree

variable {t t' : Tree} {id parent child : Nat} {e : Element} {f : Element → Element}

/-- What is watched of a tag. -/
def mark (tag : String) : Option String := if tag ∈ ["note", "beam"] then some tag else none

def look (t : Tree) : Look where
  kind id := mark (t.get id).tag
  notes id := t.childrenTagged id "note"
  beams id := t.childrenTagged id "beam"
  text id := if (t.get id).tag = "beam" then (t.get id).text else none

def Closed (t : Tree) : Prop := ∀ id, ∀ c ∈ (t.get id).children.toList, c < t.elements.size

theorem get_of_size_le (h : t.elements.size ≤ id) : t.get id = { tag := "" } := by
  rw [get, Array.getD, dif_neg (Nat.not_lt.mpr h)]

@[grind =] theorem mark_eq_note_iff {tag : String} : mark tag = some "note" ↔ tag = "note" := by grind [mark]

@[grind =] theorem mark_eq_beam_iff {tag : String} : mark tag = some "beam" ↔ tag = "beam" := by grind [mark]

@[grind →] theorem kind_of_mem_notes (h : child ∈ t.look.notes id) : t.look.kind child = some "note" := by
  grind [look, childrenTagged, mark]

@[grind →] theorem kind_of_mem_beams (h : child ∈ t.look.beams id) : t.look.kind child = some "beam" := by
  grind [look, childrenTagged, mark]

theorem kind_of_size_le (h : t.elements.size ≤ id) : t.look.kind id = none := by grind [look, get_of_size_le, mark]

theorem lt_size_of_kind {kind : String} (h : t.look.kind id = some kind) : id < t.elements.size := by
  by_contra hnot
  simp [kind_of_size_le (Nat.not_lt.mp hnot)] at h

/-! ## New elements -/

theorem get_add (t : Tree) (e : Element) (k : Nat) : (t.add e).2.get k = if k = t.elements.size then e else t.get k := by
  simp only [get, add, Array.getD_eq_getD_getElem?, Array.getElem?_push]
  split_ifs <;> rfl

@[simp, grind =] theorem size_add (t : Tree) (e : Element) : (t.add e).2.elements.size = t.elements.size + 1 := Array.size_push ..

theorem look_add (h : t.Closed) (he : e.children = #[]) : (t.add e).2.look = { t.look with
    kind := update t.look.kind t.elements.size (mark e.tag)
    text := update t.look.text t.elements.size (if e.tag = "beam" then e.text else none) } := by
  have hkids : ∀ k kind, (t.add e).2.childrenTagged k kind = t.childrenTagged k kind := by
    intro k kind
    have hchildren : ((t.add e).2.get k).children = (t.get k).children := by
      rw [get_add]
      split_ifs with hk
      · rw [he, get_of_size_le hk.ge]
      · rfl
    rw [childrenTagged, childrenTagged, hchildren]
    exact List.filter_congr fun c hc => by rw [get_add, if_neg (h k c hc).ne]
  simp only [look, hkids, get_add, Look.mk.injEq, true_and]
  constructor <;> funext k <;> by_cases hk : k = t.elements.size <;> simp [update, hk]

theorem look_add_eq (h : t.Closed) (he : e.children = #[]) (htag : mark e.tag = none) : (t.add e).2.look = t.look := by
  have hkind : t.look.kind t.elements.size = none := kind_of_size_le le_rfl
  have htext : t.look.text t.elements.size = none := by grind [look, get_of_size_le]
  have hbeam : e.tag ≠ "beam" := by grind [mark]
  rw [look_add h he, htag, if_neg hbeam, ← hkind, update_eq_self, hkind, ← htext, update_eq_self]

theorem closed_add (h : t.Closed) (he : e.children = #[]) : (t.add e).2.Closed := by
  intro k c hc
  rw [get_add] at hc
  split_ifs at hc
  · simp [he] at hc
  · exact (h k c hc).trans (by simp)

/-! ## Changed elements -/

theorem get_change (t : Tree) (id k : Nat) (f : Element → Element) :
    (t.change id f).get k = if k = id ∧ id < t.elements.size then f (t.get k) else t.get k := by
  simp only [get, change, Array.getD_eq_getD_getElem?, Array.getElem?_modify]
  by_cases hk : id = k
  · by_cases hlt : id < t.elements.size <;> simp [← hk, hlt]
  · simp [hk, Ne.symm hk]

@[simp, grind =] theorem size_change (t : Tree) (id : Nat) (f : Element → Element) : (t.change id f).elements.size = t.elements.size :=
  Array.size_modify

theorem look_change (htag : mark (f (t.get id)).tag = mark (t.get id).tag) (hid : id < t.elements.size) :
    (t.change id f).look = { t.look with
      notes := update t.look.notes id ((f (t.get id)).children.toList.filter fun c => (t.get c).tag == "note")
      beams := update t.look.beams id ((f (t.get id)).children.toList.filter fun c => (t.get c).tag == "beam")
      text := update t.look.text id (if (t.get id).tag = "beam" then (f (t.get id)).text else none) } := by
  have hmark : ∀ k, mark ((t.change id f).get k).tag = mark (t.get k).tag := by
    intro k
    rw [get_change]
    split_ifs with hk
    · rw [hk.1, htag]
    · rfl
  have hnote : ∀ k, ((t.change id f).get k).tag = "note" ↔ (t.get k).tag = "note" := fun k => by
    rw [← mark_eq_note_iff, hmark, mark_eq_note_iff]
  have hbeam : ∀ k, ((t.change id f).get k).tag = "beam" ↔ (t.get k).tag = "beam" := fun k => by
    rw [← mark_eq_beam_iff, hmark, mark_eq_beam_iff]
  simp only [look, childrenTagged, Look.mk.injEq, hmark, hnote, hbeam, true_and, beq_eq_decide]
  refine ⟨funext fun k => ?_, funext fun k => ?_, funext fun k => ?_⟩ <;>
    by_cases hk : k = id <;> simp [get_change, update, hk, hid]

theorem look_change_eq (htag : mark (f (t.get id)).tag = mark (t.get id).tag) (hchildren : (f (t.get id)).children = (t.get id).children)
    (htext : t.look.kind id = some "beam" → (f (t.get id)).text = (t.get id).text) : (t.change id f).look = t.look := by
  by_cases hid : id < t.elements.size
  · rw [look_change htag hid, hchildren]
    have hself : (if (t.get id).tag = "beam" then (f (t.get id)).text else none) = t.look.text id := by
      simp only [look] at htext ⊢
      grind
    rw [hself, update_eq_self]
    simp [look, childrenTagged, update_eq_self]
  · have hsame : t.change id f = t := by simp [change, Array.modify, Array.modifyM, hid]
    rw [hsame]

theorem look_setText (hid : t.look.kind id = some "beam") (text : String) : (t.change id fun e => { e with text := some text }).look =
    { t.look with text := update t.look.text id (some text) } := by
  have htag : (t.get id).tag = "beam" := by grind [look]
  rw [look_change rfl (lt_size_of_kind hid)]
  simp [look, childrenTagged, update_eq_self, htag]

theorem closed_change (h : t.Closed) (hchildren : ∀ c ∈ (f (t.get id)).children.toList, c < t.elements.size) : (t.change id f).Closed := by
  grind [Closed, get_change]

/-! ## Children -/

@[simp, grind =] theorem size_append (t : Tree) (parent child : Nat) (level : Int) :
    (t.append parent child level).elements.size = t.elements.size := by
  rw [append]
  split <;> simp

theorem get_append (t : Tree) (parent child : Nat) (level : Int) (k : Nat) :
    ((t.append parent child level).get k).tag = (t.get k).tag ∧
    ((t.append parent child level).get k).children.toList =
      (t.get k).children.toList ++ (if k = parent ∧ parent < t.elements.size then [child] else []) ∧
    (k ≠ parent → ((t.append parent child level).get k).text = (t.get k).text) := by
  rw [append]
  split <;> grind [get_change]

theorem look_append (hparent : t.look.kind parent ≠ some "beam") (level : Int) : (t.append parent child level).look = { t.look with
    notes := fun k => t.look.notes k ++ if k = parent ∧ parent < t.elements.size ∧ t.look.kind child = some "note" then [child] else []
    beams := fun k => t.look.beams k ++ if k = parent ∧ parent < t.elements.size ∧ t.look.kind child = some "beam" then [child] else [] } := by
  have hbeam : (t.get parent).tag ≠ "beam" := by grind [look]
  have htext : ∀ k, (t.get k).tag = "beam" → ((t.append parent child level).get k).text = (t.get k).text := fun k hk =>
    (t.get_append parent child level k).2.2 fun h => hbeam (h ▸ hk)
  simp only [look, Look.mk.injEq, childrenTagged, (t.get_append parent child level _).1, (t.get_append parent child level _).2.1, true_and]
  refine ⟨funext fun k => ?_, funext fun k => ?_, funext fun k => ?_⟩
  · grind
  · grind
  · grind

theorem look_append_eq (hparent : t.look.kind parent ≠ some "beam") (hchild : t.look.kind child = none) (level : Int) :
    (t.append parent child level).look = t.look := by
  rw [look_append hparent]
  simp [hchild]

theorem look_append_note (hparent : t.look.kind parent ≠ some "beam") (hthere : parent < t.elements.size)
    (hchild : t.look.kind child = some "note") (level : Int) :
    (t.append parent child level).look = { t.look with notes := update t.look.notes parent (t.look.notes parent ++ [child]) } := by
  rw [look_append hparent, Look.mk.injEq]
  refine ⟨rfl, funext fun k => ?_, funext fun k => ?_, rfl⟩ <;> grind [update]

theorem look_append_beam (hparent : t.look.kind parent ≠ some "beam") (hthere : parent < t.elements.size)
    (hchild : t.look.kind child = some "beam") (level : Int) :
    (t.append parent child level).look = { t.look with beams := update t.look.beams parent (t.look.beams parent ++ [child]) } := by
  rw [look_append hparent, Look.mk.injEq]
  refine ⟨rfl, funext fun k => ?_, funext fun k => ?_, rfl⟩ <;> grind [update]

theorem closed_append (h : t.Closed) (hchild : child < t.elements.size) (level : Int) : (t.append parent child level).Closed := by
  intro k c hc
  rw [(t.get_append parent child level k).2.1] at hc
  grind [Closed]

theorem look_remove (t : Tree) (parent child : Nat) : (t.remove parent child).look = { t.look with
    notes := update t.look.notes parent ((t.look.notes parent).erase child)
    beams := update t.look.beams parent ((t.look.beams parent).erase child) } := by
  have htag : ∀ k, ((t.remove parent child).get k).tag = (t.get k).tag := by grind [remove, get_change]
  have htext : ∀ k, ((t.remove parent child).get k).text = (t.get k).text := by grind [remove, get_change]
  have hchildren : ∀ k, ((t.remove parent child).get k).children.toList =
      if k = parent then (t.get k).children.toList.erase child else (t.get k).children.toList := by
    grind [remove, get_change, get_of_size_le]
  simp only [look, childrenTagged, Look.mk.injEq, htag, htext, hchildren, true_and, and_true]
  constructor <;> funext k <;> by_cases hk : k = parent <;> simp [update, hk, List.erase_filter]

theorem look_remove_eq (hchild : t.look.kind child = none) : (t.remove parent child).look = t.look := by
  have hnotes : child ∉ t.look.notes parent := by grind
  have hbeams : child ∉ t.look.beams parent := by grind
  rw [look_remove, List.erase_of_not_mem hnotes, List.erase_of_not_mem hbeams, update_eq_self, update_eq_self]

theorem look_remove_beam (hchild : t.look.kind child = some "beam") : (t.remove parent child).look =
    { t.look with beams := update t.look.beams parent ((t.look.beams parent).erase child) } := by
  have hnotes : child ∉ t.look.notes parent := by grind
  rw [look_remove, List.erase_of_not_mem hnotes, update_eq_self]

theorem closed_remove (h : t.Closed) (parent child : Nat) : (t.remove parent child).Closed :=
  closed_change h fun c hc => h parent c (List.mem_of_mem_erase (by simpa using hc))

end Tree
end Plainsong.Xml
