import Plainsong.Proofs.Abc.Sparing
/- Beams over notes. Every note says by its beam where in its group it stands.
   While notes are written the last group may lack its end (`Look.Beamed`): a
   note that goes on with it, and one that ends it first, both leave it so
   (`run_beam`). -/
namespace Plainsong.Xml.Look

open List

open Function (update)

variable {texts : List (Option String)} {text : Option String}

/-- What beams say, group by group: each begins, goes on any number of times, and ends. -/
def Grouped (texts : List (Option String)) : Prop :=
  ∃ groups : List Nat, texts = groups.flatMap fun k => some "begin" :: List.replicate k (some "continue") ++ [some "end"]

/-- What beams say if the group of the last one has not ended: the texts before it, and its own. -/
def Unended (texts : List (Option String)) (text : Option String) : Prop :=
  text = some "begin" ∧ Grouped texts ∨
    text = some "continue" ∧ ∃ done k, Grouped done ∧ texts = done ++ some "begin" :: List.replicate k (some "continue")

theorem Unended.goesOn (h : Unended texts text) : Unended (texts ++ [text]) (some "continue") := by
  rcases h with ⟨rfl, hdone⟩ | ⟨rfl, done, k, hdone, rfl⟩
  · exact .inr ⟨rfl, texts, 0, hdone, rfl⟩
  · refine .inr ⟨rfl, done, k + 1, hdone, ?_⟩
    rw [replicate_succ', append_assoc, cons_append]

theorem Grouped.add {done : List (Option String)} (h : Grouped done) (k : Nat) :
    Grouped (done ++ some "begin" :: List.replicate k (some "continue") ++ [some "end"]) := by
  obtain ⟨groups, rfl⟩ := h
  exact ⟨groups ++ [k], by simp⟩

/-- The beams of the notes so far: all groups have ended if no note is the last one under a beam, and else
    the group of that note has not, and the notes behind it have no beams. -/
inductive Beamed (l : Look) : Option Nat → List Nat → Prop
  | closed {ns : List Nat} (h : Grouped ((ns.flatMap l.beams).map l.text)) : Beamed l none ns
  | opened {pre post : List Nat} {n b : Nat} (hn : n ∉ pre) (hbeam : l.beams n = [b]) (hb : b ∉ pre.flatMap l.beams)
      (hpost : post.flatMap l.beams = []) (h : Unended ((pre.flatMap l.beams).map l.text) (l.text b)) : Beamed l (some n) (pre ++ n :: post)

namespace Beamed

variable {l l' : Look} {last : Option Nat} {ns : List Nat} {e n b : Nat}

theorem congr (h : l.Beamed last ns) (hbeams : ∀ e ∈ ns, l'.beams e = l.beams e)
    (htext : ∀ b ∈ ns.flatMap l.beams, l'.text b = l.text b) : l'.Beamed last ns := by
  have hsame : ∀ {es : List Nat}, (∀ e ∈ es, e ∈ ns) → es.flatMap l'.beams = es.flatMap l.beams := fun hes =>
    flatMap_congr fun e he => hbeams e (hes e he)
  cases h with
  | closed h =>
    refine .closed ?_
    rw [hsame fun _ => id, map_congr_left htext]
    exact h
  | @opened pre post n b hn hbeam hb hpost h =>
    have hpre : pre.flatMap l'.beams = pre.flatMap l.beams := hsame (by simp +contextual)
    refine .opened hn ((hbeams n (by simp)).trans hbeam) (hpre ▸ hb) ((hsame (by simp +contextual)).trans hpost) ?_
    rw [hpre, htext b (by simp [hbeam]), map_congr_left fun c hc => htext c (by grind)]
    exact h

theorem exists_beam (h : l.Beamed (some n) ns) : ∃ b, l.beams n = [b] := by
  cases h with
  | opened _ hbeam => exact ⟨_, hbeam⟩

theorem append (h : l.Beamed last ns) (he : l.beams e = []) : l.Beamed last (ns ++ [e]) := by
  cases h with
  | closed h => exact .closed (by simpa [he] using h)
  | opened hn hbeam hb hpost h =>
    rw [append_assoc, cons_append]
    exact .opened hn hbeam hb (by simp [hpost, he]) h

theorem attach (h : l.Beamed last ns) (he : e ∉ ns) (hb : b ∉ ns.flatMap l.beams)
    (htext : l.text b = some (if last.isNone then "begin" else "continue")) :
    Beamed { l with beams := update l.beams e [b] } (some e) (ns ++ [e]) := by
  have hsame : ns.flatMap (update l.beams e [b]) = ns.flatMap l.beams := flatMap_congr fun x hx => by grind [update]
  refine .opened he (by simp) (hsame ▸ hb) rfl ?_
  rw [hsame, htext]
  cases h with
  | closed h => exact .inl ⟨rfl, h⟩
  | opened hn hbeam hb hpost h => simpa [hbeam, hpost] using h.goesOn

theorem end_ (h : l.Beamed (some n) ns) (hbeam : l.beams n = [b]) :
    l.text b = some "begin" ∧ Beamed { l with beams := update l.beams n [] } none ns ∨
    l.text b = some "continue" ∧ Beamed { l with text := update l.text b (some "end") } none ns := by
  cases h with
  | @opened pre post _ b' hn hbeam' hb hpost h =>
    obtain rfl : b' = b := by simpa [hbeam'] using hbeam
    rcases h with ⟨htext, hdone⟩ | ⟨htext, done, k, hdone, heq⟩
    · have hpre : pre.flatMap (update l.beams n []) = pre.flatMap l.beams := flatMap_congr fun x hx => by grind [update]
      have hnone : post.flatMap (update l.beams n []) = [] := flatMap_eq_nil_iff.mpr fun x hx => by
        grind [update, flatMap_eq_nil_iff.mp hpost x hx]
      exact .inl ⟨htext, .closed (by simpa [hpre, hnone] using hdone)⟩
    · have hpre : (pre.flatMap l.beams).map (update l.text b' (some "end")) = (pre.flatMap l.beams).map l.text :=
        map_congr_left fun c hc => by grind [update]
      refine .inr ⟨htext, .closed ?_⟩
      simpa [hbeam', hpost, hpre, heq] using hdone.add k

end Beamed

end Plainsong.Xml.Look

namespace Plainsong.Abc.Node

theorem name_put (n : Node) (key : String) (ns : List Node) : (n.put key ns).name = n.name := by
  unfold put
  split <;> rfl

theorem one?_put_of_ne (n : Node) {key other : String} (ns : List Node) (h : other ≠ key) : (n.put key ns).one? other = n.one? other := by
  unfold put one? get
  split
  · congr 2
    induction n.children with
    | nil => rfl
    | cons p rest ih =>
      obtain ⟨k, old⟩ := p
      by_cases hk : other = k
      · simp_all
      · have hbeq : (other == k) = false := beq_false_of_ne hk
        simpa [List.lookup_cons, hbeq] using ih
  · have hbeq : (other == key) = false := beq_false_of_ne h
    simp [List.lookup_append, List.lookup_cons, hbeq]

end Plainsong.Abc.Node

namespace Plainsong.Abc.Score

open Function (update update_of_ne)

variable {s s' s₁ : Score} {e b n m : Nat} {ns : List Nat} {level : Int} {u : Unit} {text : String}

/-! ## Beams of a score -/

/-- The second score has all notes of the first, wherever they were. -/
structure Keeps (s s' : Score) : Prop where
  sound : s'.Sound
  size : s.tree.elements.size ≤ s'.tree.elements.size
  kind : ∀ id < s.tree.elements.size, s'.tree.look.kind id = s.tree.look.kind id
  notes : s'.tree.look.notes = s.tree.look.notes

theorem Keeps.trans (h : s.Keeps s₁) (h' : s₁.Keeps s') : s.Keeps s' :=
  ⟨h'.sound, h.size.trans h'.size, fun id hid => (h'.kind id (hid.trans_le h.size)).trans (h.kind id hid), h'.notes.trans h.notes⟩

theorem Turns.keeps {l : Xml.Look} (h : s.Turns s' l) (hkind : ∀ id < s.tree.elements.size, l.kind id = s.tree.look.kind id)
    (hnotes : l.notes = s.tree.look.notes) : s.Keeps s' :=
  ⟨h.1, h.2.2.2, h.2.1 ▸ hkind, h.2.1 ▸ hnotes⟩

theorem Keeps.of_last {last : Option Nat} (h : (modify fun s => { s with lastBeamed := last } : ScoreM Unit).Ran s u s') (hs : s.Sound) :
    s.Keeps s' ∧ s'.tree = s.tree ∧ s'.lastBeamed = last := by
  cases h
  exact ⟨⟨⟨hs.closed, hs.lyric, hs.tuplet, hs.measure⟩, le_rfl, fun _ _ => rfl, rfl⟩, rfl, rfl⟩

theorem run_sayBeam (h : (setText b text).Ran s u s') (hs : s.Sound) (hb : s.tree.look.kind b = some "beam") :
    s.Turns s' { s.tree.look with text := update s.tree.look.text b (some text) } := by
  cases h
  exact turns_tree hs (Xml.Tree.closed_change hs.closed (hs.closed b)) (Xml.Tree.look_setText hb text) (by simp) fun _ _ => rfl

theorem run_addBeam (h : (addElem e b level).Ran s u s') (hs : s.Sound) (he : s.tree.look.kind e = some "note")
    (hb : s.tree.look.kind b = some "beam") : s.Turns s' { s.tree.look with beams := update s.tree.look.beams e (s.tree.look.beams e ++ [b]) } := by
  cases h
  exact turns_tree hs (Xml.Tree.closed_append hs.closed (Xml.Tree.lt_size_of_kind hb) level)
    (Xml.Tree.look_append_beam (by simp [he]) (Xml.Tree.lt_size_of_kind he) hb level) (by simp) fun _ _ => rfl

theorem run_removeBeam (h : (removeElem n b).Ran s u s') (hs : s.Sound) (hb : s.tree.look.kind b = some "beam") :
    s.Turns s' { s.tree.look with beams := update s.tree.look.beams n ((s.tree.look.beams n).erase b) } := by
  cases h
  exact turns_tree hs (Xml.Tree.closed_remove hs.closed n b) (Xml.Tree.look_remove_beam hb) (Xml.Tree.size_change ..).ge fun _ _ => rfl

theorem child?_beam (s : Score) (n : Nat) : s.tree.child? n "beam" = (s.tree.look.beams n).head? := (List.head?_filter ..).symm

theorem run_endBeam (h : (endBeam n).Ran s u s') (hs : s.Sound) (hbeamed : s.tree.look.Beamed (some n) ns) :
    s.Keeps s' ∧ s'.lastBeamed = s.lastBeamed ∧ s'.tree.look.Beamed none ns ∧ (∀ k, s'.tree.look.beams k ⊆ s.tree.look.beams k) ∧
      ∀ c ∉ s.tree.look.beams n, s'.tree.look.text c = s.tree.look.text c := by
  obtain ⟨b, hbeam⟩ := hbeamed.exists_beam
  have hkind : s.tree.look.kind b = some "beam" := Xml.Tree.kind_of_mem_beams (hbeam ▸ List.mem_singleton_self b)
  have htext : (s.tree.get b).text = s.tree.look.text b := by grind [Xml.Tree.look]
  simp [endBeam] at h
  obtain ⟨s₁, x, h₁, h⟩ := h
  obtain ⟨rfl, rfl⟩ := run_child? h₁
  rw [child?_beam, hbeam] at h
  simp at h
  obtain ⟨s₁, x, h₁, h⟩ := h
  obtain ⟨rfl, rfl⟩ := run_element h₁
  rw [htext] at h
  rcases hbeamed.end_ hbeam with ⟨hbegin, hended⟩ | ⟨hgoesOn, hended⟩
  · simp only [hbegin] at h
    have hturns := run_removeBeam h hs hkind
    refine ⟨Turns.keeps hturns (fun _ _ => rfl) rfl, hturns.2.2.1, ?_, ?_, ?_⟩ <;> simp [hturns.2.1, hbeam]
    · exact hended
    · intro k; grind [update]
  · simp only [hgoesOn] at h
    have hturns := run_sayBeam h hs hkind
    refine ⟨Turns.keeps hturns (fun _ _ => rfl) rfl, hturns.2.2.1, ?_, ?_, ?_⟩ <;> rw [hturns.2.1]
    · exact hended
    · exact fun k => List.Subset.refl _
    · intro c hc; grind [update]

/-- A beam that stands nowhere yet, and a note that has none. -/
structure Free (s : Score) (e b : Nat) : Prop where
  kind : s.tree.look.kind b = some "beam"
  loose : ∀ k, b ∉ s.tree.look.beams k
  bare : s.tree.look.beams e = []

/-- A beam at hand for a note that has none yet: it says how the note goes on. -/
structure Holding (s s' : Score) (ns : List Nat) (e b : Nat) : Prop where
  keeps : s.Keeps s'
  free : s'.Free e b
  text : s'.tree.look.text b = some (if s'.lastBeamed.isNone then "begin" else "continue")
  beamed : s'.tree.look.Beamed s'.lastBeamed ns

variable {node : Node}

theorem run_beam {part : Int} (h : (beam node e part level).Ran s u s') (hs : s.Sound) (he : s.tree.look.kind e = some "note")
    (hbare : s.tree.look.beams e = []) (hnot : e ∉ ns) (hbeamed : s.tree.look.Beamed s.lastBeamed ns) :
    s.Keeps s' ∧ s'.tree.look.Beamed s'.lastBeamed (ns ++ [e]) := by
  unfold beam at h
  extract_lets breaks at h
  split at h
  · have hsame := (run_modify h hs rfl rfl rfl rfl rfl).1
    refine ⟨Turns.keeps hsame (fun _ _ => rfl) rfl, ?_⟩
    rw [hsame.2.1, hsame.2.2.1]
    exact hbeamed.append hbare
  rw [ScoreM.ran_bind] at h
  obtain ⟨_, _, h₀, h⟩ := h
  obtain ⟨rfl, rfl⟩ := ScoreM.ran_get.mp h₀
  rw [ScoreM.ran_bind] at h
  obtain ⟨s₁, _, h₁, h⟩ := h
  rw [ScoreM.ran_bind] at h
  obtain ⟨s₂, b, h₂, h⟩ := h
  rw [ScoreM.ran_bind] at h
  obtain ⟨s₃, _, h₃, h⟩ := h
  rw [ScoreM.ran_bind] at h
  obtain ⟨_, _, h₄, h⟩ := h
  obtain ⟨rfl, rfl⟩ := ScoreM.ran_get.mp h₄
  -- whether a group ends here or goes on, the beam is put into the note in the same way
  extract_lets attach at h
  have hattach : ∀ {s₄ : Score}, s.Holding s₄ ns e b → (attach ()).Ran s₄ u s' →
      s.Keeps s' ∧ s'.tree.look.Beamed s'.lastBeamed (ns ++ [e]) := by
    intro s₄ hheld h
    simp [attach] at h
    split at h
    · obtain ⟨s₅, ⟨_, h₅⟩, h⟩ := h
      have hattached := run_addBeam h₅ hheld.keeps.sound ((hheld.keeps.kind e (Xml.Tree.lt_size_of_kind he)).trans he) hheld.free.kind
      obtain ⟨hkeeps, htree, hlast⟩ := Keeps.of_last h hattached.1
      refine ⟨hheld.keeps.trans ((Turns.keeps hattached (fun _ _ => rfl) rfl).trans hkeeps), ?_⟩
      rw [htree, hlast, hattached.2.1, hheld.free.bare]
      exact hheld.beamed.attach hnot (by simpa using fun k _ => hheld.free.loose k) hheld.text
    · obtain rfl : s₄ = s' := by simpa using h
      exact ⟨hheld.keeps, hheld.beamed.append hheld.free.bare⟩
  clear_value attach
  have hsame := (run_modify h₁ hs rfl rfl rfl rfl rfl).1
  obtain ⟨hnew, rfl⟩ := turns_newElem h₂ hsame.1 rfl
  have hmarked := (run_setAttr h₃ hnew.1).1
  have hlast : s₃.lastBeamed = s.lastBeamed := by grind
  have hlook : s₃.tree.look = { s.tree.look with
      kind := update s.tree.look.kind s₁.tree.elements.size (some "beam"), text := update s.tree.look.text s₁.tree.elements.size (some "begin") } := by
    rw [hmarked.2.1, hnew.2.1, hsame.2.1]
    rfl
  have hloose : ∀ k, s₁.tree.elements.size ∉ s.tree.look.beams k := by
    intro k hmem
    have := Xml.Tree.lt_size_of_kind (Xml.Tree.kind_of_mem_beams hmem)
    omega
  have hkeeps : s.Keeps s₃ := by
    refine ⟨hmarked.1, by omega, fun id hid => ?_, by rw [hlook]⟩
    rw [hlook]
    exact update_of_ne (by omega) ..
  have hbeamed₃ : s₃.tree.look.Beamed s₃.lastBeamed ns := by
    rw [hlast, hlook]
    refine hbeamed.congr (fun _ _ => rfl) fun c hc => update_of_ne ?_ ..
    rintro rfl
    simp [hloose] at hc
  have hfree : s₃.Free e s₁.tree.elements.size := ⟨by simp [hlook], by simpa [hlook] using hloose, by simp [hlook, hbare]⟩
  have htext : s₃.tree.look.text s₁.tree.elements.size = some "begin" := by simp [hlook]
  cases hopen : s₃.lastBeamed with
  | none =>
    rw [hopen] at h
    exact hattach ⟨hkeeps, hfree, by rw [hopen]; exact htext, hbeamed₃⟩ h
  | some last =>
    rw [hopen] at h hbeamed₃
    obtain ⟨b, hb⟩ := hbeamed₃.exists_beam
    obtain ⟨_, _, h₅, h⟩ := ScoreM.ran_bind.mp h
    obtain ⟨rfl, rfl⟩ := run_child? h₅
    rw [child?_beam, hb, List.head?_cons, Option.isSome_some, if_pos rfl] at h
    split at h <;> obtain ⟨s₅, _, h₅, h⟩ := ScoreM.ran_bind.mp h
    · obtain ⟨s₆, _, h₆, h⟩ := ScoreM.ran_bind.mp h
      obtain ⟨hended, -, hbeamed₅, hfewer, htold⟩ := run_endBeam h₅ hkeeps.sound hbeamed₃
      obtain ⟨hkept, htree, hnone⟩ := Keeps.of_last h₆ hended.sound
      have hthere := Xml.Tree.lt_size_of_kind hfree.kind
      refine hattach ⟨hkeeps.trans (hended.trans hkept), ⟨?_, ?_, ?_⟩, ?_, ?_⟩ h <;> rw [htree]
      · exact (hended.kind _ hthere).trans hfree.kind
      · exact fun k hk => hfree.loose k (hfewer k hk)
      · exact List.subset_nil.mp (hfree.bare ▸ hfewer e)
      · rw [hnone, htold _ (hfree.loose last)]
        exact htext
      · rw [hnone]
        exact hbeamed₅
    · have htold := run_sayBeam h₅ hkeeps.sound hfree.kind
      refine hattach ⟨hkeeps.trans (Turns.keeps htold (fun _ _ => rfl) rfl), ⟨?_, ?_, ?_⟩, ?_, ?_⟩ h <;> rw [htold.2.1]
      · exact hfree.kind
      · exact hfree.loose
      · exact hfree.bare
      · simp [htold.2.2.1, hopen]
      · rw [htold.2.2.1, hopen]
        exact hbeamed₃.congr (fun _ _ => rfl) fun c hc => update_of_ne (by rintro rfl; simp [hfree.loose] at hc) ..

/-! ## Notes -/

/-- A new note is there, without a beam, and nothing else has changed. -/
structure Begins (s s' : Score) (e : Nat) : Prop where
  keeps : s.Keeps s'
  kind : s'.tree.look.kind e = some "note"
  new : s.tree.elements.size ≤ e
  beams : s'.tree.look.beams = s.tree.look.beams
  text : s'.tree.look.text = s.tree.look.text
  lastBeamed : s'.lastBeamed = s.lastBeamed

theorem Begins.of_elem {attributes : List (String × String)} (h : (elem "note" attributes).Ran s e s') (hs : s.Sound) : s.Begins s' e := by
  obtain ⟨hnew, rfl⟩ := turns_newElem h hs rfl
  have htext : s.tree.look.text s.tree.elements.size = none := by grind [Xml.Tree.look, Xml.Tree.get_of_size_le]
  refine ⟨hnew.keeps (fun id hid => update_of_ne hid.ne ..) rfl, ?_, le_rfl, ?_, ?_, hnew.2.2.1⟩ <;> rw [hnew.2.1]
  · exact Function.update_self ..
  · rw [if_neg (by simp), ← htext, Function.update_eq_self]

theorem Spares.keeps (h : s.Spares s') : s.Keeps s' := Turns.keeps h (fun _ _ => rfl) rfl

theorem Begins.spares (h : s.Begins s₁ e) (h' : s₁.Spares s') : s.Begins s' e :=
  ⟨h.keeps.trans (Spares.keeps h'), h'.2.1 ▸ h.kind, h.new, h'.2.1 ▸ h.beams, h'.2.1 ▸ h.text, h'.2.2.1.trans h.lastBeamed⟩

theorem Begins.bare (h : s.Begins s' e) : s'.tree.look.beams e = [] := by
  rw [h.beams]
  simp [Xml.Tree.look, Xml.Tree.childrenTagged, Xml.Tree.get_of_size_le h.new]

theorem scale_newElem {x : Xml.Element} (h : (newElem x).Ran s e s') : s'.scale = s.scale := keeps_newElem scale (fun _ _ => rfl) h

theorem scale_modify {f : Score → Score} (h : (modify f : ScoreM Unit).Ran s u s') : s'.scale = (f s).scale := by
  cases h
  rfl

theorem scale_endBeam (h : (endBeam n).Ran s u s') : s'.scale = s.scale := by
  simp [endBeam] at h
  obtain ⟨s₁, x, h₁, h⟩ := h
  obtain ⟨rfl, rfl⟩ := run_child? h₁
  split at h
  · grind
  · simp at h
    obtain ⟨s₁, x, h₁, h⟩ := h
    obtain ⟨rfl, rfl⟩ := run_element h₁
    split at h
    · exact scale_modify h
    · exact scale_modify h
    · grind

theorem scale_beam {part : Int} (h : (beam node e part level).Ran s u s') : s'.scale = s.scale := by
  simp [beam, setAttr, setText, addElem, elemWithText] at h
  grind -funext [→ scale_newElem, → scale_modify, → scale_endBeam]

/-- A note finds its pitch on the way, and nothing else changes what that depends on beside the ties. -/
def Pitched (node : Node) (s s' : Score) : Prop :=
  ∃ s₁ s₂, s₁.scale = s.scale ∧ Pitching node s₁ s₂ ∧ s'.scale = s₂.scale

theorem Pitched.congr {node' : Node} (h : Pitched node s s') (hname : node.name = node'.name)
    (hpitch : node.one? "pitch" = node'.one? "pitch") : Pitched node' s s' := by
  obtain ⟨s₁, s₂, hbefore, hpitched, hafter⟩ := h
  refine ⟨s₁, s₂, hbefore, ?_, hafter⟩
  cases hpitched with
  | rest hrest hquiet => exact .rest (hname ▸ hrest) hquiet
  | pitch hrest hwritten hpitched hquiet => exact .pitch (hname ▸ hrest) (by simpa only [writtenPitch, hpitch] using hwritten) hpitched hquiet

theorem run_note (h : (note node level).Ran s e s') (hs : s.Sound) (hns : ∀ n ∈ ns, n < s.tree.elements.size)
    (hbeamed : s.tree.look.Beamed s.lastBeamed ns) :
    s.Keeps s' ∧ s'.tree.look.kind e = some "note" ∧ s'.tree.look.Beamed s'.lastBeamed (ns ++ [e]) ∧ Pitched node s s' := by
  obtain ⟨hfirst, hnew, hmarked, hpitched, hwritten, hbeam, hlast⟩ := noting_note h hs
  rename_i s₁ s₂ s₃ s₄ s₅ s₆
  have hbegins : s₁.Begins s₅ e :=
    (((Begins.of_elem hnew hfirst.1.1).spares hmarked.1).spares (hpitched.spares hmarked.1.1)).spares hwritten.1
  have hnot : e ∉ ns := fun he => absurd (hns e he) (by have := hbegins.new; have := hfirst.1.2.2.2; omega)
  have hsame : s₅.tree.look.Beamed s₅.lastBeamed ns := by
    rw [hbegins.lastBeamed, hfirst.1.2.2.1]
    exact hbeamed.congr (fun _ _ => by rw [hbegins.beams, hfirst.1.2.1]) fun _ _ => by rw [hbegins.text, hfirst.1.2.1]
  have hnoted : s₅.Keeps s₆ ∧ s₆.tree.look.Beamed s₆.lastBeamed (ns ++ [e]) := by
    rcases hbeam with rfl | ⟨part, level, hbeam⟩
    · exact ⟨⟨hbegins.keeps.sound, le_rfl, fun _ _ => rfl, rfl⟩, hsame.append hbegins.bare⟩
    · exact run_beam hbeam hbegins.keeps.sound hbegins.kind hbegins.bare hnot hsame
  have hkind : s₆.tree.look.kind e = some "note" := (hnoted.1.kind e (Xml.Tree.lt_size_of_kind hbegins.kind)).trans hbegins.kind
  obtain ⟨hrest, hscale⟩ := hlast hnoted.1.sound ⟨by simp [hkind], Xml.Tree.lt_size_of_kind hkind⟩
  have hsame₆ : s₆.scale = s₅.scale := by
    rcases hbeam with rfl | ⟨part, level, hbeam⟩
    · rfl
    · exact scale_beam hbeam
  refine ⟨((Spares.keeps hfirst.1).trans hbegins.keeps).trans (hnoted.1.trans (Spares.keeps hrest)), by rw [hrest.2.1, hkind], ?_,
    s₃, s₄, ?_, hpitched, ?_⟩
  · rw [hrest.2.1, hrest.2.2.1]
    exact hnoted.2
  · rw [hmarked.2, scale_newElem hnew, hfirst.2]
  · rw [hscale, hsame₆, hwritten.2]

/-! ## Measures -/

/-- A measure that is being written: these are its notes, and they are beamed. -/
structure InMeasure (s : Score) (m : Nat) (ns : List Nat) : Prop where
  sound : s.Sound
  isOpen : s.Open m
  notes : s.tree.look.notes m = ns
  beamed : s.tree.look.Beamed s.lastBeamed ns

theorem InMeasure.spares (h : s.InMeasure m ns) (h' : s.Spares s') : s'.InMeasure m ns :=
  ⟨h'.1, by rw [Open, h'.2.1]; exact ⟨h.isOpen.1, h.isOpen.2.trans_le h'.2.2.2⟩, h'.2.1 ▸ h.notes, by rw [h'.2.1, h'.2.2.1]; exact h.beamed⟩

theorem inMeasure_node {atStart o : Bool} (hname : node.name = "note" ∨ node.name = "rest") (h : s.InMeasure m ns)
    (hrun : (measureNode m level atStart node).Ran s o s') : ∃ e, s'.InMeasure m (ns ++ [e]) ∧ Pitched node s s' := by
  have hnode : ∃ node' : Node, (note node' level >>= fun e => addElem m e level >>= fun _ => pure false).Ran s o s' ∧
      node'.name = node.name ∧ node'.one? "pitch" = node.one? "pitch" := by
    unfold measureNode at hrun
    rcases hname with hname | hname <;> simp only [hname] at hrun <;> refine ⟨_, hrun, ?_⟩ <;> split <;> simp [hname, Node.withDuration, Node.name_put, Node.one?_put_of_ne]
  obtain ⟨node', hrun, hname', hpitch'⟩ := hnode
  simp at hrun
  obtain ⟨s₁, e, h₁, ⟨_, h₂⟩, -⟩ := hrun
  have hns : ∀ n ∈ ns, n < s.tree.elements.size := fun n hn =>
    Xml.Tree.lt_size_of_kind (Xml.Tree.kind_of_mem_notes (h.notes ▸ hn))
  obtain ⟨hkeeps, hkind, hbeamed, hpitched⟩ := run_note h₁ h.sound hns h.beamed
  have hopen : s₁.Open m := ⟨by rw [hkeeps.kind m h.isOpen.2]; exact h.isOpen.1, h.isOpen.2.trans_le hkeeps.size⟩
  cases h₂
  have hlook := Xml.Tree.look_append_note hopen.1 hopen.2 hkind level
  have hturns := turns_tree hkeeps.sound (Xml.Tree.closed_append hkeeps.sound.closed (Xml.Tree.lt_size_of_kind hkind) level) hlook
    (by simp) fun _ _ => rfl
  refine ⟨e, ⟨hturns.1, ⟨by rw [hturns.2.1]; exact hopen.1, hopen.2.trans_le hturns.2.2.2⟩, ?_, ?_⟩, hpitched.congr hname' hpitch'⟩ <;> rw [hturns.2.1]
  · simp [hkeeps.notes, h.notes]
  · exact hbeamed.congr (fun _ _ => rfl) fun _ _ => rfl

theorem inMeasure_nodes {nodes : List Node} {atStart o o' : Bool} (hnames : ∀ n ∈ nodes, n.name = "note" ∨ n.name = "rest")
    (h : s.InMeasure m ns) (hrun : (measureNodes m level nodes atStart o).Ran s o' s') : ∃ ns', s'.InMeasure m ns' := by
  induction nodes generalizing s ns atStart o with
  | nil =>
    obtain ⟨-, rfl⟩ := ScoreM.ran_pure.mp hrun
    exact ⟨ns, h⟩
  | cons node rest ih =>
    obtain ⟨s₁, b, h₁, hrun⟩ := ScoreM.ran_bind.mp hrun
    obtain ⟨e, h', -⟩ := inMeasure_node (hnames node (by simp)) h h₁
    exact ih (fun n hn => hnames n (by simp [hn])) h' hrun

theorem inMeasure_stopBeams (h : s.InMeasure m ns) (hrun : stopBeams.Ran s u s') : s'.InMeasure m ns ∧ s'.lastBeamed = none := by
  have hbeamed := h.beamed
  simp [stopBeams] at hrun
  cases hlast : s.lastBeamed with
  | none =>
    simp [hlast] at hrun
    exact hrun ▸ ⟨h, hlast⟩
  | some n =>
    rw [hlast] at hrun hbeamed
    obtain ⟨s₁, _, h₁, hrun⟩ := ScoreM.ran_bind.mp hrun
    obtain ⟨hended, -, hclosed, -, -⟩ := run_endBeam h₁ h.sound hbeamed
    obtain ⟨hkept, htree, hnone⟩ := Keeps.of_last hrun hended.sound
    have hkeeps := hended.trans hkept
    refine ⟨⟨hkeeps.sound, ⟨by rw [hkeeps.kind m h.isOpen.2]; exact h.isOpen.1, h.isOpen.2.trans_le hkeeps.size⟩, ?_, ?_⟩, hnone⟩
    · rw [hkeeps.notes, h.notes]
    · rw [htree, hnone]
      exact hclosed

theorem inMeasure_new {attributes : List (String × String)} (h : (elem "measure" attributes).Ran s m s') (hs : s.Sound)
    (hlast : s.lastBeamed = none) : s'.InMeasure m [] := by
  obtain ⟨hspares, hloose⟩ := run_elem h hs (by simp) (by simp)
  have hnew : s.tree.elements.size = m := by cases h; rfl
  refine ⟨hspares.1.1, ⟨by simp [hloose.1], hloose.2⟩, ?_, ?_⟩
  · rw [hspares.1.2.1]
    simp [Xml.Tree.look, Xml.Tree.childrenTagged, Xml.Tree.get_of_size_le hnew.le]
  · rw [hspares.1.2.2.1, hlast]
    exact .closed ⟨[], rfl⟩

theorem sound_new (converter : Converter) : ({ converter } : Score).Sound := by
  refine ⟨fun id c hc => ?_, by simp, by simp, by simp⟩
  simp [Xml.Tree.get] at hc

/-- What the beams of a measure say, in the order of its notes. -/
def beamTexts (s : Score) (m : Nat) : List (Option String) := (s.tree.findAll m ["note", "beam"]).map fun b => (s.tree.get b).text

theorem InMeasure.grouped (h : s.InMeasure m ns) (hlast : s.lastBeamed = none) : Xml.Look.Grouped (s.beamTexts m) := by
  have hbeamed := h.beamed
  rw [hlast] at hbeamed
  cases hbeamed with
  | closed hgrouped =>
    have htexts : s.beamTexts m = (ns.flatMap s.tree.look.beams).map s.tree.look.text := by
      simp only [beamTexts, Xml.Tree.findAll, List.flatMap_singleton', ← h.notes]
      refine List.map_congr_left fun b hb => ?_
      obtain ⟨n, -, hb⟩ := List.mem_flatMap.mp hb
      have htag : (s.tree.get b).tag = "beam" := by simpa using (List.mem_filter.mp hb).2
      exact (if_pos htag).symm
    exact htexts ▸ hgrouped

theorem measure_ran {number : Nat} {nodes : List Node} {m : Nat} {o : Bool} (h : (measure number nodes level []).Ran s (m, o) s')
    (hs : s.Sound) (hlast : s.lastBeamed = none) : ∃ s₁ s₂, s₁.InMeasure m [] ∧
      s₁.scale = (s.overlay, s.keyAlters, [], s.octaveShift, s.isPercussion) ∧ (measureNodes m (level + 1) nodes false false).Ran s₁ o s₂ ∧
      ∀ {ns}, s₂.InMeasure m ns → s'.InMeasure m ns ∧ s'.lastBeamed = none := by
  unfold measure at h
  rw [ScoreM.ran_bind] at h
  obtain ⟨s₁, _, h₁, h⟩ := h
  rw [ScoreM.ran_bind] at h
  obtain ⟨s₂, m', h₂, h⟩ := h
  extract_lets written broken at h
  have hreset := run_modify h₁ hs rfl rfl rfl rfl rfl
  have hin := inMeasure_new h₂ hreset.1.1 (hreset.1.2.2.1.trans hlast)
  have hscale : s₂.scale = (s.overlay, s.keyAlters, [], s.octaveShift, s.isPercussion) := (scale_newElem h₂).trans hreset.2
  obtain ⟨s₃, u, hquiet, h⟩ : ∃ s₃ u, s₂.Quiet s₃ ∧ (written u).Ran s₃ (m, o) s' := by
    clear_value written
    simp [broken] at h
    split at h
    · obtain ⟨s₃, ⟨_, h₃⟩, s₄, u, h₄, h⟩ := h
      refine ⟨s₄, u, ?_, h⟩
      have := hin.sound
      have := hin.isOpen
      simp [addLineBreak] at h₃
      grind
    · exact ⟨s₂, (), ⟨⟨hin.sound, rfl, rfl, le_rfl⟩, rfl⟩, h⟩
  obtain ⟨s₄, overlay, h₄, h⟩ := ScoreM.ran_bind.mp h
  obtain ⟨s₅, _, h₅, h⟩ := ScoreM.ran_bind.mp h
  obtain ⟨s₆, _, h₆, h⟩ := ScoreM.ran_bind.mp h
  obtain ⟨heq, rfl⟩ := ScoreM.ran_pure.mp h
  cases heq
  refine ⟨s₃, s₄, hin.spares hquiet.1, hquiet.2.trans hscale, h₄, fun hnodes => ?_⟩
  obtain ⟨hended, hnone⟩ := inMeasure_stopBeams hnodes h₅
  have hnoted := run_modify_refs h₆ hended.sound rfl rfl hended.sound.lyric hended.sound.tuplet (by simpa using hended.isOpen)
  exact ⟨hended.spares hnoted.1, hnoted.1.2.2.1.trans hnone⟩

/-- In a score whose elements are all there and in which no note is under a beam that has not ended,
    whatever notes and rests a measure has: if it is written, the beams of its notes are in groups that begin,
    go on and end, and the score is as sound as before. So it is when nothing is written yet. -/
theorem beams_grouped (number : Nat) (level : Int) (nodes : List Node) (hnames : ∀ n ∈ nodes, n.name = "note" ∨ n.name = "rest") :
    (∀ converter, ({ converter } : Score).Sound ∧ ({ converter } : Score).lastBeamed = none) ∧
    ∀ {s s' : Score} {m : Nat} {o : Bool}, s.Sound → s.lastBeamed = none →
      (measure number nodes level []).Ran s (m, o) s' → s'.Sound ∧ s'.lastBeamed = none ∧ Xml.Look.Grouped (s'.beamTexts m) := by
  refine ⟨fun converter => ⟨sound_new converter, rfl⟩, fun hs hlast h => ?_⟩
  obtain ⟨s₁, s₂, hin, -, hrun, hend⟩ := measure_ran h hs hlast
  obtain ⟨ns, hnodes⟩ := inMeasure_nodes hnames hin hrun
  obtain ⟨hended, hnone⟩ := hend hnodes
  exact ⟨hended.sound, hnone, hended.grouped hnone⟩

/-- The beams of a first measure of notes. -/
def firstBeams (nodes : List Node) : List (Option String) :=
  match (measure 1 nodes 1 []).run { converter := {} } with
  | .ok (m, _) s => s.beamTexts m
  | .error .. => []

/-- A note so many eighths long. -/
def noteOf (pitch : List Leaf) (eighths : Int) : Node :=
  { name := "note"
    children := [("pitch", [{ name := "pitch", leaves := pitch }]),
      ("dur", [{ name := "dur", leaves := [.int eighths, .int 1], isPair := true }])] }

/-- Three eighths are a group, and the one behind a longer note has no beam. -/
theorem beams_grouped_three_and_one : ∃ (m : Nat) (o : Bool) (s' : Score),
    (measure 1 (([1, 1, 1, 2, 1] : List Int).map (noteOf [.text "C", .int 0])) 1 []).Ran { converter := {} } (m, o) s' ∧
      s'.beamTexts m = [some "begin", some "continue", some "end"] ∧
      s'.Sound ∧ s'.lastBeamed = none ∧ Xml.Look.Grouped (s'.beamTexts m) := by
  have htexts : firstBeams (([1, 1, 1, 2, 1] : List Int).map (noteOf [.text "C", .int 0])) = [some "begin", some "continue", some "end"] := by
    decide +kernel
  obtain ⟨hnew, hgrouped⟩ := beams_grouped 1 1 (([1, 1, 1, 2, 1] : List Int).map (noteOf [.text "C", .int 0])) (by simp [noteOf])
  unfold firstBeams at htexts
  split at htexts
  · rename_i m o s' hrun
    exact ⟨m, o, s', hrun, htexts, hgrouped (hnew {}).1 (hnew {}).2 hrun⟩
  · cases htexts

end Plainsong.Abc.Score
