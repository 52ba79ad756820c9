import Plainsong.Proofs.Chant.Figures
import Plainsong.Proofs.Chant.WordReading
/- What a chant is read as. Its body is a row of items, a text with the code of a neume, and
   every item becomes a syllable with that text and with the figures of that code. Syllables
   come one behind the other, and a new word begins at every item with an empty text or with a
   blank at its head (`split`). A word that fails and is tried once more leaves what was there
   as it was. So a chant that could be read at all has the words, the syllables and the
   figures of its items, and no others (`Score.read_items`). -/
namespace Plainsong.Chant

open List

/-! ## Entries -/

/-- A syllable as it was written: its text and the figures of its neume. -/
abbrev Entry := String × List Figure

/-- The entry of an item of the body. -/
def entryOf (item : String × String) : Entry := (item.1, figuresOf item.2)

namespace Score

def entry (s : Score) (k : Nat) : Entry := ((s.syllable k).text, s.figures (s.syllable k).neume)

/-- The words of the score, each as its entries. -/
def entries (s : Score) : List (List Entry) := s.text.map fun w => (s.lists w).map s.entry

/-- The syllables of the score, by number. -/
def order (s : Score) : List Nat := s.text.flatMap s.lists

/-- The syllable is there, and its neume too. -/
def Holds (s : Score) (k : Nat) : Prop := k < s.syllables.size ∧ (s.syllable k).neume < s.neumes.size

/-- Each syllable comes behind the one before it, and the first one behind `first`. -/
def Linked (s : Score) (first : Option Nat) (l : List Nat) : Prop :=
  Along (fun earlier k => (s.syllable k).before = earlier.getLast?.or first) l

variable {b : Mark} {s s' : Score}

theorem Holds.grown {k : Nat} (h : s.Holds k) (hg : Grown b s s') : s'.Holds k := by
  refine ⟨h.1.trans_le hg.syllableCount, ?_⟩
  rw [(hg.syllable k h.1).neume]
  exact h.2.trans_le hg.neumeCount

theorem Grown.entry (hg : Grown b s s') (hs : s.Whole) {k : Nat} (hk : k < s.syllables.size)
    (hn : (s.syllable k).neume < b.neumes) (hb : s.signs.size ≤ b.signs) : s'.entry k = s.entry k := by
  have halike := hg.syllable k hk
  rw [Score.entry, halike.text, halike.neume, Score.entry, figures, hg.signs _ hn, figures]
  congr 1
  refine map_congr_left fun i hi => ?_
  have hsign := hg.sign i ((hs.members _ i hi).1.trans_le hb)
  rw [Sign.figure, hsign.kind, hsign.code, Sign.figure]

theorem Linked.grown {first : Option Nat} {l : List Nat} (h : s.Linked first l) (hl : ∀ k ∈ l, k < s.syllables.size)
    (hg : Grown b s s') : s'.Linked first l := by
  intro earlier k later heq
  rw [(hg.syllable k (hl k (by simp [heq]))).before]
  exact h earlier k later heq

end Score

namespace Act

variable {s : Score} {w : Nat}

theorem upon_fileSyllable (before : Option Nat) (text code : String) (hw : w < s.words.size) :
    Upon (addSyllable w before text code) s fun _ s' =>
      s'.lists w = s.lists w ++ [s.syllables.size] ∧ s'.Holds s.syllables.size ∧
      s'.entry s.syllables.size = (text, figuresOf code) ∧ (s'.syllable s.syllables.size).before = before := by
  refine ends_addSyllable ((upon_openSyllable w before text _ s).mono (fun _ s₁ h₁ => ?_) fun _ _ => id)
  obtain ⟨held, h₁⟩ := h₁
  have hcount₁ : s.syllables.size < s₁.syllables.size := by simp [h₁.syllables]
  have hshows : Shows s.neumes.size s.lists [] s₁ := by
    refine ⟨by simp [h₁.neumes], Score.lists_of_words h₁.words, ?_, ?_⟩
    · rw [h₁.neume, if_pos rfl]
      simp
    · rw [Score.figures, h₁.neume, if_pos rfl]
      rfl
  refine ((upon_readFigures code hshows).and
    (grown_readCode code (start_in s₁) (h₁.site (Nat.zero_le _) (Nat.zero_le _)))).mono (fun _ s₂ h₂ => ?_) fun _ _ _ => trivial
  obtain ⟨hshows, hg⟩ := h₂
  rw [fileSyllable]
  refine (relabelled_settleText _ s₂).andThen (fun _ s₃ h₃ => ?_) fun _ _ _ => trivial
  rw [ends_bind]
  refine (ends_modify _).mpr ?_
  set s' : Score :=
    { s₃ with words := s₃.words.modify w fun v => { v with syllables := v.syllables ++ [s.syllables.size] } } with hs'
  have halike := (hg.syllable _ hcount₁).trans (h₃.syllable _)
  rw [h₁.syllable, if_pos rfl] at halike
  have hfigures : s'.figures s.neumes.size = figuresOf code := by
    rw [← hshows.figures, Score.figures, Score.figures]
    simp only [hs', Score.neume, Score.sign, h₃.neumes, h₃.signs]
  have hw₃ : w < s₃.words.size := by
    rw [h₃.words]
    refine lt_of_lt_of_le ?_ hg.wordCount
    rwa [h₁.words]
  refine ⟨?_, ⟨(hcount₁.trans_le hg.syllableCount).trans_eq h₃.count.symm, ?_⟩, ?_, halike.before⟩
  · rw [hs', Score.lists, Score.word_modify, if_pos ⟨rfl, hw₃⟩]
    show s₃.lists w ++ _ = _
    rw [Score.lists_of_words h₃.words, hshows.lists]
  · show (s₃.syllable _).neume < s₃.neumes.size
    rw [halike.neume, h₃.neumes]
    exact hshows.there
  · show ((s₃.syllable _).text, s'.figures (s₃.syllable _).neume) = _
    rw [halike.text, halike.neume, hfigures]

/-! ## Words -/

theorem ends_forM {α : Type} {l : List α} {f : α → Act Unit} {I : List α → Score → Prop} {E : Fault → Score → Prop}
    (h : ∀ done a rest s, done ++ a :: rest = l → I done s → Ends (f a) s (fun _ => I (done ++ [a])) E) {s : Score}
    (hs : I [] s) : Ends (l.forM f) s (fun _ => I l) E := by
  have hrest : ∀ rest done s, done ++ rest = l → I done s → Ends (rest.forM f) s (fun _ => I l) E := by
    intro rest
    induction rest with
    | nil =>
      intro done s heq hdone
      rw [append_nil] at heq
      exact heq ▸ hdone
    | cons a rest ih =>
      intro done s heq hdone
      show Ends (f a >>= fun _ => rest.forM f) s _ _
      exact (h done a rest s heq hdone).seq fun _ s₁ h₁ => ih (done ++ [a]) s₁ (by rw [append_assoc, singleton_append, heq]) h₁
  exact hrest l [] s rfl hs

/-- The word has the entries of these items, the first of them behind the syllable `first`. -/
structure Penned (first : Option Nat) (items : List (String × String)) (w : Nat) (s : Score) : Prop where
  there : w < s.words.size
  holds : ∀ k ∈ s.lists w, s.Holds k
  entries : (s.lists w).map s.entry = items.map entryOf
  linked : s.Linked first (s.lists w)

variable {before : Option Nat}

theorem upon_penSyllable {first : Option Nat} {items : List (String × String)} (text code : String) (hs : s.Whole)
    (h : Penned first items w s) (hbefore : before = (s.lists w).getLast?.or first) :
    Upon (addSyllable w before text code) s fun _ => Penned first (items ++ [(text, code)]) w := by
  have hgrown := grows_addSyllable (b := ⟨s.signs.size, s.neumes.size, w⟩) le_rfl before text code s
    ⟨le_rfl, le_rfl, h.there.le⟩
  refine ((upon_fileSyllable before text code h.there).and hgrown).mono (fun _ s' hs' => ?_) fun _ _ _ => trivial
  obtain ⟨⟨hlists, hholds, hentry, hlast⟩, hg⟩ := hs'
  have hold : ∀ k ∈ s.lists w, s'.entry k = s.entry k := fun k hk =>
    hg.entry hs (h.holds k hk).1 (h.holds k hk).2 le_rfl
  refine ⟨h.there.trans_le hg.wordCount, fun k hk => ?_, ?_, ?_⟩
  · rw [hlists] at hk
    rcases mem_append.mp hk with hk | hk
    · exact (h.holds k hk).grown hg
    · rw [mem_singleton.mp hk]
      exact hholds
  · rw [hlists, map_append, map_congr_left hold, h.entries, map_append, map_singleton, hentry]
    rfl
  · rw [hlists]
    exact (h.linked.grown (fun k hk => (h.holds k hk).1) hg).concat (by rw [hlast, hbefore])

theorem ends_penWord {items : List (String × String)} {J : List (String × String) → Score → Prop}
    {E : Fault → Score → Prop} (hs : s.Whole) (hbefore : ∀ v, before = some v → v < s.words.size)
    (hstart : J [] { s with words := s.words.push { before } })
    (hstep : ∀ done item rest s₁ last, done ++ item :: rest = items → Score.Grown s.mark s s₁ →
      Penned (before.bind fun v => (s.lists v).getLast?) done s.words.size s₁ → J done s₁ →
      last = (s₁.lists s.words.size).getLast?.or (before.bind fun v => (s.lists v).getLast?) →
      Ends (addSyllable s.words.size last item.1 item.2) s₁ (fun _ => J (done ++ [item])) E) :
    Ends (makeWord before items) s
      (fun w s' => w = s.words.size ∧ Penned (before.bind fun v => (s.lists v).getLast?) items w s' ∧ J items s') E := by
  rw [makeWord, ends_bind, ends_get, ends_bind, ends_modify, ends_bind]
  set w := s.words.size with hw
  set first := before.bind fun v => (s.lists v).getLast? with hfirst
  set s₁ : Score := { s with words := s.words.push { before } } with hs₁
  have hg₁ : Score.Grown s.mark s s₁ := .pushWord s.mark_in rfl fun _ => hbefore
  have hpenned : Penned first [] w s₁ := by
    have hnil : s₁.lists w = [] := by rw [hs₁, Score.lists, Score.word_push, if_pos rfl]
    refine ⟨by simp [hs₁, hw], ?_, ?_, ?_⟩
    · rw [hnil]
      simp
    · rw [hnil]
      rfl
    · rw [hnil]
      exact Along.nil
  refine (ends_forM (I := fun done s' => Penned first done w s' ∧ Score.Grown s.mark s s' ∧ J done s')
    (fun done item rest s₂ heq h₂ => ?_) ⟨hpenned, hg₁, hstart⟩).mono (fun _ s' h' => ⟨rfl, h'.1, h'.2.2⟩) fun _ _ => id
  obtain ⟨hpenned₂, hg₂, hJ₂⟩ := h₂
  -- the word before is below the mark
  have hsame : (before.bind fun v => (s₂.word v).syllables.getLast?) = first := by
    cases before with
    | none => rfl
    | some v => exact congrArg (fun u : Word => u.syllables.getLast?) (hg₂.word v (hbefore v rfl))
  have hround : ∀ last, last = (s₂.lists w).getLast?.or first →
      Ends (addSyllable w last item.1 item.2) s₂
        (fun _ s' => Penned first (done ++ [item]) w s' ∧ Score.Grown s.mark s s' ∧ J (done ++ [item]) s') E := by
    intro last hlast
    exact ((hstep done item rest s₂ last heq hg₂ hpenned₂ hJ₂ hlast).and
      ((upon_penSyllable item.1 item.2 (hg₂.whole hs) hpenned₂ hlast).and
        (grows_addSyllable (b := s.mark) le_rfl last _ _ s₂ (hg₂.markIn s.mark_in)))).mono
      (fun _ s₃ h₃ => ⟨h₃.2.1, hg₂.trans h₃.2.2, h₃.1⟩) fun _ _ h₃ => h₃.1
  rw [ends_bind, ends_get, ends_discard]
  split
  next k hk => exact hround _ (by rw [Score.lists, hk]; rfl)
  next hk => exact hround _ (by rw [Score.lists, hk, hsame]; rfl)

theorem upon_penWord (items : List (String × String)) (hs : s.Whole)
    (hbefore : ∀ v, before = some v → v < s.words.size) :
    Upon (makeWord before items) s fun w s' => Penned (before.bind fun v => (s.lists v).getLast?) items w s' :=
  (ends_penWord (J := fun _ _ => True) hs hbefore trivial fun _ _ _ _ _ _ _ _ _ _ => Upon.of_prop trivial).mono
    (fun _ _ h => h.2.1) fun _ _ => id

end Act

/-! ## Scores -/

/-- The score has a word for each list of items, and its syllables follow one another. -/
structure Score.Reads (words : List (List (String × String))) (s : Score) : Prop where
  whole : s.Whole
  holds : ∀ k ∈ s.order, s.Holds k
  entries : s.entries = words.map (·.map entryOf)
  linked : s.Linked none s.order
  full : ∀ w ∈ s.text.tail, s.lists w ≠ []

namespace Score.Reads

variable {words : List (List (String × String))} {s s' : Score}

theorem exists_word (h : s.Reads words) {w : Nat} (hw : w ∈ s.text) : ∃ word ∈ words, word.map entryOf = (s.lists w).map s.entry :=
  mem_map.mp (h.entries ▸ mem_map.mpr ⟨w, hw, rfl⟩)

theorem lists_grown (h : s.Reads words) (hg : Grown s.mark s s') {w : Nat} (hw : w ∈ s.text) : s'.lists w = s.lists w := by
  rw [Score.lists, hg.word w (h.whole.text w hw), Score.lists]

theorem entries_grown (h : s.Reads words) (hg : Grown s.mark s s') :
    (s.text.map fun w => (s'.lists w).map s'.entry) = s.entries := by
  refine map_congr_left fun w hw => ?_
  rw [h.lists_grown hg hw]
  refine map_congr_left fun k hk => ?_
  have hholds := h.holds k (mem_flatMap.mpr ⟨w, hw, hk⟩)
  exact hg.entry h.whole hholds.1 hholds.2 le_rfl

theorem order_grown (h : s.Reads words) (hg : Grown s.mark s s') : s.text.flatMap s'.lists = s.order := by
  rw [flatMap_def, Score.order, flatMap_def, map_congr_left fun w hw => h.lists_grown hg hw]

theorem order_concat (h : s.Reads words) (hg : Grown s.mark s s') (w : Nat) :
    ({ s' with text := s.text ++ [w] } : Score).order = s.order ++ s'.lists w := by
  show (s.text ++ [w]).flatMap s'.lists = _
  rw [flatMap_append, h.order_grown hg, flatMap_singleton]

theorem grown (h : s.Reads words) (hg : Grown s.mark s s') : s'.Reads words := by
  have horder : s'.order = s.order := by rw [Score.order, hg.text, h.order_grown hg]
  refine ⟨hg.whole h.whole, ?_, ?_, ?_, ?_⟩
  · rw [horder]
    exact fun k hk => (h.holds k hk).grown hg
  · rw [Score.entries, hg.text, h.entries_grown hg, h.entries]
  · rw [horder]
    exact h.linked.grown (fun k hk => (h.holds k hk).1) hg
  · rw [hg.text]
    exact fun w hw => by rw [h.lists_grown hg (mem_of_mem_tail hw)]; exact h.full w hw

theorem getLast?_order (h : s.Reads words) : s.order.getLast? = s.text.getLast?.bind fun v => (s.lists v).getLast? := by
  rcases eq_nil_or_concat s.text with hnil | ⟨l, v, heq⟩
  · rw [Score.order, hnil]
    rfl
  · rw [concat_eq_append] at heq
    rw [Score.order, heq, flatMap_append, List.getLast?_append, List.getLast?_concat, flatMap_singleton]
    cases l with
    | nil => simp
    | cons u l =>
      have hne := h.full v (by simp [heq])
      obtain ⟨k, hk⟩ := Option.isSome_iff_exists.mp (List.getLast?_isSome.mpr hne)
      rw [hk]
      exact hk.symm

end Score.Reads

theorem Score.Linked.append {s : Score} {l l' : List Nat} (h : s.Linked none l) (h' : s.Linked l.getLast? l') :
    s.Linked none (l ++ l') := by
  induction l' using List.reverseRecOn with
  | nil =>
    rw [append_nil]
    exact h
  | append_singleton l' k ih =>
    rw [← append_assoc]
    refine (ih h'.take).concat ?_
    rw [h'.last, List.getLast?_append, Option.or_none]

namespace Act

variable {words : List (List (String × String))} {s : Score}

theorem ends_readWord (items : List (String × String)) (h : s.Reads words) (hitems : s.text ≠ [] → items ≠ []) :
    Ends (addWord items) s (fun _ s' => s'.Reads (words ++ [items]) ∧ s'.text ≠ []) fun _ s' => s'.Reads words ∧ s'.text = s.text := by
  refine ((keeps_whole_addWord items s h.whole).and (ends_addWord items h.whole)).mono (fun _ s' hs' => ?_)
    fun _ s' hs' => ⟨h.grown hs'.2, hs'.2.text⟩
  obtain ⟨hwhole, s₁, hgives, hg, -, rfl⟩ := hs'
  have hlast : ∀ v, s.text.getLast? = some v → v < s.words.size :=
    fun v hv => h.whole.text v (mem_of_getLast? hv)
  have hpenned := (upon_penWord items h.whole hlast).of_gives hgives
  rw [← h.getLast?_order] at hpenned
  set s' : Score := { s₁ with text := s.text ++ [s.words.size] } with hs'
  have horder : s'.order = s.order ++ s₁.lists s.words.size := h.order_concat hg s.words.size
  refine ⟨⟨hwhole, ?_, ?_, ?_, ?_⟩, by simp [hs']⟩
  · rw [horder]
    intro k hk
    show s₁.Holds k
    rcases mem_append.mp hk with hk | hk
    · exact (h.holds k hk).grown hg
    · exact hpenned.holds k hk
  · show (s.text ++ [s.words.size]).map (fun w => (s₁.lists w).map s₁.entry) = _
    rw [map_append, h.entries_grown hg, h.entries, map_append, map_singleton, map_singleton,
      hpenned.entries]
  · rw [horder]
    exact (h.linked.grown (fun k hk => (h.holds k hk).1) hg).append hpenned.linked
  · intro w hw
    show s₁.lists w ≠ []
    by_cases hnil : s.text = []
    · rw [show s'.text = [s.words.size] by simp [hs', hnil]] at hw
      cases hw
    · rw [show s'.text.tail = s.text.tail ++ [s.words.size] from tail_append_of_ne_nil hnil] at hw
      rcases mem_append.mp hw with hw | hw
      · rw [h.lists_grown hg (mem_of_mem_tail hw)]
        exact h.full w hw
      · rw [mem_singleton.mp hw]
        intro hempty
        have hlen := congrArg List.length hpenned.entries
        rw [hempty] at hlen
        exact hitems hnil (length_eq_zero_iff.mp (by simpa using hlen.symm))

end Act

/-- Whether a new word begins at a syllable with this text. -/
def opensWord (text : String) : Bool :=
  match text.toList with
  | [] => true
  | ' ' :: _ => true
  | _ => false

/-- The items word by word, behind those of a word that has begun (the last one first). -/
def split (word : List (String × String)) : List (String × String) → List (List (String × String))
  | [] => [word.reverse]
  | item :: rest => if opensWord item.1 then word.reverse :: split [item] rest else split (item :: word) rest

namespace Act

variable {words : List (List (String × String))} {s : Score}

theorem upon_addSyllables {J : List (List (String × String)) → Score → Prop}
    (hword : ∀ words items s, J words s → (s.text ≠ [] → items ≠ []) →
      Upon (addWord items) s (fun _ s' => J (words ++ [items]) s' ∧ s'.text ≠ []) ∧
      Upon (orIfOutOfRange (addWord items) (addWord items)) s fun _ s' => J (words ++ [items]) s' ∧ s'.text ≠ [])
    {word rest : List (String × String)} (h : J words s) (hfull : s.text ≠ [] → word ≠ []) :
    Upon (addSyllables word rest) s fun _ => J (words ++ split word rest) := by
  induction rest generalizing word words s with
  | nil =>
    rw [addSyllables, Upon, ends_bind, ends_get]
    refine ends_need_bind (fun _ _ => ?_) trivial
    exact (hword words word.reverse s h (by simpa using hfull)).1.mono (fun _ s' hs' => hs'.1) fun _ _ => id
  | cons item rest ih =>
    obtain ⟨text, code⟩ := item
    have hnext : ∀ s' : Score, J (words ++ [word.reverse]) s' ∧ s'.text ≠ [] → opensWord text = true →
        Upon (addSyllables [(text, code)] rest) s' fun _ => J (words ++ split word ((text, code) :: rest)) := by
      rintro s' ⟨hs', -⟩ hopens
      rw [split, if_pos hopens, append_cons]
      exact ih hs' fun _ => cons_ne_nil _ _
    obtain ⟨hadd, hagain⟩ := hword words word.reverse s h (by simpa using hfull)
    unfold addSyllables
    split
    next htext =>
      rw [Upon]
      exact hadd.seq fun _ s' hs' => hnext s' hs' (by rw [opensWord, htext])
    next htext =>
      have hopens : opensWord text = true := by
        rw [opensWord, htext]
        rfl
      rw [Upon]
      exact hagain.seq fun _ s' hs' => hnext s' hs' hopens
    next hnil hblank =>
      have hopens : opensWord text = false := by
        rw [opensWord]
        split
        next htext => exact absurd htext hnil
        next htext => exact absurd htext (hblank _)
        next => rfl
      rw [show split word ((text, code) :: rest) = split ((text, code) :: word) rest by simp [split, hopens]]
      exact ih h fun _ => cons_ne_nil _ _

theorem upon_readItems {word rest : List (String × String)} (h : s.Reads words) (hfull : s.text ≠ [] → word ≠ []) :
    Upon (addSyllables word rest) s fun _ s' => s'.Reads (words ++ split word rest) := by
  refine upon_addSyllables (J := fun words s => s.Reads words) (fun words items s h hitems => ⟨?_, ?_⟩) h hfull
  · exact (ends_readWord items h hitems).mono (fun _ _ => id) fun _ _ _ => trivial
  · rw [Upon, orIfOutOfRange, ends_tryCatch]
    refine (ends_readWord items h hitems).mono (fun _ _ => id) fun f s' hs' => ?_
    split
    · exact (ends_readWord items hs'.1 (hs'.2 ▸ hitems)).mono (fun _ _ => id) fun _ _ _ => trivial
    · trivial

end Act

theorem Score.reads_empty (title : String) (transposition : Option Int) :
    ({ title, transposition } : Score).Reads [] :=
  ⟨Score.whole_empty _ _, fun _ hk => absurd hk not_mem_nil, rfl, Along.nil, fun _ hw => absurd hw not_mem_nil⟩

variable {transposition : Option Int} {code : String}

theorem Score.read_upon {P : List (String × String) → Score → Prop}
    (hitems : ∀ title transposition items, Upon (Act.addSyllables [] items) { title, transposition } fun _ => P items)
    {s : Score} (h : Score.read code transposition = (.ok (), s)) :
    ∃ body items, Source.body? code = some body ∧ Source.syllables? body = some items ∧ P items s := by
  rw [Score.read] at h
  generalize Source.name code = title at h
  have hempty := hitems title transposition
  generalize ({ title, transposition } : Score) = empty at h hempty
  cases hbody : Source.body? code with
  | none =>
    rw [hbody] at h
    cases h
  | some body =>
    rw [hbody] at h
    refine ⟨body, ?_⟩
    change Gives (Act.readBody body) empty () s at h
    unfold Act.readBody at h
    -- what the items are does not matter, and must not be computed
    generalize Source.syllables? body = found at h ⊢
    have hread : Upon (do Act.addSyllables [] (← Act.need .outOfRange found)) empty fun _ s' =>
        ∃ items, found = some items ∧ P items s' := by
      rw [Upon, ends_bind]
      refine Act.ends_need (fun items hfound => ?_) trivial
      exact (hempty items).mono (fun _ s' hs' => ⟨items, hfound, hs'⟩) fun _ _ => id
    obtain ⟨items, hfound, hs⟩ := hread.of_gives h
    exact ⟨items, rfl, hfound, hs⟩

theorem Score.read_items {s : Score} (h : Score.read code transposition = (.ok (), s)) :
    ∃ body items, Source.body? code = some body ∧ Source.syllables? body = some items ∧ s.Reads (split [] items) :=
  Score.read_upon (fun title transposition _ =>
    Act.upon_readItems (Score.reads_empty title transposition) fun hne => absurd rfl hne) h

theorem Score.read_of_isOk (h : (Score.read code transposition).1.isOk = true) :
    Score.read code transposition = (.ok (), (Score.read code transposition).2) := by
  generalize Score.read code transposition = r at h
  obtain ⟨r, s⟩ := r
  cases r with
  | error f => cases h
  | ok _ => rfl

end Plainsong.Chant
