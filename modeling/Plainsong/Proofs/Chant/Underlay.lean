import Plainsong.Proofs.Chant.Retrying
/- The text under the notes. A syllable whose neume has no note cannot be sung, so its text goes to
   the syllable behind it. What is laid under the notes is then, blanks apart, all that was written
   and in its order, and no neume without notes has text, the last one of the chant apart, behind
   which there is none to take it (`underlay_read`).

   The invariant is about a row of syllables (`Underlaid`): it goes through each syllable that is
   put behind the row, and so through a word and a chant. A word that is tried twice would put its
   text behind the row twice, but such a word does not come to an end (`Act.upon_again`). -/
namespace Plainsong.Chant

open List

/-! ## Texts without blanks -/

/-- The characters of a text, blanks left out. -/
def unspaced (text : String) : List Char := text.toList.filter (· ≠ ' ')

theorem unspaced_append (a b : String) : unspaced (a ++ b) = unspaced a ++ unspaced b := by
  rw [unspaced, String.toList_append, filter_append, unspaced, unspaced]

theorem unspaced_join (texts : List String) : unspaced (String.join texts) = texts.flatMap unspaced := by
  rw [unspaced, String.toList_join, filter_flatMap]
  rfl

theorem unspaced_unindented (text : String) : unspaced (Act.unindented text) = unspaced text := by
  rw [unspaced, Act.unindented, String.toList_ofList, unspaced]
  induction text.toList with
  | nil => rfl
  | cons c rest ih =>
    by_cases hc : c = ' '
    · rw [dropWhile_cons_of_pos (by simp [hc]), ih, filter_cons_of_neg (by simp [hc])]
    · rw [dropWhile_cons_of_neg (by simp [hc])]

/-! ## Rows of syllables -/

/-- Under these syllables lies what was written for them, and all but the last have notes for it. -/
structure Underlaid (l : List Nat) (s : Score) : Prop where
  nodup : l.Nodup
  there : ∀ k ∈ l, k < s.syllables.size
  texts : (l.flatMap fun k => unspaced (s.syllable k).lilyText) = l.flatMap fun k => unspaced (s.syllable k).text
  sung : ∀ k ∈ l.dropLast, (s.syllable k).lilyText = "" ∨ (s.neume (s.syllable k).neume).hasNote = true

theorem underlaid_nil (s : Score) : Underlaid [] s :=
  ⟨nodup_nil, fun _ hk => absurd hk not_mem_nil, rfl, fun _ hk => absurd hk not_mem_nil⟩

/-- Behind the row comes the syllable `k`. What was said under the row and what is written at `k` is
    now laid under both, and in the row it has notes. -/
structure Laid (l : List Nat) (k : Nat) (s s' : Score) : Prop where
  texts : ((l ++ [k]).flatMap fun m => unspaced (s'.syllable m).lilyText) =
    (l.flatMap fun m => unspaced (s.syllable m).lilyText) ++ unspaced (s.syllable k).text
  sung : ∀ m ∈ l, (s'.syllable m).lilyText = "" ∨ (s.neume (s.syllable m).neume).hasNote = true

namespace Underlaid

variable {l : List Nat} {s s' : Score} {j k : Nat}

theorem congr (h : Underlaid l s) (hcount : s.syllables.size ≤ s'.syllables.size)
    (hsyllable : ∀ k < s.syllables.size, s'.syllable k = s.syllable k)
    (hnote : ∀ n, (s.neume n).hasNote = true → (s'.neume n).hasNote = true) : Underlaid l s' := by
  have hsame : ∀ k ∈ l, s'.syllable k = s.syllable k := fun k hk => hsyllable k (h.there k hk)
  refine ⟨h.nodup, fun k hk => (h.there k hk).trans_le hcount, ?_, fun k hk => ?_⟩
  · calc l.flatMap (fun k => unspaced (s'.syllable k).lilyText)
        = l.flatMap fun k => unspaced (s.syllable k).lilyText := flatMap_congr fun k hk => by rw [hsame k hk]
      _ = l.flatMap fun k => unspaced (s.syllable k).text := h.texts
      _ = l.flatMap fun k => unspaced (s'.syllable k).text := flatMap_congr fun k hk => by rw [hsame k hk]
  · rw [hsame k (mem_of_mem_dropLast hk)]
    exact (h.sung k hk).imp_right (hnote _)

theorem concat (h : Underlaid l s) (hk : k < s.syllables.size) (hnew : k ∉ l) (hr : Act.Relabelled s s')
    (hlaid : Laid l k s s') : Underlaid (l ++ [k]) s' := by
  refine ⟨?_, ?_, ?_, ?_⟩
  · exact nodup_append.mpr ⟨h.nodup, nodup_singleton k, by grind⟩
  · intro m hm
    rw [hr.count]
    rcases mem_append.mp hm with hm | hm
    · exact h.there m hm
    · rwa [mem_singleton.mp hm]
  · rw [hlaid.texts, h.texts, flatMap_append, flatMap_singleton, (hr.syllable k).text]
    congr 1
    exact flatMap_congr fun m _ => by rw [(hr.syllable m).text]
  · rw [dropLast_concat]
    intro m hm
    rw [(hr.syllable m).neume, Score.neume, hr.neumes]
    exact hlaid.sung m hm

theorem laid_take (h : Underlaid (l ++ [j]) s) (hk : k < s.syllables.size) (hnew : k ∉ l ++ [j]) :
    Laid (l ++ [j]) k s (Act.underlay (Act.underlay s j "") k
      (Act.unindented ((s.syllable j).lilyText ++ " " ++ (s.syllable k).text))) := by
  set text := Act.unindented ((s.syllable j).lilyText ++ " " ++ (s.syllable k).text) with htext
  set s' := Act.underlay (Act.underlay s j "") k text with hs'
  have hlast : (s'.syllable j).lilyText = "" := by
    have hne : k ≠ j := fun heq => hnew (by simp [heq])
    rw [hs', Act.syllable_underlay_of_ne text hne, Act.syllable_underlay "" (h.there j (by simp))]
  have hself : (s'.syllable k).lilyText = text := by
    rw [hs', Act.syllable_underlay text (by rwa [Act.underlay, Array.size_modify])]
  have hrow : ∀ m ∈ l, s'.syllable m = s.syllable m := by
    intro m hm
    have hnem : k ≠ m := fun heq => hnew (by simp [heq, hm])
    have hjm : j ≠ m := by
      rintro rfl
      exact (nodup_append.mp h.nodup).2.2 j hm j (mem_singleton_self j) rfl
    rw [hs', Act.syllable_underlay_of_ne text hnem, Act.syllable_underlay_of_ne "" hjm]
  refine ⟨?_, fun m hm => ?_⟩
  · have hmoved : unspaced text = unspaced (s.syllable j).lilyText ++ unspaced (s.syllable k).text := by
      rw [htext, unspaced_unindented, unspaced_append, unspaced_append]
      exact congrArg (· ++ _) (append_nil _)
    have hnone : unspaced "" = [] := rfl
    rw [flatMap_append, flatMap_append, flatMap_append, flatMap_singleton, flatMap_singleton,
      flatMap_singleton, hlast, hself, hmoved, hnone, append_nil, append_assoc,
      flatMap_congr fun m hm => by rw [hrow m hm]]
  · rcases mem_append.mp hm with hm | hm
    · rw [hrow m hm]
      exact h.sung m (by rwa [dropLast_concat])
    · rw [mem_singleton.mp hm]
      exact .inl hlast

theorem laid_keep (h : Underlaid l s) (hk : k < s.syllables.size) (hnew : k ∉ l)
    (hlast : ∀ j, l.getLast? = some j → (s.syllable j).lilyText = "" ∨ (s.neume (s.syllable j).neume).hasNote = true) :
    Laid l k s (Act.underlay s k (Act.unindented (s.syllable k).text)) := by
  have hrow : ∀ m ∈ l, (Act.underlay s k (Act.unindented (s.syllable k).text)).syllable m = s.syllable m :=
    fun m hm => Act.syllable_underlay_of_ne _ fun heq => hnew (heq ▸ hm)
  refine ⟨?_, fun m hm => ?_⟩
  · rw [flatMap_append, flatMap_singleton, Act.syllable_underlay _ hk, unspaced_unindented,
      flatMap_congr fun m hm => by rw [hrow m hm]]
  · rw [hrow m hm]
    rcases eq_nil_or_concat l with rfl | ⟨row, j, rfl⟩
    · cases hm
    · rw [concat_eq_append] at hm h hlast
      rcases mem_append.mp hm with hm | hm
      · exact h.sung m (by rwa [dropLast_concat])
      · rw [mem_singleton.mp hm]
        exact hlast j List.getLast?_concat

end Underlaid

namespace Act

variable {l : List Nat} {s : Score} {k : Nat}

theorem ends_underlay {E : Fault → Score → Prop} (h : Underlaid l s) (hk : k < s.syllables.size) (hnew : k ∉ l)
    (hbefore : (s.syllable k).before = l.getLast?) :
    Ends (settleText k) s (fun _ => Underlaid (l ++ [k])) E := by
  have hlaid : Ends (settleText k) s (fun _ => Laid l k s) fun _ _ => False := by
    refine ends_settleText (fun j hj _ => ?_) fun hkept => ?_
    · rw [hbefore] at hj
      obtain ⟨row, rfl⟩ := List.getLast?_eq_some_iff.mp hj
      exact h.laid_take hk hnew
    · rw [hbefore] at hkept
      exact h.laid_keep hk hnew hkept
  exact (hlaid.and (relabelled_settleText k s)).mono (fun _ s' h' => h.concat hk hnew h'.2 h'.1) fun _ _ h' => h'.1.elim

/-! ## Words and chants -/

theorem upon_laySyllable {w : Nat} {before : Option Nat} {b : Mark} {text code : String} (hs : s.Whole) (hb : b.In s)
    (hw : w < s.words.size) (hfounded : s.Founded b w)
    (htracked : s.lists w ≠ [] → ∃ j < s.syllables.size, before = some j ∧ Tracked s (s.syllable j).neume)
    (h : Underlaid l s) (hbefore : before = l.getLast?) :
    Upon (addSyllable w before text code) s fun _ => Underlaid (l ++ [s.syllables.size]) := by
  refine ends_announce hs hb hw hfounded htracked (fun s₁ h₁ _ => ?_) fun _ _ _ => trivial
  have hcount : s₁.syllables.size = s.syllables.size + 1 := by rw [h₁.syllables, Array.size_push]
  have hold : Underlaid l s₁ :=
    h.congr (by omega) (fun k hk => by rw [h₁.syllable, if_neg hk.ne]) h₁.hasNote
  rw [fileSyllable]
  refine (ends_underlay hold (by omega) (fun hmem => (h.there _ hmem).ne rfl) ?_).seq fun _ s₂ h₂ => ?_
  · rw [h₁.syllable, if_pos rfl, hbefore]
  · rw [ends_bind]
    exact (ends_modify _).mpr (h₂.congr le_rfl (fun _ _ => rfl) fun _ => id)

variable {words : List (List (String × String))}

theorem upon_layWord (items : List (String × String)) (h : s.Reads words) (hlaid : Underlaid s.order s) :
    Upon (makeWord s.text.getLast? items) s fun _ s' => Underlaid (s.order ++ s'.lists s.words.size) s' := by
  have hground := grounded_getLast? h
  refine (ends_penWord (J := fun done s₁ => Passing s s.text.getLast? done s₁ ∧ Underlaid (s.order ++ s₁.lists s.words.size) s₁)
    h.whole (fun v hv => (hground v hv).1) ⟨passing_nil hground, ?_⟩
    fun done item rest s₁ last _ hg hpenned hJ hlast => ?_).mono (fun _ s' h' => h'.2.2.2) fun _ _ => id
  · have hnil : ({ s with words := s.words.push { before := s.text.getLast? } } : Score).lists s.words.size = [] := by
      rw [Score.lists, Score.word_push, if_pos rfl]
    rw [hnil, append_nil]
    exact hlaid.congr le_rfl (fun _ _ => rfl) fun _ => id
  · obtain ⟨hpassing, hlaid₁⟩ := hJ
    have hrow : last = (s.order ++ s₁.lists s.words.size).getLast? := by
      rw [hlast, List.getLast?_append, h.getLast?_order]
    refine ((ends_passSyllable item h.whole hg hpassing hpenned hlast).and
      ((upon_laySyllable (hg.whole h.whole) (hg.markIn s.mark_in) hpenned.there hpassing.founded
        (hpassing.behind hpenned hlast) hlaid₁ hrow).and (upon_fileSyllable last item.1 item.2 hpenned.there))).mono
      (fun _ s₂ h₂ => ⟨h₂.1, ?_⟩) fun _ _ _ => trivial
    rw [h₂.2.2.1, ← append_assoc]
    exact h₂.2.1

theorem upon_layAddWord (items : List (String × String)) (h : s.Reads words) (hlaid : Underlaid s.order s) :
    Upon (addWord items) s fun _ s' => Underlaid s'.order s' := by
  refine (ends_addWord items h.whole).mono (fun _ s' h' => ?_) fun _ _ _ => trivial
  obtain ⟨s₁, hgives, hg, -, rfl⟩ := h'
  rw [h.order_concat hg]
  exact ((upon_layWord items h hlaid).of_gives hgives).congr le_rfl (fun _ _ => rfl) fun _ => id

theorem upon_layItems (items : List (String × String)) (h : s.Reads []) (hempty : s.text = []) :
    Upon (addSyllables [] items) s fun _ s' => Underlaid s'.order s' := by
  refine (upon_addSyllables (J := fun words s => s.Reads words ∧ Underlaid s.order s)
    (fun words items s hJ hitems => ?_) ⟨h, ?_⟩ fun hne => absurd hempty hne).mono (fun _ _ h' => h'.2) fun _ _ => id
  · obtain ⟨h, hlaid⟩ := hJ
    have hadd : Upon (addWord items) s fun _ s' =>
        (s'.Reads (words ++ [items]) ∧ Underlaid s'.order s') ∧ s'.text ≠ [] :=
      ((ends_readWord items h hitems).and (upon_layAddWord items h hlaid)).mono
        (fun _ s' h' => ⟨⟨h'.1.1, h'.2⟩, h'.1.2⟩) fun _ _ _ => trivial
    exact ⟨hadd, upon_again h hadd⟩
  · rw [Score.order, hempty]
    exact underlaid_nil s

end Act

/-- No text is lost: blanks apart, what lies under the notes of a chant is what was written. And only
    under its last neume may there be text without a note. -/
theorem underlay_read {code : String} {transposition : Option Int} {s : Score}
    (h : Score.read code transposition = (.ok (), s)) :
    unspaced (String.join (s.allSyllables.map (·.lilyText))) = unspaced (String.join (s.allSyllables.map (·.text))) ∧
      ∀ y ∈ s.allSyllables.dropLast, y.lilyText = "" ∨ (s.neume y.neume).hasNote = true := by
  obtain ⟨-, -, -, -, hlaid⟩ := Score.read_upon (P := fun _ s => Underlaid s.order s)
    (fun title transposition items => Act.upon_layItems items (Score.reads_empty title transposition) rfl) h
  rw [Score.allSyllables_eq]
  refine ⟨?_, fun y hy => ?_⟩
  · rw [unspaced_join, unspaced_join, List.map_map, List.map_map, List.flatMap_map, List.flatMap_map]
    exact hlaid.texts
  · rw [← List.map_dropLast] at hy
    obtain ⟨k, hk, rfl⟩ := List.mem_map.mp hy
    exact hlaid.sung k hk

/-- The text at a bar goes to the next syllable, and stays where none follows. -/
theorem underlay_read_at_bars :
    ∃ s, Score.read "%%\n(c4) A(f) le(,) lu(g)ia(h) V(::)" none = (.ok (), s) ∧
      s.allSyllables.map (·.lilyText) = ["", "A", "", "le  lu", "ia", "V"] ∧
      unspaced (String.join (s.allSyllables.map (·.lilyText))) = unspaced (String.join (s.allSyllables.map (·.text))) ∧
      ∀ y ∈ s.allSyllables.dropLast, y.lilyText = "" ∨ (s.neume y.neume).hasNote = true := by
  have hread : ∃ s, Score.read "%%\n(c4) A(f) le(,) lu(g)ia(h) V(::)" none = (.ok (), s) ∧
      s.allSyllables.map (·.lilyText) = ["", "A", "", "le  lu", "ia", "V"] :=
    ⟨_, Score.read_of_isOk (by decide +kernel), by decide +kernel⟩
  obtain ⟨s, hread, htexts⟩ := hread
  exact ⟨s, hread, htexts, underlay_read hread⟩

end Plainsong.Chant
