import Plainsong.Proofs.Chant.NoteToken
import Plainsong.Proofs.Chant.Building
import Plainsong.Proofs.Chant.Drafting
/- The music of a score in ABC notation. The line that grows while the words are gone
   through (`Tune.addWords`) holds one token for every note, in order, and nothing else but
   bar lines, phrase marks and blanks (`NoteToken.Line`). Its last three letters are taken
   off before the final bar is written, whatever they are: the notes stay what they were if
   and only if these letters belong to bar lines or are blanks (`NoteToken.Line.cut`). -/
namespace Plainsong.Chant

open List

namespace NoteToken

/-- A part of a line that holds no note: bar lines and blanks, or a bar line under a phrase mark. -/
inductive Silent : List Char → Prop
  | bars {r : List Char} : (∀ c ∈ r, isBar c = true) → Silent r
  | short : Silent (shortPhrase ++ ['[', '|', ']'])
  | medium : Silent (mediumPhrase ++ ['[', '|', ']'])

/-- The line holds these notes, and nothing else but what is silent. -/
inductive Line : List NoteToken → List Char → Prop
  | nil : Line [] []
  | note {l : List NoteToken} {t : List Char} {n : NoteToken} {name : String} :
      Line l t → abcName? n.pitch = some name → Line (l ++ [n]) (t ++ n.text name.toList)
  | silent {l : List NoteToken} {t r : List Char} : Line l t → Silent r → Line l (t ++ r)

/-! ## Reading a line -/

theorem endsNote_nil : EndsNote [] := ⟨fun _ hc => (nomatch hc), fun _ hc => (nomatch hc)⟩

variable {r rest t : List Char} {l x : List NoteToken}

theorem EndsNote.take (h : EndsNote t) (j : Nat) : EndsNote (t.take j) := by
  cases t with
  | nil => simpa using h
  | cons c t =>
    cases j with
    | zero => exact endsNote_nil
    | succ j => exact h

theorem endsNote_text (n : NoteToken) {name : String} (h : abcName? n.pitch = some name) (rest : List Char) :
    EndsNote (n.text name.toList ++ rest) := by
  obtain ⟨c, hc, -, -, -, hup, hdown, hlength⟩ := abcNames_head name (mem_abcNames h)
  obtain ⟨line, hline⟩ := List.head?_eq_some_iff.mp hc
  obtain ⟨mordent, wedge, tenuto, p, long⟩ := n
  rw [text, hline]
  cases mordent <;> cases wedge <;> cases tenuto <;> constructor <;> intro d hd <;> cases hd <;>
    first | exact ⟨hup, hdown⟩ | exact hlength | decide

theorem Silent.endsNote (h : Silent r) (hrest : EndsNote rest) : EndsNote (r ++ rest) := by
  cases h with
  | bars h =>
    cases r with
    | nil => exact hrest
    | cons c r =>
      have hc : EndsNote [c] := endsNote_bars fun d hd => h d (by simp_all)
      exact hc
  | short => exact ⟨fun _ hc => by cases hc; decide, fun _ hc => by cases hc; decide⟩
  | medium => exact ⟨fun _ hc => by cases hc; decide, fun _ hc => by cases hc; decide⟩

theorem read?_bars_append {bars : List Char} (h : ∀ c ∈ bars, isBar c = true) (rest : List Char) :
    read? (bars ++ rest) = read? rest := by
  induction bars with
  | nil => rfl
  | cons b bars ih => rw [cons_append, read?, if_pos (h b (by simp)), ih fun c hc => h c (by simp [hc])]

theorem Silent.read?_append (h : Silent r) (rest : List Char) : read? (r ++ rest) = read? rest := by
  have hbar : read? (['[', '|', ']'] ++ rest) = read? rest := read?_bars_append (all_iff_forall_prop.mp (by decide)) rest
  cases h with
  | bars h => exact read?_bars_append h rest
  | short =>
    rw [show shortPhrase ++ ['[', '|', ']'] ++ rest = '!' :: ("shortphrase!".toList ++ (['[', '|', ']'] ++ rest)) from rfl,
      read?, if_neg (by decide), if_pos (by rfl)]
    exact hbar
  | medium =>
    rw [show mediumPhrase ++ ['[', '|', ']'] ++ rest = '!' :: ("mediumphrase!".toList ++ (['[', '|', ']'] ++ rest)) from rfl,
      read?, if_neg (by decide), if_neg (by rw [Bool.not_eq_true]; rfl), if_pos (by rfl)]
    exact hbar

theorem Line.read?_append (h : Line l t) (hl : ∀ n ∈ l, 60 ≤ n.pitch)
    (hrest : EndsNote rest) : read? (t ++ rest) = (read? rest).map (l ++ ·) := by
  induction h generalizing rest with
  | nil => simp
  | @note l t n name _ hname ih =>
    rw [append_assoc, ih (fun n hn => hl n (by simp [hn])) (endsNote_text n hname rest),
      read?_text n hname (hl n (by simp)) hrest, Option.map_map]
    congr 1
    funext x
    simp
  | silent _ hr ih => rw [append_assoc, ih hl (hr.endsNote hrest), hr.read?_append]

/-! ## Lines cut short -/

theorem Silent.read?_take (h : Silent r) {j : Nat} (hx : read? (r.take j) = some x) : x = [] := by
  have hphrase : ∀ r ∈ [shortPhrase ++ ['[', '|', ']'], mediumPhrase ++ ['[', '|', ']']], ∀ j ≤ r.length,
      ∀ x ∈ read? (r.take j), x = [] := by
    decide +kernel
  have hcut : ∀ r ∈ [shortPhrase ++ ['[', '|', ']'], mediumPhrase ++ ['[', '|', ']']],
      read? (r.take j) = some x → x = [] := by
    intro r hr hx
    rcases Nat.le_total j r.length with hj | hj
    · exact hphrase r hr j hj x hx
    · have hwhole := hphrase r hr r.length le_rfl x
      rw [take_length] at hwhole
      rw [take_of_length_le hj] at hx
      exact hwhole hx
  cases h with
  | bars h =>
    rw [read?_bars fun c hc => h c (mem_of_mem_take hc)] at hx
    exact (Option.some.inj hx).symm
  | short => exact hcut _ (by simp) hx
  | medium => exact hcut _ (by simp) hx

theorem Silent.endsNote_take (h : Silent r) (j : Nat) : EndsNote (r.take j) := by
  have hr := h.endsNote endsNote_nil
  rw [append_nil] at hr
  exact hr.take j

theorem Line.length_le_of_take (h : Line l t) (hl : ∀ n ∈ l, 60 ≤ n.pitch)
    {j : Nat} (hx : read? (t.take j) = some x) : x.length ≤ l.length := by
  induction h generalizing j x with
  | nil =>
    rw [take_nil, read?] at hx
    rw [← Option.some.inj hx]
  | @note l t n name ht hname ih =>
    have hl' : ∀ n ∈ l, 60 ≤ n.pitch := fun n hn => hl n (by simp [hn])
    rw [take_append] at hx
    rcases Nat.le_total j t.length with hj | hj
    · rw [Nat.sub_eq_zero_of_le hj, take_zero, append_nil] at hx
      exact (ih hl' hx).trans (by simp)
    · have hends := (endsNote_text n hname []).take (j - t.length)
      rw [append_nil] at hends
      rw [take_of_length_le hj, ht.read?_append hl' hends] at hx
      obtain ⟨y, hy, rfl⟩ := Option.map_eq_some_iff.mp hx
      suffices y.length ≤ 1 by simpa using this
      rcases Nat.lt_or_ge (j - t.length) (n.text name.toList).length with hlt | hge
      · exact (read?_take_text n hname (hl n (by simp)) hlt hy).1
      · rw [take_of_length_le hge, (read?_text_iff n hname).mpr (hl n (by simp))] at hy
        rw [← Option.some.inj hy]
        rfl
  | @silent l t r ht hr ih =>
    rw [take_append] at hx
    rcases Nat.le_total j t.length with hj | hj
    · rw [Nat.sub_eq_zero_of_le hj, take_zero, append_nil] at hx
      exact ih hl hx
    · rw [take_of_length_le hj, ht.read?_append hl (hr.endsNote_take _)] at hx
      obtain ⟨y, hy, rfl⟩ := Option.map_eq_some_iff.mp hx
      rw [hr.read?_take hy, append_nil]

theorem misread_abcNames : ∀ k : Nat, k < 38 → ∀ name ∈ abcNames[k % 36]?, ∀ long : Bool,
    ∀ j : Nat, j ≤ (name.toList ++ if long then lengthMark else []).length →
    ∀ x ∈ read? ((name.toList ++ if long then lengthMark else []).take j), x.head?.map pitch ≠ some (22 + k : Int) := by
  decide +kernel

theorem head?_decorate (n : NoteToken) (x : List NoteToken) : (n.decorate x).head?.map pitch = x.head?.map pitch := by
  cases x <;> rfl

theorem misread_text (n : NoteToken) {name : String} (h : abcName? n.pitch = some name) (hp : n.pitch < 60)
    (hrest : EndsNote rest) {j : Nat} (hx : read? ((n.text name.toList ++ rest).take j) = some x) : x.head?.map pitch ≠ some n.pitch := by
  rcases Nat.le_total (n.text name.toList).length j with hj | hj
  · rw [take_append, take_of_length_le hj] at hx
    generalize j - (n.text name.toList).length = i at hx
    obtain ⟨q, hq, hne⟩ := takeName?_of_lt h hp
    have hname : EndsName ((if n.long then lengthMark else []) ++ rest.take i) := by
      cases n.long with
      | true => intro c hc; cases hc; decide
      | false => exact (hrest.take i).1
    rw [read?_text_append n h, takeName?_append hq hname, Option.bind_some] at hx
    obtain ⟨y, -, rfl⟩ := Option.map_eq_some_iff.mp hx
    exact fun hpitch => hne (Option.some.inj hpitch)
  · obtain ⟨c, hc, hP, hbang, hbar, -⟩ := abcNames_head name (mem_abcNames h)
    obtain ⟨line, hline⟩ := List.head?_eq_some_iff.mp hc
    rw [take_append_of_le_length hj, text, take_append] at hx
    rw [text, length_append] at hj
    rcases Nat.lt_or_ge n.decorations.length j with hlt | hle
    · obtain ⟨k, hk, hpk, hname⟩ := abcName?_eq h
      have hmisread := misread_abcNames k (by omega) name hname n.long (j - n.decorations.length) (by omega)
      obtain ⟨i, hi⟩ : ∃ i, j - n.decorations.length = i + 1 := ⟨j - n.decorations.length - 1, by omega⟩
      rw [take_of_length_le (Nat.le_of_lt hlt), hi, hline, cons_append, take_succ_cons,
        read?_decorate n hP hbang hbar] at hx
      rw [hi, hline, cons_append, take_succ_cons] at hmisread
      obtain ⟨y, hy, rfl⟩ := Option.map_eq_some_iff.mp hx
      rw [head?_decorate, hpk]
      exact hmisread y hy
    · rw [Nat.sub_eq_zero_of_le hle, take_zero, append_nil] at hx
      have hnil : x = [] := read?_take_decorations n.mordent n.wedge n.tenuto j hle x hx
      simp [hnil]

theorem Line.misread (h : Line l t) (hlow : ∃ n ∈ l, n.pitch < 60)
    (hrest : EndsNote rest) {j : Nat} (hx : read? ((t ++ rest).take j) = some x) : ¬ l <+: x := by
  induction h generalizing rest j x with
  | nil =>
    obtain ⟨n, hn, -⟩ := hlow
    cases hn
  | @note l t n name ht hname ih =>
    rw [append_assoc] at hx
    by_cases hl : ∀ n ∈ l, 60 ≤ n.pitch
    · -- then it is the new note that is too low
      have hn : n.pitch < 60 := by
        obtain ⟨m, hm, hlt⟩ := hlow
        rcases mem_append.mp hm with hm | hm
        · exact absurd (hl m hm) (Int.not_le.mpr hlt)
        · rwa [← mem_singleton.mp hm]
      intro hprefix
      rw [take_append] at hx
      rcases Nat.le_total j t.length with hj | hj
      · rw [Nat.sub_eq_zero_of_le hj, take_zero, append_nil] at hx
        have hlen := hprefix.length_le.trans (ht.length_le_of_take hl hx)
        simp at hlen
      · rw [take_of_length_le hj, ht.read?_append hl ((endsNote_text n hname rest).take _)] at hx
        obtain ⟨y, hy, rfl⟩ := Option.map_eq_some_iff.mp hx
        obtain ⟨z, hz⟩ := hprefix
        rw [append_assoc] at hz
        have hyz : n :: z = y := append_cancel_left hz
        exact misread_text n hname hn hrest hy (by rw [← hyz]; rfl)
    · push Not at hl
      exact fun hprefix => ih hl (endsNote_text n hname rest) hx ((prefix_append l [n]).trans hprefix)
  | @silent l t r _ hr ih =>
    rw [append_assoc] at hx
    exact ih hlow (hr.endsNote hrest) hx

theorem Silent.isBar_of_mem_drop (h : Silent r) {k : Nat} (hk : k ≤ 3) {c : Char}
    (hc : c ∈ r.drop (r.length - k)) : isBar c = true := by
  have hend : ∀ mark : List Char, c ∈ (mark ++ ['[', '|', ']']).drop ((mark ++ ['[', '|', ']']).length - k) →
      isBar c = true := by
    intro mark hc
    have hbar : ∀ c ∈ ['[', '|', ']'], isBar c = true := all_iff_forall_prop.mp (by decide)
    refine hbar c (mem_of_mem_drop (i := 3 - k) ?_)
    rwa [length_append, show mark.length + ['[', '|', ']'].length - k = mark.length + (3 - k) by simp; omega,
      drop_append, drop_eq_nil_of_le (by omega), nil_append, Nat.add_sub_cancel_left] at hc
  cases h with
  | bars h => exact h c (mem_of_mem_drop hc)
  | short => exact hend _ hc
  | medium => exact hend _ hc

theorem Line.isBar_of_cut (h : Line l t) (hl : ∀ n ∈ l, 60 ≤ n.pitch)
    {k : Nat} (hk : k ≤ 3) (hx : read? (t.take (t.length - k)) = some l) :
    ∀ c ∈ t.drop (t.length - k), isBar c = true := by
  induction h generalizing k with
  | nil => simp
  | @note l t n name ht hname ih =>
    have hl' : ∀ n ∈ l, 60 ≤ n.pitch := fun n hn => hl n (by simp [hn])
    rcases Nat.eq_zero_or_pos k with rfl | hpos
    · simp
    · exfalso
      rw [length_append, take_append] at hx
      rcases Nat.le_total k (n.text name.toList).length with hle | hle
      · have hends := (endsNote_text n hname []).take (t.length + (n.text name.toList).length - k - t.length)
        rw [append_nil] at hends
        rw [take_of_length_le (by omega), ht.read?_append hl' hends] at hx
        obtain ⟨y, hy, hyl⟩ := Option.map_eq_some_iff.mp hx
        exact (read?_take_text n hname (hl n (by simp)) (by omega) hy).2 (append_cancel_left hyl)
      · rw [show t.length + (n.text name.toList).length - k - t.length = 0 by omega, take_zero,
          append_nil] at hx
        have := ht.length_le_of_take hl' hx
        simp at this
  | @silent l t r ht hr ih =>
    intro c hc
    rw [length_append, drop_append] at hc
    rcases mem_append.mp hc with hc | hc
    · -- the cut goes through the whole of the silent part
      rcases Nat.le_total k r.length with hle | hle
      · rw [drop_eq_nil_of_le (by omega)] at hc
        cases hc
      · have hlen : t.length + r.length - k = t.length - (k - r.length) := by omega
        rw [length_append, take_append, show t.length + r.length - k - t.length = 0 by omega, take_zero,
          append_nil, hlen] at hx
        exact ih hl (by omega) hx c (hlen ▸ hc)
    · rw [show t.length + r.length - k - t.length = r.length - k by omega] at hc
      exact hr.isBar_of_mem_drop hk hc

/-- A line that loses up to three letters is still read as its notes, if and only if these
    letters are blanks and letters of bar lines and no note is below the middle C. -/
theorem Line.cut (h : Line l t) {k : Nat} (hk : k ≤ 3) : read? (t.take (t.length - k)) = some l ↔
      (∀ n ∈ l, 60 ≤ n.pitch) ∧ ∀ c ∈ t.drop (t.length - k), isBar c = true := by
  constructor
  · intro hx
    have hl : ∀ n ∈ l, 60 ≤ n.pitch := by
      by_contra hlow
      push Not at hlow
      rw [← append_nil t] at hx
      exact h.misread hlow endsNote_nil hx (prefix_refl l)
    exact ⟨hl, h.isBar_of_cut hl hk hx⟩
  · rintro ⟨hl, hbars⟩
    have hwhole : read? t = some l := by
      have := h.read?_append hl endsNote_nil
      rwa [append_nil, read?, Option.map_some, append_nil] at this
    rw [← read?_append_bars hbars, take_append_drop, hwhole]

/-! ## The line of a score -/

/-- The note that a sign stands for. -/
def ofSign (g : Sign) : NoteToken :=
  ⟨g.hasNuance "quilisma", g.hasNuance "ictus", g.hasNuance "episeme", g.pitch.getD 0, g.hasNuance "point"⟩

theorem trimEndChars_name {name abc : String} (hname : name ∈ abcNames) {k : Nat}
    (habc : abc.toList = name.toList ++ List.replicate k ' ') : Text.trimEndChars [' '] abc = name := by
  have hall : ∀ name ∈ abcNames, name.toList.reverse.dropWhile [' '].contains = name.toList.reverse := by decide +kernel
  rw [Text.trimEndChars, Text.dropEndWhile, habc, reverse_append, reverse_replicate,
    dropWhile_append_of_pos (by simp), hall name hname, reverse_reverse, String.ofList_toList]

/-- What is put before the name of a note. -/
def marked (g : Sign) (t : String) : String :=
  let t := if g.hasNuance "episeme" then "!tenuto!" ++ t else t
  let t := if g.hasNuance "ictus" then "!wedge!" ++ t else t
  if g.hasNuance "quilisma" then "P" ++ t else t

theorem toList_marked (g : Sign) (t : String) : (marked g t).toList = (ofSign g).decorations ++ t.toList := by
  have hif : ∀ (b : Bool) (mark t : String), (if b then mark ++ t else t).toList =
      (if b then mark.toList else []) ++ t.toList := by
    intro b mark t
    cases b <;> simp
  rw [marked, hif, hif, hif, decorations, append_assoc, append_assoc]
  rfl

theorem noteAbc_eq {g : Sign} (hg : g.Complete) (hs : g.kind.sounds = true) :
    ∃ name k r, abcName? (ofSign g).pitch = some name ∧ g.noteAbc = .ok r ∧
      r.toList = (ofSign g).text name.toList ++ List.replicate k ' ' := by
  obtain ⟨-, -, p, name, k, hp, hname, habc⟩ := hg.sound hs
  have hmem := mem_abcNames hname
  have hne : name.isEmpty = false := by
    have hall : ∀ name ∈ abcNames, name.isEmpty = false := by decide +kernel
    exact hall name hmem
  have hpitch : (ofSign g).pitch = p := by rw [ofSign, hp, Option.getD_some]
  rw [hpitch]
  by_cases hlong : g.hasNuance "point" = true
  · refine ⟨name, 0, marked g (name ++ "2"), hname, ?_, ?_⟩
    · rw [Sign.noteAbc, if_pos hlong, trimEndChars_name hmem habc, if_neg (by simp [hne])]
      rfl
    · rw [toList_marked, text, show (ofSign g).long = true from hlong]
      simp [lengthMark]
  · refine ⟨name, k, marked g g.abc, hname, ?_, ?_⟩
    · rw [Sign.noteAbc, if_neg hlong]
      rfl
    · rw [toList_marked, text, show (ofSign g).long = false from Bool.not_eq_true _ ▸ hlong]
      simp [habc]

/-- The notes among some signs. -/
def ofSigns (signs : List Sign) : List NoteToken := (signs.filter fun g => g.kind.sounds).map ofSign

theorem Silent.of_barAbc {code r : String} (h : Sign.barAbc code = .ok r) : Silent r.toList := by
  unfold Sign.barAbc at h
  split at h <;> cases h
  · exact .bars (by simp)
  · exact .short
  · exact .medium
  · exact .bars (all_iff_forall_prop.mp (by decide))
  · exact .bars (all_iff_forall_prop.mp (by decide))

theorem Line.sign {g : Sign} {r : String} (h : Line l t) (hg : g.Complete)
    (hr : g.abcText = .ok r) : Line (l ++ ofSigns [g]) (t ++ r.toList) := by
  have hblanks : ∀ k, Silent (List.replicate k ' ') := fun k => .bars (by simp [isBar])
  rw [Sign.abcText] at hr
  by_cases hs : g.kind.sounds = true
  · obtain ⟨name, k, r', hname, hr', hlist⟩ := noteAbc_eq hg hs
    rw [if_pos hs, hr'] at hr
    cases hr
    rw [hlist, ← append_assoc, ofSigns, filter_singleton, hs]
    exact .silent (.note h hname) (hblanks k)
  · rw [if_neg hs] at hr
    rw [Bool.not_eq_true] at hs
    rw [ofSigns, filter_singleton, hs, cond_false, map_nil, append_nil]
    split at hr
    · exact .silent h (.of_barAbc hr)
    · cases hr
      obtain ⟨k, hk⟩ := hg.silent hs
      rw [hk]
      exact .silent h (hblanks k)

theorem Line.signs {signs : List Sign} {rs : List String} (h : Line l t)
    (hg : ∀ g ∈ signs, g.Complete) (hrs : signs.mapM (·.abcText) = .ok rs) :
    Line (l ++ ofSigns signs) (t ++ (String.join rs).toList) := by
  induction signs generalizing l t rs with
  | nil =>
    cases hrs
    simpa [ofSigns] using h
  | cons g rest ih =>
    obtain ⟨r, rs, hr, hrest, rfl⟩ := mapM_eq_ok_cons.mp hrs
    have hline := ih (h.sign (hg g (by simp)) hr) (fun g hg' => hg g (by simp [hg'])) hrest
    rw [append_assoc, append_assoc] at hline
    rw [String.join_cons, String.toList_append]
    convert hline using 2
    rw [ofSigns, ofSigns, ofSigns, ← map_append, ← filter_append, singleton_append]

end NoteToken

def Passage.signs : Passage → List Sign
  | neume _ signs => signs
  | wordEnd => []

theorem Score.signs_passages (s : Score) : (s.passages s.text).flatMap Passage.signs = s.music.flatten := by
  have hword : ∀ ys : List Syllable, (s.passagesOf ys).flatMap Passage.signs = ys.flatMap fun y => s.signsOf y.neume := by
    intro ys
    induction ys with
    | nil => rfl
    | cons y rest ih => rw [passagesOf, flatMap_cons, ih, flatMap_cons, Passage.signs]
  rw [Score.music, Score.allSyllables, ← flatMap_def, Score.passages]
  induction s.text with
  | nil => rfl
  | cons w rest ih =>
    simp only [flatMap_cons, flatMap_append, hword, ih, Passage.signs, flatMap_nil, append_nil]

namespace NoteToken

theorem Line.drafts {ps : List Passage} {d d' : Tune.Draft} {l : List NoteToken} (h : Line l d.music.toList)
    (hg : ∀ g ∈ ps.flatMap Passage.signs, g.Complete) (hd : Tune.Drafts ps d d') :
    Line (l ++ ofSigns (ps.flatMap Passage.signs)) d'.music.toList := by
  induction ps generalizing d l with
  | nil =>
    cases hd
    simpa [ofSigns] using h
  | cons p rest ih =>
    obtain ⟨r, lyrics, hr, -, hd⟩ := hd
    rw [flatMap_cons] at hg ⊢
    have hp : Line (l ++ ofSigns p.signs) (d.music ++ r).toList := by
      rw [String.toList_append]
      cases p with
      | wordEnd =>
        cases hr
        rw [show ofSigns Passage.wordEnd.signs = [] from rfl, append_nil]
        exact .silent h (.bars (all_iff_forall_prop.mp (by decide)))
      | neume text signs =>
        obtain ⟨rs, hrs, ⟨⟩⟩ := bind_eq_ok.mp hr
        exact h.signs (fun g hg' => hg g (mem_append_left _ hg')) hrs
    have hline := ih hp (fun g hg' => hg g (mem_append_right _ hg')) hd
    rwa [append_assoc, ofSigns, ofSigns, ← map_append, ← filter_append, ← ofSigns] at hline

end NoteToken

theorem Score.Whole.complete {s : Score} (h : s.Whole) {g : Sign} (hg : g ∈ s.music.flatten) : g.Complete := by
  obtain ⟨signs, hsigns, hg⟩ := mem_flatten.mp hg
  obtain ⟨y, -, rfl⟩ := mem_map.mp hsigns
  obtain ⟨i, hi, rfl⟩ := mem_map.mp hg
  exact (h.members _ i hi).2

open NoteToken in
/-- The music of every score that is read holds a token for each note, in order, and only
    bar lines, phrase marks and blanks besides; of this line the last three letters are cut off
    before the final bar is put there. So the music is read as the notes of the score if and
    only if no note is below the middle C and the letters cut off are blanks and bar lines. -/
theorem music_says_notes_iff {code : String} {transposition : Option Int} {s : Score}
    (hread : (Score.read code transposition).2 = s) {lyrics music : String}
    (htexts : Tune.texts s = .ok (lyrics, music)) :
    ∃ line, Tune.addWords s s.text {} = .ok ⟨lyrics.toList.reverse, line⟩ ∧ music = Text.exceptLast 3 line ++ "|]" ∧
      Line (s.notes.map ofSign) line.toList ∧
      (read? music.toList = some (s.notes.map ofSign) ↔
        (∀ g ∈ s.notes, ∀ p ∈ g.pitch, 60 ≤ p) ∧
        ∀ c ∈ line.toList.drop (line.toList.length - 3), isBar c = true) := by
  have hwhole : s.Whole := hread ▸ Score.read_whole code transposition
  obtain ⟨⟨reversed, line⟩, hd, hmusic⟩ := bind_eq_ok.mp htexts
  cases hmusic
  have hline : Line (s.notes.map ofSign) line.toList := by
    have h := Line.drafts .nil (fun g hg => hwhole.complete (s.signs_passages ▸ hg)) (Tune.addWords_eq_ok.mp hd)
    rwa [List.nil_append, s.signs_passages] at h
  have hlow : (∀ n ∈ s.notes.map ofSign, 60 ≤ n.pitch) ↔ ∀ g ∈ s.notes, ∀ p ∈ g.pitch, 60 ≤ p := by
    rw [List.forall_mem_map]
    refine forall₂_congr fun g hg => ?_
    obtain ⟨hg, hs⟩ := List.mem_filter.mp hg
    obtain ⟨-, -, p, -, -, hp, -⟩ := (hwhole.complete hg).sound hs
    rw [ofSign, hp]
    simp
  refine ⟨line, by rw [hd, String.toList_ofList, List.reverse_reverse], rfl, hline, ?_⟩
  rw [String.toList_append, Text.exceptLast, String.toList_ofList,
    read?_append_bars (List.all_iff_forall_prop.mp (by decide)), hline.cut le_rfl, hlow]

open NoteToken in
/-- A chant that ends with a double bar, under which nothing is lost: not the decoration of
    the first note nor the length of the last. -/
theorem music_says_notes_before_bar :
    ∃ s lyrics music, (Score.read "%%\n(c4) a(h_) b(g.) (::)" none).2 = s ∧ Tune.texts s = .ok (lyrics, music) ∧
      read? music.toList = some [⟨false, false, true, 69, false⟩, ⟨false, false, false, 67, true⟩] := by
  obtain ⟨s, hread⟩ : ∃ s, (Score.read "%%\n(c4) a(h_) b(g.) (::)" none).2 = s := ⟨_, rfl⟩
  have hdraft : (Tune.addWords s s.text {}).toOption.map (·.music) = some "  !tenuto!A  G2 || " := by
    rw [← hread]
    decide +kernel
  have htexts : ∃ lyrics music, Tune.texts s = .ok (lyrics, music) := by
    cases hd : Tune.addWords s s.text {} with
    | error f =>
      rw [hd] at hdraft
      cases hdraft
    | ok d => exact ⟨_, _, bind_eq_ok.mpr ⟨d, hd, rfl⟩⟩
  have hnotes : s.notes.map ofSign = [⟨false, false, true, 69, false⟩, ⟨false, false, false, 67, true⟩] := by
    rw [← hread]
    decide +kernel
  have hhigh : ∀ g ∈ s.notes, ∀ p ∈ g.pitch, 60 ≤ p := by
    rw [← hread]
    decide +kernel
  obtain ⟨lyrics, music, htexts⟩ := htexts
  obtain ⟨line, hline, -, -, hiff⟩ := music_says_notes_iff hread htexts
  rw [hline] at hdraft
  obtain rfl : line = _ := Option.some.inj hdraft
  rw [hnotes] at hiff
  exact ⟨s, lyrics, music, hread, htexts, hiff.mpr ⟨hhigh, List.all_iff_forall_prop.mp (by decide)⟩⟩

/-- A chant that ends with a note, which is cut off. -/
theorem last_note_cut_off :
    ∃ s, (Score.read "%%\n(c4) a(h) b(g)" none).2 = s ∧ s.notes.map (·.pitch) = [some 69, some 67] ∧
      (Tune.texts s).toOption.map (·.2) = some "  A  |]" ∧
      NoteToken.read? "  A  |]".toList = some [⟨false, false, false, 69, false⟩] := by
  refine ⟨_, rfl, ?_, ?_, ?_⟩ <;> decide +kernel

end Plainsong.Chant
