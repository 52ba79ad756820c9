import Plainsong.Proofs.Abc.VoiceFields
/- Voices whose lines are mixed. A line that begins with the field of its voice is taken as
   music, whatever stands before it; so below a header all lines come to be one text, and
   splitting it gives back each line with its voice. Each voice thus gets its own lines, however
   those of the others stand between them (`voices_interleaved`). -/
namespace Plainsong

open List

namespace Text

theorem dropEndWhile_eq_self {p : Char → Bool} {cs : List Char} (h : ∀ c ∈ cs.getLast?, p c = false) : dropEndWhile p cs = cs := by
  rw [← List.head?_reverse] at h
  rw [dropEndWhile, ← reverse_inj, reverse_reverse]
  cases hcs : cs.reverse with
  | nil => rfl
  | cons c rest => rw [dropWhile_cons_of_neg (by simp [h c (by simp [hcs])])]

theorem linesFrom_append {cs : List Char} (h : ∀ c ∈ cs, isLineEnd c = false) (rest cur : List Char) :
    linesFrom (cs ++ rest) cur = linesFrom rest (cs.reverse ++ cur) := by
  induction cs generalizing cur with
  | nil => rfl
  | cons c cs ih =>
    have hc := h c (by simp)
    have hne : c ≠ '\r' := by
      rintro rfl
      exact absurd hc (by decide)
    rw [cons_append, linesFrom, if_neg (by simp [hc]), ih fun c hc => h c (by simp [hc])]
    · simp
    · exact fun r hr _ => hne hr

theorem lines_intercalate {ss : List String} (h : ∀ s ∈ ss, s ≠ "" ∧ ∀ c ∈ s.toList, isLineEnd c = false) : lines ("\n".intercalate ss) = ss := by
  rw [lines, String.toList_intercalate]
  induction ss with
  | nil => rfl
  | cons s ss ih =>
    obtain ⟨⟨hne, hs⟩, hss⟩ := forall_mem_cons.mp h
    cases ss with
    | nil =>
      have hend := linesFrom_append hs [] []
      have hlist : s.toList ≠ [] := fun h => hne (String.toList_eq_nil_iff.mp h)
      simp_all [linesFrom, List.intercalate]
    | cons t ss =>
      have hstep (rest cur : List Char) : linesFrom ("\n".toList ++ rest) cur = cur.reverse :: linesFrom rest [] := by
        simp [linesFrom, isLineEnd]
      have hrest := ih hss
      rw [map_cons] at hrest
      rw [map_cons, map_cons, intercalate_cons_cons, append_assoc, linesFrom_append hs, hstep, map_cons, hrest]
      simp

end Text

namespace Abc

open Pattern

/-! ## Lines of voices -/

/-- A line of a voice: no character of its name or of its music has a meaning for fields or lines, and the music has an end that is
    not left out. -/
structure VoiceLine where
  voice : String
  music : String
  voice_ne : voice ≠ ""
  hvoice : ∀ c ∈ voice.toList, Text.isBlank c = false ∧ c ≠ '[' ∧ c ≠ ']' ∧ c ≠ '%'
  hmusic : ∀ c ∈ music.toList, Text.isLineEnd c = false ∧ c ≠ '[' ∧ c ≠ '%'
  hend : ∃ c ∈ music.toList.getLast?, Text.isBlank c = false ∧ c ≠ '*' ∧ c ≠ '\\'

namespace VoiceLine

def text (x : VoiceLine) : String := voiceMark x.voice ++ x.music

variable {x : VoiceLine}

theorem toList_text : x.text.toList = '[' :: 'V' :: ':' :: (x.voice.toList ++ ']' :: x.music.toList) := by simp [text, voiceMark]

theorem bracket_notMem_voice : ']' ∉ x.voice.toList := fun h => (x.hvoice ']' h).2.2.1 rfl

theorem plain_text : ∀ c ∈ x.text.toList, Text.isLineEnd c = false ∧ c ≠ '%' := by
  have hvoice : ∀ c ∈ x.voice.toList, Text.isLineEnd c = false ∧ c ≠ '%' := fun c hc => by
    have := x.hvoice c hc
    refine ⟨?_, this.2.2.2⟩
    grind [Text.isLineEnd, Text.isBlank]
  have hmusic : ∀ c ∈ x.music.toList, Text.isLineEnd c = false ∧ c ≠ '%' := fun c hc => ⟨(x.hmusic c hc).1, (x.hmusic c hc).2.2⟩
  rw [toList_text]
  simp only [forall_mem_cons, forall_mem_append]
  exact ⟨by decide, by decide, by decide, hvoice, by decide, hmusic⟩

theorem getLast?_text {c : Char} (hc : c ∈ x.music.toList.getLast?) : x.text.toList.getLast? = some c := by
  rw [toList_text]
  simp [List.getLast?_append, List.getLast?_cons, Option.mem_def.mp hc]

theorem dropEndWhile_text {p : Char → Bool} (hp : ∀ c, p c = true → Text.isBlank c = true ∨ c = '*' ∨ c = '\\') :
    Text.dropEndWhile p x.text.toList = x.text.toList := by
  obtain ⟨c, hc, hend⟩ := x.hend
  refine Text.dropEndWhile_eq_self fun d hd => ?_
  have hlast := getLast?_text hc
  grind

theorem startsWith_text {c : Char} (hc : c ≠ '[') (rest : List Char) : x.text.startsWith (String.ofList (c :: rest)) = false := by
  rw [Bool.eq_false_iff, ne_eq, String.startsWith_string_iff, toList_text]
  simp [hc]

theorem startsAs_fieldLine : startsAs fieldLine x.text = false := by
  have hplace : x.text.toList.drop 0 = _ := toList_text
  have hvoice : x.text.toList.drop 3 = x.voice.toList ++ ']' :: x.music.toList := by rw [toList_text]; rfl
  obtain ⟨c, hc, -⟩ := x.hend
  obtain ⟨d, rest, hd⟩ : ∃ d rest, x.music.toList = d :: rest := exists_cons_of_ne_nil fun h => by simp [h] at hc
  have hline : d ≠ '\n' := by
    rintro rfl
    exact absurd (x.hmusic '\n' (by simp [hd])).1 (by decide)
  have hmusic : x.text.toList.toArray[0 + 3 + x.voice.toList.length + 1]? = some d := by
    rw [getElem?_of_drop (drop_succ_of_drop (drop_add_of_drop hvoice)), hd]
    rfl
  -- The bracket behind the name is not the end of the line.
  have hend : Anchor.holds x.text.toList.toArray (0 + 3 + x.voice.toList.length + 1) .lastLineEnd = false := by
    have hlength : x.text.toList.toArray.size = 0 + 3 + x.voice.toList.length + 1 + (rest.length + 1) := by
      simp [toList_text, hd]
      omega
    simp only [Anchor.holds, hmusic, hlength]
    simp [hline]
  rw [startsAs, Matcher.atPos, Matcher.matchAt, if_neg (Nat.not_lt_zero _), patterns.fieldLine, run,
    run_opener rfl (by simp only [hplace, List.head?_cons, Option.mem_some_iff]; rintro _ rfl; decide), run_voice (by decide) hplace,
    run_upToBracket_seq bracket_notMem_voice hvoice, run, hend]
  rfl

theorem takeLines_text {g : Gathering} (hg : g.inTune = true) (kind : String) (rest : List String) :
    g.takeLines kind (x.text :: rest) = (g.takeMusic x.text).takeLines kind rest := by
  have hplain := fun h => (plain_text (x := x) '%' h).2 rfl
  have hne : x.text.isEmpty = false := by
    rw [Bool.eq_false_iff, ne_eq, String.isEmpty_iff, ← String.toList_eq_nil_iff, toList_text]
    simp
  have htrim : Text.trim x.text = x.text := by
    rw [Text.trim, Text.trimWhile, toList_text, dropWhile_cons_of_neg (by decide), ← toList_text, dropEndWhile_text fun c => .inl,
      String.ofList_toList]
  have hstars : dropStars x.text = x.text := by
    rw [dropStars, Text.trimEndChars, dropEndWhile_text fun c hc => .inr (.inl (by simpa using hc)), String.ofList_toList, ite_self]
  have hX : x.text.startsWith "X:" = false := startsWith_text (by decide) [':']
  have hW : x.text.startsWith "W:" = false := startsWith_text (by decide) [':']
  have hplus : x.text.startsWith "+:" = false := startsWith_text (by decide) [':']
  rw [Gathering.takeLines]
  simp [htrim, hg, hne, Matcher.replace_of_notMem patterns.directive hplain, Matcher.replace_of_notMem patterns.comment hplain, hstars,
    Gathering.takeLine, hX, hW, hplus, startsAs_fieldLine]

theorem takeMusic_text {g : Gathering} (hg : g.musicGoesOn = false) : g.takeMusic x.text =
    { g with fieldGoesOn := false, field := "", music := "", done := x.text :: if g.withField.isEmpty then g.done else g.withField :: g.done } := by
  have htrim : Text.trimEndChars ['\\'] x.text = x.text := by
    rw [Text.trimEndChars, dropEndWhile_text fun c hc => .inr (.inr (by simpa using hc)), String.ofList_toList]
  have hopen : Gathering.endsOpen x.text = false := by
    obtain ⟨c, hc, -, -, hne⟩ := x.hend
    simp [Gathering.endsOpen, getLast?_text hc, hne]
  simp [Gathering.takeMusic, hg, htrim, hopen]

end VoiceLine

theorem takeLines_lines (kind : String) (ls : List VoiceLine) (done : List String) :
    Gathering.takeLines kind { inTune := true, done := done } (ls.map VoiceLine.text) = { inTune := true, done := (ls.map VoiceLine.text).reverse ++ done } := by
  induction ls generalizing done with
  | nil => rfl
  | cons x ls ih =>
    rw [map_cons, VoiceLine.takeLines_text rfl, VoiceLine.takeMusic_text rfl]
    exact (ih (x.text :: done)).trans (by simp)

theorem takeLines_header (kind : String) (rest : List String) : Gathering.takeLines kind {} ("X:1" :: "K:C" :: rest) =
    Gathering.takeLines kind { inTune := true, music := "[X:1]", field := "K:C" } rest := by
  have hlines : ∀ s ∈ ["X:1", "K:C"], Text.trim s = s ∧ directive.replace s (fun _ _ => "I:") = s ∧ comment.replace s (fun _ _ => "") = s ∧
      dropStars s = s ∧ startsAs fieldLine s = true := by
    decide +kernel
  have hstarts : "X:1".startsWith "X:" = true ∧ ∀ p ∈ ["X:", "W:", "+:"], "K:C".startsWith p = false ∧ (p ≠ "X:" → "X:1".startsWith p = false) := by
    decide +kernel
  have hfields : (Gathering.takeField { inTune := true } "X:1").takeField "K:C" = { inTune := true, music := "[X:1]", field := "K:C" } := by
    decide +kernel
  have htune : (Gathering.takeField { inTune := true } "X:1").inTune = true := by decide +kernel
  simp_all [Gathering.takeLines, Gathering.takeLine]

/-! ## Lines that are mixed -/

theorem mend_newline (s : String) : mend (s ++ "\n") = mend s ++ "\n" := by
  have hpush (s : String) : s ++ "\n" = s.push '\n' := by simp [← String.toList_inj]
  have hshuns : ∀ m ∈ [restCount, barWithBlanks, slurBehindSign], m.pattern.shuns '\n' = true ∧ 0 < m.pattern.least := by decide +kernel
  have hreplace {m : Matcher} (hm : m ∈ [restCount, barWithBlanks, slurBehindSign]) (g : Chars → Found → String)
      (hg : ∀ text text' f, (∀ n, f.group? text n = f.group? text' n) → g text f = g text' f) (s : String) :
      m.replace (s.push '\n') g = (m.replace s g).push '\n' :=
    Matcher.replace_ending (hshuns m hm) s fun f hf => hg _ _ f (hf.group?_ending '\n')
  rw [hpush, hpush, mend, mend, spreadRests, hreplace (by simp), closeBars, hreplace (by simp), moveSlurs, hreplace (by simp)]
  · rfl
  all_goals intro text text' f hf; simp only [hf]

theorem intercalate_concat (ss : List String) (t : String) : "\n".intercalate (ss ++ [t]) = String.join (ss.map (· ++ "\n")) ++ t := by
  rw [← String.toList_inj, String.toList_intercalate]
  induction ss with
  | nil => simp [List.intercalate]
  | cons s ss ih => cases ss <;> simp_all [List.intercalate]

theorem takeLines_tune (kind : String) {ls : List VoiceLine} (hls : ls ≠ []) : Gathering.takeLines kind {} ("X:1" :: "K:C" :: ls.map VoiceLine.text) =
    { inTune := true, done := (ls.map VoiceLine.text).reverse ++ ["[X:1][K:C]"] } := by
  obtain ⟨x, ls, rfl⟩ := exists_cons_of_ne_nil hls
  have hheader : Gathering.withField { inTune := true, music := "[X:1]", field := "K:C" } = "[X:1][K:C]" := by decide +kernel
  rw [takeLines_header, map_cons, VoiceLine.takeLines_text rfl, VoiceLine.takeMusic_text rfl, hheader]
  refine (takeLines_lines kind ls [x.text, "[X:1][K:C]"]).trans ?_
  simp

/-- The lines of music with their voices: each but the last ends with a line feed. -/
def pieces (init : List VoiceLine) (last : VoiceLine) : List (String × String) :=
  init.map (fun x => (x.voice, x.music ++ "\n")) ++ [(last.voice, last.music)]

theorem map_collected (init : List VoiceLine) (last : VoiceLine) :
    (collected ((pieces init last).map fun p => (p.1, voiceMark p.1 ++ p.2))).map (fun p => (p.1, mend p.2)) =
      ((init ++ [last]).map (·.voice)).eraseDups.map fun v => (v, mend ("\n".intercalate (((init ++ [last]).filter (·.voice = v)).map VoiceLine.text)) ++
        if last.voice = v then "" else "\n") := by
  have hpairs : (pieces init last).map (fun p => (p.1, voiceMark p.1 ++ p.2)) =
      init.map (fun x => (x.voice, x.text ++ "\n")) ++ [(last.voice, last.text)] := by
    simp [pieces, VoiceLine.text, String.append_assoc]
  have hkeys : (init.map (fun x => (x.voice, x.text ++ "\n")) ++ [(last.voice, last.text)]).map (·.1) = (init ++ [last]).map (·.voice) := by
    simp [Function.comp_def]
  rw [hpairs, collected, hkeys, map_map]
  refine map_congr_left fun v hv => ?_
  have hown : ((init.map fun x => (x.voice, x.text ++ "\n")).filter (·.1 = v)).map (·.2) = ((init.filter (·.voice = v)).map VoiceLine.text).map (· ++ "\n") := by
    simp [filter_map, Function.comp_def]
  by_cases hlast : last.voice = v
  · simp [hlast, filter_append, hown, intercalate_concat, String.join]
  · obtain ⟨ws, w, hws⟩ : ∃ ws w, init.filter (·.voice = v) = ws ++ [w] := by
      obtain ⟨x, hx, hxv⟩ := mem_map.mp (mem_eraseDups.mp hv)
      have hmem : x ∈ init.filter (·.voice = v) := by
        rcases mem_append.mp hx with hx | hx
        · simpa [hxv] using hx
        · exact absurd (mem_singleton.mp hx ▸ hxv) hlast
      exact ⟨_, _, (dropLast_append_getLast (ne_nil_of_mem hmem)).symm⟩
    rw [if_neg hlast, ← mend_newline]
    simp [hlast, filter_append, hown, hws, intercalate_concat, String.join, String.append_assoc]

theorem ofLines_eq (init : List VoiceLine) (last : VoiceLine) :
    Tune.ofLines [] ("[X:1][K:C]" :: (init ++ [last]).map VoiceLine.text) = .ok
      { header := "[X:1][K:C]\n", metadata := []
        voices := (collected ((pieces init last).map fun p => (p.1, voiceMark p.1 ++ p.2))).map fun p => (p.1, mend p.2) } := by
  have hheader : splitAtKey "[X:1][K:C]" = ("[X:1][K:C]", "") ∧ fieldGap.split (Text.inside "[X:1][K:C]") = ["X:1", "K:C"] ∧
      ["X:1", "K:C"].any String.isEmpty = false ∧ ["X:1", "K:C"].filter isVoiceMatter = [] ∧
      (["X:1", "K:C"].filter fun f => !isVoiceMatter f) = ["X:1", "K:C"] ∧ joinFields ["X:1", "K:C"] = "[X:1][K:C]" ∧ "[X:1][K:C]" ++ "\n" = "[X:1][K:C]\n" := by
    decide +kernel
  have hfeed : (Text.trim (anyField.replace "\n" fun _ _ => "")).isEmpty = true ∧ partMark.replace "\n" (fun _ _ => "") = "\n" ∧
      String.join ((partMark.all "\n".toList.toArray).map (·.whole "\n".toList.toArray)) = "" := by
    decide +kernel
  have hpieces : ∀ p ∈ pieces init last, (p.1 ≠ "" ∧ ∀ c ∈ p.1.toList, Text.isBlank c = false) ∧ ']' ∉ p.1.toList ∧ '[' ∉ p.2.toList := by
    have hline (x : VoiceLine) (n : String) (hn : '[' ∉ n.toList) : (x.voice ≠ "" ∧ ∀ c ∈ x.voice.toList, Text.isBlank c = false) ∧
        ']' ∉ x.voice.toList ∧ '[' ∉ (x.music ++ n).toList := by
      refine ⟨⟨x.voice_ne, fun c hc => (x.hvoice c hc).1⟩, x.bracket_notMem_voice, ?_⟩
      simpa [hn] using fun h => (x.hmusic '[' h).2.1 rfl
    intro p hp
    rcases mem_append.mp hp with hp | hp
    · obtain ⟨x, -, rfl⟩ := mem_map.mp hp
      exact hline x "\n" (by decide)
    · obtain rfl := mem_singleton.mp hp
      simpa using hline last "" (by decide)
  generalize hmusic : "\n".intercalate ("" :: (init ++ [last]).map VoiceLine.text) = music
  have hlist : music.toList = '\n' :: (pieces init last).flatMap fun p => (voiceMark p.1 ++ p.2).toList := by
    rw [← hmusic, map_append, map_singleton, ← cons_append, intercalate_concat]
    simp [pieces, VoiceLine.text, flatMap_map, Function.comp_def]
  obtain ⟨p, ps, hp⟩ : ∃ p ps, pieces init last = p :: ps := exists_cons_of_ne_nil (by simp [pieces])
  have hfirst : withFirstVoice music = music := by
    have hbefore : Text.before? "[V:" music = some "\n" := by
      simp [Text.before?, hlist, hp, voiceMark, Text.beforeFrom?]
    rw [withFirstVoice, hbefore]
    simp [hfeed.1]
  have hsplit : voiceField.split music = "\n" :: (pieces init last).flatMap fun p => [voiceMark p.1, p.2] := by
    rw [split_eq_cut]
    exact cut_voiceField (fun p hp => (hpieces p hp).2) (show '[' ∉ ['\n'] by decide) (by simpa using hlist) (Nat.zero_le _) (by simp; omega)
  have hdeal : dealVoices [] _ = _ := dealVoices_eq (fun p hp => (hpieces p hp).1) []
  rw [hp, flatMap_cons, cons_append, cons_append, nil_append] at hsplit hdeal
  rw [Tune.ofLines, hp]
  simp only [hheader, hmusic, isEmpty_nil, if_true, String.empty_append, Bool.false_eq_true, if_false, hfirst, hsplit, hfeed, hdeal, bind, Except.bind,
    nil_append]
  rfl

/-- However the lines of voices are mixed, each voice gets its own lines in their order, and the voices come in the order in which
    they first appear. Only the voice of the last line does without a line feed at its end. -/
theorem voices_interleaved (kind : String) (init : List VoiceLine) (last : VoiceLine) :
    Tune.split kind ("\n".intercalate ("X:1" :: "K:C" :: (init ++ [last]).map VoiceLine.text)) = .ok
      { header := "[X:1][K:C]\n", metadata := []
        voices := ((init ++ [last]).map (·.voice)).eraseDups.map fun v =>
          (v, mend ("\n".intercalate (((init ++ [last]).filter (·.voice = v)).map VoiceLine.text)) ++ if last.voice = v then "" else "\n") } := by
  have hplain : ∀ s ∈ "X:1" :: "K:C" :: (init ++ [last]).map VoiceLine.text, s ≠ "" ∧ ∀ c ∈ s.toList, Text.isLineEnd c = false := by
    simp only [List.forall_mem_cons, List.forall_mem_map]
    refine ⟨by simp [Text.isLineEnd], by simp [Text.isLineEnd], fun x _ => ⟨fun h => ?_, fun c hc => (x.plain_text c hc).1⟩⟩
    simpa [h] using x.toList_text
  have hlines : Gathering.lines { inTune := true, done := ((init ++ [last]).map VoiceLine.text).reverse ++ ["[X:1][K:C]"] } =
      "[X:1][K:C]" :: (init ++ [last]).map VoiceLine.text := by
    simp [Gathering.lines, Gathering.withField]
  rw [Tune.split, Text.lines_intercalate hplain, takeLines_tune kind (by simp)]
  dsimp only
  rw [hlines, ofLines_eq, map_collected]

def soprano : VoiceLine := ⟨"S", "c8|", by decide, by simp [Text.isBlank], by simp [Text.isLineEnd], '|', by simp, by decide⟩

def bass : VoiceLine := ⟨"B", "C8|", by decide, by simp [Text.isBlank], by simp [Text.isLineEnd], '|', by simp, by decide⟩

theorem voices_interleaved_duet :
    (Tune.split "W" ("\n".intercalate ["X:1", "K:C", "[V:S]c8|", "[V:B]C8|", "[V:S]c8|"])).toOption.map (·.voices) =
      some [("S", "[V:S]c8|\n[V:S]c8|"), ("B", "[V:B]C8|\n")] := by
  have htexts : ["X:1", "K:C", "[V:S]c8|", "[V:B]C8|", "[V:S]c8|"] = "X:1" :: "K:C" :: ([soprano, bass] ++ [soprano]).map VoiceLine.text := by
    decide +kernel
  rw [htexts, voices_interleaved]
  decide +kernel

end Abc

end Plainsong
