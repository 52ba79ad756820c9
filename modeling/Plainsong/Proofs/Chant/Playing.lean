import Plainsong.Chant.Performance
import Plainsong.Proofs.Chant.Building
import Plainsong.Proofs.Midi.Composing
/- Playing a score. The time of the track is a double, so the whole beats played so
   far are kept as half as many quarter notes (`TimeIs`); up to 2⁴⁹ beats every
   time and every tick is exact. Each note adds one tempo, its two events and its
   text (`playNote_gives`), so a score adds its melody (`playWords_plays`). -/
namespace Plainsong.Chant

open Decimal Midi Midi.Melody List

/-- As many beats as can be played before a time has to be rounded. -/
def beatLimit : Nat := Nat.pow 2 49

theorem beatLimit_eq : beatLimit = 2 ^ 49 := rfl

/-! ## Times -/

variable {c t x : Float} {n : Nat} {text : Option String} {s : Score} {g : Sign}

theorem representable_half (h : n < 2 ^ 53) : Representable (n / 2) :=
  ⟨n, -1, h, by norm_num, by norm_num; ring⟩

theorem half_lt_brim (h : n < 2 ^ 53) : (n : ℚ) / 2 < brim := by
  refine lt_brim_of_lt ?_
  have : (n : ℚ) < 2 ^ 53 := by exact_mod_cast h
  linarith [(Nat.cast_nonneg n : (0 : ℚ) ≤ n)]

/-- The time behind so many beats: a beat is half a quarter note. -/
inductive TimeIs : Datum → Nat → Prop where
  | start : TimeIs (.int 0) 0
  | later {x : Float} {n : Nat} (h : Holds x (n / 2)) : TimeIs (.float x) n

theorem inTicks_half (h : Holds x (n / 2)) (hn : n ≤ beatLimit) : File.InTicks (.float x) (beat * n) := by
  obtain ⟨y, hy, hholds⟩ := Datum.wholeFloat_of_lt (n := 960) (by norm_num)
  rw [beatLimit_eq] at hn
  have hrounded := rounded_mul h hholds
  have hval : (n : ℚ) / 2 * (960 : Nat) = ((beat * n : Nat) : ℚ) := by
    rw [beat]
    push_cast
    ring
  rw [hval] at hrounded
  have hrep : Representable ((beat * n : Nat) : ℚ) :=
    ⟨15 * n, 5, by omega, by norm_num, by rw [beat]; push_cast; ring⟩
  have hbrim : ((beat * n : Nat) : ℚ) < brim := by
    refine lt_of_lt_of_le ?_ (two_pow_le_brim (n := 63) (by norm_num))
    have : beat * n < 2 ^ 63 := by
      rw [beat]
      omega
    exact_mod_cast this
  refine ⟨.float (x * y), ?_, Datum.cut_of_holds_nat (hrounded.exact hrep hbrim)⟩
  show (Datum.wholeFloat 960).map (fun y => Datum.float (x * y)) = _
  rw [show (960 : Int) = (960 : Nat) from rfl, hy]
  rfl

theorem TimeIs.inTicks {time : Datum} (h : TimeIs time n) (hn : n ≤ beatLimit) : File.InTicks time (beat * n) := by
  cases h with
  | start => exact File.inTicks_zero
  | later h => exact inTicks_half h hn

theorem TimeIs.add {time : Datum} {k : Nat} (h : TimeIs time n) (hx : Holds x (k / 2))
    (hsum : n + k ≤ beatLimit) : ∃ time', time.add (.float x) = .ok time' ∧ TimeIs time' (n + k) := by
  rw [beatLimit_eq] at hsum
  have hadd : ∀ {y : Float}, Holds y (n / 2) → TimeIs (.float (y + x)) (n + k) := by
    intro y hy
    have hval : (n : ℚ) / 2 + k / 2 = ((n + k : Nat) : ℚ) / 2 := by
      push_cast
      ring
    have hrounded := rounded_add hy hx
    rw [hval] at hrounded
    exact .later (hrounded.exact (representable_half (by omega)) (half_lt_brim (by omega)))
  cases h with
  | start =>
    obtain ⟨y, hy, hholds⟩ := Datum.wholeFloat_of_lt (n := 0) (by norm_num)
    refine ⟨.float (y + x), ?_, hadd (by simpa using hholds)⟩
    show (Datum.wholeFloat 0).map (fun y => Datum.float (y + x)) = _
    rw [show (0 : Int) = (0 : Nat) from rfl, hy]
    rfl
  | later hy => exact ⟨_, rfl, hadd hy⟩

/-! ## Beats and tempos -/

/-- The whole beats a note lasts. -/
def Sign.beats (g : Sign) : Nat :=
  match (g.duration.getD (.int 1)).toWhole with
  | .ok n => n.toNat
  | .error _ => 0

theorem Lasts.beats {d : Datum} (h : Lasts d) :
    ∃ n : Nat, 1 ≤ n ∧ d.toWhole = .ok (n : Int) ∧
      (n < 2 ^ 53 → ∃ x v, d.toFloat = .ok x ∧ Holds x v ∧ (n : ℚ) ≤ v ∧ v < n + 1) := by
  cases d with
  | int m =>
    obtain ⟨n, rfl⟩ : ∃ n : Nat, m = n := ⟨m.toNat, by simp only [Lasts] at h; omega⟩
    refine ⟨n, by simpa [Lasts] using h, rfl, fun hn => ?_⟩
    obtain ⟨x, hx, hholds⟩ := Datum.wholeFloat_of_lt hn
    exact ⟨x, n, hx, hholds, le_rfl, by linarith⟩
  | float x =>
    obtain ⟨v, hv, hone⟩ := h
    obtain ⟨n, hn, hle, hlt⟩ := Datum.cut_of_holds hv
    refine ⟨n, ?_, hn, fun _ => ⟨x, v, rfl, hv, hle, hlt⟩⟩
    have : (0 : ℚ) < n := by linarith
    exact_mod_cast this
  | _ => exact absurd h id

theorem Sign.beats_eq {d : Datum} (hg : g.duration = some d) (hn : d.toWhole = .ok (n : Int)) : g.beats = n := by
  rw [Sign.beats, hg, Option.getD_some, hn]
  exact Int.toNat_natCast n

theorem holds_minute : Holds (60000000 : Float) 60000000 := by
  have h := (rounded_ofScientific 60000000).exact (representable_nat (by norm_num)) (lt_brim_of_lt (by norm_num))
  exact_mod_cast h

theorem representable_quarter : Representable (1 / 4) := ⟨1, -2, by norm_num, by norm_num, by norm_num⟩

theorem microseconds_of_atLeast (h : AtLeast x (1 / 4)) :
    ∃ m : Nat, m < 2 ^ 32 ∧ File.microseconds (.float x) = .ok (m : Int) := by
  have hcut : File.microseconds (.float x) = Datum.cut (60000000 / x) := by
    rw [File.microseconds, h.ne_zero (by norm_num)]
    rfl
  rw [hcut]
  obtain ⟨v, hv, hle⟩ : ∃ v, Holds (60000000 / x) v ∧ v ≤ 240000000 := by
    rcases h with ⟨w, hw, hle⟩ | hinf
    · have hpos : 0 < w := by linarith
      have hquot : (60000000 : ℚ) / w ≤ 240000000 := by
        rw [div_le_iff₀ hpos]
        linarith
      have hsmall : (2 : ℚ) ^ (-1074 : Int) ≤ 60000000 / w := by
        rw [le_div_iff₀ hpos]
        calc (2 : ℚ) ^ (-1074 : Int) * w ≤ 2 ^ (-1074 : Int) * ceiling :=
              mul_le_mul_of_nonneg_left (hw.lt_brim.trans brim_lt_ceiling).le (by positivity)
          _ = 2 ^ (-50 : Int) := by rw [ceiling_eq, ← zpow_add₀ (by norm_num)]; norm_num
          _ ≤ 60000000 := by norm_num
      obtain ⟨v, hv, hf⟩ := (rounded_div holds_minute hw hpos hsmall).holds (lt_brim_of_lt (by linarith))
      have hrep : Representable 240000000 := by
        have := representable_nat (n := 240000000) (by norm_num)
        exact_mod_cast this
      exact ⟨v, hv, hf.ge hrep hquot⟩
    · exact ⟨0, div_infinity holds_minute hinf, by norm_num⟩
  obtain ⟨m, hm, hmv, -⟩ := Datum.cut_of_holds hv
  refine ⟨m, ?_, hm⟩
  have : (m : ℚ) ≤ 240000000 := hmv.trans hle
  have : m ≤ 240000000 := by exact_mod_cast this
  omega

theorem tempo_atLeast {v w : ℚ} (ht : Holds t v) (hv : 1 / 2 ≤ v) (hc : Holds c n)
    (hn : 1 ≤ n) (hlt : n < 2 ^ 53) (hx : Holds x w) (hw : (n : ℚ) ≤ w) (hw' : w < n + 1) :
    AtLeast (t * c / x) (1 / 4) := by
  have hone : (1 : ℚ) ≤ n := by exact_mod_cast hn
  have hproduct : AtLeast (t * c) (n / 2) :=
    (rounded_mul ht hc).atLeast (representable_half hlt) (by nlinarith)
  refine hproduct.div hx (by linarith) representable_quarter ?_ (by linarith)
  calc (2 : ℚ) ^ (-1074 : Int) ≤ 2 ^ (-2 : Int) := zpow_le_zpow_right₀ (by norm_num) (by norm_num)
    _ ≤ 1 / 4 := by norm_num

theorem holds_half (hc : Holds c n) (hn : 1 ≤ n) (hlt : n < 2 ^ 53) : Holds (c / 2) (n / 2) := by
  have hone : (1 : ℚ) ≤ n := by exact_mod_cast hn
  refine (rounded_div hc holds_two (by norm_num) ?_).exact (representable_half hlt) (half_lt_brim hlt)
  calc (2 : ℚ) ^ (-1074 : Int) ≤ 2 ^ (-1 : Int) := zpow_le_zpow_right₀ (by norm_num) (by norm_num)
    _ = 1 / 2 := by norm_num
    _ ≤ n / 2 := by linarith

/-! ## Notes -/

/-- The letters of a text, one byte each. -/
def letters (s : String) : List UInt8 := s.toList.map fun c => UInt8.ofNat c.toNat

/-- A text of one-byte letters. -/
def OneByte (s : String) : Prop := ∀ c ∈ s.toList, c.toNat < 256

instance : DecidablePred OneByte := fun s =>
  decidable_of_iff ((s.toList.all fun c => c.toNat < 256) = true) (by simp [OneByte])

theorem toLatin1_of_oneByte {s : String} (h : OneByte s) : (Datum.text s).toLatin1 = .ok (letters s) := by
  rw [Datum.toLatin1, if_pos (by simpa [OneByte] using h), letters]

/-- A note as it is sung, with the text that begins with it. -/
def sungNote (shift : Int) (text : Option String) (g : Sign) : Sung :=
  { text := text.map letters, key := (g.pitch.getD 0 + shift).toNat, beats := g.beats }

theorem playNote_gives {shift : Int} {v : ℚ} (ht : Holds t v) (hv : 1 / 2 ≤ v) (htext : ∀ s ∈ text, OneByte s) {d : Datum} (hg : g.duration = some d) (hd : Lasts d)
    (hkey : 0 ≤ g.pitch.getD 0 + shift) {time : Datum} (htime : TimeIs time n)
    (hsum : n + g.beats ≤ beatLimit) (settings notes : List Event) (counter : Nat) :
    ∃ time' m, m < 2 ^ 32 ∧ TimeIs time' (n + g.beats) ∧
      Gives (Performance.playNote shift t text time g) (File.ofEvents settings notes counter) time'
        (File.ofEvents (settings ++ temposFrom counter (beat * n) [(sungNote shift text g, m)])
          (notes ++ addedFrom counter (beat * n) [sungNote shift text g])
          (counter + calls (sungNote shift text g))) := by
  obtain ⟨k, hk, hwhole, hfloat⟩ := hd.beats
  have hbeats : g.beats = k := Sign.beats_eq hg hwhole
  have hlimit : k < 2 ^ 53 := by
    rw [hbeats, beatLimit_eq] at hsum
    omega
  obtain ⟨x, w, hx, hholds, hle, hlt⟩ := hfloat hlimit
  obtain ⟨c, hc, hcounted⟩ := Datum.wholeFloat_of_lt hlimit
  obtain ⟨m, hm, hmicro⟩ := microseconds_of_atLeast (tempo_atLeast ht hv hcounted hk hlimit hholds hle hlt)
  have hhalf := holds_half hcounted hk hlimit
  have hone : (1 : ℚ) ≤ k := by exact_mod_cast hk
  rw [hbeats] at hsum
  obtain ⟨time', htime', hlater⟩ := htime.add hhalf hsum
  have hticks := htime.inTicks (by omega)
  have hduration := inTicks_half hhalf (by omega)
  refine ⟨time', m, hm, by rwa [hbeats], ?_⟩
  have hgiven : g.duration.getD (.int 1) = d := by rw [hg, Option.getD_some]
  have hnonzero : (x == 0) = false := ne_zero_of_holds hholds (by linarith)
  rw [Performance.playNote, hgiven]
  refine Gives.of_bind (Gives.of_except hwhole _) (Gives.of_bind (Gives.of_except hx _)
    (Gives.of_bind (Gives.of_except hc _) ?_))
  rw [hnonzero]
  refine Gives.of_bind (File.addTempo_gives hticks hmicro) (Gives.of_bind
    (File.addNote_gives hticks hduration _ _ _ _) ?_)
  have hpitch : (((g.pitch.getD 0 + shift).toNat : Nat) : Int) = g.pitch.getD 0 + shift := Int.toNat_of_nonneg hkey
  cases text with
  | none =>
    simp only [temposFrom, addedFrom, sungNote, hbeats, onEvent, endEvent, textEvents, calls, hpitch, Option.map_none,
      Option.toList_none, map_nil, nil_append]
    exact Gives.of_bind (Gives.of_pure _ _) (Gives.of_except htime' _)
  | some s =>
    have hthree : ∀ a b c : Event, notes ++ [a, b, c] = notes ++ [a, b] ++ [c] := fun a b c => by simp
    simp only [temposFrom, addedFrom, sungNote, hbeats, onEvent, endEvent, textEvents, calls, hpitch, Option.map_some,
      Option.toList_some, map_cons, map_nil, append_nil, hthree]
    exact Gives.of_bind (File.addText_gives hticks (toLatin1_of_oneByte (htext s rfl))) (Gives.of_except htime' _)

/-! ## Melodies -/

/-- From whatever time and file, the act adds the notes of a melody and their tempos. -/
def Plays (x : Datum → Midi.Act File Datum) (l : List Sung) : Prop :=
  ∀ time n, TimeIs time n → n + totalBeats l ≤ beatLimit → ∀ settings notes counter,
    ∃ time' ps, ps.map Prod.fst = l ∧ (∀ p ∈ ps, p.2 < 2 ^ 32) ∧ TimeIs time' (n + totalBeats l) ∧
      Gives (x time) (File.ofEvents settings notes counter) time'
        (File.ofEvents (settings ++ temposFrom counter (beat * n) ps) (notes ++ addedFrom counter (beat * n) l)
          (counter + totalCalls l))

theorem plays_nil : Plays (fun time => pure time) [] := by
  intro time n htime _ settings notes counter
  refine ⟨time, [], rfl, by simp, htime, ?_⟩
  simp only [temposFrom, addedFrom, totalCalls, append_nil, map_nil, sum_nil, Nat.add_zero]
  exact Gives.of_pure _ _

theorem Plays.append {x y : Datum → Midi.Act File Datum} {l l' : List Sung} (hx : Plays x l) (hy : Plays y l') :
    Plays (fun time => x time >>= y) (l ++ l') := by
  intro time n htime hsum settings notes counter
  have hbeats : totalBeats (l ++ l') = totalBeats l + totalBeats l' := by simp [totalBeats]
  have hcalls : totalCalls (l ++ l') = totalCalls l + totalCalls l' := by simp [totalCalls]
  rw [hbeats] at hsum
  obtain ⟨time₁, ps, rfl, hps, htime₁, h₁⟩ := hx time n htime (by omega) settings notes counter
  obtain ⟨time₂, ps', rfl, hps', htime₂, h₂⟩ := hy time₁ _ htime₁ (by omega) (settings ++ temposFrom counter (beat * n) ps)
    (notes ++ addedFrom counter (beat * n) (ps.map Prod.fst)) (counter + totalCalls (ps.map Prod.fst))
  refine ⟨time₂, ps ++ ps', map_append, fun p hp => ?_, ?_, ?_⟩
  · exact (mem_append.mp hp).elim (hps p) (hps' p)
  · rwa [hbeats, ← Nat.add_assoc]
  · rw [temposFrom_append, addedFrom_append, hcalls, ← append_assoc, ← append_assoc, ← Nat.add_assoc,
      ← Nat.mul_add]
    exact Gives.of_bind h₁ h₂

/-- A note that can be played. -/
structure Playable (shift : Int) (g : Sign) : Prop where
  lasts : ∃ d, g.duration = some d ∧ Lasts d
  low : 0 ≤ g.pitch.getD 0 + shift
  high : g.pitch.getD 0 + shift ≤ 127

section Playing

variable {t : Float} {v : ℚ}

theorem playNote_plays {shift : Int} (ht : Holds t v) (hv : 1 / 2 ≤ v) (htext : ∀ s ∈ text, OneByte s) (hg : Playable shift g) :
    Plays (fun time => Performance.playNote shift t text time g) [sungNote shift text g] := by
  intro time n htime hsum settings notes counter
  obtain ⟨d, hd, hlasts⟩ := hg.lasts
  have hbeats : totalBeats [sungNote shift text g] = g.beats := by simp [totalBeats, sungNote]
  have hcalls : totalCalls [sungNote shift text g] = calls (sungNote shift text g) := by simp [totalCalls]
  rw [hbeats, hcalls] at *
  obtain ⟨time', m, hm, htime', h⟩ := playNote_gives ht hv htext hd hlasts hg.low htime hsum settings notes counter
  exact ⟨time', [(sungNote shift text g, m)], rfl, by simpa using hm, htime', h⟩

/-- The notes of a syllable, its text with the first. -/
def sungNotes (shift : Int) : Option String → List Sign → List Sung
  | _, [] => []
  | text, g :: rest => sungNote shift text g :: sungNotes shift none rest

theorem playNotes_plays {shift : Int} (ht : Holds t v) (hv : 1 / 2 ≤ v) (htext : ∀ s ∈ text, OneByte s) {notes : List Sign} (hnotes : ∀ g ∈ notes, Playable shift g) :
    Plays (Performance.playNotes shift t text notes) (sungNotes shift text notes) := by
  induction notes generalizing text with
  | nil => exact plays_nil
  | cons g rest ih =>
    exact (playNote_plays ht hv htext (hnotes g (by simp))).append
      (ih (by simp) fun g hg => hnotes g (by simp [hg]))

/-- The text of a syllable, with a hyphen behind it unless it ends its word. -/
def sungText (y : Syllable) (rest : List Syllable) : String := if rest.isEmpty then y.text else y.text ++ "-"

theorem oneByte_sungText {y : Syllable} (h : OneByte y.text) (rest : List Syllable) : OneByte (sungText y rest) := by
  rw [sungText]
  split
  · exact h
  · intro c hc
    rw [String.toList_append, mem_append] at hc
    rcases hc with hc | hc
    · exact h c hc
    · have : c = '-' := by simpa using hc
      subst this
      decide

def Score.notesOf (s : Score) (y : Syllable) : List Sign := (s.signsOf y.neume).filter fun g => g.kind.sounds

/-- The notes of the syllables of a word. -/
def sungSyllables (s : Score) : List Syllable → List Sung
  | [] => []
  | y :: rest => sungNotes s.shift (some (sungText y rest)) (s.notesOf y) ++ sungSyllables s rest

def Score.sung (s : Score) : List Sung :=
  s.text.flatMap fun w => sungSyllables s ((s.word w).syllables.map s.syllable)

/-- A syllable that can be sung. -/
structure Singable (s : Score) (y : Syllable) : Prop where
  text : OneByte y.text
  notes : ∀ g ∈ s.notesOf y, Playable s.shift g

theorem playSyllables_plays {s : Score} (ht : Holds t v) (hv : 1 / 2 ≤ v) {ys : List Syllable}
    (hys : ∀ y ∈ ys, Singable s y) : Plays (Performance.playSyllables s t ys) (sungSyllables s ys) := by
  induction ys with
  | nil => exact plays_nil
  | cons y rest ih =>
    obtain ⟨htext, hnotes⟩ := hys y (by simp)
    have htext' : ∀ text ∈ some (sungText y rest), OneByte text := fun text h => by
      cases h
      exact oneByte_sungText htext rest
    exact (playNotes_plays ht hv htext' hnotes).append (ih fun y hy => hys y (by simp [hy]))

theorem playWords_plays {s : Score} (ht : Holds t v) (hv : 1 / 2 ≤ v) {ws : List Nat}
    (hws : ∀ w ∈ ws, ∀ y ∈ (s.word w).syllables.map s.syllable, Singable s y) :
    Plays (Performance.playWords s t ws) (ws.flatMap fun w => sungSyllables s ((s.word w).syllables.map s.syllable)) := by
  induction ws with
  | nil => exact plays_nil
  | cons w rest ih =>
    rw [flatMap_cons]
    exact (playSyllables_plays ht hv (hws w (by simp))).append (ih fun w hw => hws w (by simp [hw]))

end Playing

theorem play_gives {v : ℚ} (ht : Holds t v) (hv : 1 / 2 ≤ v)
    (hs : ∀ y ∈ s.allSyllables, Singable s y) (hbeats : totalBeats s.sung ≤ beatLimit) {title : String}
    (htitle : OneByte (plain title)) :
    ∃ m₀ ps counter, m₀ < 2 ^ 32 ∧ (∀ p ∈ ps, p.2 < 2 ^ 32) ∧ ps.map Prod.fst = s.sung ∧
      Gives (Performance.play s (.text title) t) (File.ofEvents [] [] 0) ⟨⟩
        (File.ofEvents (tempoEvent 1 0 m₀ :: temposFrom 3 0 ps)
          (nameEvent (letters (plain title)) :: programEvent 74 :: addedFrom 3 0 (ps.map Prod.fst)) counter) := by
  obtain ⟨m₀, hm₀, hmicro⟩ := microseconds_of_atLeast (x := t) (.inl ⟨v, ht, by linarith⟩)
  have hwords : ∀ w ∈ s.text, ∀ y ∈ (s.word w).syllables.map s.syllable, Singable s y :=
    fun w hw y hy => hs y (mem_flatMap.mpr ⟨w, hw, hy⟩)
  obtain ⟨time, ps, hps, hlt, -, h⟩ := playWords_plays ht hv hwords (.int 0) 0 .start
    (by rw [Nat.zero_add]; exact hbeats)
    [tempoEvent 1 0 m₀] [nameEvent (letters (plain title)), programEvent 74] 3
  refine ⟨m₀, ps, 3 + totalCalls s.sung, hm₀, hlt, hps, ?_⟩
  rw [hps]
  refine Gives.of_bind (Gives.of_except rfl _) (Gives.of_bind
    (File.addTrackName_gives File.inTicks_zero (toLatin1_of_oneByte htitle)) (Gives.of_bind
      (File.addTempo_gives File.inTicks_zero hmicro) (Gives.of_bind
        (File.addProgramChange_gives File.inTicks_zero _ _) (Gives.of_discard h))))

/-! ## Tempos of the whole -/

/-- The whole number of fifty-four binary ones with so many zeros behind them. -/
def ones (k : Nat) : Nat := (Nat.pow 2 54 - 1) * Nat.pow 2 k

/-- The least tempo whose half is past all doubles. -/
def tempoLimit : Nat := ones 971

theorem cast_ones (k : Nat) : (ones k : ℚ) = 2 * ((2 ^ 53 - 1 / 2) * 2 ^ (k : Int)) := by
  rw [ones, zpow_natCast, Nat.pow_eq, Nat.pow_eq]
  push_cast
  ring

theorem cast_tempoLimit : (tempoLimit : ℚ) = 2 * brim := by
  rw [tempoLimit, cast_ones, brim, Nat.cast_ofNat]

theorem halfTempo_of_lt (hn : 0 < n) (h : n < tempoLimit) :
    ∃ t v, Tune.halfTempo (.int n) = .ok t ∧ Holds t v ∧ 1 / 2 ≤ v := by
  have hlt : (n : ℚ) / 2 < brim := by
    have : (n : ℚ) < tempoLimit := by exact_mod_cast h
    rw [cast_tempoLimit] at this
    linarith
  obtain ⟨v, hv, hf⟩ := (rounded_halfOfInt hn).holds hlt
  refine ⟨_, v, ?_, hv, hf.le ?_ ?_⟩
  · show (if (halfOfInt n).isInf then _ else _) = _
    rw [isInf_of_holds hv]
    rfl
  · simpa using representable_half (n := 1) (by norm_num)
  · have : (1 : ℚ) ≤ n := by exact_mod_cast hn
    linarith

theorem halfTempo_of_ge (h : tempoLimit ≤ n) : Tune.halfTempo (.int n) = .error .tooLarge := by
  have hge : brim ≤ (n : ℚ) / 2 := by
    have : (tempoLimit : ℚ) ≤ n := by exact_mod_cast h
    rw [cast_tempoLimit] at this
    linarith
  have hn : 0 < n := by
    have hone := two_pow_le_brim (n := 0) (by norm_num)
    rw [zpow_zero] at hone
    have : (0 : ℚ) < n := by linarith
    exact_mod_cast this
  rcases (rounded_halfOfInt hn).cases with ⟨w, -, -, hlt⟩ | ⟨hinf, -⟩
  · exact absurd hlt (not_lt.mpr hge)
  · show (if (halfOfInt n).isInf then _ else _) = _
    rw [isInf_of_unpacked hinf]
    rfl

/-! ## The file of a score -/

theorem Score.notes_eq (s : Score) : s.notes = s.allSyllables.flatMap s.notesOf := by
  rw [Score.notes, Score.music, filter_flatten, map_map, flatMap_def]
  rfl

theorem map_sungNotes (shift : Int) (text : Option String) (notes : List Sign) :
    (sungNotes shift text notes).map (fun n => (n.key, n.beats)) =
      notes.map fun g => ((g.pitch.getD 0 + shift).toNat, g.beats) := by
  induction notes generalizing text with
  | nil => rfl
  | cons g rest ih => rw [sungNotes, map_cons, map_cons, ih, sungNote]

theorem map_sungSyllables (s : Score) (ys : List Syllable) :
    (sungSyllables s ys).map (fun n => (n.key, n.beats)) =
      (ys.flatMap s.notesOf).map fun g => ((g.pitch.getD 0 + s.shift).toNat, g.beats) := by
  induction ys with
  | nil => rfl
  | cons y rest ih => rw [sungSyllables, map_append, map_sungNotes, ih, flatMap_cons, map_append]

theorem Score.map_sung (s : Score) :
    s.sung.map (fun n => (n.key, n.beats)) = s.notes.map fun g => ((g.pitch.getD 0 + s.shift).toNat, g.beats) := by
  rw [Score.notes_eq, Score.allSyllables, Score.sung]
  induction s.text with
  | nil => rfl
  | cons w rest ih =>
    rw [flatMap_cons, map_append, map_sungSyllables, ih, flatMap_cons, flatMap_append,
      map_append]

theorem Score.totalBeats_sung (s : Score) : totalBeats s.sung = (s.notes.map Sign.beats).sum := by
  have h := congrArg (List.map Prod.snd) s.map_sung
  rw [map_map, map_map] at h
  exact congrArg List.sum h

theorem Score.Whole.lasts (h : s.Whole) (hg : g ∈ s.notes) : ∃ d, g.duration = some d ∧ Lasts d := by
  rw [Score.notes_eq] at hg
  obtain ⟨y, -, hg⟩ := mem_flatMap.mp hg
  obtain ⟨hg, hsounds⟩ := mem_filter.mp hg
  obtain ⟨i, hi, rfl⟩ := mem_map.mp hg
  obtain ⟨d, hd⟩ := Option.isSome_iff_exists.mp ((h.members _ i hi).2.sound hsounds).1
  exact ⟨d, hd, h.lasting i d hd⟩

theorem Score.Whole.playable (h : s.Whole) (hg : g ∈ s.notes)
    (hkey : ∀ p ∈ g.pitch, 0 ≤ p + s.shift ∧ p + s.shift ≤ 127) : Playable s.shift g := by
  have hlasts := h.lasts hg
  rw [Score.notes_eq] at hg
  obtain ⟨y, -, hg⟩ := mem_flatMap.mp hg
  obtain ⟨hg, hsounds⟩ := mem_filter.mp hg
  obtain ⟨i, hi, rfl⟩ := mem_map.mp hg
  obtain ⟨-, -, p, -, -, hp, -⟩ := (h.members _ i hi).2.sound hsounds
  have hpitch : (s.sign i).pitch.getD 0 = p := by rw [hp, Option.getD_some]
  obtain ⟨hlow, hhigh⟩ := hkey p hp
  exact ⟨hlasts, by rwa [hpitch], by rwa [hpitch]⟩

theorem Playable.sung (h : ∀ g ∈ s.notes, Playable s.shift g) : ∀ n ∈ s.sung, n.key < 128 ∧ 0 < n.beats := by
  intro n hn
  have hmem : (n.key, n.beats) ∈ s.sung.map fun n => (n.key, n.beats) := mem_map_of_mem hn
  rw [s.map_sung] at hmem
  obtain ⟨g, hg, heq⟩ := mem_map.mp hmem
  obtain ⟨hkey, hbeats⟩ := Prod.mk.inj heq
  obtain ⟨⟨d, hd, hlasts⟩, hlow, hhigh⟩ := h g hg
  obtain ⟨k, hk, hwhole, -⟩ := hlasts.beats
  rw [← hkey, ← hbeats, Sign.beats_eq hd hwhole]
  omega

theorem ofScore_eq {title tempo : Datum} {f : File} (ht : Tune.halfTempo tempo = .ok t)
    (h : Gives (Performance.play s title t) (File.ofEvents [] [] 0) ⟨⟩ f) : Performance.ofScore s title tempo = .ok f := by
  rw [Performance.ofScore, ht, ok_bind, File.create_default, ok_bind, h]
  rfl

theorem bytes_eq {title tempo : Datum} {f : File} (ht : Tune.halfTempo tempo = .ok t)
    (h : Gives (Performance.play s title t) (File.ofEvents [] [] 0) ⟨⟩ f) :
    Performance.bytes s title tempo = (File.write.run.run f).1 := by
  rw [Performance.bytes, ofScore_eq ht h, ok_bind]

theorem bytes_tooLarge (s : Score) (title : Datum) {tempo : Nat} (h : tempoLimit ≤ tempo) :
    Performance.bytes s title (.int tempo) = .error .tooLarge := by
  rw [Performance.bytes, Performance.ofScore, halfTempo_of_ge h]
  rfl

/-- The file of a score is exact. Every note lasts one whole beat at least. The file cannot
    be made where half of the tempo is past all doubles, or where the melody is longer than
    four bytes can count; otherwise it is made, and its second track says the name, the
    instrument and the melody and nothing else: every text and every beginning of a note at the
    tick behind the beats of the notes before it, and every end behind the beats of the note.
    The melody has the notes of the score, in their order. -/
theorem bytes_say_melody {code : String} {transposition : Option Int} {s : Score}
    (hread : (Score.read code transposition).2 = s) {title : String} {tempo : Nat}
    (htexts : ∀ y ∈ s.allSyllables, OneByte y.text) (htitle : OneByte (plain title))
    (hkeys : ∀ g ∈ s.notes, ∀ p ∈ g.pitch, 0 ≤ p + s.shift ∧ p + s.shift ≤ 127) (htempo : 0 < tempo)
    (hbeats : (s.notes.map Sign.beats).sum ≤ beatLimit) :
    let melody := Melody.track (letters (plain title)) 74 s.sung
    (∀ g ∈ s.notes, ∃ d, g.duration = some d ∧ d.toWhole = .ok (g.beats : Int) ∧ 1 ≤ g.beats) ∧
    (tempoLimit ≤ tempo → Performance.bytes s (.text title) (.int tempo) = .error .tooLarge) ∧
    (tempo < tempoLimit → 2 ^ 32 ≤ (Reader.encode 0 melody).length →
      Performance.bytes s (.text title) (.int tempo) = .error .doesNotFit) ∧
    (tempo < tempoLimit → (Reader.encode 0 melody).length < 2 ^ 32 →
      ∃ bytes tempos, Performance.bytes s (.text title) (.int tempo) = .ok bytes ∧
        Reader.file bytes = some { format := 1, division := 960, tracks := [tempos, melody] }) ∧
    (messages none 0 s.sung).Perm ((onsets 0 s.sung).flatMap ofNote) ∧
    s.sung.map (fun n => (n.key, n.beats)) = s.notes.map fun g => ((g.pitch.getD 0 + s.shift).toNat, g.beats) := by
  intro melody
  have hwhole : s.Whole := hread ▸ Score.read_whole code transposition
  have hplayable : ∀ g ∈ s.notes, Playable s.shift g := fun g hg => hwhole.playable hg (hkeys g hg)
  have hsung := Playable.sung hplayable
  refine ⟨fun g hg => ?_, bytes_tooLarge s _, ?_⟩
  · obtain ⟨d, hd, hlasts⟩ := hwhole.lasts hg
    obtain ⟨k, hk, hw, -⟩ := hlasts.beats
    rw [Sign.beats_eq hd hw]
    exact ⟨d, hd, hw, hk⟩
  · -- the file is filled with the melody, and then written
    have hfile : tempo < tempoLimit → ∃ f, Performance.bytes s (.text title) (.int tempo) = (File.write.run.run f).1 ∧
        ((Reader.encode 0 melody).length < 2 ^ 32 → ∃ bytes f' tempos, Gives File.write f bytes f' ∧
          Reader.file bytes = some { format := 1, division := 960, tracks := [tempos, melody] }) ∧
        (2 ^ 32 ≤ (Reader.encode 0 melody).length → Fails File.write f .doesNotFit) := by
      intro hlimit
      obtain ⟨t, v, ht, hv, hhalf⟩ := halfTempo_of_lt htempo hlimit
      have hsingable : ∀ y ∈ s.allSyllables, Singable s y := fun y hy => ⟨htexts y hy, fun g hg =>
        hplayable g (by rw [Score.notes_eq]; exact List.mem_flatMap.mpr ⟨y, hy, hg⟩)⟩
      obtain ⟨m₀, ps, counter, hm₀, hps, hsungs, hplay⟩ := play_gives hv hhalf hsingable
        (by rwa [s.totalBeats_sung]) htitle
      have hwrite := File.write_melody (letters (plain title)) (show 74 < 128 by omega) hm₀ hps
        (fun n hn => (hsung n (hsungs ▸ hn)).1) (fun n hn => (hsung n (hsungs ▸ hn)).2) counter
      rw [hsungs] at hwrite hplay
      exact ⟨_, bytes_eq ht hplay, hwrite⟩
    refine ⟨fun hlimit hlong => ?_, fun hlimit hfits => ?_, by simpa using messages_perm none 0 s.sung, s.map_sung⟩
    · obtain ⟨f, hbytes, -, hfails⟩ := hfile hlimit
      obtain ⟨f', hf'⟩ := hfails hlong
      rw [hbytes, hf']
    · obtain ⟨f, hbytes, hgives, -⟩ := hfile hlimit
      obtain ⟨bytes, f', tempos, hf', hread⟩ := hgives hfits
      exact ⟨bytes, tempos, by rw [hbytes, hf'], hread⟩

/-- Two syllables of a word, the first with two notes and the last with a long one. -/
theorem bytes_say_melody_amen :
    ∃ s, (Score.read "%%\n(c4) A(gh)men(g.)" none).2 = s ∧
    (∀ y ∈ s.allSyllables, OneByte y.text) ∧ OneByte (plain "T") ∧
    (∀ g ∈ s.notes, ∀ p ∈ g.pitch, 0 ≤ p + s.shift ∧ p + s.shift ≤ 127) ∧
    (s.notes.map Sign.beats).sum ≤ beatLimit ∧
    ∃ bytes tempos, Performance.bytes s (.text "T") (.int (165 : Nat)) = .ok bytes ∧
      Reader.file bytes = some
        { format := 1, division := 960,
          tracks := [tempos, Melody.track [84] 74 [⟨some [32, 65, 45], 65, 1⟩, ⟨none, 67, 1⟩,
            ⟨some [109, 101, 110], 65, 2⟩]] } := by
  obtain ⟨s, hread⟩ : ∃ s, (Score.read "%%\n(c4) A(gh)men(g.)" none).2 = s := ⟨_, rfl⟩
  have htexts : ∀ y ∈ s.allSyllables, OneByte y.text := by
    rw [← hread]
    decide +kernel
  have htitle : OneByte (plain "T") := by decide +kernel
  have hkeys : ∀ g ∈ s.notes, ∀ p ∈ g.pitch, 0 ≤ p + s.shift ∧ p + s.shift ≤ 127 := by
    rw [← hread]
    decide +kernel
  have hbeats : (s.notes.map Sign.beats).sum ≤ beatLimit := by
    rw [← hread]
    decide +kernel
  have hsung : s.sung = [⟨some [32, 65, 45], 65, 1⟩, ⟨none, 67, 1⟩, ⟨some [109, 101, 110], 65, 2⟩] := by
    rw [← hread]
    decide +kernel
  have hname : letters (plain "T") = [84] := by decide +kernel
  obtain ⟨-, -, -, hwritten, -⟩ := bytes_say_melody hread htexts htitle hkeys (show 0 < 165 by omega) hbeats
  refine ⟨s, hread, htexts, htitle, hkeys, hbeats, ?_⟩
  rw [hsung, hname] at hwritten
  exact hwritten (by decide +kernel) (by decide +kernel)

/-- A tempo too large for a double: there is no file, though the score has a note. -/
theorem bytes_fail_huge_tempo :
    ∃ s, (Score.read "%%\n(c4) a(h)" none).2 = s ∧ s.notes.map Sign.beats = [1] ∧
      Performance.bytes s (.text "T") (.int (10 ^ 400 : Nat)) = .error .tooLarge := by
  obtain ⟨s, hread⟩ : ∃ s, (Score.read "%%\n(c4) a(h)" none).2 = s := ⟨_, rfl⟩
  have hnotes : s.notes.map Sign.beats = [1] := by
    rw [← hread]
    decide +kernel
  have hlimit : tempoLimit ≤ 10 ^ 400 := by decide +kernel
  exact ⟨s, hread, hnotes, bytes_tooLarge s _ hlimit⟩

end Plainsong.Chant
