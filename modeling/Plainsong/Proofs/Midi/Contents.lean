import Plainsong.Proofs.Midi.Voicing
/- What the messages that do not sound carry. A text or the name of a track is
   written with its length and all its letters, however many they are
   (`carries_of_says`). A copyright notice is not: its length is kept in one
   byte with a sign, so that 128 letters are refused (`refused_copyright`). A
   tempo is cut to three bytes, which hold every tempo from 4 beats a minute on
   and no slower one (`number_tempo`). -/
namespace Plainsong.Midi

open Melody

namespace Event

/-- The event is written as its ticks and a message that does not sound, with its type, the
    number of its data and the data, and a reader finds that message there and no other. -/
def Carries (e : Event) (n : Nat) (type : UInt8) (data : List UInt8) : Prop :=
  e.bytes = .ok (VarLength.encode n ++ [0xFF, type] ++ VarLength.encode data.length ++ data) ∧
    Reader.track (VarLength.encode n ++ [0xFF, type] ++ VarLength.encode data.length ++ data ++ Track.trailer) =
      some [(n, .silent type data)]

theorem carries_of_says {d : Deed} {type : UInt8} {data : List UInt8} (h : Track.Says d (.silent type data)) (n order : Nat) :
    Carries { tick := .int n, order, deed := d } n type data := by
  have hbytes : VarLength.encode n ++ [0xFF, type] ++ VarLength.encode data.length ++ data =
      VarLength.encode n ++ (Reader.Message.silent type data).bytes := by
    simp [Reader.Message.bytes]
  have hencode : VarLength.encode n ++ (Reader.Message.silent type data).bytes ++ Track.trailer =
      Reader.encode 0 [(n, .silent type data)] := rfl
  refine ⟨?_, ?_⟩
  · rw [hbytes]
    exact h.2 n order
  · rw [hbytes, hencode]
    exact Reader.track_encode (by simpa using h.1) ⟨n.zero_le, trivial⟩

/-! ## Letters -/

theorem toLatin1_text {s : String} (hs : ∀ c ∈ s.toList, c.toNat < 256) :
    ∃ letters, (Datum.text s).toLatin1 = .ok letters ∧ letters.map UInt8.toNat = s.toList.map Char.toNat := by
  have hall : (s.toList.all fun c => c.toNat < 256) = true := by simpa using hs
  refine ⟨s.toList.map fun c => UInt8.ofNat c.toNat, ?_, ?_⟩
  · rw [Datum.toLatin1, if_pos hall]
  · rw [List.map_map]
    exact List.map_congr_left fun c hc => Reader.toNat_ofNat (hs c hc)

theorem says_copyright {letters : List UInt8} (h : letters.length < 128) :
    Track.Says (.copyright letters) (.silent 0x02 letters) := by
  refine ⟨by simp [Reader.Message.Valid, Reader.Message.endOfTrack], fun n order => ?_⟩
  simp only [bytes, encodeDatum_nat, ok_bind, if_neg (show ¬ 128 ≤ letters.length by omega)]
  simp [Reader.Message.bytes, Pure.pure, Except.pure]

theorem refused_copyright {letters : List UInt8} (h : 128 ≤ letters.length) (n order : Nat) :
    ({ tick := .int n, order, deed := .copyright letters } : Event).bytes = .error .doesNotFit := by
  simp only [bytes, encodeDatum_nat, ok_bind, if_pos h]
  rfl

/-! ## Tempos -/

theorem microseconds_nat {tempo : Nat} (h : 0 < tempo) : File.microseconds (.int tempo) = .ok ((60000000 / tempo : Nat) : Int) := by
  have hne : ¬ (tempo : Int) = 0 := by omega
  have hdiv : Int.tdiv 60000000 (tempo : Int) = ((60000000 / tempo : Nat) : Int) := rfl
  show (if (tempo : Int) = 0 then Except.error Datum.Fault.dividedByZero else .ok (Int.tdiv 60000000 tempo)) = _
  rw [if_neg hne, hdiv]

theorem number_threeBytes (m : Nat) :
    Reader.number [UInt8.ofNat (m / 65536), UInt8.ofNat (m / 256), UInt8.ofNat m] = m % 2 ^ 24 := by
  simp only [Reader.number, List.foldl_cons, List.foldl_nil, UInt8.toNat_ofNat']
  omega

theorem number_tempo {tempo : Nat} (h : 0 < tempo) : 60000000 / tempo % 2 ^ 24 = 60000000 / tempo ↔ 4 ≤ tempo := by
  constructor
  · intro heq
    by_contra hslow
    interval_cases tempo <;> omega
  · intro hfast
    have hle : 60000000 / tempo ≤ 60000000 / 4 := Nat.div_le_div_left hfast (by omega)
    exact Nat.mod_eq_of_lt (hle.trans_lt (by norm_num))

/-! ## All contents -/

/-- At every tick: a text and the name of a track carry all the letters of any text in one-byte
    letters, and so does a copyright notice unless it has 128 of them, in which case it is refused.
    The three bytes that a tempo carries are the microseconds of a beat less any multiple of 2 ^ 24,
    so they are those microseconds exactly if there are 4 beats a minute or more. -/
theorem contents_carried (n order : Nat) :
    (∀ s : String, (∀ c ∈ s.toList, c.toNat < 256) → ∃ letters : List UInt8,
      (Datum.text s).toLatin1 = .ok letters ∧ letters.map UInt8.toNat = s.toList.map Char.toNat ∧
      Carries { tick := .int n, order, deed := .text letters } n 0x01 letters ∧
      Carries { tick := .int n, order, deed := .trackName letters } n 0x03 letters ∧
      (letters.length < 128 → Carries { tick := .int n, order, deed := .copyright letters } n 0x02 letters) ∧
      (128 ≤ letters.length →
        ({ tick := .int n, order, deed := .copyright letters } : Event).bytes = .error .doesNotFit)) ∧
    ∀ tempo : Nat, 0 < tempo → ∃ (m : Int) (data : List UInt8), File.microseconds (.int tempo) = .ok m ∧
      Carries { tick := .int n, order, deed := .tempo m } n 0x51 data ∧ data.length = 3 ∧
      Reader.number data = 60000000 / tempo % 2 ^ 24 ∧ (Reader.number data = 60000000 / tempo ↔ 4 ≤ tempo) := by
  constructor
  · intro s hs
    obtain ⟨letters, hlatin, hletters⟩ := toLatin1_text hs
    exact ⟨letters, hlatin, hletters, carries_of_says (says_text letters) n order,
      carries_of_says (says_trackName letters) n order, fun h => carries_of_says (says_copyright h) n order,
      fun h => refused_copyright h n order⟩
  · intro tempo htempo
    have hle : 60000000 / tempo ≤ 60000000 := Nat.div_le_self _ _
    have hnumber := number_threeBytes (60000000 / tempo)
    refine ⟨_, _, microseconds_nat htempo, carries_of_says (says_tempo (by omega)) n order, rfl, hnumber, ?_⟩
    rw [hnumber]
    exact number_tempo htempo

theorem contents_carried_accent : (∀ c ∈ "né".toList, c.toNat < 256) ∧ 0 < 120 ∧
    (∃ letters : List UInt8, (Datum.text "né").toLatin1 = .ok letters ∧
      Carries { tick := .int 128, order := 7, deed := .text letters } 128 0x01 letters) ∧
    ∃ (m : Int) (data : List UInt8), File.microseconds (.int 120) = .ok m ∧
      Carries { tick := .int 128, order := 7, deed := .tempo m } 128 0x51 data ∧ Reader.number data = 500000 := by
  have hletters : ∀ c ∈ "né".toList, c.toNat < 256 := by simp
  obtain ⟨letters, hlatin, -, htext, -⟩ := (contents_carried 128 7).1 "né" hletters
  obtain ⟨m, data, hm, hcarries, -, hnumber, -⟩ := (contents_carried 128 7).2 120 (by decide)
  exact ⟨hletters, by decide, ⟨letters, hlatin, htext⟩, m, data, hm, hcarries, hnumber⟩

/-- A notice of 128 letters has no bytes, and 3 beats a minute are written as if a beat had
    3222784 microseconds and not 20000000. -/
theorem notice_and_slow_tempo_not_carried :
    (Datum.text (String.ofList (List.replicate 128 'a'))).toLatin1 = .ok (List.replicate 128 97) ∧
    ({ tick := .int 0, order := 0, deed := .copyright (List.replicate 128 97) } : Event).bytes = .error .doesNotFit ∧
    File.microseconds (.int 3) = .ok 20000000 ∧
    ({ tick := .int 0, order := 0, deed := .tempo 20000000 } : Event).bytes = .ok [0x00, 0xFF, 0x51, 0x03, 0x31, 0x2D, 0x00] ∧
    Reader.number [0x31, 0x2D, 0x00] = 3222784 := by
  refine ⟨?_, refused_copyright (by simp) 0 0, microseconds_nat (by decide), ?_, by decide⟩
  · rw [Datum.toLatin1, String.toList_ofList, if_pos (by simp), List.map_replicate]
    rfl
  · have h := (says_tempo (m := 20000000) (by omega)).2 0 0
    rw [tempoMessage, Reader.Message.bytes] at h
    exact h.trans (by cbv)

end Event

end Plainsong.Midi
