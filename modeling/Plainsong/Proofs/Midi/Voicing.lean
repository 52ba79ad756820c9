import Plainsong.Proofs.Midi.Filing
/- What deeds voice. One statement for each kind of deed that a file takes: the
   bytes it gets, if it gets any, are those of one message, and the message means
   the deed. Where the values are in their ranges the bytes are always there, but
   for a copyright notice of 128 letters or more, a tempo below zero and more sharps
   or flats than a byte counts. -/
namespace Plainsong.Midi

open Melody List
namespace Track

/-! ## The messages of deeds -/

theorem toByte_toNat (b : UInt8) : Datum.toByte (.int b.toNat) = .ok b := by
  rw [toByte_nat b.toNat_lt, UInt8.ofNat_toNat]

theorem encode_small {n : Nat} (h : n < 128) : VarLength.encode n = [UInt8.ofNat n] := by
  rw [VarLength.encode, Nat.div_eq_of_lt h, Nat.mod_eq_of_lt h, Reader.encodeOnto_zero]

section Voice

variable (c : Fin 16)

theorem voices_channel {d : Deed} {σ : Reader.Sense} (status : Nat) (data : List (Fin 128)) (hstatus : 8 ≤ status ∧ status < 15)
    (harity : data.length = Reader.arity status)
    (hbytes : ∀ (tick : Datum) (order : Nat), ({ tick, order, deed := d } : Event).bytes =
      Event.channelMessage tick (.int c) (status * 16) ((data.map Fin.val).map fun a : Nat => .int a))
    (hσ : Reader.Message.voiceSense c status ((data.map Fin.val).map UInt8.ofNat) = σ) : Voices d σ :=
  hσ ▸ (says_channel (data.map Fin.val) hstatus c.isLt (by simpa using harity) (by simp) hbytes).voices

theorem toNat_data (a : Fin 128) : (UInt8.ofNat a).toNat = a := Reader.toNat_ofNat (by have := a.isLt; omega)

theorem voices_noteOn (pitch volume : Fin 128) (duration remark : Datum) :
    Voices (.noteOn (.int c) (.int pitch) duration (.int volume) remark) (.noteOn c pitch volume) :=
  voices_channel c 9 [pitch, volume] (by omega) rfl (fun _ _ => rfl) (by simp only [Reader.Message.voiceSense, map_cons, map_nil, toNat_data])

theorem voices_noteOff (pitch volume : Fin 128) (remark : Datum) :
    Voices (.noteOff (.int c) (.int pitch) (.int volume) remark) (.noteOff c pitch volume) :=
  voices_channel c 8 [pitch, volume] (by omega) rfl (fun _ _ => rfl) (by simp only [Reader.Message.voiceSense, map_cons, map_nil, toNat_data])

theorem voices_controller (n value : Fin 128) :
    Voices (.controller (.int c) (.int n) (.int value)) (.controller c n value) :=
  voices_channel c 11 [n, value] (by omega) rfl (fun _ _ => rfl) (by simp only [Reader.Message.voiceSense, map_cons, map_nil, toNat_data])

theorem voices_programChange (program : Fin 128) :
    Voices (.programChange (.int c) (.int program)) (.program c program) :=
  voices_channel c 12 [program] (by omega) rfl (fun _ _ => rfl) (by simp only [Reader.Message.voiceSense, map_cons, map_nil, toNat_data])

theorem voices_channelPressure (value : Fin 128) :
    Voices (.channelPressure (.int c) (.int value)) (.pressure c value) :=
  voices_channel c 13 [value] (by omega) rfl (fun _ _ => rfl) (by simp only [Reader.Message.voiceSense, map_cons, map_nil, toNat_data])

theorem voices_pitchWheel {value : Int} (hlow : -8192 ≤ value) (hhigh : value ≤ 8191) :
    Voices (.pitchWheel (.int c) (.int value)) (.pitchWheel c value) := by
  obtain ⟨raised, hraised⟩ : ∃ raised : Nat, value + 8192 = raised := ⟨(value + 8192).toNat, by omega⟩
  have hlow7 : (UInt8.ofNat (raised % 128)).toNat = raised % 128 := Reader.toNat_ofNat (by omega)
  have hhigh7 : (UInt8.ofNat (raised / 128)).toNat = raised / 128 := Reader.toNat_ofNat (by omega)
  have hsays : Says (.pitchWheel (.int c) (.int value))
      (.voice 14 c [UInt8.ofNat (raised % 128), UInt8.ofNat (raised / 128)]) := by
    refine ⟨⟨by omega, by omega, c.isLt, rfl, ?_⟩, fun n order => ?_⟩
    · simp only [forall_mem_cons, hlow7, hhigh7]
      exact ⟨by omega, by omega, by simp⟩
    · have hcode : Datum.onChannel 0xE0 (.int c) = .ok ((14 * 16 + c : Nat) : Int) := onChannel_eq 14 c.isLt
      have hbyte : Datum.byte ((14 * 16 + c : Nat) : Int) = .ok (UInt8.ofNat (14 * 16 + c)) :=
        toByte_nat (n := 14 * 16 + c) (by omega)
      have hdiv : Datum.byte ((raised : Int).fdiv 128) = .ok (UInt8.ofNat (raised / 128)) := by
        rw [Int.fdiv_eq_ediv_of_nonneg _ (by omega)]
        exact toByte_nat (n := raised / 128) (by omega)
      have hmod : ((raised : Int) % 128).toNat = raised % 128 := by omega
      simp only [Event.bytes, hcode, ok_bind, encodeDatum_nat, add_int, hraised, hbyte, pure_bind, hdiv, hmod,
        Reader.Message.bytes]
      rfl
  have hvalue : ((raised / 128 : Nat) : Int) * 128 + ((raised % 128 : Nat) : Int) - 8192 = value := by omega
  simpa only [Reader.Message.sense, Reader.Message.voiceSense, hlow7, hhigh7, hvalue] using hsays.voices

end Voice

theorem voices_text (letters : List UInt8) : Voices (.text letters) (.text letters) := (says_text letters).voices

theorem voices_trackName (letters : List UInt8) : Voices (.trackName letters) (.trackName letters) :=
  (says_trackName letters).voices

theorem voices_copyright (letters : List UInt8) : Voices (.copyright letters) (.copyright letters) := by
  intro n order bytes h
  refine ⟨.silent 0x02 letters, by simp [Reader.Message.Valid, Reader.Message.endOfTrack], rfl, ?_⟩
  simp only [Event.bytes, encodeDatum_nat, ok_bind] at h
  split at h
  · cases h
  · cases h
    simp [Reader.Message.bytes]

theorem voices_tempo {m : Int} (h : m < 2 ^ 24) : Voices (.tempo m) (.tempo m.toNat) := by
  rcases lt_or_ge m 0 with hneg | hpos
  · intro n order bytes hbytes
    simp only [Event.bytes, decide_eq_true hneg, Bool.true_or, if_true] at hbytes
    cases hbytes
  · obtain ⟨k, rfl⟩ : ∃ k : Nat, m = k := ⟨m.toNat, by omega⟩
    have hk : Reader.number [UInt8.ofNat (k / 65536), UInt8.ofNat (k / 256), UInt8.ofNat k] = k := by
      simp only [Reader.number, foldl_cons, foldl_nil, UInt8.toNat_ofNat']
      omega
    have hsays := (says_tempo (m := k) (by omega)).voices
    rw [Int.toNat_natCast]
    rwa [tempoMessage, Reader.Message.sense, show (0x51 : UInt8).toNat = 0x51 from rfl, Reader.Message.silentSense,
      hk] at hsays

theorem voices_timeSignature (numerator denominator clocks notes : UInt8) :
    Voices (.timeSignature (.int numerator.toNat) (.int denominator.toNat) (.int clocks.toNat) (.int notes.toNat))
      (.timeSignature numerator denominator clocks notes) := by
  have hsays : Says (.timeSignature (.int numerator.toNat) (.int denominator.toNat) (.int clocks.toNat) (.int notes.toNat))
      (.silent 0x58 [numerator, denominator, clocks, notes]) := by
    refine ⟨by simp [Reader.Message.Valid, Reader.Message.endOfTrack], fun n order => ?_⟩
    have hvalues : [Datum.int numerator.toNat, .int denominator.toNat, .int clocks.toNat, .int notes.toNat].mapM
        Datum.toByte = .ok [numerator, denominator, clocks, notes] := by
      simp only [mapM_cons, toByte_toNat]
      rfl
    have hfour : VarLength.encode 4 = [4] := encode_small (by omega)
    simp only [Event.bytes, encodeDatum_nat, ok_bind, hvalues, Reader.Message.bytes, length_cons, length_nil,
      hfour, append_assoc]
    rfl
  exact hsays.voices

theorem voices_keySignature (accidentals kind : Int) (mode : UInt8) :
    Voices (.keySignature (.int accidentals) (.int kind) (.int mode.toNat)) (.keySignature (accidentals * kind) mode) := by
  intro n order bytes h
  have hmul : (Datum.int accidentals).mul (.int kind) = .ok (.int (accidentals * kind)) := rfl
  have hsigned : (Datum.int (accidentals * kind)).toSignedByte =
      if -128 ≤ accidentals * kind && accidentals * kind < 128 then .ok (UInt8.ofNat (accidentals * kind % 256).toNat)
      else .error .doesNotFit := rfl
  simp only [Event.bytes, encodeDatum_nat, ok_bind, hmul, hsigned, toByte_toNat] at h
  split at h
  · next hrange =>
    have hrange : -128 ≤ accidentals * kind ∧ accidentals * kind < 128 := by simpa using hrange
    generalize accidentals * kind = count at hrange h
    cases h
    refine ⟨.silent 0x59 [UInt8.ofNat (count % 256).toNat, mode],
      by simp [Reader.Message.Valid, Reader.Message.endOfTrack], ?_, ?_⟩
    · have hbyte : (UInt8.ofNat (count % 256).toNat).toNat = (count % 256).toNat := Reader.toNat_ofNat (by omega)
      have hcount : Reader.signed (UInt8.ofNat (count % 256).toNat) = count := by
        rw [Reader.signed, hbyte]
        split <;> omega
      rw [Reader.Message.sense, show (0x59 : UInt8).toNat = 0x59 from rfl, Reader.Message.silentSense, hcount]
    · have htwo : VarLength.encode 2 = [2] := encode_small (by omega)
      rw [Reader.Message.bytes, length_cons, length_singleton, htwo]
      rfl
  · cases h

theorem voices_systemExclusive (manufacturer : UInt8) (payload : List UInt8) :
    Voices (.systemExclusive (.int manufacturer.toNat) (.bytes payload)) (.exclusive (manufacturer :: payload ++ [0xF7])) := by
  have hsays : Says (.systemExclusive (.int manufacturer.toNat) (.bytes payload))
      (.exclusive 0xF0 (manufacturer :: payload ++ [0xF7])) := by
    refine ⟨.inl rfl, fun n order => ?_⟩
    simp only [Event.bytes, encodeDatum_nat, ok_bind, Datum.size, toByte_toNat, Event.payloadBytes, Reader.Message.bytes]
    simp [Pure.pure, Except.pure]
  exact hsays.voices

theorem voices_universalExclusive (realTime : Bool) (device code subcode : UInt8) (payload : List UInt8) :
    Voices (.universalExclusive (.bool realTime) (.int device.toNat) (.int code.toNat) (.int subcode.toNat) (.bytes payload))
      (.exclusive ((if realTime then 0x7F else 0x7E) :: device :: code :: subcode :: payload ++ [0xF7])) := by
  have hsays : Says (.universalExclusive (.bool realTime) (.int device.toNat) (.int code.toNat) (.int subcode.toNat)
      (.bytes payload)) (.exclusive 0xF0 ((if realTime then 0x7F else 0x7E) :: device :: code :: subcode :: payload ++ [0xF7])) := by
    refine ⟨.inl rfl, fun n order => ?_⟩
    simp only [Event.bytes, encodeDatum_nat, ok_bind, Datum.size, toByte_toNat, Event.payloadBytes, Datum.isTrue,
      Reader.Message.bytes]
    cases realTime <;> simp [Pure.pure, Except.pure]
  exact hsays.voices

end Track
end Plainsong.Midi
