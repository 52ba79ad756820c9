import Plainsong.Proofs.Midi.Melody
/- Composing a file: from an empty file on, every call that adds an event puts it
   behind the events of its track and counts. A file under construction is then
   known by the events of its two tracks and its counter (`File.ofEvents`), and a
   file whose tracks are a melody and its tempos is written and read back
   (`File.write_melody`). -/
namespace Plainsong.Midi

open Melody

namespace File

/-- The open file with these events for settings, these for notes, and this count of calls. -/
def ofEvents (settings notes : List Event) (counter : Nat) : File :=
  { format := 1, division := 960, adjustOrigin := false, timesAreTicks := false,
    tracks := #[Track.ofEvents settings, Track.ofEvents notes], counter }

theorem create_default : create {} = .ok (ofEvents [] [] 0) := by
  rfl

section Adding

variable {settings notes : List Event} {counter : Nat}

/-- A time that stands for whole ticks. -/
def InTicks (time : Datum) (n : Nat) : Prop := ∃ d, time.mul (.int 960) = .ok d ∧ d.toWhole = .ok (n : Int)

theorem inTicks_zero : InTicks (.int 0) 0 := ⟨.int 0, rfl, rfl⟩

theorem ticks_eq {time : Datum} {n : Nat} (h : InTicks time n) :
    (ofEvents settings notes counter).ticks time = .ok (.int n) := by
  obtain ⟨d, hd, hn⟩ := h
  show (quarterToTick _ time).map Datum.int = _
  have hquarter : quarterToTick (ofEvents settings notes counter) time = .ok (n : Int) := by
    show (time.mul (.int 960) >>= fun d => d.toWhole) = _
    rw [hd]
    exact hn
  rw [hquarter]
  rfl

theorem put_setting (tick : Datum) (deed : Deed) :
    Gives (put 0 tick deed) (ofEvents settings notes counter) ⟨⟩
      (ofEvents (settings ++ [{ tick, order := counter, deed }]) notes counter) := by
  refine Gives.of_bind (Gives.of_get _) ?_
  have h := onTrack_gives (f := ofEvents settings notes counter) (i := 0)
    (Gives.of_modify (ε := Fault) (·.add { tick, order := counter, deed }) (Track.ofEvents settings))
  rw [Track.add_ofEvents] at h
  exact h

theorem put_note (tick : Datum) (deed : Deed) :
    Gives (put 1 tick deed) (ofEvents settings notes counter) ⟨⟩
      (ofEvents settings (notes ++ [{ tick, order := counter, deed }]) counter) := by
  refine Gives.of_bind (Gives.of_get _) ?_
  have h := onTrack_gives (f := ofEvents settings notes counter) (i := 1)
    (Gives.of_modify (ε := Fault) (·.add { tick, order := counter, deed }) (Track.ofEvents notes))
  rw [Track.add_ofEvents] at h
  exact h

theorem count_gives : Gives count (ofEvents settings notes counter) ⟨⟩ (ofEvents settings notes (counter + 1)) :=
  Gives.of_modify _ _

variable {time : Datum} {n : Nat}

theorem putAt_setting (htime : InTicks time n) {deed : Except Fault Deed} {d : Deed} (hd : deed = .ok d) :
    Gives (putAt (.ok 0) time deed) (ofEvents settings notes counter) ⟨⟩
      (ofEvents (settings ++ [{ tick := .int n, order := counter, deed := d }]) notes (counter + 1)) :=
  Gives.of_bind (Gives.of_except rfl _) (Gives.of_bind (Gives.of_get _) (Gives.of_bind
    (Gives.of_except (ticks_eq htime) _) (Gives.of_bind (Gives.of_except hd _)
      (Gives.of_bind (put_setting _ _) count_gives))))

theorem putAt_note (htime : InTicks time n) {deed : Except Fault Deed} {d : Deed} (hd : deed = .ok d) :
    Gives (putAt (.ok 1) time deed) (ofEvents settings notes counter) ⟨⟩
      (ofEvents settings (notes ++ [{ tick := .int n, order := counter, deed := d }]) (counter + 1)) :=
  Gives.of_bind (Gives.of_except rfl _) (Gives.of_bind (Gives.of_get _) (Gives.of_bind
    (Gives.of_except (ticks_eq htime) _) (Gives.of_bind (Gives.of_except hd _)
      (Gives.of_bind (put_note _ _) count_gives))))

theorem addTempo_gives (htime : InTicks time n) {tempo : Datum} {m : Int} (hm : microseconds tempo = .ok m) :
    Gives (addTempo (.int 0) time tempo) (ofEvents settings notes counter) ⟨⟩
      (ofEvents (settings ++ [{ tick := .int n, order := counter, deed := .tempo m }]) notes (counter + 1)) :=
  Gives.of_bind (Gives.of_get _) (putAt_setting htime (by rw [hm]; rfl))

theorem addTrackName_gives (htime : InTicks time n) {name : Datum} {letters : List UInt8}
    (hname : name.toLatin1 = .ok letters) :
    Gives (addTrackName (.int 0) time name) (ofEvents settings notes counter) ⟨⟩
      (ofEvents settings (notes ++ [{ tick := .int n, order := counter, deed := .trackName letters }]) (counter + 1)) :=
  Gives.of_bind (Gives.of_get _) (putAt_note htime (by rw [hname]; rfl))

theorem addText_gives (htime : InTicks time n) {text : Datum} {letters : List UInt8}
    (htext : text.toLatin1 = .ok letters) :
    Gives (addText (.int 0) time text) (ofEvents settings notes counter) ⟨⟩
      (ofEvents settings (notes ++ [{ tick := .int n, order := counter, deed := .text letters }]) (counter + 1)) :=
  Gives.of_bind (Gives.of_get _) (putAt_note htime (by rw [htext]; rfl))

theorem addProgramChange_gives (htime : InTicks time n) (channel program : Datum) :
    Gives (addProgramChange (.int 0) channel time program) (ofEvents settings notes counter) ⟨⟩
      (ofEvents settings (notes ++ [{ tick := .int n, order := counter, deed := .programChange channel program }])
        (counter + 1)) :=
  Gives.of_bind (Gives.of_get _) (putAt_note htime rfl)

theorem addNote_gives (htime : InTicks time n) {duration : Datum} {k : Nat} (hduration : InTicks duration k)
    (channel pitch volume annotation : Datum) :
    Gives (addNote (.int 0) channel pitch time duration volume annotation) (ofEvents settings notes counter) ⟨⟩
      (ofEvents settings (notes ++
        [{ tick := .int n, order := counter, deed := .noteOn channel pitch (.int k) volume annotation },
         { tick := .int (n + k : Nat), order := counter, deed := .noteOff channel pitch volume annotation }])
        (counter + 1)) := by
  refine Gives.of_bind (Gives.of_get _) (Gives.of_bind (a := 1) (Gives.of_except rfl _) (Gives.of_bind
    (Gives.of_except (ticks_eq htime) _) (Gives.of_bind (Gives.of_except (ticks_eq hduration) _) (Gives.of_bind
      (put_note _ _) (Gives.of_bind (Gives.of_except (add_int n k) _) (Gives.of_bind (put_note _ _) ?_))))))
  rw [List.append_assoc]
  exact count_gives

end Adding

theorem write_melody (name : List UInt8) {program m₀ : Nat} {ps : List (Sung × Nat)} (hprogram : program < 128)
    (hm₀ : m₀ < 2 ^ 32) (hps : ∀ p ∈ ps, p.2 < 2 ^ 32) (hkeys : ∀ n ∈ ps.map Prod.fst, n.key < 128)
    (hbeats : ∀ n ∈ ps.map Prod.fst, 0 < n.beats) (counter : Nat) :
    let f := ofEvents (tempoEvent 1 0 m₀ :: temposFrom 3 0 ps)
      (nameEvent name :: programEvent program :: addedFrom 3 0 (ps.map Prod.fst)) counter
    let melody := Melody.track name (UInt8.ofNat program) (ps.map Prod.fst)
    ((Reader.encode 0 melody).length < 2 ^ 32 → ∃ bytes f' tempos, Gives write f bytes f' ∧
      Reader.file bytes = some { format := 1, division := 960, tracks := [tempos, melody] }) ∧
    (2 ^ 32 ≤ (Reader.encode 0 melody).length → Fails write f .doesNotFit) := by
  intro f melody
  obtain ⟨tempos, htempos, hle⟩ := ready_tempos hm₀ hps name (UInt8.ofNat program)
  have hmelody := ready_track name hprogram hkeys hbeats
  constructor
  · intro hfits
    obtain ⟨bytes, f', hwrite, hread⟩ := write_reads (f := f) rfl rfl rfl (show 1 < 2 ^ 16 by omega)
      (show 960 < 2 ^ 16 by omega) htempos hmelody (Nat.lt_of_le_of_lt hle hfits) hfits
    exact ⟨bytes, f', tempos, hwrite, hread⟩
  · exact write_fails (f := f) rfl rfl rfl htempos hmelody

end File

end Plainsong.Midi
