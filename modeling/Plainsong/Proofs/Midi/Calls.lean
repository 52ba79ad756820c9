import Plainsong.Proofs.Midi.Voicing
import Plainsong.Proofs.Number
/- The calls that add events to a file. Each call is told in two ways: as the act it
   is (`Call.run`), and as the entries it makes (`Call.entries`), each on a track, at
   a tick and with a meaning. The main statement is that calls whose times are not
   below zero log exactly their entries in the order of the calls, and that a call
   that fails logs nothing (`Call.logs_forM_attempt`). -/
namespace Plainsong

namespace Datum

open Decimal

/-! ## Times that are not below zero -/

theorem not_negative_of_before {x : Float} (h : (Datum.float x).before? (.int 0) = some false) (m : Nat) (e : Int)
    (hx : Exact.ofFloat x = .finite true m e) : m = 0 := by
  by_contra hm
  have hpos := quotient_eq m e
  have hnum : 0 < (quotient m e).1 := by
    by_contra hc
    have h0 : (quotient m e).1 = 0 := by omega
    have hval : (m : ℚ) * 2 ^ e = 0 := by rw [hpos.2, h0]; simp
    have hlt : (0 : ℚ) < m * 2 ^ e := by
      have : (0 : ℚ) < m := by exact_mod_cast Nat.pos_of_ne_zero hm
      positivity
    exact hlt.ne' hval
  have hcompare : compareWhole 0 x = some .gt := by
    have : compare (0 * ((quotient m e).2 : Int)) (-((quotient m e).1 : Int)) = .gt := by
      rw [Int.compare_eq_gt]
      omega
    simp only [compareWhole, hx, if_true, this]
  have hb : (Datum.float x).before? (.int 0) = some true := by
    simp [before?, compare?, whole?, hcompare]
  rw [hb] at h
  cases h

theorem toWhole_mul_nonneg {time d : Datum} {k : Nat} {n : Int} (h : time.before? (.int 0) = some false)
    (hd : time.mul (.int k) = .ok d) (hn : d.toWhole = .ok n) : 0 ≤ n := by
  cases time with
  | int m =>
    have hm : 0 ≤ m := by simpa [Midi.before?_int] using h
    cases hd
    cases hn
    positivity
  | bool b =>
    cases hd
    cases hn
    cases b <;> simp
  | float x =>
    have hd' : (wholeFloat k).map (fun y => Datum.float (x * y)) = .ok d := hd
    cases hy : wholeFloat (k : Int) with
    | error f => rw [hy] at hd'; cases hd'
    | ok y =>
      rw [hy] at hd'
      cases hd'
      obtain ⟨w, hw, -⟩ := holds_of_wholeFloat hy
      have hcut : cut (x * y) = .ok n := hn
      cases ht : truncate? (x * y) with
      | none => simp [cut, ht] at hcut
      | some j =>
        simp only [cut, ht, Except.ok.injEq] at hcut
        exact hcut ▸ truncate?_mul_nonneg (not_negative_of_before h) hw ht
  | none => cases h
  | text s => cases h
  | bytes b => cases h
  | list l => simp [before?] at h

end Datum

namespace Midi

/-! ## What a call adds -/

/-- What is added to a track. -/
structure Entry where
  place : Nat
  tick : Nat
  sense : Reader.Sense
  deriving DecidableEq

namespace File

/-- The tick of a time, as a number. -/
def instant (f : File) (time : Datum) : Except Fault Int := do (← f.ticks time).toWhole

/-- A time that is not below zero, and a whole number where the file counts in ticks. -/
def Fair (f : File) (time : Datum) : Prop :=
  if f.timesAreTicks then ∃ n : Nat, time = .int n else time.before? (.int 0) = some false

/-- A note that does not end below zero, its duration whole where the file counts in ticks. -/
def Lasts (f : File) (time duration : Datum) : Prop :=
  (f.timesAreTicks = true → ∃ n : Int, duration = .int n) ∧
    ∀ start length, f.instant time = .ok start → f.instant duration = .ok length → 0 ≤ start + length

/-- One entry, or the failure to make it. -/
def entry (f : File) (place : Except Fault Nat) (time : Datum) (sense : Except Fault Reader.Sense) :
    Except Fault (List Entry) := do
  let place ← place
  let tick ← f.instant time
  let sense ← sense
  return [{ place, tick := tick.toNat, sense }]

/-- Controllers that follow each other at a step of ticks. -/
def controllerEntries (place : Nat) (channel : Fin 16) (step : Nat) : Nat → List (Fin 128 × Fin 128) → List Entry
  | _, [] => []
  | tick, (number, value) :: rest =>
    { place, tick, sense := .controller channel number value } :: controllerEntries place channel step (tick + step) rest

end File

/-- A call on a file that adds events, with channels and values in their ranges. -/
inductive Call where
  | note (track : Datum) (channel : Fin 16) (pitch : Fin 128) (time duration : Datum) (volume : Fin 128)
      (remark : Datum)
  | trackName (track time : Datum) (name : String)
  | timeSignature (track time : Datum) (numerator denominator clocks notes : UInt8)
  | tempo (track time beatsPerMinute : Datum)
  | copyright (track time : Datum) (notice : String)
  | keySignature (track time : Datum) (accidentals kind : Int) (mode : UInt8)
  | text (track time : Datum) (letters : String)
  | programChange (track : Datum) (channel : Fin 16) (time : Datum) (program : Fin 128)
  | channelPressure (track : Datum) (channel : Fin 16) (time : Datum) (pressure : Fin 128)
  | controller (track : Datum) (channel : Fin 16) (time : Datum) (number value : Fin 128)
  | pitchWheel (track : Datum) (channel : Fin 16) (time : Datum) (value : Int)
  | parameter (registered : Bool) (track : Datum) (channel : Fin 16) (time : Datum) (high low dataHigh : Fin 128)
      (dataLow : Option (Fin 128)) (timeOrder : Bool)
  | tuningBank (track : Datum) (channel : Fin 16) (time : Datum) (bank : Fin 128) (timeOrder : Bool)
  | tuningProgram (track : Datum) (channel : Fin 16) (time : Datum) (program : Fin 128) (timeOrder : Bool)
  | noteTuning (track tunings : Datum) (device : UInt8) (realTime : Bool) (program : Datum)
  | systemExclusive (track time : Datum) (manufacturer : UInt8) (payload : List UInt8)
  | universalExclusive (track time : Datum) (code subcode : UInt8) (payload : List UInt8) (device : UInt8)
      (realTime : Bool)

namespace Call

def run : Call → Act File Unit
  | note track channel pitch time duration volume remark =>
    File.addNote track (.int channel) (.int pitch) time duration (.int volume) remark
  | trackName track time name => File.addTrackName track time (.text name)
  | timeSignature track time numerator denominator clocks notes =>
    File.addTimeSignature track time (.int numerator.toNat) (.int denominator.toNat) (.int clocks.toNat) (.int notes.toNat)
  | tempo track time beatsPerMinute => File.addTempo track time beatsPerMinute
  | copyright track time notice => File.addCopyright track time (.text notice)
  | keySignature track time accidentals kind mode =>
    File.addKeySignature track time (.int accidentals) (.int kind) (.int mode.toNat)
  | text track time letters => File.addText track time (.text letters)
  | programChange track channel time program => File.addProgramChange track (.int channel) time (.int program)
  | channelPressure track channel time pressure => File.addChannelPressure track (.int channel) time (.int pressure)
  | controller track channel time number value => File.addController track (.int channel) time (.int number) (.int value)
  | pitchWheel track channel time value => File.addPitchWheel track (.int channel) time (.int value)
  | parameter registered track channel time high low dataHigh dataLow timeOrder =>
    File.setParameter (if registered then File.registered else File.unregistered) track (.int channel) time
      (.int high) (.int low) (.int dataHigh) (dataLow.elim .none fun d => .int d) timeOrder
  | tuningBank track channel time bank timeOrder => File.changeTuningBank track (.int channel) time (.int bank) timeOrder
  | tuningProgram track channel time program timeOrder =>
    File.changeTuningProgram track (.int channel) time (.int program) timeOrder
  | noteTuning track tunings device realTime program =>
    File.changeNoteTuning track tunings (.int device.toNat) (.bool realTime) program
  | systemExclusive track time manufacturer payload =>
    File.addSystemExclusive track time (.int manufacturer.toNat) (.bytes payload)
  | universalExclusive track time code subcode payload device realTime =>
    File.addUniversalExclusive track time (.int code.toNat) (.int subcode.toNat) (.bytes payload) (.int device.toNat)
      (.bool realTime)

/-- A message to any device that understands it. -/
def universal (realTime : Bool) (device code subcode : UInt8) (payload : List UInt8) : Reader.Sense :=
  .exclusive ((if realTime then 0x7F else 0x7E) :: device :: code :: subcode :: payload ++ [0xF7])

/-- The entries of the controllers that set a parameter. -/
def parameterEntries (f : File) (chooseHigh chooseLow : Fin 128) (track : Datum) (channel : Fin 16) (time : Datum)
    (high low dataHigh : Fin 128) (dataLow : Option (Fin 128)) (timeOrder : Bool) : Except Fault (List Entry) := do
  let place ← f.notePlace track
  let tick ← f.instant time
  return File.controllerEntries place channel (if timeOrder then 1 else 0) tick.toNat
    ([(chooseHigh, high), (chooseLow, low), (6, dataHigh)] ++ dataLow.toList.map fun d => (38, d))

/-- What a call adds to a file: on which track, at which tick, with which meaning. -/
def entries (f : File) : Call → Except Fault (List Entry)
  | note track channel pitch time duration volume _ => do
    let place ← f.notePlace track
    let start ← f.instant time
    let length ← f.instant duration
    return [{ place, tick := start.toNat, sense := .noteOn channel pitch volume },
      { place, tick := (start + length).toNat, sense := .noteOff channel pitch volume }]
  | trackName track time name => f.entry (f.notePlace track) time ((Datum.text name).toLatin1.map .trackName)
  | timeSignature track time numerator denominator clocks notes =>
    f.entry (f.settingPlace track) time (.ok (.timeSignature numerator denominator clocks notes))
  | tempo track time beatsPerMinute =>
    f.entry (f.settingPlace track) time ((File.microseconds beatsPerMinute).map fun m => .tempo m.toNat)
  | copyright track time notice => f.entry (f.notePlace track) time ((Datum.text notice).toLatin1.map .copyright)
  | keySignature track time accidentals kind mode =>
    f.entry (f.settingPlace track) time (.ok (.keySignature (accidentals * kind) mode))
  | text track time letters => f.entry (f.notePlace track) time ((Datum.text letters).toLatin1.map .text)
  | programChange track channel time program => f.entry (f.notePlace track) time (.ok (.program channel program))
  | channelPressure track channel time pressure => f.entry (f.notePlace track) time (.ok (.pressure channel pressure))
  | controller track channel time number value =>
    f.entry (f.notePlace track) time (.ok (.controller channel number value))
  | pitchWheel track channel time value => f.entry (f.notePlace track) time (.ok (.pitchWheel channel value))
  | parameter registered track channel time high low dataHigh dataLow timeOrder =>
    parameterEntries f (if registered then 101 else 99) (if registered then 100 else 98) track channel time high low
      dataHigh dataLow timeOrder
  | tuningBank track channel time bank timeOrder =>
    parameterEntries f 101 100 track channel time 0 4 0 (some bank) timeOrder
  | tuningProgram track channel time program timeOrder =>
    parameterEntries f 101 100 track channel time 0 3 0 (some program) timeOrder
  | noteTuning track tunings device realTime program => do
    let place ← f.notePlace track
    let payload ← File.tuningPayload tunings program
    return [{ place, tick := 0, sense := universal realTime device 8 2 payload }]
  | systemExclusive track time manufacturer payload =>
    f.entry (f.notePlace track) time (.ok (.exclusive (manufacturer :: payload ++ [0xF7])))
  | universalExclusive track time code subcode payload device realTime =>
    f.entry (f.notePlace track) time (.ok (universal realTime device code subcode payload))

/-- The times of a call are fair, its tempo has three bytes and its wheel keeps to its range. -/
def Sound (f : File) : Call → Prop
  | note _ _ _ time duration _ _ => f.Fair time ∧ f.Lasts time duration
  | tempo _ time beatsPerMinute => f.Fair time ∧ ∀ m, File.microseconds beatsPerMinute = .ok m → m < 2 ^ 24
  | pitchWheel _ _ time value => f.Fair time ∧ -8192 ≤ value ∧ value ≤ 8191
  | noteTuning .. => True
  | trackName _ time _ | timeSignature _ time .. | copyright _ time _ | keySignature _ time .. | text _ time _
  | programChange _ _ time _ | channelPressure _ _ time _ | controller _ _ time .. | parameter _ _ _ time ..
  | tuningBank _ _ time .. | tuningProgram _ _ time .. | systemExclusive _ time .. | universalExclusive _ time .. =>
    f.Fair time

/-- The call, after which the caller goes on even if it failed. -/
def attempt (c : Call) : Act File Unit := tryCatch c.run fun _ => pure ()

/-- What a call adds, which is nothing if it fails. -/
def adds (f : File) (c : Call) : List Entry :=
  match c.entries f with
  | .ok l => l
  | .error _ => []

end Call

/-! ## The log of a file -/

namespace Event

def beginning (order tick : Nat) (length : Int) (channel : Fin 16) (pitch volume : Fin 128) (remark : Datum) : Event :=
  { tick := .int tick, order, deed := .noteOn (.int channel) (.int pitch) (.int length) (.int volume) remark }

def ending (order tick : Nat) (channel : Fin 16) (pitch volume : Fin 128) (remark : Datum) : Event :=
  { tick := .int tick, order, deed := .noteOff (.int channel) (.int pitch) (.int volume) remark }

end Event

namespace Track

/-- The open track that events have been added to, in this order. -/
def fresh (drop separate : Bool) (es : List Event) : Track :=
  { dropDuplicates := drop, separateNotes := separate, events := es.toArray, added := List.range es.length }

theorem add_fresh (drop separate : Bool) (es : List Event) (e : Event) :
    (fresh drop separate es).add e = fresh drop separate (es ++ [e]) := by
  simp [fresh, add, List.range_succ]

end Track

/-- The events of a log that went to a track. -/
def eventsAt (log : List (Nat × Event)) (i : Nat) : List Event := (log.filter (·.1 = i)).map Prod.snd

namespace File

/-- The file after a log of events has been added to its empty tracks. -/
def logged (f : File) (drop separate : Bool) (log : List (Nat × Event)) (counter : Nat) : File :=
  { f with
    counter
    tracks := ((List.range f.tracks.size).map fun i => Track.fresh drop separate (eventsAt log i)).toArray }

section Logged

variable {f : File} {drop separate : Bool} {log : List (Nat × Event)} {k : Nat}

theorem place_logged (track : Datum) : (f.logged drop separate log k).place track = f.place track := by
  simp [place, logged]

theorem notePlace_logged (track : Datum) : (f.logged drop separate log k).notePlace track = f.notePlace track := by
  simp only [notePlace, place_logged]
  rfl

theorem settingPlace_logged (track : Datum) :
    (f.logged drop separate log k).settingPlace track = f.settingPlace track := by
  simp only [settingPlace, place_logged]
  rfl

theorem ticks_logged (time : Datum) : (f.logged drop separate log k).ticks time = f.ticks time := rfl

theorem put_logged (i : Nat) (tick : Datum) (deed : Deed) :
    Gives (put i tick deed) (f.logged drop separate log k) ⟨⟩
      (f.logged drop separate (log ++ [(i, { tick, order := k, deed })]) k) := by
  refine Gives.of_bind (Gives.of_get _) ?_
  have h := onTrack_gives (f := f.logged drop separate log k) (i := i)
    (Gives.of_modify (fun t : Track => t.add { tick, order := k, deed }) _)
  have htracks : (f.logged drop separate log k).tracks.setIfInBounds i
      (((f.logged drop separate log k).tracks.getD i default).add { tick, order := k, deed }) =
      (f.logged drop separate (log ++ [(i, { tick, order := k, deed })]) k).tracks := by
    refine Array.ext (by simp [logged]) fun j hj _ => ?_
    rw [Array.getElem_setIfInBounds (by simpa using hj)]
    have hj' : j < f.tracks.size := by simpa [logged] using hj
    by_cases hij : i = j
    · subst hij
      simp [logged, hj', Track.add_fresh, eventsAt]
    · simp [logged, hij, eventsAt]
  rw [htracks] at h
  exact h

theorem count_logged : Gives count (f.logged drop separate log k) ⟨⟩ (f.logged drop separate log (k + 1)) :=
  Gives.of_modify _ _

end Logged

theorem instant_of_ticks {f : File} {time : Datum} {α : Type} {e : Except Fault α} {g : α → Int}
    (h : f.ticks time = e.map fun a => .int (g a)) : f.instant time = e.map g := by
  rw [instant, h]
  cases e <;> rfl

theorem Fair.ticks {f : File} {time : Datum} (h : f.Fair time) : ∃ e : Except Fault Nat, f.ticks time = e.map fun n => .int n := by
  rw [Fair] at h
  split at h
  · next hticks =>
    obtain ⟨n, rfl⟩ := h
    exact ⟨.ok n, if_pos hticks⟩
  · next hticks =>
    rw [File.ticks, if_neg hticks]
    cases hq : f.quarterToTick time with
    | error x => exact ⟨.error x, rfl⟩
    | ok m =>
      obtain ⟨d, hd, hm⟩ := bind_eq_ok.mp hq
      obtain ⟨n, rfl⟩ := Int.eq_ofNat_of_zero_le (Datum.toWhole_mul_nonneg h hd hm)
      exact ⟨.ok n, rfl⟩

/-! ## What the calls do -/

/-- An event that went to a track is an entry. -/
def Tells (p : Nat × Event) (e : Entry) : Prop :=
  p.1 = e.place ∧ Track.Heard p.2 (e.tick, e.sense) ∧ p.2.rank = e.sense.rank

/-- Events are numbered in the order they were added, from one number to another. -/
def Numbered (k k' : Nat) (new : List (Nat × Event)) : Prop :=
  k ≤ k' ∧ new.Pairwise (fun p q => p.2.order ≤ q.2.order) ∧ ∀ p ∈ new, k ≤ p.2.order ∧ p.2.order ≤ k'

theorem Numbered.append {k k' k'' : Nat} {new new' : List (Nat × Event)} (h : Numbered k k' new)
    (h' : Numbered k' k'' new') : Numbered k k'' (new ++ new') := by
  refine ⟨h.1.trans h'.1, List.pairwise_append.mpr ⟨h.2.1, h'.2.1, fun p hp q hq => ?_⟩, fun p hp => ?_⟩
  · exact (h.2.2 p hp).2.trans (h'.2.2 q hq).1
  · rcases List.mem_append.mp hp with hp | hp
    · exact ⟨(h.2.2 p hp).1, (h.2.2 p hp).2.trans h'.1⟩
    · exact ⟨h.1.trans (h'.2.2 p hp).1, (h'.2.2 p hp).2⟩

/-- The act adds the entries to the log, or it fails with them and adds nothing. -/
def Adds (f : File) (act : Act File Unit) (entries : Except Fault (List Entry)) : Prop :=
  ∀ drop separate log k, Ends act (f.logged drop separate log k)
    (fun _ f' => ∃ l new k', entries = .ok l ∧ List.Forall₂ Tells new l ∧ Numbered k k' new ∧
      f' = f.logged drop separate (log ++ new) k')
    fun _ f' => (∃ x, entries = .error x) ∧ f' = f.logged drop separate log k

/-- The act adds the entries to the log. -/
def Logs (f : File) (act : Act File Unit) (l : List Entry) : Prop :=
  ∀ drop separate log k, ∃ new k', List.Forall₂ Tells new l ∧ Numbered k k' new ∧
    Gives act (f.logged drop separate log k) ⟨⟩ (f.logged drop separate (log ++ new) k')

section Adding

variable {f : File} {act act' : Act File Unit} {l l' : List Entry} {entries : Except Fault (List Entry)} {α β γ : Type}

theorem Logs.pure : f.Logs (pure ⟨⟩) [] :=
  fun _ _ _ k => ⟨[], k, .nil, ⟨le_rfl, .nil, by simp⟩, by rw [List.append_nil]; exact Gives.of_pure _ _⟩

theorem Logs.seq (h : f.Logs act l) (h' : f.Logs act' l') : f.Logs (do act; act') (l ++ l') := by
  intro drop separate log k
  obtain ⟨new, k₁, htells, hnumbered, hgives⟩ := h drop separate log k
  obtain ⟨new', k₂, htells', hnumbered', hgives'⟩ := h' drop separate (log ++ new) k₁
  refine ⟨new ++ new', k₂, List.rel_append htells htells', hnumbered.append hnumbered', ?_⟩
  rw [← List.append_assoc]
  exact Gives.of_bind hgives hgives'

theorem logs_put (i n : Nat) {d : Deed} {σ : Reader.Sense} (hv : Track.Voices d σ) (hr : d.rank = σ.rank) :
    f.Logs (do put i (.int n) d; count) [{ place := i, tick := n, sense := σ }] :=
  fun _ _ _ k => ⟨[(i, { tick := .int n, order := k, deed := d })], k + 1, .cons ⟨rfl, ⟨rfl, hv⟩, hr⟩ .nil,
    ⟨by omega, by simp, by simp⟩, Gives.of_bind (put_logged ..) count_logged⟩

theorem logs_putControllers (i : Nat) (c : Fin 16) (step n : Nat) (l : List (Fin 128 × Fin 128)) :
    f.Logs (putControllers i (.int c) (.int step) (.int n) (l.map fun p => ((p.1 : Int), .int p.2)))
      (controllerEntries i c step n l) := by
  induction l generalizing n with
  | nil => exact .pure
  | cons p l ih =>
    have h := (logs_put i n (Track.voices_controller c p.1 p.2) rfl).seq (ih (n + step))
    rw [bind_assoc] at h
    exact h

theorem Logs.adds (h : f.Logs act l) (hentries : entries = .ok l) : f.Adds act entries := by
  intro drop separate log k
  obtain ⟨new, k', htells, hnumbered, hgives⟩ := h drop separate log k
  exact hgives.ends.mpr ⟨l, new, k', hentries, htells, hnumbered, rfl⟩

theorem adds_get {g : File → Act File Unit} (hg : ∀ drop separate log k, g (f.logged drop separate log k) = g f)
    (h : f.Adds (g f) entries) : f.Adds (get >>= g) entries := by
  intro drop separate log k
  rw [ends_bind, ends_get, hg]
  exact h drop separate log k

theorem adds_bind {x : Except Fault α} {g : α → Act File Unit} {h : α → Except Fault (List Entry)}
    (hg : ∀ a, x = .ok a → f.Adds (g a) (h a)) : f.Adds (liftM x >>= g) (x >>= h) := by
  intro drop separate log k
  rw [ends_bind, ends_except]
  refine ⟨fun a ha => ?_, fun y hy => ⟨⟨y, by rw [hy]; rfl⟩, rfl⟩⟩
  rw [ha]
  exact hg a ha drop separate log k

theorem adds_map {x : Except Fault α} {p : α → β} {q : α → γ} {g : β → Act File Unit} {h : γ → Except Fault (List Entry)}
    (hg : ∀ a, x = .ok a → f.Adds (g (p a)) (h (q a))) : f.Adds (liftM (x.map p) >>= g) (x.map q >>= h) := by
  cases x with
  | error y => exact adds_bind (x := .error y) (h := fun _ => .error y) nofun
  | ok a => exact adds_bind (x := .ok (p a)) (h := fun _ => h (q a)) fun b hb => Except.ok.inj hb ▸ hg a rfl

/-- Which of two steps fails first makes no difference. -/
theorem Adds.swap {x : Except Fault α} {y : Except Fault β} {h : α → β → Except Fault (List Entry)}
    (hadds : f.Adds act (do let a ← x; let b ← y; h a b)) : f.Adds act (do let b ← y; let a ← x; h a b) := by
  cases x with
  | ok a => cases y <;> exact hadds
  | error e =>
    cases y with
    | ok b => exact hadds
    | error e' =>
      refine fun drop separate log k => (hadds drop separate log k).mono ?_ fun _ _ h => ⟨⟨e', rfl⟩, h.2⟩
      rintro _ _ ⟨_, _, _, h, -⟩
      cases h

/-- A fair time is a number of ticks, or the act fails with its entries. -/
theorem adds_ticks {g : Datum → Act File Unit} {h : Int → Except Fault (List Entry)} {time : Datum} (hfair : f.Fair time)
    (hg : ∀ n : Nat, f.Adds (g (.int n)) (h n)) : f.Adds (liftM (f.ticks time) >>= g) (f.instant time >>= h) := by
  obtain ⟨e, he⟩ := hfair.ticks
  rw [instant_of_ticks he, he]
  exact adds_map fun n _ => hg n

theorem adds_putAt {place : File → Except Fault Nat} {time : Datum} {x : Except Fault α} {deed : α → Deed}
    {sense : α → Reader.Sense} (hplace : ∀ drop separate log k, place (f.logged drop separate log k) = place f)
    (hfair : f.Fair time) (hv : ∀ a, x = .ok a → Track.Voices (deed a) (sense a) ∧ (deed a).rank = (sense a).rank) :
    f.Adds (do putAt (place (← get)) time (x.map deed)) (f.entry (place f) time (x.map sense)) := by
  refine adds_get (fun _ _ _ _ => by rw [hplace]) (adds_bind fun i _ => adds_get (fun _ _ _ _ => rfl) ?_)
  exact adds_ticks hfair fun n => adds_map fun a ha => (logs_put i n (hv a ha).1 (hv a ha).2).adds rfl

theorem adds_putAt_ok {place : File → Except Fault Nat} {time : Datum} {d : Deed} {σ : Reader.Sense}
    (hplace : ∀ drop separate log k, place (f.logged drop separate log k) = place f) (hfair : f.Fair time)
    (hv : Track.Voices d σ) (hr : d.rank = σ.rank) :
    f.Adds (do putAt (place (← get)) time (.ok d)) (f.entry (place f) time (.ok σ)) :=
  @adds_putAt f Unit place time (.ok ()) (fun _ => d) (fun _ => σ) hplace hfair fun _ _ => ⟨hv, hr⟩

theorem adds_ticks_place {g : Datum → Nat → Act File Unit} {h : Nat → Int → Except Fault (List Entry)} {track time : Datum}
    (hfair : f.Fair time) (hg : ∀ i n : Nat, f.Adds (g (.int n) i) (h i n)) :
    f.Adds (do
      let f ← get
      let tick ← liftM (f.ticks time)
      let i ← liftM (f.notePlace track)
      g tick i) (do let i ← f.notePlace track; let n ← f.instant time; h i n) := by
  refine adds_get (fun _ _ _ _ => by rw [notePlace_logged, ticks_logged]) (Adds.swap ?_)
  exact adds_ticks hfair fun n => adds_bind fun i _ => hg i n

theorem adds_setParameter {p : Parameter} {chooseHigh chooseLow : Fin 128} (hhigh : p.chooseHigh = chooseHigh)
    (hlow : p.chooseLow = chooseLow) {track time : Datum} (c : Fin 16) (high low dataHigh : Fin 128)
    (dataLow : Option (Fin 128)) (timeOrder : Bool) (hfair : f.Fair time) :
    f.Adds (setParameter p track (.int c) time (.int high) (.int low) (.int dataHigh)
      (dataLow.elim .none fun d => .int d) timeOrder)
      (Call.parameterEntries f chooseHigh chooseLow track c time high low dataHigh dataLow timeOrder) := by
  refine adds_ticks_place hfair fun i n => ?_
  have h := logs_putControllers (f := f) i c (if timeOrder then 1 else 0) n
    ([(chooseHigh, high), (chooseLow, low), (6, dataHigh)] ++ dataLow.toList.map fun d => (38, d))
  refine Logs.adds ?_ rfl
  rw [hhigh, hlow]
  cases timeOrder <;> cases dataLow <;> exact h

section Note

variable {drop separate : Bool} {log : List (Nat × Event)} {k i start n : Nat} {length : Int}
  {track time duration remark : Datum} {c : Fin 16} {pitch volume : Fin 128}

theorem Lasts.ticks (h : f.Lasts time duration) : ∃ e : Except Fault Int, f.ticks duration = e.map .int := by
  cases hmode : f.timesAreTicks with
  | true =>
    obtain ⟨length, rfl⟩ := h.1 hmode
    exact ⟨.ok length, if_pos hmode⟩
  | false => exact ⟨f.quarterToTick duration, if_neg (by simp [hmode])⟩

theorem addNote_logged (hplace : f.notePlace track = .ok i) (htime : f.ticks time = .ok (.int start))
    (hduration : f.ticks duration = .ok (.int length)) (hend : (start : Int) + length = n) :
    Gives (addNote track (.int c) (.int pitch) time duration (.int volume) remark) (f.logged drop separate log k) ⟨⟩
      (f.logged drop separate (log ++ [(i, Event.beginning k start length c pitch volume remark),
        (i, Event.ending k n c pitch volume remark)]) (k + 1)) := by
  have hadd : (Datum.int start).add (.int length) = .ok (.int n) := by rw [add_int, hend]
  rw [addNote, List.append_cons]
  refine Gives.of_bind (Gives.of_get _) (Gives.of_bind (Gives.of_except (by rw [notePlace_logged, hplace]) _)
    (Gives.of_bind (Gives.of_except htime _) (Gives.of_bind (Gives.of_except hduration _) ?_)))
  exact Gives.of_bind (put_logged _ _ _) (Gives.of_bind (Gives.of_except hadd _)
    (Gives.of_bind (put_logged _ _ _) count_logged))

theorem addNote_cases (track : Datum) (c : Fin 16) (pitch volume : Fin 128) (remark : Datum) (hfair : f.Fair time)
    (hlasts : f.Lasts time duration) :
    (∃ (i start n : Nat) (length : Int), (Call.note track c pitch time duration volume remark).entries f =
        .ok [{ place := i, tick := start, sense := .noteOn c pitch volume },
          { place := i, tick := n, sense := .noteOff c pitch volume }] ∧
      ∀ drop separate log k, Gives (addNote track (.int c) (.int pitch) time duration (.int volume) remark)
        (f.logged drop separate log k) ⟨⟩
        (f.logged drop separate (log ++ [(i, Event.beginning k start length c pitch volume remark),
          (i, Event.ending k n c pitch volume remark)]) (k + 1))) ∨
    ∃ x, (Call.note track c pitch time duration volume remark).entries f = .error x ∧
      ∀ drop separate log k, ∃ y,
        (addNote track (.int c) (.int pitch) time duration (.int volume) remark).run.run (f.logged drop separate log k) =
          (.error y, f.logged drop separate log k) := by
  have hget : ∀ drop separate log k, Gives get (f.logged drop separate log k) _ _ := fun _ _ _ _ => Gives.of_get (ε := Fault) _
  obtain ⟨e, htime⟩ := hfair.ticks
  obtain ⟨e', hduration⟩ := hlasts.ticks
  have hstart := instant_of_ticks htime
  have hlength := instant_of_ticks (g := id) hduration
  rw [Call.entries, hstart, hlength]
  cases hplace : f.notePlace track with
  | error x => exact .inr ⟨x, rfl, fun _ _ _ _ => ⟨x, by rw [addNote, (hget ..).run_bind, notePlace_logged, hplace]; rfl⟩⟩
  | ok i =>
    cases e with
    | error x => exact .inr ⟨x, rfl, fun _ _ _ _ => ⟨x, by rw [addNote, (hget ..).run_bind, notePlace_logged, hplace, ticks_logged, htime]; rfl⟩⟩
    | ok start =>
      cases e' with
      | error x =>
        exact .inr ⟨x, rfl, fun _ _ _ _ => ⟨x, by
          rw [addNote, (hget ..).run_bind, notePlace_logged, hplace, ticks_logged, htime, ticks_logged, hduration]; rfl⟩⟩
      | ok length =>
        obtain ⟨n, hn⟩ := Int.eq_ofNat_of_zero_le (hlasts.2 start length hstart hlength)
        refine .inl ⟨i, start, n, length, ?_, fun _ _ _ _ => addNote_logged hplace htime hduration hn⟩
        simp only [Except.map, Melody.ok_bind, id, hn, Int.toNat_natCast]
        rfl

theorem adds_addNote (hfair : f.Fair time) (hlasts : f.Lasts time duration) :
    f.Adds (addNote track (.int c) (.int pitch) time duration (.int volume) remark)
      ((Call.note track c pitch time duration volume remark).entries f) := by
  intro drop separate log k
  rcases addNote_cases track c pitch volume remark hfair hlasts with ⟨i, start, n, length, hentries, hgives⟩ | ⟨x, hentries, hfails⟩
  · rw [(hgives drop separate log k).ends]
    exact ⟨_, [(i, Event.beginning k start length c pitch volume remark), (i, Event.ending k n c pitch volume remark)],
      k + 1, hentries, .cons ⟨rfl, ⟨rfl, Track.voices_noteOn c pitch volume _ _⟩, rfl⟩
        (.cons ⟨rfl, ⟨rfl, Track.voices_noteOff c pitch volume _⟩, rfl⟩ .nil),
      ⟨by omega, by simp [Event.beginning, Event.ending], by simp [Event.beginning, Event.ending]⟩, rfl⟩
  · obtain ⟨y, hy⟩ := hfails drop separate log k
    rw [Ends, hy]
    exact ⟨⟨x, hentries⟩, rfl⟩

end Note

theorem adds_changeNoteTuning (track tunings program : Datum) (device : UInt8) (realTime : Bool) :
    f.Adds (changeNoteTuning track tunings (.int device.toNat) (.bool realTime) program)
      ((Call.noteTuning track tunings device realTime program).entries f) :=
  adds_get (fun _ _ _ _ => by rw [notePlace_logged]) (adds_bind fun i _ => adds_bind fun payload _ =>
    (logs_put i 0 (Track.voices_universalExclusive realTime device 8 2 payload) rfl).adds rfl)

end Adding

end File

namespace Call

theorem adds_run {f : File} {c : Call} (hc : c.Sound f) : f.Adds c.run (c.entries f) := by
  have hnote : ∀ track drop separate log k, (f.logged drop separate log k).notePlace track = f.notePlace track :=
    fun track _ _ _ _ => File.notePlace_logged track
  have hsetting : ∀ track drop separate log k, (f.logged drop separate log k).settingPlace track = f.settingPlace track :=
    fun track _ _ _ _ => File.settingPlace_logged track
  cases c with
  | note => exact File.adds_addNote hc.1 hc.2
  | trackName track => exact File.adds_putAt (hnote track) hc fun letters _ => ⟨Track.voices_trackName letters, rfl⟩
  | timeSignature track _ numerator denominator clocks notes =>
    exact File.adds_putAt_ok (hsetting track) hc (Track.voices_timeSignature numerator denominator clocks notes) rfl
  | tempo track => exact File.adds_putAt (hsetting track) hc.1 fun m hm => ⟨Track.voices_tempo (hc.2 m hm), rfl⟩
  | copyright track => exact File.adds_putAt (hnote track) hc fun letters _ => ⟨Track.voices_copyright letters, rfl⟩
  | keySignature track _ accidentals kind mode =>
    exact File.adds_putAt_ok (hsetting track) hc (Track.voices_keySignature accidentals kind mode) rfl
  | text track => exact File.adds_putAt (hnote track) hc fun letters _ => ⟨Track.voices_text letters, rfl⟩
  | programChange track channel _ program =>
    exact File.adds_putAt_ok (hnote track) hc (Track.voices_programChange channel program) rfl
  | channelPressure track channel _ pressure =>
    exact File.adds_putAt_ok (hnote track) hc (Track.voices_channelPressure channel pressure) rfl
  | controller track channel _ number value =>
    exact File.adds_putAt_ok (hnote track) hc (Track.voices_controller channel number value) rfl
  | pitchWheel track channel =>
    exact File.adds_putAt_ok (hnote track) hc.1 (Track.voices_pitchWheel channel hc.2.1 hc.2.2) rfl
  | parameter registered track channel time high low dataHigh dataLow timeOrder =>
    exact File.adds_setParameter (by cases registered <;> rfl) (by cases registered <;> rfl) channel high low dataHigh
      dataLow timeOrder hc
  | tuningBank _ channel _ bank timeOrder => exact File.adds_setParameter rfl rfl channel 0 4 0 (some bank) timeOrder hc
  | tuningProgram _ channel _ program timeOrder =>
    exact File.adds_setParameter rfl rfl channel 0 3 0 (some program) timeOrder hc
  | noteTuning track tunings device realTime program => exact File.adds_changeNoteTuning track tunings program device realTime
  | systemExclusive _ _ manufacturer payload => 
    exact File.adds_ticks_place hc fun i n => (File.logs_put i n (Track.voices_systemExclusive manufacturer payload) rfl).adds rfl
  | universalExclusive _ _ code subcode payload device realTime =>
    exact File.adds_ticks_place hc fun i n =>
      (File.logs_put i n (Track.voices_universalExclusive realTime device code subcode payload) rfl).adds rfl

theorem logs_attempt {f : File} {c : Call} (hc : c.Sound f) : f.Logs c.attempt (c.adds f) := by
  intro drop separate log k
  have hends : Ends c.attempt (f.logged drop separate log k) (fun _ f' => ∃ new k', List.Forall₂ File.Tells new (c.adds f) ∧
      File.Numbered k k' new ∧ f' = f.logged drop separate (log ++ new) k') fun _ _ => False := by
    rw [attempt, ends_tryCatch]
    refine (adds_run hc drop separate log k).mono ?_ ?_
    · rintro _ f' ⟨l, new, k', hl, htells, hnumbered, rfl⟩
      exact ⟨new, k', by rwa [adds, hl], hnumbered, rfl⟩
    · rintro _ f' ⟨⟨x, hx⟩, rfl⟩
      exact ⟨[], k, by rw [adds, hx]; exact .nil, ⟨le_rfl, .nil, by simp⟩, by rw [List.append_nil]⟩
  obtain ⟨_, f', hgives, new, k', htells, hnumbered, rfl⟩ := hends.exists_gives
  exact ⟨new, k', htells, hnumbered, hgives⟩

theorem logs_forM_attempt {f : File} {calls : List Call} (hc : ∀ c ∈ calls, c.Sound f) :
    f.Logs (calls.forM attempt) (calls.flatMap (adds f)) := by
  induction calls with
  | nil => exact .pure
  | cons c calls ih =>
    obtain ⟨hc, hcalls⟩ := List.forall_mem_cons.mp hc
    exact (logs_attempt hc).seq (ih hcalls)

end Call
end Midi
end Plainsong
