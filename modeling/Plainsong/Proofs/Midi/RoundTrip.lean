import Plainsong.Proofs.Midi.Calls
/- What is added to a file is read back from it. In a file that neither drops
   doubles nor separates notes a track is closed by one sort, by tick, rank and the
   number of the call; that is the stable sort of its entries by tick and rank, in
   the order of the calls (`Entry.track`). The main statement is that whatever calls
   were made, if the file is written then it is read back with exactly the entries of
   the calls in it (`File.reads_back`). -/
namespace Plainsong.Midi

namespace Entry

/-- By tick, and by rank within a tick. -/
def notAfter (a b : Entry) : Bool :=
  decide (a.tick < b.tick ∨ a.tick = b.tick ∧ a.sense.rank ≤ b.sense.rank)

/-- Entries by tick and rank, those that tie in the order of the calls. -/
def told (entries : List Entry) : Reader.Told := (entries.mergeSort notAfter).map fun e => (e.tick, e.sense)

/-- What a track of the file tells. -/
def track (entries : List Entry) (i : Nat) : Reader.Told := told (entries.filter (·.place = i))

theorem notAfter_trans (a b c : Entry) (hab : a.notAfter b = true) (hbc : b.notAfter c = true) :
    a.notAfter c = true := by
  simp only [notAfter, decide_eq_true_eq] at *
  omega

theorem notAfter_total (a b : Entry) : (a.notAfter b || b.notAfter a) = true := by
  simp only [notAfter, Bool.or_eq_true, decide_eq_true_eq]
  omega

theorem told_rising (entries : List Entry) : (told entries).Pairwise fun p q => p.1 ≤ q.1 := by
  rw [told, List.pairwise_map]
  refine (List.pairwise_mergeSort notAfter_trans notAfter_total _).imp fun {a b} h => ?_
  simp only [notAfter, decide_eq_true_eq] at h
  omega

end Entry

/-! ## Closing by one sort -/

namespace Event

/-- By tick, and by rank within a tick. -/
def ranked (a b : Event) : Bool :=
  decide (a.instant < b.instant ∨ a.instant = b.instant ∧ a.rank ≤ b.rank)

theorem ranked_total (a b : Event) : (a.ranked b || b.ranked a) = true := by
  simp only [ranked, Bool.or_eq_true, decide_eq_true_eq]
  omega

theorem mergeSort_upTo {es : List Event} (h : es.Pairwise fun a b => a.order ≤ b.order) :
    es.mergeSort upTo = es.mergeSort ranked := by
  refine mergeSort_eq_of_ties upTo_total ranked_total (h.imp fun {a b} hab => ?_)
  rw [upTo, ranked, decide_eq_decide]
  omega

end Event

namespace Track

theorem events_fresh (drop separate : Bool) (es : List Event) :
    (List.range es.length).map (fresh drop separate es).event = es := addedEvents_ofEvents es

theorem close_plain {t : Track} {ids : List Nat} (hopen : t.closed = false) (hdrop : t.dropDuplicates = false)
    (hseparate : t.separateNotes = false) (hsorted : t.sorted t.added = .ok ids) (hagain : t.sorted ids = .ok ids) :
    Gives (do close; sortStream) t ⟨⟩ { t with closed := true, stream := ids } := by
  have hsort : ∀ {u : Track}, u.sorted u.stream = .ok ids → Gives sortStream u ⟨⟩ { u with stream := ids } := fun h =>
    Gives.of_bind (Gives.of_get _) (Gives.of_bind (Gives.of_except h _) (Gives.of_set _ _))
  have hclose : Gives close t ⟨⟩ { t with closed := true, stream := ids } := by
    refine Gives.of_bind (Gives.of_get t) ?_
    rw [if_neg (by simp [hopen])]
    refine Gives.of_bind (Gives.of_modify _ _) (Gives.of_bind (Gives.of_get _) ?_)
    rw [if_neg (by simp [hdrop])]
    refine Gives.of_bind (Gives.of_modify _ _) (Gives.of_bind
      (hsort (u := { t with closed := true, stream := t.added }) hsorted) (Gives.of_bind (Gives.of_get _) ?_))
    rw [if_neg (by simp [hseparate])]
    exact Gives.of_pure _ _
  exact Gives.of_bind hclose (hsort (u := { t with closed := true, stream := ids }) hagain)

theorem close_ordered {t : Track} (hopen : t.closed = false) (hdrop : t.dropDuplicates = false)
    (hseparate : t.separateNotes = false) (hsound : t.Sound t.added) :
    Gives (do close; sortStream) t ⟨⟩ { t with closed := true, stream := t.ordered t.added } := by
  refine close_plain hopen hdrop hseparate (sorted_whole hsound) ?_
  rw [sorted_whole hsound.ordered, ordered_ordered]

def Enters (e : Event) (entry : Entry) : Prop := Heard e (entry.tick, entry.sense) ∧ e.rank = entry.sense.rank

theorem ranked_eq_notAfter {e e' : Event} {a b : Entry} (h : Enters e a) (h' : Enters e' b) :
    e.ranked e' = a.notAfter b := by
  rw [Event.ranked, Entry.notAfter, (Event.Whole.of_int h.1.1).2, (Event.Whole.of_int h'.1.1).2, h.2, h'.2,
    decide_eq_decide, Nat.cast_lt, Nat.cast_inj]

theorem settled_fresh {es : List Event} {entries : List Entry} (henters : List.Forall₂ Enters es entries)
    (horder : es.Pairwise fun a b => a.order ≤ b.order) :
    Ends (do close; sortStream) (fresh false false es) (fun _ t => t.Settled (Entry.told entries) fun _ => True)
      fun _ _ => True := by
  have hevents : (fresh false false es).added.map (fresh false false es).event = es := events_fresh false false es
  have hsound : (fresh false false es).Sound (fresh false false es).added := by
    intro i hi
    have hmem := List.mem_map_of_mem (f := (fresh false false es).event) hi
    rw [hevents] at hmem
    obtain ⟨entry, -, h⟩ := exists_of_forall₂ henters hmem
    exact (Event.Whole.of_int h.1.1).1
  rw [(close_ordered rfl rfl rfl hsound).ends]
  have hperm := (fresh false false es).ordered_perm (fresh false false es).added
  refine ⟨rfl, hperm.nodup_iff.mpr List.nodup_range, fun i hi => ?_, ?_, Entry.told_rising entries,
    fun _ _ _ _ _ _ => trivial, fun _ _ _ _ _ => trivial⟩
  · simpa [fresh] using hperm.mem_iff.mp hi
  · have hstream : streamEvents { fresh false false es with
        closed := true, stream := (fresh false false es).ordered (fresh false false es).added } = es.mergeSort Event.ranked := by
      rw [← Event.mergeSort_upTo horder]
      exact ((fresh false false es).map_event_ordered _).trans (congrArg (List.mergeSort · Event.upTo) hevents)
    rw [hstream, Entry.told, List.forall₂_map_right_iff]
    exact (forall₂_mergeSort (R := Enters) (fun _ _ _ _ => ranked_eq_notAfter) henters).imp fun _ _ h => h.1

end Track

namespace File

theorem toWord_lt {d : Datum} {n : Nat} (h : d.toWord = .ok n) : n < 2 ^ 16 := by
  rw [Datum.toWord] at h
  split at h
  · split at h
    · next hrange =>
      cases h
      simp only [Bool.and_eq_true, decide_eq_true_eq] at hrange
      omega
    · cases h
  · cases h

theorem of_create {s : Settings} {f : File} (h : create s = .ok f) :
    f.format < 2 ^ 16 ∧ f.division < 2 ^ 16 ∧ f.tracks.size < 2 ^ 16 ∧ f.closed = false ∧
      f.adjustOrigin = s.adjustOrigin ∧ f = f.logged s.dropDuplicates s.separateNotes [] 0 := by
  obtain ⟨wanted, h⟩ : ∃ wanted : Datum, (do
      let format ← s.format.toWord
      let count ← wanted.toWord
      let division ← s.division.toWord
      return { format, division, adjustOrigin := s.adjustOrigin, timesAreTicks := s.timesAreTicks,
               tracks := Array.replicate count
                 { dropDuplicates := s.dropDuplicates, separateNotes := s.separateNotes } }) = Except.ok f := by
    rw [create] at h
    split at h
    · exact (bind_eq_ok.mp h).imp fun _ h => h.2
    · exact ⟨s.tracks, h⟩
  obtain ⟨format, hformat, h⟩ := bind_eq_ok.mp h
  obtain ⟨count, hcount, h⟩ := bind_eq_ok.mp h
  obtain ⟨division, hdivision, ⟨⟩⟩ := bind_eq_ok.mp h
  have hempty : Track.fresh s.dropDuplicates s.separateNotes [] =
    { dropDuplicates := s.dropDuplicates, separateNotes := s.separateNotes } := rfl
  refine ⟨toWord_lt hformat, toWord_lt hdivision, by simpa using toWord_lt hcount, rfl, rfl, ?_⟩
  simp [logged, eventsAt, hempty]

theorem enters_of_tells {log : List (Nat × Event)} {entries : List Entry} (h : List.Forall₂ Tells log entries) (i : Nat) :
    List.Forall₂ Track.Enters (eventsAt log i) (entries.filter (·.place = i)) := by
  induction h with
  | nil => exact .nil
  | @cons p e log entries hp _ ih =>
    obtain ⟨hplace, henters⟩ := hp
    have henters : Track.Enters p.2 e := henters
    by_cases hi : e.place = i
    · simpa [eventsAt, hplace, hi] using List.Forall₂.cons henters ih
    · simpa [eventsAt, hplace, hi] using ih

/-- Whatever calls were made on a file that keeps every event as it is, if the file is
    written then it is read back with the entries of the calls in it. -/
theorem reads_back {s : Settings} {f f' : File} {calls : List Call} {bytes : List UInt8} (hcreate : create s = .ok f)
    (hdrop : s.dropDuplicates = false) (hseparate : s.separateNotes = false) (hadjust : s.adjustOrigin = false)
    (hsound : ∀ c ∈ calls, c.Sound f) (hwrite : Gives (do calls.forM Call.attempt; write) f bytes f') :
    ∃ c : Reader.Content, Reader.file bytes = some c ∧ c.format = f.format ∧ c.division = f.division ∧
      c.tracks.map Reader.Timed.told =
        (List.range f.tracks.size).map (Entry.track (calls.flatMap (Call.adds f))) := by
  obtain ⟨hformat, hdivision, hsize, hopen, hadjust', hlogged⟩ := of_create hcreate
  rw [hdrop, hseparate] at hlogged
  obtain ⟨log, k, htells, hnumbered, hcalls⟩ := Call.logs_forM_attempt hsound false false [] 0
  rw [← hlogged, List.nil_append] at hcalls
  have hwrite' : Gives write (f.logged false false log k) bytes f' := by
    rwa [Gives, hcalls.run_bind] at hwrite
  have hclose : List.Forall₂ (fun t i => Ends (do Track.close; Track.sortStream) t (fun _ u => ∃ qs,
      qs = Entry.track (calls.flatMap (Call.adds f)) i ∧ u.Settled qs fun _ => True) fun _ _ => True)
      (f.logged false false log k).tracks.toList (List.range f.tracks.size) := by
    rw [logged, List.forall₂_map_left_iff, List.forall₂_same]
    intro i _
    have horder : (eventsAt log i).Pairwise fun a b => a.order ≤ b.order := by
      rw [eventsAt, List.pairwise_map]
      exact hnumbered.2.1.sublist List.filter_sublist
    exact (Track.settled_fresh (enters_of_tells htells i) horder).mono (fun _ _ h => ⟨_, rfl, h⟩) fun _ _ h => h
  obtain ⟨c, origin, qss, hfile, hc, hc', hzero, hqss, htold⟩ := (ends_write (f := f.logged false false log k) hopen hformat
    hdivision (by simpa [logged] using hsize) hclose).of_gives hwrite'
  refine ⟨c, hfile, hc, hc', ?_⟩
  have hlist : qss = (List.range f.tracks.size).map (Entry.track (calls.flatMap (Call.adds f))) := by
    rw [← List.forall₂_eq_eq_eq, List.forall₂_map_right_iff]
    exact hqss.flip
  rw [htold, hzero (hadjust'.trans hadjust), hlist]
  simp [Reader.fromOrigin]

/-! ## Two files -/

/-- A file of one track that keeps every event as it is, with events added to its tracks. -/
def holding (timesAreTicks : Bool) (counter : Nat) (tempos notes : List Event) : File where
  format := 1
  division := 960
  adjustOrigin := false
  timesAreTicks
  tracks := #[Track.fresh false false tempos, Track.fresh false false notes]
  counter

theorem write_holding (timesAreTicks : Bool) (counter : Nat) (tempos notes : List Event) (ids ids' : List Nat)
    {bytes : List UInt8} (h : (Track.fresh false false tempos).sorted (List.range tempos.length) = .ok ids)
    (hagain : (Track.fresh false false tempos).sorted ids = .ok ids)
    (h' : (Track.fresh false false notes).sorted (List.range notes.length) = .ok ids')
    (hagain' : (Track.fresh false false notes).sorted ids' = .ok ids')
    (hbytes : (finish.run.run { holding timesAreTicks counter tempos notes with
      tracks := #[{ Track.fresh false false tempos with closed := true, stream := ids },
        { Track.fresh false false notes with closed := true, stream := ids' }] }).1.toOption = some bytes) :
    ∃ f', Gives write (holding timesAreTicks counter tempos notes) bytes f' := by
  have hclose : List.Forall₂ (fun t u => Gives (do Track.close; Track.sortStream) t ⟨⟩ u)
      [Track.fresh false false tempos, Track.fresh false false notes]
      [{ Track.fresh false false tempos with closed := true, stream := ids },
        { Track.fresh false false notes with closed := true, stream := ids' }] :=
    .cons (Track.close_plain rfl rfl rfl h hagain) (.cons (Track.close_plain rfl rfl rfl h' hagain') .nil)
  exact ⟨_, (write_run (f := holding timesAreTicks counter tempos notes) rfl hclose).trans (Gives.of_toOption hbytes)⟩

/-- A note, added before what stands in front of it, and a text for a track that is not there. -/
def mixedCalls (channel other : Fin 16) (pitch volume : Fin 128) : List Call :=
  [.tempo (.int 0) (.int 0) (.int 120), .note (.int 0) channel pitch (.int 1) (.int 1) volume .none,
    .text (.int 7) (.int 0) "lost", .pitchWheel (.int 0) other (.int 1) (-8192), .text (.int 0) (.int 1) "a"]

theorem mixedCalls_sound (channel other : Fin 16) (pitch volume : Fin 128) :
    ∀ call ∈ mixedCalls channel other pitch volume, call.Sound (holding false 0 [] []) := by
  have hfair : ∀ n : Nat, (holding false 0 [] []).Fair (.int n) := fun n => by
    rw [Fair, if_neg (by simp [holding]), before?_int]
    simp
  simp only [mixedCalls, List.forall_mem_cons]
  refine ⟨⟨hfair 0, ?_⟩, ⟨hfair 1, ?_⟩, hfair 0, ⟨hfair 1, by omega, by omega⟩, hfair 1, by simp⟩
  · rintro m ⟨⟩
    decide
  · refine ⟨fun h => (by cases h), ?_⟩
    rintro start length ⟨⟩ ⟨⟩
    decide

/-- The events of the note and of what stands in front of it. -/
def mixedEvents (channel other : Fin 16) (pitch volume : Fin 128) : List Event :=
  [Event.beginning 1 960 960 channel pitch volume .none, Event.ending 1 1920 channel pitch volume .none,
    { tick := .int 960, order := 2, deed := .pitchWheel (.int other) (.int (-8192)) },
    { tick := .int 960, order := 3, deed := .text [97] }]

theorem reads_back_mixed : ∃ bytes f' c,
    create { dropDuplicates := false, separateNotes := false } = .ok (holding false 0 [] []) ∧
    (∀ call ∈ mixedCalls 0 15 60 100, call.Sound (holding false 0 [] [])) ∧
    Gives (do (mixedCalls 0 15 60 100).forM Call.attempt; write) (holding false 0 [] []) bytes f' ∧
    Reader.file bytes = some c ∧ c.format = 1 ∧ c.division = 960 ∧
    c.tracks.map Reader.Timed.told = [[(0, .tempo 500000)], [(960, .pitchWheel 15 (-8192)), (960, .text [97]),
      (960, .noteOn 0 60 100), (1920, .noteOff 0 60 100)]] := by
  have hcalls : Gives ((mixedCalls 0 15 60 100).forM Call.attempt) (holding false 0 [] []) ⟨⟩
      (holding false 4 [{ tick := .int 0, order := 0, deed := .tempo 500000 }] (mixedEvents 0 15 60 100)) := rfl
  obtain ⟨f', hwrite⟩ := write_holding false 4 [{ tick := .int 0, order := 0, deed := .tempo 500000 }] (mixedEvents 0 15 60 100) [0]
    [2, 3, 0, 1] (by cbv) (by cbv) (by cbv) (by cbv) (Option.some_get (by decide +kernel)).symm
  have hcreate : create { dropDuplicates := false, separateNotes := false } = .ok (holding false 0 [] []) := rfl
  have hgives : Gives (do (mixedCalls 0 15 60 100).forM Call.attempt; write) (holding false 0 [] []) _ f' :=
    Gives.of_bind hcalls hwrite
  obtain ⟨c, hfile, hformat, hdivision, htold⟩ := reads_back hcreate rfl rfl rfl (mixedCalls_sound 0 15 60 100) hgives
  refine ⟨_, f', c, hcreate, mixedCalls_sound 0 15 60 100, hgives, hfile, hformat, hdivision, htold.trans ?_⟩
  cbv

/-- In a file that counts in ticks a double is not told from the whole number before it: an
    event is read back a tick before its own. -/
theorem double_read_early : ∃ bytes f' c, (Datum.float 9007199254740996.0).before? (.int 0) = some false ∧
    ((holding true 0 [] []).instant (.float 9007199254740996.0)).toOption = some 9007199254740996 ∧
    create { dropDuplicates := false, separateNotes := false, timesAreTicks := true } = .ok (holding true 0 [] []) ∧
    Gives (do
      [Call.text (.int 0) (.int 9007199254740995) "a", .text (.int 0) (.float 9007199254740996.0) "b"].forM Call.attempt
      write) (holding true 0 [] []) bytes f' ∧
    Reader.file bytes = some c ∧
    c.tracks.map Reader.Timed.told = [[], [(9007199254740995, .text [97]), (9007199254740995, .text [98])]] := by
  have hcalls : Gives ([Call.text (.int 0) (.int 9007199254740995) "a",
      .text (.int 0) (.float 9007199254740996.0) "b"].forM Call.attempt) (holding true 0 [] []) ⟨⟩
      (holding true 2 [] [{ tick := .int 9007199254740995, order := 0, deed := .text [97] },
        { tick := .float 9007199254740996.0, order := 1, deed := .text [98] }]) := rfl
  have hsorted : (Track.fresh false false [{ tick := .int 9007199254740995, order := 0, deed := .text [97] },
      { tick := .float 9007199254740996.0, order := 1, deed := .text [98] }]).sorted [0, 1] = .ok [0, 1] := by
    rw [Track.sorted, if_pos (by decide +kernel), List.mergeSort_of_pairwise (by decide +kernel)]
  obtain ⟨f', hwrite⟩ := write_holding true 2 [] _ [] [0, 1] rfl rfl hsorted hsorted
    (Option.some_get (by decide +kernel)).symm
  refine ⟨_, f', _, by decide +kernel, by decide +kernel, rfl, Gives.of_bind hcalls hwrite,
    (Option.some_get (by decide +kernel)).symm, by decide +kernel⟩

end File

end Plainsong.Midi
