import Plainsong.Proofs.Midi.Reader
import Plainsong.Proofs.Midi.WholeTicks
/- Closing a track. Events with whole ticks have one order, by tick, rank and
   number (`Before`), so whatever order they were added in, the stream is the one
   list of them that stands in it; where no event doubles another none is lost,
   and where the notes sound one after the other none is moved. The data then say
   each event at its tick (`written`). -/
namespace Plainsong.Midi

open List

/-! ## Whole ticks -/

namespace Event

/-- An event at a whole tick. -/
def At (e : Event) (n : Nat) : Prop := e.tick = .int n

/-- The one order of events with whole ticks. -/
def Before (a b : Event) : Prop :=
  ∃ m n : Nat, a.At m ∧ b.At n ∧
    (m < n ∨ m = n ∧ (a.rank < b.rank ∨ a.rank = b.rank ∧ a.order < b.order))

theorem Before.upTo {a b : Event} (h : a.Before b) : a.upTo b = true := by
  obtain ⟨m, n, ha, hb, hlt⟩ := h
  rw [Event.upTo, decide_eq_true_eq, (Whole.of_int ha).2, (Whole.of_int hb).2]
  omega

theorem Before.not_upTo {a b : Event} (h : a.Before b) : ¬ b.upTo a = true := by
  obtain ⟨m, n, ha, hb, hlt⟩ := h
  rw [Event.upTo, decide_eq_true_eq, (Whole.of_int ha).2, (Whole.of_int hb).2]
  omega

def number (e : Event) : Nat :=
  match e.tick with
  | .int n => n.toNat
  | _ => 0

theorem number_of_at {e : Event} {n : Nat} (h : e.At n) : e.number = n := by
  rw [number, h]
  exact Int.toNat_natCast n

end Event

namespace Track

/-! ## Order -/

section Order

variable {t : Track} {ids sorted : List Nat}

theorem sound_of_at (hat : ∀ i ∈ ids, ∃ n, (t.event i).At n) : t.Sound ids := by
  intro i hi
  obtain ⟨n, hn⟩ := hat i hi
  exact (Event.Whole.of_int hn).1

theorem sorted_eq (hperm : sorted.Perm ids) (hat : ∀ i ∈ ids, ∃ n, (t.event i).At n)
    (hbefore : sorted.Pairwise fun i j => (t.event i).Before (t.event j)) : t.sorted ids = .ok sorted := by
  rw [sorted_whole (sound_of_at hat)]
  refine congrArg Except.ok (List.Perm.eq_of_pairwise ?_ (t.pairwise_ordered ids) (hbefore.imp Event.Before.upTo)
    ((t.ordered_perm ids).trans hperm.symm))
  intro i j hi hj hij hji
  have hi' : i ∈ sorted := hperm.mem_iff.mpr ((t.ordered_perm ids).mem_iff.mp hi)
  have hsym : sorted.Pairwise fun i j =>
      i = j ∨ (t.event i).Before (t.event j) ∨ (t.event j).Before (t.event i) :=
    hbefore.imp fun h => .inr (.inl h)
  have hflip := hbefore.imp (S := flip fun i j =>
      i = j ∨ (t.event i).Before (t.event j) ∨ (t.event j).Before (t.event i)) fun h => .inr (.inr h)
  rcases hsym.forall_of_forall_of_flip (fun _ _ => .inl rfl) hflip hi' hj with h | h | h
  · exact h
  · exact absurd hji h.not_upTo
  · exact absurd hij h.not_upTo

end Order

/-! ## Doubles -/

/-- One round of the search for doubles. -/
def keep (t : Track) (kept : List Nat) (i : Nat) : List Nat :=
  if kept.any fun j => (t.event j).same (t.event i) then kept else i :: kept

theorem foldl_keep_sublist (t : Track) (ids kept : List Nat) :
    ∃ sub : List Nat, sub.Sublist ids ∧ ids.foldl t.keep kept = sub.reverse ++ kept := by
  induction ids generalizing kept with
  | nil => exact ⟨[], List.Sublist.refl _, rfl⟩
  | cons i ids ih =>
    obtain ⟨sub, hsub, h⟩ := ih (t.keep kept i)
    rw [foldl_cons, h, keep]
    split
    · exact ⟨sub, hsub.cons i, rfl⟩
    · exact ⟨i :: sub, hsub.cons_cons i, by simp⟩

theorem distinct_sublist (t : Track) (ids : List Nat) : (t.distinct ids).Sublist ids := by
  obtain ⟨sub, hsub, h⟩ := foldl_keep_sublist t ids []
  have hd : t.distinct ids = (ids.foldl t.keep []).reverse := rfl
  rw [hd, h]
  simpa using hsub

variable {ids : List Nat} {openNotes : OpenNotes} {l : Reader.Timed} {t : Track}

theorem foldl_keep_eq (t : Track) {kept : List Nat}
    (hids : ids.Pairwise fun i j => (t.event i).same (t.event j) = false)
    (hkept : ∀ j ∈ kept, ∀ i ∈ ids, (t.event j).same (t.event i) = false) :
    ids.foldl t.keep kept = ids.reverse ++ kept := by
  induction ids generalizing kept with
  | nil => rfl
  | cons i ids ih =>
    rw [pairwise_cons] at hids
    have hnone : (kept.any fun j => (t.event j).same (t.event i)) = false := by
      rw [any_eq_false]
      intro j hj
      simp [hkept j hj i (by simp)]
    rw [foldl_cons, keep, hnone, if_neg (by simp), ih hids.2, reverse_cons, append_assoc,
      singleton_append]
    intro j hj k hk
    rcases mem_cons.mp hj with rfl | hj
    · exact hids.1 k hk
    · exact hkept j hj k (by simp [hk])

theorem distinct_eq (t : Track) (h : ids.Pairwise fun i j => (t.event i).same (t.event j) = false) : t.distinct ids = ids := by
  have hd : t.distinct ids = (ids.foldl t.keep []).reverse := rfl
  rw [hd, foldl_keep_eq t h (by simp)]
  simp

/-! ## Notes one at a time -/

/-- The notes sound one at a time, each ending before the next begins; `sounding`
    is the one that has begun. -/
def OneByOne : Option String → List Event → Prop
  | _, [] => True
  | sounding, e :: rest =>
    match e.deed with
    | .noteOn channel pitch .. => sounding = none ∧ OneByOne (some (noteKey pitch channel)) rest
    | .noteOff channel pitch .. => sounding = some (noteKey pitch channel) ∧ OneByOne none rest
    | _ => OneByOne sounding rest

/-- The table of open notes holds the sounding note once, and no other. -/
def Holding (openNotes : OpenNotes) (sounding : Option String) : Prop :=
  ∀ key, (sounding = some key → ∃ tick, openNotes.find? key = some [tick]) ∧
    (sounding ≠ some key → openNotes.find? key = none ∨ openNotes.find? key = some [])

theorem Holding.put_on (h : Holding openNotes none) (key : String) (tick : Datum) :
    Holding (openNotes.put key (tick :: (openNotes.find? key).getD [])) (some key) := by
  intro k
  by_cases hk : key = k
  · subst hk
    refine ⟨fun _ => ⟨tick, ?_⟩, fun hne => absurd rfl hne⟩
    rw [Table.find?_put_self]
    rcases (h key).2 (by simp) with h | h <;> simp [h]
  · refine ⟨fun he => absurd (Option.some.inj he) hk, fun _ => ?_⟩
    rw [Table.find?_put_of_ne _ _ hk]
    exact (h k).2 (by simp)

theorem Holding.put_off {key : String} (h : Holding openNotes (some key)) : Holding (openNotes.put key []) none := by
  intro k
  refine ⟨fun he => absurd he (by simp), fun _ => ?_⟩
  by_cases hk : key = k
  · subst hk
    exact .inr (Table.find?_put_self _ _ _)
  · rw [Table.find?_put_of_ne _ _ hk]
    exact (h k).2 (fun he => hk (Option.some.inj he))

theorem separateOne_gives {sounding : Option String} {i : Nat}
    {rest : List Event} (h : Holding openNotes sounding) (hone : OneByOne sounding (t.event i :: rest)) :
    ∃ after openNotes', Gives (separateOne openNotes i) t openNotes' t ∧ Holding openNotes' after ∧
      OneByOne after rest := by
  have hget : ∀ {x : Act Track OpenNotes} {f : Track → Act Track OpenNotes} {a : OpenNotes},
      x = get >>= f → Gives (f t) t a t → Gives x t a t := by
    intro x f a hx hf
    rw [hx]
    exact Gives.of_bind (Gives.of_get t) hf
  rw [OneByOne] at hone
  cases hdeed : (t.event i).deed with
  | noteOn channel pitch duration volume annotation =>
    rw [hdeed] at hone
    obtain ⟨rfl, hone⟩ := hone
    refine ⟨_, _, hget rfl ?_, h.put_on (noteKey pitch channel) (t.event i).tick, hone⟩
    simp only [hdeed]
    exact Gives.of_pure _ _
  | noteOff channel pitch volume annotation =>
    rw [hdeed] at hone
    obtain ⟨rfl, hone⟩ := hone
    obtain ⟨tick, hfind⟩ := (h (noteKey pitch channel)).1 rfl
    refine ⟨_, _, hget rfl ?_, h.put_off, hone⟩
    simp only [hdeed, hfind]
    exact Gives.of_pure _ _
  | _ =>
    rw [hdeed] at hone
    refine ⟨_, _, hget rfl ?_, h, hone⟩
    simp only [hdeed]
    exact Gives.of_pure _ _

theorem foldlM_separateOne {sounding : Option String}
    (h : Holding openNotes sounding) (hone : OneByOne sounding (ids.map t.event)) :
    ∃ openNotes', Gives (ids.foldlM separateOne openNotes) t openNotes' t := by
  induction ids generalizing openNotes sounding with
  | nil => exact ⟨_, Gives.of_pure _ _⟩
  | cons i ids ih =>
    obtain ⟨after, openNotes', hgives, hholding, hone⟩ := separateOne_gives h hone
    obtain ⟨final, hfinal⟩ := ih hholding hone
    exact ⟨final, Gives.of_bind hgives hfinal⟩

/-! ## Closing -/

section Closing

variable {t : Track} {ids : List Nat}

theorem removeDuplicates_gives (hat : ∀ i ∈ t.added, ∃ n, (t.event i).At n)
    (hperm : ids.Perm (t.distinct t.added))
    (hbefore : ids.Pairwise fun i j => (t.event i).Before (t.event j)) :
    Gives removeDuplicates t ⟨⟩ { t with added := ids } :=
  removeDuplicates_of_sorted (sound_of_at hat)
    (sorted_eq hperm (fun i hi => hat i ((distinct_sublist t t.added).subset hi)) hbefore)

theorem sortStream_gives (hat : ∀ i ∈ t.stream, ∃ n, (t.event i).At n)
    (hbefore : t.stream.Pairwise fun i j => (t.event i).Before (t.event j)) :
    Gives sortStream t ⟨⟩ t :=
  Gives.of_bind (Gives.of_get t) (Gives.of_bind (Gives.of_except (sorted_eq (List.Perm.refl _) hat hbefore) t)
    (Gives.of_set _ _))

theorem separate_gives (hat : ∀ i ∈ t.stream, ∃ n, (t.event i).At n)
    (hbefore : t.stream.Pairwise fun i j => (t.event i).Before (t.event j))
    (hone : OneByOne none (t.stream.map t.event)) : Gives separate t ⟨⟩ t := by
  have hempty : Holding [] none := fun key => ⟨fun h => absurd h (by simp), fun _ => .inl rfl⟩
  obtain ⟨openNotes, hfold⟩ := foldlM_separateOne hempty hone
  refine Gives.of_bind (Gives.of_get t) (Gives.of_bind hfold ?_)
  exact Gives.of_bind (Gives.of_get t)
    (Gives.of_bind (Gives.of_except (sorted_eq (List.Perm.refl _) hat hbefore) t) (Gives.of_set _ _))

theorem close_gives (hopen : t.closed = false) (hdrop : t.dropDuplicates = true) (hsep : t.separateNotes = true)
    (hat : ∀ i ∈ t.added, ∃ n, (t.event i).At n) (hperm : ids.Perm (t.distinct t.added))
    (hbefore : ids.Pairwise fun i j => (t.event i).Before (t.event j)) (hone : OneByOne none (ids.map t.event)) :
    Gives close t ⟨⟩ { t with closed := true, added := ids, stream := ids } := by
  have hids : ∀ i ∈ ids, ∃ n, (t.event i).At n :=
    fun i hi => hat i ((distinct_sublist t t.added).subset (hperm.subset hi))
  refine Gives.of_bind (Gives.of_get t) ?_
  rw [hopen]
  refine Gives.of_bind (Gives.of_modify _ _) (Gives.of_bind (Gives.of_get _) ?_)
  refine Gives.of_ite hdrop (Gives.of_bind
    (removeDuplicates_gives (t := { t with closed := true }) hat hperm hbefore) ?_)
  refine Gives.of_bind (Gives.of_modify _ _) ?_
  refine Gives.of_bind (sortStream_gives (t := { t with closed := true, added := ids, stream := ids }) hids hbefore) ?_
  refine Gives.of_bind (Gives.of_get _) (Gives.of_ite hsep ?_)
  exact separate_gives (t := { t with closed := true, added := ids, stream := ids }) hids hbefore hone

end Closing

/-! ## Ticks from one event to the next -/

/-- Events with their ticks counted from the event before. -/
def relative : Nat → List Event → List Event
  | _, [] => []
  | running, e :: rest => { e with tick := .int (e.number - running) } :: relative e.number rest

theorem event_setTick_self {i : Nat} (h : i < t.events.size) (tick : Datum) :
    (t.setTick i tick).event i = { t.event i with tick } := by
  simp [event, setTick, Array.getD, h, Array.getElem_modify]

theorem event_setTick_of_ne {i j : Nat} (h : i ≠ j) (tick : Datum) : (t.setTick i tick).event j = t.event j := by
  simp only [event, setTick, Array.getD_eq_getD_getElem?, Array.getElem?_modify, if_neg h]

/-- One round of the pass that makes ticks relative. -/
def relativeStep (origin running : Datum) (i : Nat) : Act Track Datum := do
  let adjusted ← liftM (((← get).event i).tick.sub origin)
  let tick ← liftM (adjusted.sub running)
  modify (·.setTick i tick)
  return adjusted

theorem foldlM_relative (hnodup : ids.Nodup) (hsize : ∀ i ∈ ids, i < t.events.size)
    (hat : ∀ i ∈ ids, ∃ n, (t.event i).At n) (origin running : Nat) :
    ∃ events last, Gives (ids.foldlM (relativeStep (.int origin)) (.int (running - origin))) t last { t with events } ∧
      ids.map { t with events := events }.event = relative running (ids.map t.event) ∧
      ∀ j, j ∉ ids → { t with events := events }.event j = t.event j := by
  induction ids generalizing t running with
  | nil => exact ⟨t.events, _, Gives.of_pure _ _, rfl, fun _ _ => rfl⟩
  | cons i ids ih =>
    obtain ⟨n, hn⟩ := hat i (by simp)
    rw [nodup_cons] at hnodup
    have hi : i < t.events.size := hsize i (by simp)
    have hother : ∀ j, i ≠ j → (t.setTick i (.int (n - running))).event j = t.event j :=
      fun j hj => event_setTick_of_ne hj _
    have hlater : ∀ j ∈ ids, (t.setTick i (.int (n - running))).event j = t.event j := by
      intro j hj
      refine hother j ?_
      rintro rfl
      exact hnodup.1 hj
    have hstep : Gives (relativeStep (.int origin) (.int (running - origin)) i) t (.int (n - origin))
        (t.setTick i (.int (n - running))) := by
      have h₁ : (t.event i).tick.sub (.int origin) = .ok (.int (n - origin)) := by rw [hn, sub_int]
      have h₂ : (Datum.int (n - origin)).sub (.int (running - origin)) = .ok (.int (n - running)) := by
        rw [sub_int, sub_sub_sub_cancel_right]
      exact Gives.of_bind (Gives.of_get t) (Gives.of_bind (Gives.of_except h₁ t)
        (Gives.of_bind (Gives.of_except h₂ t) (Gives.of_bind (Gives.of_modify _ t) (Gives.of_pure _ _))))
    obtain ⟨events, last, hgives, hmap, hrest⟩ := ih (t := t.setTick i (.int (n - running))) hnodup.2
      (fun j hj => by simpa [setTick] using hsize j (by simp [hj]))
      (fun j hj => by rw [hlater j hj]; exact hat j (by simp [hj])) n
    refine ⟨events, last, Gives.of_bind hstep hgives, ?_, ?_⟩
    · have hself : { t with events := events }.event i = { t.event i with tick := .int (n - running) } := by
        rw [← event_setTick_self hi]
        exact hrest i hnodup.1
      rw [map_cons, map_cons, relative, Event.number_of_at hn, hself]
      congr 1
      rw [← map_congr_left hlater]
      exact hmap
    · intro j hj
      rw [mem_cons, not_or] at hj
      rw [← hother j (Ne.symm hj.1)]
      exact hrest j hj.2

/-! ## Writing -/

/-- What a deed is in the data: behind any number of ticks, this message. -/
def Says (d : Deed) (m : Reader.Message) : Prop :=
  m.Valid ∧ ∀ n order : Nat,
    ({ tick := .int n, order, deed := d } : Event).bytes = .ok (VarLength.encode n ++ m.bytes)

/-- An event at a tick that says a message. -/
def Spoken (e : Event) (p : Nat × Reader.Message) : Prop := e.At p.1 ∧ Says e.deed p.2

theorem bytes_relative {es : List Event} (h : List.Forall₂ Spoken es l) {running : Nat}
    (ho : Reader.Ordered running l) :
    ∃ parts, List.Forall₂ (fun e b => Event.bytes e = .ok b) (relative running es) parts ∧
      parts.flatten ++ trailer = Reader.encode running l := by
  induction h generalizing running with
  | nil => exact ⟨[], .nil, rfl⟩
  | @cons e p es l he _ ih =>
    obtain ⟨tick, m⟩ := p
    obtain ⟨hat, hsays⟩ := he
    obtain ⟨hle, ho⟩ := ho
    obtain ⟨parts, hparts, hflat⟩ := ih ho
    have hnumber := Event.number_of_at hat
    refine ⟨(VarLength.encode (tick - running) ++ m.bytes) :: parts, .cons ?_ (by rwa [hnumber]), ?_⟩
    · have hdelta : (e.number : Int) - running = ((tick - running : Nat) : Int) := by
        rw [hnumber]
        simp only at hle ⊢
        omega
      rw [hdelta]
      exact hsays.2 _ _
    · rw [flatten_cons, append_assoc, hflat, Reader.encode]

/-- One round of the pass that writes. -/
def writeOne (i : Nat) : Act Track Unit := do
  let bytes ← liftM ((← get).event i).bytes
  modify fun t => { t with data := t.data ++ bytes }

theorem forM_writeOne {parts : List (List UInt8)}
    (h : List.Forall₂ (fun i b => (t.event i).bytes = .ok b) ids parts) (data : List UInt8) :
    Gives (ids.forM writeOne) { t with data } ⟨⟩ { t with data := data ++ parts.flatten } := by
  induction h generalizing data with
  | nil => simpa using Gives.of_pure (ε := Fault) PUnit.unit { t with data := data }
  | @cons i b ids parts hb _ ih =>
    have hone : Gives (writeOne i) { t with data } ⟨⟩ { t with data := data ++ b } :=
      Gives.of_bind (Gives.of_get _) (Gives.of_bind (Gives.of_except hb _) (Gives.of_modify _ _))
    rw [flatten_cons, ← append_assoc]
    exact Gives.of_bind hone (ih (data ++ b))

theorem makeRelative_gives {t' : Track} {last origin : Datum}
    (h : Gives (t.stream.foldlM (relativeStep origin) (.int 0)) t last t') :
    Gives (makeRelative origin) t ⟨⟩ t' :=
  Gives.of_bind (Gives.of_get t) (Gives.of_bind h (Gives.of_pure _ _))

theorem writeStream_gives (data : List UInt8)
    (h : Gives (t.stream.forM writeOne) t ⟨⟩ { t with data }) (hlength : (data ++ trailer).length < 2 ^ 32) :
    Gives writeStream t ⟨⟩ { t with data := data ++ trailer, length? := some (data ++ trailer).length } := by
  have hfits : ¬ lengthLimit ≤ (data ++ trailer).length := by
    simp only [lengthLimit, Nat.pow_eq]
    omega
  refine Gives.of_bind (Gives.of_get t) (Gives.of_bind h
    (Gives.of_bind (Gives.of_modify _ _) (Gives.of_bind (Gives.of_get _) ?_)))
  rw [if_neg hfits]
  exact Gives.of_bind (Gives.of_pure _ _) (Gives.of_modify _ _)

theorem writeStream_fails (data : List UInt8)
    (h : Gives (t.stream.forM writeOne) t ⟨⟩ { t with data }) (hlength : 2 ^ 32 ≤ (data ++ trailer).length) :
    Fails writeStream t .doesNotFit := by
  have hlong : lengthLimit ≤ (data ++ trailer).length := by simpa only [lengthLimit, Nat.pow_eq] using hlength
  refine Fails.of_bind (Gives.of_get t) (Fails.of_bind h
    (Fails.of_bind (Gives.of_modify _ _) (Fails.of_bind (Gives.of_get _) ?_)))
  rw [if_pos hlong]
  exact Fails.of_first (Fails.of_throw _ _)

/-- Writing a closed track gives the data of messages, or fails where they are too long. -/
def Writes (t : Track) (l : Reader.Timed) : Prop :=
  ((Reader.encode 0 l).length < 2 ^ 32 → ∃ t', Gives (do makeRelative (.int 0); writeStream) t ⟨⟩ t' ∧
    t'.data = Reader.encode 0 l ∧ t'.length? = some (Reader.encode 0 l).length) ∧
  (2 ^ 32 ≤ (Reader.encode 0 l).length → Fails (do makeRelative (.int 0); writeStream) t .doesNotFit)

theorem written (hdata : t.data = []) (hnodup : t.stream.Nodup)
    (hsize : ∀ i ∈ t.stream, i < t.events.size) (hat : ∀ i ∈ t.stream, ∃ n, (t.event i).At n)
    (hspoken : List.Forall₂ Spoken (t.stream.map t.event) l)
    (ho : Reader.Ordered 0 l) : Writes t l := by
  obtain ⟨events, last, hfold, hmap, -⟩ := foldlM_relative hnodup hsize hat 0 0
  obtain ⟨parts, hparts, hflat⟩ := bytes_relative hspoken ho
  rw [← hmap, forall₂_map_left_iff] at hparts
  have hwrite := forM_writeOne hparts t.data
  rw [hdata, nil_append] at hwrite
  have hwrite : Gives (t.stream.forM writeOne) { t with events := events } ⟨⟩
      { t with events := events, data := parts.flatten } := by simpa [hdata] using hwrite
  rw [Writes, ← hflat]
  constructor
  · intro hlength
    exact ⟨_, Gives.of_bind (makeRelative_gives hfold)
      (writeStream_gives (t := { t with events := events }) parts.flatten hwrite hlength), rfl, rfl⟩
  · intro hlength
    exact Fails.of_bind (makeRelative_gives hfold)
      (writeStream_fails (t := { t with events := events }) parts.flatten hwrite hlength)

/-! ## From added events to data -/

theorem ordered_of_before {es : List Event} (h : List.Forall₂ Spoken es l) {running : Nat}
    (hlow : ∀ e ∈ es, running ≤ e.number) (hbefore : es.Pairwise Event.Before) : Reader.Ordered running l := by
  induction h generalizing running with
  | nil => trivial
  | @cons e p es l he _ ih =>
    rw [pairwise_cons] at hbefore
    have hnumber := Event.number_of_at he.1
    refine ⟨hnumber ▸ hlow e (by simp), ih (fun e' he' => ?_) hbefore.2⟩
    obtain ⟨m, n, hm, hn, hlt⟩ := hbefore.1 e' he'
    rw [Event.number_of_at hn]
    have := (Event.number_of_at hm).symm.trans hnumber
    omega

theorem nodup_of_before (h : ids.Pairwise fun i j => (t.event i).Before (t.event j)) : ids.Nodup := by
  refine h.imp fun {i j} hij => ?_
  rintro rfl
  exact hij.not_upTo hij.upTo

/-- An open track whose events, put in order, say the messages `l`. -/
structure Ready (t : Track) (l : Reader.Timed) : Prop where
  opened : t.closed = false
  dropped : t.dropDuplicates = true
  separated : t.separateNotes = true
  empty : t.data = []
  known : ∀ i ∈ t.added, i < t.events.size ∧ ∃ n, (t.event i).At n
  ordered : ∃ ids : List Nat, ids.Perm (t.distinct t.added) ∧ (ids.map t.event).Pairwise Event.Before ∧
    OneByOne none (ids.map t.event) ∧ List.Forall₂ Spoken (ids.map t.event) l

theorem Ready.closes (h : t.Ready l) :
    ∃ t', Gives (do close; sortStream) t ⟨⟩ t' ∧ (∀ i ∈ t'.stream, ∃ n, (t'.event i).At n) ∧ t'.Writes l := by
  obtain ⟨ids, hperm, hbefore, hone, hspoken⟩ := h.ordered
  have hpair : ids.Pairwise fun i j => (t.event i).Before (t.event j) := pairwise_map.mp hbefore
  have hmem : ∀ i ∈ ids, i < t.events.size ∧ ∃ n, (t.event i).At n :=
    fun i hi => h.known i ((distinct_sublist t t.added).subset (hperm.subset hi))
  refine ⟨{ t with closed := true, added := ids, stream := ids }, ?_, fun i hi => (hmem i hi).2, ?_⟩
  · refine Gives.of_bind (close_gives h.opened h.dropped h.separated (fun i hi => (h.known i hi).2) hperm hpair hone) ?_
    exact sortStream_gives (t := { t with closed := true, added := ids, stream := ids })
      (fun i hi => (hmem i hi).2) hpair
  · exact written (t := { t with closed := true, added := ids, stream := ids }) h.empty
      (nodup_of_before hpair) (fun i hi => (hmem i hi).1) (fun i hi => (hmem i hi).2) hspoken
      (ordered_of_before hspoken (fun e _ => Nat.zero_le _) hbefore)

theorem Ready.reads (h : t.Ready l) : Reader.track (Reader.encode 0 l) = some l := by
  obtain ⟨ids, -, hbefore, -, hspoken⟩ := h.ordered
  refine Reader.track_encode ?_ (ordered_of_before hspoken (fun e _ => Nat.zero_le _) hbefore)
  clear hbefore h
  generalize ids.map t.event = es at hspoken
  induction hspoken with
  | nil => simp
  | cons he _ ih =>
    intro p hp
    rcases mem_cons.mp hp with rfl | hp
    · exact he.2.1
    · exact ih p hp

end Track

namespace File

variable {f : File}

theorem onTrack_gives {α : Type} {i : Nat} {act : Act Track α} {a : α} {t' : Track}
    (h : Gives act (f.tracks.getD i default) a t') :
    Gives (onTrack i act) f a { f with tracks := f.tracks.setIfInBounds i t' } := by
  refine Gives.of_bind (Gives.of_get f) ?_
  rw [h]
  exact Gives.of_bind (Gives.of_set _ _) (Gives.of_pure _ _)

theorem earlier_int (m n : Nat) : earlier (.int m) (.int n) = .ok (.int (min n m : Nat)) := by
  rw [earlier, before?_int]
  rcases Nat.lt_or_ge n m with h | h
  · have h' : (n : Int) < m := by exact_mod_cast h
    simp only [h', decide_true, Nat.min_eq_left h.le]
  · have h' : ¬ (n : Int) < m := by exact_mod_cast h.not_gt
    simp only [h', decide_false, Nat.min_eq_right h]

theorem foldlM_earlier {ticks : List Datum} (h : ∀ d ∈ ticks, ∃ n : Nat, d = .int n) (start : Nat) :
    ∃ k : Nat, ticks.foldlM earlier (.int start) = .ok (.int k) ∧ k ≤ start ∧ ∀ n : Nat, .int n ∈ ticks → k ≤ n := by
  induction ticks generalizing start with
  | nil => exact ⟨start, rfl, le_rfl, by simp⟩
  | cons d ticks ih =>
    obtain ⟨m, rfl⟩ := h d (by simp)
    obtain ⟨k, hk, hstart, hle⟩ := ih (fun d hd => h d (by simp [hd])) (min m start)
    refine ⟨k, ?_, by omega, fun n hn => ?_⟩
    · rw [foldlM_cons, earlier_int]
      exact hk
    · rcases mem_cons.mp hn with heq | hn
      · cases heq
        omega
      · exact hle n hn

theorem forM_onTrack_gives {t₀ t₁ u₀ u₁ : Track} (h : f.tracks = #[t₀, t₁]) {act : Act Track PUnit}
    (h₀ : Gives act t₀ ⟨⟩ u₀) (h₁ : Gives act t₁ ⟨⟩ u₁) :
    Gives ((List.range f.tracks.size).forM fun i => onTrack i act) f ⟨⟩ { f with tracks := #[u₀, u₁] } := by
  have hfirst : Gives (onTrack 0 act) f ⟨⟩ { f with tracks := #[u₀, t₁] } := by
    have := onTrack_gives (f := f) (i := 0) (by rw [h]; exact h₀)
    rwa [h] at this
  have hsecond : Gives (onTrack 1 act) { f with tracks := #[u₀, t₁] } ⟨⟩ { f with tracks := #[u₀, u₁] } :=
    onTrack_gives (f := { f with tracks := #[u₀, t₁] }) (i := 1) h₁
  rw [h]
  exact Gives.of_bind hfirst (Gives.of_bind hsecond (Gives.of_pure _ _))

theorem origin_int (h : ∀ t ∈ f.tracks, ∀ i ∈ t.stream, ∃ n, (t.event i).At n) :
    ∃ k : Nat, f.origin = .ok (.int k) ∧ ∀ t ∈ f.tracks, ∀ e ∈ t.streamEvents.head?, k ≤ e.number := by
  have hhead : ∀ t ∈ f.tracks, ∀ e ∈ t.streamEvents.head?, e.tick = .int e.number := by
    intro t ht e he
    obtain ⟨i, hi, rfl⟩ := mem_map.mp (mem_of_head? he)
    obtain ⟨n, hn⟩ := h t ht i hi
    rw [Event.number_of_at hn]
    exact hn
  have hticks : ∀ d ∈ f.tracks.toList.filterMap fun t => t.streamEvents.head?.map (·.tick), ∃ n : Nat, d = .int n := by
    intro d hd
    obtain ⟨t, ht, hd⟩ := mem_filterMap.mp hd
    obtain ⟨e, he, rfl⟩ := Option.map_eq_some_iff.mp hd
    exact ⟨_, hhead t (Array.mem_toList_iff.mp ht) e he⟩
  obtain ⟨k, hk, -, hle⟩ := foldlM_earlier hticks 100000000
  refine ⟨k, hk, fun t ht e he => hle _ (mem_filterMap.mpr ⟨t, Array.mem_toList_iff.mpr ht, ?_⟩)⟩
  rw [Option.mem_def.mp he, Option.map_some, hhead t ht e he]

theorem close_eq {t₀ t₁ u₀ u₁ : Track} (htracks : f.tracks = #[t₀, t₁])
    (hopen : f.closed = false) (hadjust : f.adjustOrigin = false)
    (hu₀ : Gives (do Track.close; Track.sortStream) t₀ ⟨⟩ u₀)
    (hu₁ : Gives (do Track.close; Track.sortStream) t₁ ⟨⟩ u₁)
    (hat : ∀ t ∈ #[u₀, u₁], ∀ i ∈ t.stream, ∃ n, (t.event i).At n) :
    close.run.run f = (do
      (List.range 2).forM fun i => onTrack i do Track.makeRelative (.int 0); Track.writeStream
      modify fun f => { f with closed := true } : Act File Unit).run.run { f with tracks := #[u₀, u₁] } := by
  obtain ⟨k, hk, -⟩ := origin_int (f := { f with tracks := #[u₀, u₁] }) hat
  have hzero : (if f.adjustOrigin = true then Datum.int k else .int 0) = .int 0 := by rw [hadjust]; rfl
  have hfirst := forM_onTrack_gives htracks hu₀ hu₁
  have hsize : f.tracks.size = 2 := by rw [htracks]; rfl
  rw [hsize] at hfirst
  rw [close, (Gives.of_get f).run_bind, if_neg (by rw [hopen]; simp), (Gives.of_get f).run_bind, hsize,
    hfirst.run_bind, (Gives.of_get _).run_bind, (Gives.of_except hk _).run_bind, hzero]

theorem chunk_eq {t : Track} {l : Reader.Timed} (hdata : t.data = Reader.encode 0 l)
    (hlength : t.length? = some (Reader.encode 0 l).length) :
    chunk t = .ok (Reader.trackChunk (Reader.encode 0 l)) := by
  rw [chunk, hlength, hdata]
  rfl

section Writing

variable {f : File} {t₀ t₁ : Track} {l₀ l₁ : Reader.Timed}

theorem write_reads (htracks : f.tracks = #[t₀, t₁])
    (hopen : f.closed = false) (hadjust : f.adjustOrigin = false) (hformat : f.format < 2 ^ 16)
    (hdivision : f.division < 2 ^ 16) (h₀ : t₀.Ready l₀) (h₁ : t₁.Ready l₁)
    (hfits₀ : (Reader.encode 0 l₀).length < 2 ^ 32) (hfits₁ : (Reader.encode 0 l₁).length < 2 ^ 32) :
    ∃ bytes f', Gives write f bytes f' ∧
      Reader.file bytes = some { format := f.format, division := f.division, tracks := [l₀, l₁] } := by
  obtain ⟨u₀, hu₀, hat₀, hw₀⟩ := h₀.closes
  obtain ⟨u₁, hu₁, hat₁, hw₁⟩ := h₁.closes
  obtain ⟨v₀, hv₀, hdata₀, hlen₀⟩ := hw₀.1 hfits₀
  obtain ⟨v₁, hv₁, hdata₁, hlen₁⟩ := hw₁.1 hfits₁
  have hclose : Gives close f ⟨⟩ { f with tracks := #[v₀, v₁], closed := true } := by
    rw [Gives, close_eq htracks hopen hadjust hu₀ hu₁ (by simpa using ⟨hat₀, hat₁⟩)]
    exact Gives.of_bind (forM_onTrack_gives (f := { f with tracks := #[u₀, u₁] }) rfl hv₀ hv₁) (Gives.of_modify _ _)
  have hchunks : [v₀, v₁].mapM chunk =
      .ok [Reader.trackChunk (Reader.encode 0 l₀), Reader.trackChunk (Reader.encode 0 l₁)] := by
    rw [mapM_cons, chunk_eq hdata₀ hlen₀, mapM_cons, chunk_eq hdata₁ hlen₁]
    rfl
  refine ⟨_, _, Gives.of_bind hclose (Gives.of_bind (Gives.of_get _)
    (Gives.of_bind (Gives.of_except hchunks _) (Gives.of_pure _ _))), ?_⟩
  have hforall : List.Forall₂ (fun d t => List.length d < 2 ^ 32 ∧ Reader.track d = some t)
      [Reader.encode 0 l₀, Reader.encode 0 l₁] [l₀, l₁] :=
    .cons ⟨hfits₀, h₀.reads⟩ (.cons ⟨hfits₁, h₁.reads⟩ .nil)
  exact Reader.file_chunks (f := { f with tracks := #[v₀, v₁], closed := true }) hforall hformat hdivision rfl
    (by simp)

theorem onTrack_fails {i : Nat} {act : Act Track PUnit} {e : Fault}
    (h : Fails act (f.tracks.getD i default) e) : Fails (onTrack i act) f e := by
  obtain ⟨t', h⟩ := h
  refine Fails.of_bind (Gives.of_get f) ?_
  rw [h]
  exact Fails.of_bind (Gives.of_set _ _) (Fails.of_throw _ _)

theorem write_fails (htracks : f.tracks = #[t₀, t₁]) (hopen : f.closed = false) (hadjust : f.adjustOrigin = false)
    (h₀ : t₀.Ready l₀) (h₁ : t₁.Ready l₁) (hlong : 2 ^ 32 ≤ (Reader.encode 0 l₁).length) :
    Fails write f .doesNotFit := by
  obtain ⟨u₀, hu₀, hat₀, hw₀⟩ := h₀.closes
  obtain ⟨u₁, hu₁, hat₁, hw₁⟩ := h₁.closes
  have hclose : Fails close f .doesNotFit := by
    rw [Fails, close_eq htracks hopen hadjust hu₀ hu₁ (by simpa using ⟨hat₀, hat₁⟩)]
    refine Fails.of_first ?_
    rcases Nat.lt_or_ge (Reader.encode 0 l₀).length (2 ^ 32) with hfits | hlong₀
    · obtain ⟨v₀, hv₀, -⟩ := hw₀.1 hfits
      exact Fails.of_bind (onTrack_gives (f := { f with tracks := #[u₀, u₁] }) (i := 0) hv₀)
        (Fails.of_first (onTrack_fails (hw₁.2 hlong)))
    · exact Fails.of_first (onTrack_fails (hw₀.2 hlong₀))
  exact Fails.of_first hclose

end Writing

end File

end Plainsong.Midi
