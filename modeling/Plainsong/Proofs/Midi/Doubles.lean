import Plainsong.Proofs.Midi.Separation
/- What dropping doubles loses. Of events taken for the same the first is kept
   (`find?_mem_distinct`). Where being taken for the same means saying the same,
   nothing is lost with the others (`bytes_eq_of_same`): so it is with tempos,
   names of tracks and settings of a channel. Copyright notices, texts and
   signatures are taken for the same by their tick alone (`same_iff_of_vague`), and
   the main statement says exactly which of them have no event left with their bytes
   (`removeDuplicates_keeps_bytes`). -/
namespace Plainsong.Midi

/-! ## Values taken for the same -/

theorem whole?_eq_of_same {a b : Datum} (ha : ∀ x, a ≠ .float x) (hb : ∀ x, b ≠ .float x) (h : a.same b = true) :
    a.whole? = b.whole? := by
  have hcompare : ∀ m n : Int, compare m n = .eq → m = n := fun _ _ => Int.compare_eq_eq.mp
  cases a <;> cases b <;> simp_all [Datum.same, Datum.compare?, Datum.whole?]

theorem toByte_congr {a b : Datum} (h : a.whole? = b.whole?) : a.toByte = b.toByte := by
  rw [Datum.toByte, Datum.toByte, h]

theorem onChannel_congr {a b : Datum} (status : Nat) (h : a.whole? = b.whole?) :
    Datum.onChannel status a = Datum.onChannel status b := by
  rw [Datum.onChannel, Datum.onChannel, h]

namespace Deed

/-- The type of a message that is taken for any other of its type. -/
def vague? : Deed → Option UInt8
  | copyright _ => some 0x02
  | text _ => some 0x01
  | keySignature .. => some 0x59
  | timeSignature .. => some 0x58
  | _ => none

/-- No setting of a channel has a double for a number. -/
def Plain : Deed → Prop
  | programChange channel program => (∀ x, channel ≠ .float x) ∧ ∀ x, program ≠ .float x
  | channelPressure channel pressure => (∀ x, channel ≠ .float x) ∧ ∀ x, pressure ≠ .float x
  | _ => True

theorem same_iff_of_vague {a b : Deed} {type : UInt8} (hb : b.vague? = some type) :
    a.same b = true ↔ a.vague? = some type := by
  cases b <;> cases hb <;> cases a <;> simp [same, vague?]

theorem bytes_eq_of_same {a b : Deed} (ha : a.Plain) (hb : b.Plain) (hnote : b.isNote = false) (hvague : b.vague? = none)
    (h : a.same b = true) (tick : Datum) (m n : Nat) :
    ({ tick, order := m, deed := a } : Event).bytes = ({ tick, order := n, deed := b } : Event).bytes := by
  have hsetting : ∀ {status : Nat} {c c' v v' : Datum}, ((∀ x, c ≠ .float x) ∧ ∀ x, v ≠ .float x) →
      ((∀ x, c' ≠ .float x) ∧ ∀ x, v' ≠ .float x) → (v.same v' && c.same c') = true →
      Event.channelMessage tick c status [v] = Event.channelMessage tick c' status [v'] := by
    intro status c c' v v' hv hv' hsame
    rw [Bool.and_eq_true] at hsame
    have hvalue := toByte_congr (whole?_eq_of_same hv.2 hv'.2 hsame.1)
    have hchannel := onChannel_congr status (whole?_eq_of_same hv.1 hv'.1 hsame.2)
    simp only [Event.channelMessage, hchannel, List.mapM_cons, List.mapM_nil, hvalue]
  unfold same at h
  split at h
  case h_3 => rw [eq_of_beq h]; rfl
  case h_7 => exact hsetting ha hb h
  case h_8 => exact hsetting ha hb h
  case h_9 => rw [eq_of_beq h]; rfl
  case h_11 => cases h
  case h_1 | h_2 => cases hnote
  case h_4 | h_5 | h_6 | h_10 => cases hvague

end Deed

namespace Track

/-! ## The first of its type -/

/-- The first vague event of its type and tick. -/
def firstVague? (t : Track) (ids : List Nat) (instant : Int) (type : UInt8) : Option Nat :=
  ids.find? fun j => (t.event j).instant = instant ∧ (t.event j).deed.vague? = some type

section Vague

variable {t : Track} {ids : List Nat} {i j k : Nat} {type : UInt8}

theorem same_vague_iff (hi : (t.event i).Whole) (hj : (t.event j).Whole) (htype : (t.event i).deed.vague? = some type) :
    (t.event j).same (t.event i) = true ↔
      (t.event j).instant = (t.event i).instant ∧ (t.event j).deed.vague? = some type := by
  rw [hj.same_eq hi, Bool.and_eq_true, decide_eq_true_eq, Deed.same_iff_of_vague htype]

theorem find?_mem_distinct (hsound : t.Sound ids) {instant : Int} (hj : t.firstVague? ids instant type = some j) :
    j ∈ t.distinct ids := by
  obtain ⟨hfirst, before, after, rfl, hbefore⟩ := List.find?_eq_some_iff_append.mp hj
  obtain ⟨htick, htype⟩ : (t.event j).instant = instant ∧ (t.event j).deed.vague? = some type := by simpa using hfirst
  have hnone : ((before.foldl t.keep []).any fun k => (t.event k).same (t.event j)) = false := by
    refine List.any_eq_false.mpr fun k hk hsame => ?_
    obtain ⟨kept, hkept, hfold⟩ := foldl_keep_sublist t before []
    have hmem : k ∈ before := hkept.subset (by simpa [hfold] using hk)
    have hvague := (same_vague_iff (hsound j (by simp)) (hsound k (by simp [hmem])) htype).mp hsame
    rw [htick] at hvague
    simpa [hvague] using hbefore k hmem
  have hd : t.distinct (before ++ j :: after) = ((before ++ j :: after).foldl t.keep []).reverse := rfl
  rw [hd, List.mem_reverse, List.foldl_append, List.foldl_cons]
  refine subset_foldl_keep t after _ ?_
  rw [keep, hnone]
  simp

theorem eq_of_mem_distinct (hsound : t.Sound ids) (hi : i ∈ t.distinct ids) (hj : j ∈ t.distinct ids)
    (htype : (t.event i).deed.vague? = some type) (hsame : (t.event j).same (t.event i) = true) : j = i := by
  have hsub := (distinct_sublist t ids).subset
  have hvague := (same_vague_iff (hsound i (hsub hi)) (hsound j (hsub hj)) htype).mp hsame
  have hback : (t.event i).same (t.event j) = true :=
    (same_vague_iff (hsound j (hsub hj)) (hsound i (hsub hi)) hvague.2).mpr ⟨hvague.1.symm, htype⟩
  by_contra hne
  have hsymm : Std.Symm fun i j =>
      (t.event i).same (t.event j) = false ∨ (t.event j).same (t.event i) = false := ⟨fun _ _ => Or.symm⟩
  have hpair := (distinct_pairwise t ids).imp (S := fun i j =>
    (t.event i).same (t.event j) = false ∨ (t.event j).same (t.event i) = false) .inl
  rcases hpair.forall hj hi hne with h | h
  · rw [hsame] at h
    cases h
  · rw [hback] at h
    cases h

end Vague

/-! ## Dropping doubles -/

/-- Event `j` stands for event `i`: it is that event or is taken for it, at its tick, and it is
    written with the same bytes. -/
def Stands (t : Track) (j i : Nat) : Prop :=
  (j = i ∨ (t.event j).same (t.event i) = true) ∧ (t.event j).tick = (t.event i).tick ∧
    (t.event j).bytes = (t.event i).bytes

theorem exists_stands {t : Track} {i : Nat} (hsound : t.Sound t.added) (hplain : ∀ j ∈ t.added, (t.event j).deed.Plain)
    (hi : i ∈ t.added) (hnote : (t.event i).deed.isNote = false) (hvague : (t.event i).deed.vague? = none) :
    ∃ j ∈ t.distinct t.added, t.Stands j i := by
  obtain ⟨j, hj, hsame⟩ := exists_distinct t hi
  rcases hsame with rfl | hsame
  · exact ⟨j, hj, .inl rfl, rfl, rfl⟩
  · have hadded := (distinct_sublist t t.added).subset hj
    have hparts := hsame
    rw [(hsound j hadded).same_eq (hsound i hi), Bool.and_eq_true, decide_eq_true_eq] at hparts
    have htick : (t.event j).tick = (t.event i).tick := by rw [hsound j hadded, hsound i hi, hparts.1]
    have hbytes := Deed.bytes_eq_of_same (hplain j hadded) (hplain i hi) hnote hvague hparts.2 (t.event i).tick
      (t.event j).order (t.event i).order
    rw [← htick] at hbytes
    exact ⟨j, hj, .inr hsame, htick, hbytes.trans (by rw [htick])⟩

theorem exists_stands_vague {t : Track} {i : Nat} {type : UInt8} (hsound : t.Sound t.added) (hi : i ∈ t.added)
    (htype : (t.event i).deed.vague? = some type) :
    (∃ j ∈ t.distinct t.added, t.Stands j i) ↔
      ∃ j, t.firstVague? t.added (t.event i).instant type = some j ∧ (t.event j).bytes = (t.event i).bytes := by
  have hsome : (t.firstVague? t.added (t.event i).instant type).isSome :=
    List.find?_isSome.mpr ⟨i, hi, by simp [htype]⟩
  obtain ⟨first, hfirst⟩ := Option.isSome_iff_exists.mp hsome
  have hkept := find?_mem_distinct hsound hfirst
  have hadded := (distinct_sublist t t.added).subset hkept
  obtain ⟨htick, hfirstType⟩ : (t.event first).instant = (t.event i).instant ∧ (t.event first).deed.vague? = some type := by
    simpa using List.find?_some hfirst
  have hsame := (same_vague_iff (hsound i hi) (hsound first hadded) htype).mpr ⟨htick, hfirstType⟩
  constructor
  · rintro ⟨j, hj, hstands, -, hbytes⟩
    -- whatever stands for the event is of its type and tick, so it is the first
    have hjadded := (distinct_sublist t t.added).subset hj
    obtain ⟨hjtick, hjtype⟩ : (t.event j).instant = (t.event i).instant ∧ (t.event j).deed.vague? = some type := by
      rcases hstands with rfl | hstands
      · exact ⟨rfl, htype⟩
      · exact (same_vague_iff (hsound i hi) (hsound j hjadded) htype).mp hstands
    have heq : first = j := eq_of_mem_distinct hsound hj hkept hjtype
      ((same_vague_iff (hsound j hjadded) (hsound first hadded) hjtype).mpr ⟨htick.trans hjtick.symm, hfirstType⟩)
    exact ⟨first, hfirst, heq ▸ hbytes⟩
  · rintro ⟨j, hj, hbytes⟩
    obtain rfl : first = j := Option.some.inj (hfirst.symm.trans hj)
    exact ⟨first, hkept, .inr hsame, by rw [hsound first hadded, hsound i hi, htick], hbytes⟩

/-- Dropping doubles leaves some of the events of a track. One stands for each event that was
    there and is not a note, except for those copyright notices, texts and signatures that are
    not written with the bytes of the first of their type at their tick. -/
theorem removeDuplicates_keeps_bytes (t : Track) (hsound : t.Sound t.added)
    (hplain : ∀ i ∈ t.added, (t.event i).deed.Plain) :
    ∃ kept : List Nat, Gives removeDuplicates t ⟨⟩ { t with added := kept } ∧ kept.Subperm t.added ∧
      ∀ i ∈ t.added, (t.event i).deed.isNote = false →
        ((∃ j ∈ kept, t.Stands j i) ↔ ∀ type, (t.event i).deed.vague? = some type →
          ∃ j, t.firstVague? t.added (t.event i).instant type = some j ∧ (t.event j).bytes = (t.event i).bytes) := by
  have hperm := t.ordered_perm (t.distinct t.added)
  refine ⟨_, removeDuplicates_whole hsound, hperm.subperm.trans (distinct_sublist t t.added).subperm, ?_⟩
  intro i hi hnote
  simp only [hperm.mem_iff]
  cases hvague : (t.event i).deed.vague? with
  | none => exact iff_of_true (exists_stands hsound hplain hi hnote hvague) (by simp)
  | some type =>
    rw [exists_stands_vague hsound hi hvague]
    simp

theorem removeDuplicates_keeps_tempo :
    let t := fresh true true [{ tick := .int 0, order := 1, deed := .text [97] }, { tick := .int 0, order := 2, deed := .tempo 5 },
      { tick := .int 0, order := 3, deed := .tempo 5 }]
    t.Sound t.added ∧ (∀ i ∈ t.added, (t.event i).deed.Plain) ∧
      ∃ kept : List Nat, Gives removeDuplicates t ⟨⟩ { t with added := kept } ∧ ∃ j ∈ kept, t.Stands j 2 := by
  intro t
  have hadded : t.added = [0, 1, 2] := rfl
  have hsound : t.Sound t.added := by
    intro i hi
    rw [hadded] at hi
    fin_cases hi <;> rfl
  have hplain : ∀ i ∈ t.added, (t.event i).deed.Plain := by
    intro i hi
    rw [hadded] at hi
    fin_cases hi <;> trivial
  obtain ⟨kept, hgives, -, hkept⟩ := removeDuplicates_keeps_bytes t hsound hplain
  refine ⟨hsound, hplain, kept, hgives, (hkept 2 (by simp [hadded]) rfl).mpr fun type htype => ?_⟩
  cases htype

/-- Of two texts at one tick only the first is kept, whatever the second says. -/
theorem text_lost_as_double :
    let t := fresh true true [{ tick := .int 0, order := 1, deed := .text [97] }, { tick := .int 0, order := 2, deed := .text [98] }]
    Gives removeDuplicates t ⟨⟩ { t with added := [0] } ∧ (t.event 0).bytes = .ok [0x00, 0xFF, 0x01, 0x01, 0x61] ∧
      (t.event 1).bytes = .ok [0x00, 0xFF, 0x01, 0x01, 0x62] := by
  intro t
  refine ⟨by cbv, by cbv, by cbv⟩

end Track

end Plainsong.Midi
