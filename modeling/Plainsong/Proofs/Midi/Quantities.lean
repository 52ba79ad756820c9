import Plainsong.Proofs.Midi.Melody
/- Quantities read back. A quantity is a row of bytes with the top bit set and one byte without it,
   and its value is that of the groups of seven bits in it (`grouped`). A reader goes on to the first
   byte without the top bit and takes all groups up to it (`read?_eq_some_iff`), so it fails exactly
   where no such byte is left. Of all rows of bytes that are read as a number the one that is written
   is the last part, behind empty groups (`eq_encode_of_read?`): it is the shortest. -/
namespace Plainsong.Midi

open List

open Reader (encodeOnto_zero encodeOnto_pos encodeOnto_append toNat_ofNat)

namespace VarLength

/-- The number in groups of seven bits, behind a number already read. -/
def grouped (value : Nat) (bytes : List UInt8) : Nat := bytes.foldl (fun v b => v * 128 + b.toNat % 128) value

theorem grouped_concat (value : Nat) (bytes : List UInt8) (b : UInt8) :
    grouped value (bytes ++ [b]) = grouped value bytes * 128 + b.toNat % 128 := by
  rw [grouped, foldl_append, foldl_cons, foldl_nil, grouped]

/-- A byte with the top bit set goes on. -/
def GoesOn (b : UInt8) : Prop := 128 ≤ b.toNat

/-! ## Reading -/

variable {bytes init : List UInt8} {last : UInt8} {value count n k : Nat}

theorem read?_goesOn (h : ∀ b ∈ init, GoesOn b) (rest : List UInt8) (value count : Nat) :
    read? (init ++ rest) value count = read? rest (grouped value init) (count + init.length) := by
  induction init generalizing value count with
  | nil => rfl
  | cons b init ih =>
    have hb : ¬ b.toNat < 128 := Nat.not_lt.mpr (h b (by simp))
    rw [cons_append, read?, if_neg hb, ih fun c hc => h c (by simp [hc]), length_cons,
      Nat.add_assoc count 1, Nat.add_comm 1]
    rfl

theorem read?_append (h : ∀ b ∈ init, GoesOn b) (hlast : ¬ GoesOn last) (rest : List UInt8) (value count : Nat) :
    read? (init ++ [last] ++ rest) value count = some (grouped value (init ++ [last]), count + (init.length + 1)) := by
  rw [append_assoc, read?_goesOn h, singleton_append, read?, if_pos (Nat.not_le.mp hlast), grouped_concat,
    Nat.add_assoc]

theorem read?_eq_none_iff : read? bytes value count = none ↔ ∀ b ∈ bytes, GoesOn b := by
  constructor
  · intro h
    induction bytes generalizing value count with
    | nil => simp
    | cons b rest ih =>
      rw [read?] at h
      split at h
      · cases h
      next hb => exact forall_mem_cons.mpr ⟨Nat.not_lt.mp hb, ih h⟩
  · intro h
    rw [← append_nil bytes, read?_goesOn h, read?]

theorem read?_eq_some_iff : read? bytes value count = some (n, k) ↔ ∃ init last rest, bytes = init ++ [last] ++ rest ∧
    (∀ b ∈ init, GoesOn b) ∧ ¬ GoesOn last ∧ n = grouped value (init ++ [last]) ∧ k = count + (init.length + 1) := by
  constructor
  · intro h
    by_cases hall : ∀ b ∈ bytes, GoesOn b
    · rw [read?_eq_none_iff.mpr hall] at h
      cases h
    · obtain ⟨init, last, rest, rfl, hlast, hinit⟩ : ∃ init last rest, bytes = init ++ [last] ++ rest ∧ ¬ GoesOn last ∧
          ∀ b ∈ init, GoesOn b := by
        clear h
        induction bytes with
        | nil => exact absurd (by simp) hall
        | cons b rest ih =>
          by_cases hb : GoesOn b
          · obtain ⟨init, last, rest, rfl, hlast, hinit⟩ := ih fun hrest => hall (forall_mem_cons.mpr ⟨hb, hrest⟩)
            exact ⟨b :: init, last, rest, by simp, hlast, forall_mem_cons.mpr ⟨hb, hinit⟩⟩
          · exact ⟨[], b, rest, by simp, hb, by simp⟩
      rw [read?_append hinit hlast] at h
      obtain ⟨hn, hk⟩ := Prod.mk.inj (Option.some.inj h)
      exact ⟨init, last, rest, rfl, hinit, hlast, hn.symm, hk.symm⟩
  · rintro ⟨init, last, rest, rfl, hinit, hlast, rfl, rfl⟩
    exact read?_append hinit hlast rest value count

theorem readAt?_append (before bytes : List UInt8) : readAt? before.length (before ++ bytes) = read? bytes 0 0 := by
  rw [readAt?, if_neg (by omega), Int.toNat_natCast, drop_left]

/-! ## Writing -/

theorem encodeOnto_concat (h : ¬ n = 0) : encodeOnto n [] = encodeOnto (n / 128) [] ++ [UInt8.ofNat (n % 128 + 128)] := by
  rw [encodeOnto_pos h, encodeOnto_append, nil_append]

theorem encode_eq (n : Nat) : encode n = encodeOnto (n / 128) [] ++ [UInt8.ofNat (n % 128)] := by
  rw [encode, encodeOnto_append, nil_append]

theorem toNat_group (n : Nat) : (UInt8.ofNat (n % 128 + 128)).toNat = n % 128 + 128 := toNat_ofNat (by omega)

theorem toNat_lastGroup (n : Nat) : (UInt8.ofNat (n % 128)).toNat = n % 128 := toNat_ofNat (by omega)

theorem goesOn_encodeOnto (n : Nat) : ∀ b ∈ encodeOnto n [], GoesOn b := by
  induction n using Nat.strongRecOn with
  | ind n ih =>
    by_cases hn : n = 0
    · rw [hn, encodeOnto_zero]
      simp
    · rw [encodeOnto_concat hn, forall_mem_append]
      refine ⟨ih (n / 128) (by omega), forall_mem_singleton.mpr ?_⟩
      rw [GoesOn, toNat_group]
      omega

theorem not_goesOn_last (n : Nat) : ¬ GoesOn (UInt8.ofNat (n % 128)) := by
  rw [GoesOn, toNat_lastGroup]
  omega

theorem eq_encodeOnto (h : ∀ b ∈ init, GoesOn b) : ∃ k, init = List.replicate k 0x80 ++ encodeOnto (grouped 0 init) [] := by
  induction init using List.reverseRecOn with
  | nil => exact ⟨0, by rw [grouped, foldl_nil, encodeOnto_zero]; rfl⟩
  | append_singleton init b ih =>
    obtain ⟨hinit, hb⟩ := forall_mem_append.mp h
    obtain ⟨k, hk⟩ := ih hinit
    have hb : 128 ≤ b.toNat := hb b (by simp)
    have hlt := b.toNat_lt
    rw [grouped_concat]
    by_cases hzero : grouped 0 init * 128 + b.toNat % 128 = 0
    · -- an empty group behind empty groups only
      have hbyte : b = 0x80 := UInt8.toNat_inj.mp (by change b.toNat = 128; omega)
      rw [show grouped 0 init = 0 by omega, encodeOnto_zero, append_nil] at hk
      refine ⟨k + 1, ?_⟩
      rw [hzero, encodeOnto_zero, append_nil, hbyte, replicate_succ']
      exact congrArg (· ++ [0x80]) hk
    · refine ⟨k, ?_⟩
      have hdiv : (grouped 0 init * 128 + b.toNat % 128) / 128 = grouped 0 init := by omega
      have hbyte : UInt8.ofNat ((grouped 0 init * 128 + b.toNat % 128) % 128 + 128) = b :=
        UInt8.toNat_inj.mp (by rw [toNat_group]; omega)
      rw [encodeOnto_concat hzero, hdiv, hbyte, ← append_assoc, ← hk]

theorem grouped_encodeOnto (n : Nat) : grouped 0 (encodeOnto n []) = n := by
  induction n using Nat.strongRecOn with
  | ind n ih =>
    by_cases hn : n = 0
    · rw [hn, encodeOnto_zero]
      rfl
    · rw [encodeOnto_concat hn, grouped_concat, ih (n / 128) (by omega), toNat_group]
      omega

theorem grouped_encode (n : Nat) : grouped 0 (encode n) = n := by
  rw [encode_eq, grouped_concat, grouped_encodeOnto, toNat_lastGroup]
  omega

theorem read?_encode (n : Nat) (rest : List UInt8) : read? (encode n ++ rest) 0 0 = some (n, (encode n).length) := by
  have hread := read?_append (goesOn_encodeOnto (n / 128)) (not_goesOn_last n) rest 0 0
  rwa [← encode_eq, grouped_encode, Nat.zero_add, ← length_singleton (a := UInt8.ofNat (n % 128)), ← length_append,
    ← encode_eq] at hread

theorem eq_encode_of_read? {rest : List UInt8} (h : read? (bytes ++ rest) 0 0 = some (n, bytes.length)) :
    ∃ k, bytes = List.replicate k 0x80 ++ encode n := by
  obtain ⟨init, last, rest', heq, hinit, hlast, hn, hlength⟩ := read?_eq_some_iff.mp h
  obtain ⟨rfl, -⟩ : bytes = init ++ [last] ∧ rest = rest' := append_inj heq (by simpa using hlength)
  obtain ⟨k, hk⟩ := eq_encodeOnto hinit
  rw [grouped_concat] at hn
  have hlast : last.toNat < 128 := Nat.not_le.mp hlast
  have hdiv : n / 128 = grouped 0 init := by omega
  have hbyte : UInt8.ofNat (n % 128) = last := UInt8.toNat_inj.mp (by rw [toNat_lastGroup]; omega)
  exact ⟨k, by rw [encode_eq, hdiv, hbyte, ← append_assoc, ← hk]⟩

theorem head?_encode (n : Nat) : (encode n).head? ≠ some 0x80 := by
  intro hhead
  obtain ⟨tail, htail⟩ : ∃ tail, encode n = 0x80 :: tail := List.head?_eq_some_iff.mp hhead
  -- without its empty group the row would still be read as the same number
  have hgoesOn : read? ([0x80] ++ tail) 0 0 = read? tail 0 1 :=
    read?_goesOn (forall_mem_singleton.mpr (le_refl 128)) tail 0 0
  have hread := read?_encode n []
  rw [append_nil, htail] at hread
  obtain ⟨init, last, rest, heq, hinit, hlast, hn, hlength⟩ := read?_eq_some_iff.mp (hgoesOn.symm.trans hread)
  obtain rfl : rest = [] := eq_nil_of_length_eq_zero (by
    have := congrArg List.length heq
    simp only [length_append, length_cons] at this hlength
    omega)
  rw [append_nil] at heq
  have hshort : read? (tail ++ []) 0 0 = some (n, tail.length) :=
    read?_eq_some_iff.mpr ⟨init, last, [], by rw [heq], hinit, hlast, hn, by rw [heq]; simp⟩
  obtain ⟨k, hk⟩ := eq_encode_of_read? hshort
  have := congrArg List.length (htail.trans (congrArg (0x80 :: ·) hk))
  simp only [length_append, length_cons, length_replicate] at this
  omega

/-! ## Both ways -/

/-- The bytes of every whole number from 0 on are read as that number wherever they stand, all of them
    and no more. All but the last have the top bit set, and the last has not. They are the shortest
    such bytes: any others are longer by empty groups at their head, and they have none. A reader
    fails exactly if no byte without the top bit is left. -/
theorem quantities_read_back :
    (∀ n : Nat, ∃ written, encodeDatum (.int n) = .ok written ∧
      (∀ p q : List UInt8, readAt? p.length (p ++ written ++ q) = some (n, written.length)) ∧
      (∃ init last, written = init ++ [last] ∧ (∀ b ∈ init, b.toNat.testBit 7 = true) ∧ last.toNat.testBit 7 = false) ∧
      written.head? ≠ some 0x80 ∧
      ∀ p bytes q : List UInt8, readAt? p.length (p ++ bytes ++ q) = some (n, bytes.length) →
        written.length ≤ bytes.length ∧ ∃ k, bytes = List.replicate k 0x80 ++ written) ∧
    ∀ (bytes : List UInt8) (offset : Nat), offset ≤ bytes.length →
      (readAt? offset bytes = none ↔ ¬ ∃ b ∈ bytes.drop offset, b.toNat < 128) := by
  have htop : ∀ b : UInt8, b.toNat.testBit 7 = true ↔ GoesOn b := by
    intro b
    have hlt := b.toNat_lt
    rw [Nat.testBit_eq_decide_div_mod_eq, decide_eq_true_eq, GoesOn]
    omega
  constructor
  · intro n
    refine ⟨encode n, Melody.encodeDatum_nat n, fun p q => ?_, ?_, head?_encode n, fun p bytes q h => ?_⟩
    · rw [List.append_assoc, readAt?_append, read?_encode]
    · refine ⟨_, _, encode_eq n, fun b hb => (htop b).mpr (goesOn_encodeOnto _ b hb), ?_⟩
      exact Bool.eq_false_iff.mpr fun h => not_goesOn_last n ((htop _).mp h)
    · rw [List.append_assoc, readAt?_append] at h
      obtain ⟨k, hk⟩ := eq_encode_of_read? h
      exact ⟨by rw [hk, List.length_append]; omega, k, hk⟩
  · intro bytes offset _
    have hread : readAt? offset bytes = read? (bytes.drop offset) 0 0 := by
      rw [readAt?, if_neg (by omega), Int.toNat_natCast]
    rw [hread, read?_eq_none_iff]
    simp only [GoesOn, not_exists, not_and, Nat.not_lt]

theorem quantities_read_back_16384 : (∃ written, encodeDatum (.int 16384) = .ok written ∧
      readAt? 2 ([0x81, 0x00] ++ written ++ [0x7F]) = some (16384, written.length) ∧
      readAt? 1 ([0x90] ++ [0x80, 0x81, 0x80, 0x00] ++ []) = some (16384, 4) ∧ written.length ≤ 4) ∧
    2 ≤ [0x00, 0x81, 0xFF].length ∧ readAt? 2 [0x00, 0x81, 0xFF] = none := by
  obtain ⟨written, hwritten, hread, -, -, hshortest⟩ := quantities_read_back.1 16384
  have hlonger : readAt? 1 ([0x90] ++ [0x80, 0x81, 0x80, 0x00] ++ []) = some (16384, 4) := by decide
  refine ⟨⟨written, hwritten, hread [0x81, 0x00] [0x7F], hlonger, (hshortest [0x90] _ [] hlonger).1⟩, by decide, ?_⟩
  exact (quantities_read_back.2 [0x00, 0x81, 0xFF] 2 (by decide)).mpr (by decide)

end VarLength

end Plainsong.Midi
