import Plainsong.Proofs.Double.Rounding
/- The values of doubles that are not negative, and what arithmetic does to them.
   `Holds x v` says that the double `x` stands for the number `v`; `Rounded x v`
   says that it is `v` rounded, which may be an infinity. Sum, product, quotient
   and the reading of a decimal all round, so each is exact where a double holds
   the result, and each keeps to every bound that a double holds. -/
namespace Plainsong.Decimal

open Float.Model Float.Model.UnpackedFloat Nat

/-! ## Packing -/

theorem unpackSign_packComponents (f : Format) (s : Sign) (e : BitVec f.exponentBits)
    (m : BitVec f.mantissaBitsWithoutImplicit) : unpackSign (packComponents f s e m) = s.toBitVec := by
  refine BitVec.eq_of_getLsbD_eq fun i hi => ?_
  have hi0 : i = 0 := by omega
  subst hi0
  simp [unpackSign, packComponents, BitVec.getLsbD_append, BitVec.getElem_append]

theorem ofBitVec_toBitVec (s : Sign) : Sign.ofBitVec s.toBitVec = s := by
  cases s <;> rfl

variable {x y : Float} {m n : Nat} {b v w : ℚ}

theorem unpack_packComponents_normal (s : Sign) {biased : Nat} (hm : 2 ^ 52 ≤ m) (hm' : m < 2 ^ 53)
    (hb : 0 < biased) (hb' : biased < 2047) :
    UnpackedFloat.unpack .binary64 (packComponents .binary64 s (BitVec.ofNat 11 biased) (BitVec.ofNat 52 m)) =
      .finite s m ((biased : Int) - 1075) (by omega) := by
  have hall : ¬ BitVec.ofNat 11 biased = -1#11 := by
    intro h
    have := congrArg BitVec.toNat h
    simp at this
    omega
  have hzero : ¬ BitVec.ofNat 11 biased = 0#11 := by
    intro h
    have := congrArg BitVec.toNat h
    simp at this
    omega
  have hmant : (1#1 ++ BitVec.ofNat 52 m).toNat = m := by
    rw [BitVec.toNat_append, ← shiftLeft_add_eq_or_of_lt (BitVec.isLt _)]
    simp only [BitVec.toNat_ofNat, shiftLeft_eq]
    omega
  simp only [UnpackedFloat.unpack, unpackMantissa_packComponents, unpackExponent_packComponents,
    if_neg hall, if_neg hzero, unpackSign_packComponents, ofBitVec_toBitVec, hmant, BitVec.toNat_ofNat]
  congr 1
  simp only [Format.exponentBias]
  omega

theorem unpack_packComponents_subnormal (s : Sign) (hm : 0 < m) (hm' : m < 2 ^ 52) :
    UnpackedFloat.unpack .binary64 (packComponents .binary64 s 0#11 (BitVec.ofNat 52 m)) =
      .finite s m (-1074) hm := by
  have hall : ¬ (0#11 : BitVec 11) = -1#11 := by decide
  have hmant : ¬ BitVec.ofNat 52 m = 0#52 := by
    intro h
    have := congrArg BitVec.toNat h
    simp at this
    omega
  simp only [UnpackedFloat.unpack, unpackMantissa_packComponents, unpackExponent_packComponents,
    if_neg hall, unpackSign_packComponents, ofBitVec_toBitVec, if_true, dif_neg hmant, BitVec.toNat_ofNat]
  congr 1
  omega

theorem unpack_pack_ofParts (s : Sign) {e : Int} (h : Canonical m e) :
    UnpackedFloat.unpack .binary64 (UnpackedFloat.pack .binary64 (ofParts s m e)) =
      if m ≠ 0 ∧ 971 < e then .infinity s else ofParts s m e := by
  by_cases h0 : m = 0
  · subst h0
    cases s <;> simp [ofParts] <;> rfl
  have hbias : (e + (Format.binary64.exponentBias : Int) + ((52 : Nat) : Int)).toNat = (e + 1075).toNat := by
    simp only [Format.exponentBias]
    omega
  simp only [ofParts, dif_neg h0, UnpackedFloat.pack, hbias]
  have hleast := h.least
  by_cases hbig : 971 < e
  · rw [if_pos (by omega), if_pos ⟨h0, hbig⟩]
    cases s <;> rfl
  have hsmall : ¬ 2 ^ 11 ≤ (e + 1075).toNat + 1 := by omega
  rw [if_neg hsmall, if_neg (c := m ≠ 0 ∧ 971 < e) (fun h => hbig h.2)]
  by_cases hfull : 2 ^ 52 ≤ m
  · rw [if_pos (by rw [log2_eq hfull h.lt]; rfl), unpack_packComponents_normal s hfull h.lt (by omega) (by omega)]
    congr 1
    omega
  · have hlog : m.log2 < 52 := (log2_lt h0).mpr (by omega)
    have he : e = -1074 := h.full.resolve_left hfull
    have hbits : ¬ m.log2 + 1 = Format.binary64.mantissaBits := by
      simp only [Format.mantissaBits]
      omega
    rw [if_neg hbits, unpack_packComponents_subnormal s (by omega) (by omega)]
    congr 1
    exact he.symm

/-! ## Values -/

/-- The double with given bits, where they are in the form of a double. -/
def ofUnpacked (u : UnpackedFloat) : Float := Float.ofModel (Float.Model.pack u)

/-- What a double stands for. -/
def unpacked (x : Float) : UnpackedFloat := x.toModel.unpack

/-- A double that is not negative and stands for a number. -/
def Holds (x : Float) (v : ℚ) : Prop :=
  ∃ (m : Nat) (e : Int), Canonical m e ∧ e ≤ 971 ∧ unpacked x = ofParts .positive m e ∧ v = m * 2 ^ e

/-- A double that is a number rounded, an infinity if the number is past the range. -/
def Rounded (x : Float) (v : ℚ) : Prop :=
  ∃ w, Faithful v w ∧ (w < ceiling ↔ v < brim) ∧
    (w < ceiling → Holds x w) ∧ (ceiling ≤ w → unpacked x = .infinity .positive)

theorem unpacked_ofUnpacked (u : UnpackedFloat) :
    unpacked (ofUnpacked u) = UnpackedFloat.unpack .binary64 (UnpackedFloat.pack .binary64 u) := rfl

theorem rounded_ofParts {e : Int} (h : Canonical m e) :
    (((m : ℚ) * 2 ^ e < ceiling) → Holds (ofUnpacked (ofParts .positive m e)) ((m : ℚ) * 2 ^ e)) ∧
      (ceiling ≤ (m : ℚ) * 2 ^ e → unpacked (ofUnpacked (ofParts .positive m e)) = .infinity .positive) := by
  have hmq : (m : ℚ) ≤ 2 ^ 53 := by exact_mod_cast h.lt.le
  by_cases h0 : m = 0
  · subst h0
    refine ⟨fun _ => ⟨0, -1074, ⟨by norm_num, le_rfl, .inr rfl⟩, by norm_num, ?_, by simp⟩, fun hle => ?_⟩
    · rw [unpacked_ofUnpacked, unpack_pack_ofParts _ h]
      simp [ofParts]
    · have : (0 : ℚ) < ceiling := by rw [ceiling_eq]; positivity
      simp only [cast_zero, zero_mul] at hle
      exact absurd hle (not_le.mpr this)
  by_cases hbig : 971 < e
  · have h52 : (2 : ℚ) ^ (52 : Int) ≤ m := by
      have := h.full.resolve_right (by omega)
      exact_mod_cast this
    have hle : ceiling ≤ (m : ℚ) * 2 ^ e := by
      calc ceiling = 2 ^ (52 + 972 : Int) := ceiling_eq
        _ = 2 ^ (52 : Int) * 2 ^ (972 : Int) := zpow_add₀ (by norm_num) _ _
        _ ≤ m * 2 ^ e := mul_le_mul h52 (zpow_le_zpow_right₀ (by norm_num) (by omega)) (by positivity) (by positivity)
    refine ⟨fun hlt => absurd hlt (not_lt.mpr hle), fun _ => ?_⟩
    rw [unpacked_ofUnpacked, unpack_pack_ofParts _ h, if_pos ⟨h0, hbig⟩]
  · have hlt : (m : ℚ) * 2 ^ e < ceiling := by
      have hm : (m : ℚ) < 2 ^ 53 := by exact_mod_cast h.lt
      calc (m : ℚ) * 2 ^ e < 2 ^ 53 * 2 ^ e := mul_lt_mul_of_pos_right hm (by positivity)
        _ ≤ 2 ^ 53 * 2 ^ (971 : Int) :=
            mul_le_mul_of_nonneg_left (zpow_le_zpow_right₀ (by norm_num) (by omega)) (by positivity)
    refine ⟨fun _ => ⟨m, e, h, by omega, ?_, rfl⟩, fun hle => absurd hlt (not_lt.mpr hle)⟩
    rw [unpacked_ofUnpacked, unpack_pack_ofParts _ h, if_neg (fun hc => hbig hc.2)]

theorem rounded_roundWithAccuracy {num den : Nat} {e : Int} (hm : 0 < m) (h : num < den) (he : e ≤ lastPlace m e) :
    Rounded (ofUnpacked (roundWithAccuracy .binary64 .positive m e (accuracyOfFraction num den)))
      (((m * den + num : Nat) : ℚ) / den * 2 ^ e) := by
  refine ⟨roundedAt m e num den * 2 ^ lastPlace m e, faithful_roundedAt hm h he, roundedAt_lt_iff hm h he, ?_⟩
  have hle := roundedAt_le (m := m) e h
  have hfull := le_roundedAt hm h he
  have hleast : -1074 ≤ lastPlace m e := by
    simp only [lastPlace]
    omega
  rw [roundWithAccuracy_eq _ hm h he]
  by_cases hr : roundedAt m e num den = 2 ^ 53
  · have hval : ((roundedAt m e num den : Nat) : ℚ) * 2 ^ lastPlace m e =
        ((2 ^ 52 : Nat) : ℚ) * 2 ^ (lastPlace m e + 1) := by
      rw [hr, zpow_add₀ (by norm_num)]
      push_cast
      ring
    rw [if_pos hr, hval]
    exact rounded_ofParts ⟨by norm_num, by omega, .inl le_rfl⟩
  · rw [if_neg hr]
    refine rounded_ofParts ⟨by omega, hleast, ?_⟩
    by_cases hp : lastPlace m e = -1074
    · exact .inr hp
    · exact .inl (hfull hp)

/-! ## What follows from being rounded -/

theorem Holds.nonneg (h : Holds x v) : 0 ≤ v := by
  obtain ⟨m, e, -, -, -, rfl⟩ := h
  positivity

theorem Holds.le_greatest (h : Holds x v) : v ≤ (2 ^ 53 - 1) * 2 ^ (971 : Int) := by
  obtain ⟨m, e, hc, he, -, rfl⟩ := h
  have hm : (m : ℚ) ≤ 2 ^ 53 - 1 := by
    have : (m : ℚ) + 1 ≤ 2 ^ 53 := by exact_mod_cast hc.lt
    linarith
  exact mul_le_mul hm (zpow_le_zpow_right₀ (by norm_num) he) (by positivity) (by norm_num)

/-- A number that a double can hold. -/
def Representable (v : ℚ) : Prop := ∃ (k : Nat) (f : Int), k < 2 ^ 53 ∧ -1074 ≤ f ∧ v = k * 2 ^ f

theorem representable_nat (h : n < 2 ^ 53) : Representable n := ⟨n, 0, h, by norm_num, by simp⟩

theorem Rounded.holds (h : Rounded x v) (hv : v < brim) : ∃ w, Holds x w ∧ Faithful v w := by
  obtain ⟨w, hf, hiff, hw, -⟩ := h
  exact ⟨w, hw (hiff.mpr hv), hf⟩

theorem Rounded.exact (h : Rounded x v) (hr : Representable v) (hv : v < brim) : Holds x v := by
  obtain ⟨w, hw, hf⟩ := h.holds hv
  obtain ⟨k, f, hk, hf', rfl⟩ := hr
  obtain ⟨hlo, hhi⟩ := hf k f hk hf'
  rwa [le_antisymm (hhi le_rfl) (hlo le_rfl)] at hw

theorem Holds.lt_brim (h : Holds x v) : v < brim :=
  h.le_greatest.trans_lt (mul_lt_mul_of_pos_right (by norm_num) (by positivity))

theorem Faithful.le (h : Faithful v w) (hb : Representable b) (hv : b ≤ v) : b ≤ w := by
  obtain ⟨k, f, hk, hf, rfl⟩ := hb
  exact (h k f hk hf).1 hv

theorem Faithful.ge (h : Faithful v w) (hb : Representable b) (hv : v ≤ b) : w ≤ b := by
  obtain ⟨k, f, hk, hf, rfl⟩ := hb
  exact (h k f hk hf).2 hv

/-! ## Arithmetic -/

theorem Holds.rounded (h : Holds x v) : Rounded x v := by
  have hlt := h.lt_brim
  have hlt' := hlt.trans brim_lt_ceiling
  refine ⟨v, fun k f _ _ => ⟨id, id⟩, iff_of_true hlt' hlt, fun _ => h, fun hle => absurd hlt' (not_lt.mpr hle)⟩

theorem holds_ofParts {e : Int} (h : Canonical m e) (he : e ≤ 971) :
    Holds (ofUnpacked (ofParts .positive m e)) (m * 2 ^ e) := by
  refine ⟨m, e, h, he, ?_, rfl⟩
  rw [unpacked_ofUnpacked, unpack_pack_ofParts _ h, if_neg (fun hc => by omega)]

theorem canonical_zero : Canonical 0 (-1074) := ⟨by norm_num, le_rfl, .inr rfl⟩

theorem holds_zero : Holds (ofUnpacked (.zero .positive)) 0 := by
  simpa [ofParts] using holds_ofParts canonical_zero (by norm_num)

theorem ofParts_pos (s : Sign) (e : Int) (h : 0 < m) : ofParts s m e = .finite s m e h :=
  dif_neg (by omega)

theorem rounded_round (e : Int) (hm : 0 < m) :
    Rounded (ofUnpacked (UnpackedFloat.round .binary64 .positive m e)) (m * 2 ^ e) := by
  set k := (e - lastPlace m e).toNat with hk
  have hlog : (m <<< k).log2 = m.log2 + k := by
    rw [shiftLeft_eq]
    refine log2_eq ?_ ?_
    · rw [Nat.pow_add]
      exact Nat.mul_le_mul_right _ (log2_self_le (by omega))
    · rw [Nat.add_right_comm, Nat.pow_add]
      exact Nat.mul_lt_mul_of_pos_right lt_log2_self (Nat.two_pow_pos k)
  have hplace : lastPlace (m <<< k) (e - k) = lastPlace m e := by
    simp only [lastPlace, hlog]
    omega
  have hpos : 0 < m <<< k := by
    rw [shiftLeft_eq]
    exact Nat.mul_pos hm (Nat.two_pow_pos k)
  have h := rounded_roundWithAccuracy (e := e - k) hpos Nat.zero_lt_one (by rw [hplace]; omega)
  have hval : (((m <<< k) * 1 + 0 : Nat) : ℚ) / (1 : Nat) * 2 ^ (e - k : Int) = m * 2 ^ e := by
    rw [Nat.mul_one, Nat.add_zero, shiftLeft_eq, zpow_sub₀ (by norm_num), zpow_natCast]
    push_cast
    field_simp
  rw [hval] at h
  have hround : UnpackedFloat.round .binary64 .positive m e =
      roundWithAccuracy .binary64 .positive (m <<< k) (e - k) (accuracyOfFraction 0 1) := by
    simp only [UnpackedFloat.round, decreaseExponent, targetExponent_eq_lastPlace, ← hk]
    rfl
  rwa [hround]

theorem rounded_add (hx : Holds x v) (hy : Holds y w) : Rounded (x + y) (v + w) := by
  have hsum : x + y = ofUnpacked (UnpackedFloat.add .binary64 (unpacked x) (unpacked y)) := rfl
  obtain ⟨m₁, e₁, hc₁, he₁, hu₁, rfl⟩ := hx
  obtain ⟨m₂, e₂, hc₂, he₂, hu₂, rfl⟩ := hy
  rw [hsum, hu₁, hu₂]
  rcases Nat.eq_zero_or_pos m₁ with rfl | h₁
  · have hself : UnpackedFloat.add .binary64 (ofParts .positive 0 e₁) (ofParts .positive m₂ e₂) =
        ofParts .positive m₂ e₂ := by
      rcases Nat.eq_zero_or_pos m₂ with rfl | h₂
      · rfl
      · rw [ofParts_pos _ _ h₂]
        rfl
    rw [hself]
    simpa using (holds_ofParts hc₂ he₂).rounded
  rcases Nat.eq_zero_or_pos m₂ with rfl | h₂
  · have hself : UnpackedFloat.add .binary64 (ofParts .positive m₁ e₁) (ofParts .positive 0 e₂) =
        ofParts .positive m₁ e₁ := by
      rw [ofParts_pos _ _ h₁]
      rfl
    rw [hself]
    simpa using (holds_ofParts hc₁ he₁).rounded
  -- both are brought to the smaller exponent
  set e := min e₁ e₂ with he
  set n := m₁ <<< (e₁ - e).toNat + m₂ <<< (e₂ - e).toNat with hn
  have hpos : 0 < n := by
    rw [hn, shiftLeft_eq]
    exact Nat.add_pos_left (Nat.mul_pos h₁ (Nat.two_pow_pos _)) _
  have hshift : ∀ {m : Nat} {f : Int}, e ≤ f → ((m <<< (f - e).toNat : Nat) : ℚ) * 2 ^ e = m * 2 ^ f := by
    intro m f hf
    have : (2 : ℚ) ^ f = 2 ^ (f - e).toNat * 2 ^ e := by
      rw [← zpow_natCast, ← zpow_add₀ (by norm_num)]
      congr 1
      omega
    rw [shiftLeft_eq, this]
    push_cast
    ring
  have hval : (n : ℚ) * 2 ^ e = m₁ * 2 ^ e₁ + m₂ * 2 ^ e₂ := by
    rw [hn, cast_add, add_mul, hshift (by omega), hshift (by omega)]
  have hadd : UnpackedFloat.add .binary64 (ofParts .positive m₁ e₁) (ofParts .positive m₂ e₂) =
      UnpackedFloat.round .binary64 .positive n e := by
    rw [ofParts_pos _ _ h₁, ofParts_pos _ _ h₂]
    have hgt : compare ((m₁ <<< (e₁ - e).toNat : Nat) + (m₂ <<< (e₂ - e).toNat : Nat) : Int) 0 = .gt := by
      rw [Int.compare_eq_gt]
      omega
    simp only [UnpackedFloat.add, decreaseExponent, Sign.apply, UnpackedFloat.normalize, ← he, hgt]
    rfl
  rw [hadd, ← hval]
  exact rounded_round e hpos

theorem rounded_mul (hx : Holds x v) (hy : Holds y w) : Rounded (x * y) (v * w) := by
  have hprod : x * y = ofUnpacked (UnpackedFloat.mul .binary64 (unpacked x) (unpacked y)) := rfl
  obtain ⟨m₁, e₁, hc₁, he₁, hu₁, rfl⟩ := hx
  obtain ⟨m₂, e₂, hc₂, he₂, hu₂, rfl⟩ := hy
  rw [hprod, hu₁, hu₂]
  rcases Nat.eq_zero_or_pos m₁ with rfl | h₁
  · have hzero : UnpackedFloat.mul .binary64 (ofParts .positive 0 e₁) (ofParts .positive m₂ e₂) = .zero .positive := by
      rcases Nat.eq_zero_or_pos m₂ with rfl | h₂
      · rfl
      · rw [ofParts_pos _ _ h₂]
        rfl
    rw [hzero]
    simpa using holds_zero.rounded
  rcases Nat.eq_zero_or_pos m₂ with rfl | h₂
  · have hzero : UnpackedFloat.mul .binary64 (ofParts .positive m₁ e₁) (ofParts .positive 0 e₂) = .zero .positive := by
      rw [ofParts_pos _ _ h₁]
      rfl
    rw [hzero]
    simpa using holds_zero.rounded
  have hplace : e₁ + e₂ ≤ lastPlace (m₁ * m₂) (e₁ + e₂) := by
    have hle₁ : m₁.log2 ≤ (m₁ * m₂).log2 := (le_log2 (Nat.mul_pos h₁ h₂).ne').mpr
      ((log2_self_le h₁.ne').trans (Nat.le_mul_of_pos_right _ h₂))
    have hle₂ : m₂.log2 ≤ (m₁ * m₂).log2 := (le_log2 (Nat.mul_pos h₁ h₂).ne').mpr
      ((log2_self_le h₂.ne').trans (Nat.le_mul_of_pos_left _ h₁))
    simp only [lastPlace]
    rcases hc₁.full with hf | hf
    · have := log2_eq hf hc₁.lt
      omega
    rcases hc₂.full with hf' | hf'
    · have := log2_eq hf' hc₂.lt
      omega
    · omega
  have h := rounded_roundWithAccuracy (Nat.mul_pos h₁ h₂) Nat.zero_lt_one hplace
  have hval : ((m₁ * m₂ * 1 + 0 : Nat) : ℚ) / (1 : Nat) * 2 ^ (e₁ + e₂) = m₁ * 2 ^ e₁ * (m₂ * 2 ^ e₂) := by
    rw [zpow_add₀ (by norm_num)]
    push_cast
    ring
  rw [hval] at h
  rwa [ofParts_pos _ _ h₁, ofParts_pos _ _ h₂]

theorem rounded_div_finite {m₁ m₂ : Nat} (e₁ e₂ : Int) (h₁ : 0 < m₁) (h₂ : 0 < m₂)
    (hv : (2 : ℚ) ^ (-1074 : Int) ≤ m₁ * 2 ^ e₁ / (m₂ * 2 ^ e₂)) :
    Rounded (ofUnpacked (UnpackedFloat.div .binary64 (.finite .positive m₁ e₁ h₁) (.finite .positive m₂ e₂ h₂)))
      (m₁ * 2 ^ e₁ / (m₂ * 2 ^ e₂)) := by
  set t := min (e₁ - e₂) (max ((m₁.log2 : Int) + e₁ - (m₂.log2 + e₂) - 53) (-1074)) with ht
  set k := (e₁ - e₂ - t).toNat with hk
  set q := m₁ <<< k / m₂ with hq
  have hm₂ : (0 : ℚ) < m₂ := by exact_mod_cast h₂
  have hval : (m₁ : ℚ) * 2 ^ e₁ / (m₂ * 2 ^ e₂) = ((m₁ <<< k : Nat) : ℚ) / m₂ * 2 ^ t := by
    have hp : (2 : ℚ) ^ e₁ = 2 ^ k * 2 ^ t * 2 ^ e₂ := by
      rw [← zpow_natCast, ← zpow_add₀ (by norm_num), ← zpow_add₀ (by norm_num)]
      congr 1
      omega
    rw [hp, shiftLeft_eq]
    push_cast
    field_simp
  -- the quotient has all its bits, or the last place is the least one
  have hfull : (-1074 : Int) < t → 2 ^ 52 ≤ q := by
    intro hlt
    have hk' : 53 + m₂.log2 ≤ m₁.log2 + k := by omega
    rw [hq, Nat.le_div_iff_mul_le h₂, shiftLeft_eq]
    calc 2 ^ 52 * m₂ ≤ 2 ^ 52 * 2 ^ (m₂.log2 + 1) := Nat.mul_le_mul_left _ lt_log2_self.le
      _ = 2 ^ (53 + m₂.log2) := by rw [← Nat.pow_add]; congr 1; omega
      _ ≤ 2 ^ (m₁.log2 + k) := Nat.pow_le_pow_right (by omega) hk'
      _ = 2 ^ m₁.log2 * 2 ^ k := Nat.pow_add _ _ _
      _ ≤ m₁ * 2 ^ k := Nat.mul_le_mul_right _ (log2_self_le h₁.ne')
  have hpos : 0 < q := by
    rcases lt_or_ge (-1074 : Int) t with hlt | hge
    · exact lt_of_lt_of_le (by norm_num) (hfull hlt)
    · rw [hval] at hv
      have hle : (2 : ℚ) ^ t ≤ ((m₁ <<< k : Nat) : ℚ) / m₂ * 2 ^ t :=
        (zpow_le_zpow_right₀ (by norm_num) hge).trans hv
      have h1 : (1 : ℚ) ≤ ((m₁ <<< k : Nat) : ℚ) / m₂ :=
        le_of_mul_le_mul_right (by rwa [one_mul]) (by positivity : (0 : ℚ) < 2 ^ t)
      rw [le_div_iff₀ hm₂, one_mul] at h1
      exact Nat.div_pos (by exact_mod_cast h1) h₂
  have hplace : t ≤ lastPlace q t := by
    rcases lt_or_ge (-1074 : Int) t with hlt | hge
    · have : 52 ≤ q.log2 := (le_log2 hpos.ne').mpr (hfull hlt)
      simp only [lastPlace]
      omega
    · simp only [lastPlace]
      omega
  have h := rounded_roundWithAccuracy hpos (mod_lt (m₁ <<< k) h₂) hplace
  rw [hq, div_add_mod' (m₁ <<< k) m₂, ← hval] at h
  have htarget : min (e₁ - e₂)
      (Format.binary64.targetExponent (totalExponent m₁ e₁ - totalExponent m₂ e₂)) = t := by
    simp only [Format.targetExponent, totalExponent, Format.mantissaBits, Format.minExponent]
    omega
  have hdiv : UnpackedFloat.div .binary64 (.finite .positive m₁ e₁ h₁) (.finite .positive m₂ e₂ h₂) =
      roundWithAccuracy .binary64 .positive q t (accuracyOfFraction (m₁ <<< k % m₂) m₂) := by
    simp only [UnpackedFloat.div, divCore, htarget, ← hk, hq]
    rfl
  rwa [hdiv]

theorem rounded_div (hx : Holds x v) (hy : Holds y w) (hw : 0 < w)
    (hv : (2 : ℚ) ^ (-1074 : Int) ≤ v / w) : Rounded (x / y) (v / w) := by
  have hquot : x / y = ofUnpacked (UnpackedFloat.div .binary64 (unpacked x) (unpacked y)) := rfl
  obtain ⟨m₁, e₁, hc₁, he₁, hu₁, rfl⟩ := hx
  obtain ⟨m₂, e₂, hc₂, he₂, hu₂, rfl⟩ := hy
  have hpos : (0 : ℚ) < m₁ * 2 ^ e₁ / (m₂ * 2 ^ e₂) := lt_of_lt_of_le (by positivity) hv
  have h₁ : 0 < m₁ := by
    rcases Nat.eq_zero_or_pos m₁ with rfl | h
    · simp at hpos
    · exact h
  have h₂ : 0 < m₂ := by
    rcases Nat.eq_zero_or_pos m₂ with rfl | h
    · simp at hw
    · exact h
  rw [hquot, hu₁, hu₂, ofParts_pos _ _ h₁, ofParts_pos _ _ h₂]
  exact rounded_div_finite e₁ e₂ h₁ h₂ hv

/-! ## Numerals -/

theorem rounded_ofNat64 (hn : 0 < n) (h : n < 2 ^ 64) : Rounded n.toUInt64.toFloat n := by
  have hfloat : n.toUInt64.toFloat = ofUnpacked (UnpackedFloat.round .binary64 .positive n 0) := by
    have hto : n.toUInt64.toNat = n := by simp; omega
    have hgt : compare (n : Int) 0 = .gt := by
      rw [Int.compare_eq_gt]
      omega
    show ofUnpacked (UnpackedFloat.normalize .binary64 ((n.toUInt64.toNat : Nat) : Int) 0 .positive) = _
    rw [hto]
    simp only [UnpackedFloat.normalize, hgt]
    rfl
  rw [hfloat]
  simpa using rounded_round 0 hn

theorem holds_one : Holds (Float.ofBits 0x3FF0000000000000) 1 :=
  ⟨2 ^ 52, -52, ⟨by norm_num, by norm_num, .inl le_rfl⟩, by norm_num, rfl, by norm_num⟩

theorem holds_ten : Holds (Float.ofBits 0x4024000000000000) 10 :=
  ⟨5 * 2 ^ 50, -49, ⟨by norm_num, by norm_num, .inl (by norm_num)⟩, by norm_num, rfl, by norm_num⟩

theorem lt_brim_of_lt (h : v < 2 ^ 53) : v < brim := by
  refine h.trans_le ?_
  simpa using two_pow_le_brim (n := 53) (by norm_num)

theorem holds_ofNat64 (h : n < 2 ^ 53) : Holds n.toUInt64.toFloat n := by
  rcases Nat.eq_zero_or_pos n with rfl | hn
  · exact ⟨0, -1074, canonical_zero, by norm_num, rfl, by norm_num⟩
  · exact (rounded_ofNat64 hn (by omega)).exact (representable_nat h) (lt_brim_of_lt (by exact_mod_cast h))

theorem rounded_ofScientific (n : Nat) : Rounded (Float.ofScientific n false 0) n := by
  by_cases h : n < 2 ^ 53
  · have hfast : Float.ofScientific n false 0 = n.toUInt64.toFloat * Float.ofBits 0x3FF0000000000000 := by
      rw [Float.ofScientific, dif_pos ⟨h, by omega⟩]
      rfl
    rw [hfast]
    simpa using rounded_mul (holds_ofNat64 h) holds_one
  · have hn : ¬ n = 0 := by omega
    have hpos : 0 < n <<< 53 * 1 := by
      rw [shiftLeft_eq]
      omega
    have hslow : Float.ofScientific n false 0 =
        ofUnpacked (roundWithAccuracy .binary64 .positive (n <<< 53 * 1) (-53 + 0) (accuracyOfFraction 0 1)) := by
      rw [Float.ofScientific, dif_neg (fun hc => h hc.1)]
      show ofUnpacked (UnpackedFloat.ofScientific .binary64 n 0) = _
      rw [UnpackedFloat.ofScientific, dif_neg hn, if_neg (by norm_num), if_neg (by norm_num),
        if_pos le_rfl]
      rfl
    have hplace : (-53 + 0 : Int) ≤ lastPlace (n <<< 53 * 1) (-53 + 0) := by
      have hlog : 53 ≤ (n <<< 53 * 1).log2 := by
        rw [le_log2 hpos.ne', Nat.mul_one, shiftLeft_eq]
        omega
      simp only [lastPlace]
      omega
    have hr := rounded_roundWithAccuracy hpos Nat.zero_lt_one hplace
    have hval : ((n <<< 53 * 1 * 1 + 0 : Nat) : ℚ) / (1 : Nat) * 2 ^ (-53 + 0 : Int) = n := by
      rw [Nat.mul_one, Nat.mul_one, Nat.add_zero, shiftLeft_eq]
      push_cast
      norm_num
      ring
    rw [hval] at hr
    rwa [hslow]

theorem rounded_ofScientific_tenths (hn : 0 < n) : Rounded (Float.ofScientific n true 1) (n / 10) := by
  have hnq : (1 : ℚ) ≤ n := by exact_mod_cast hn
  have hsmall : (2 : ℚ) ^ (-1074 : Int) ≤ n / 10 := by
    calc (2 : ℚ) ^ (-1074 : Int) ≤ 2 ^ (-4 : Int) := zpow_le_zpow_right₀ (by norm_num) (by norm_num)
      _ ≤ 1 / 10 := by norm_num
      _ ≤ n / 10 := div_le_div_of_nonneg_right hnq (by norm_num)
  by_cases h : n < 2 ^ 53
  · have hfast : Float.ofScientific n true 1 = n.toUInt64.toFloat / Float.ofBits 0x4024000000000000 := by
      rw [Float.ofScientific, dif_pos ⟨h, by omega⟩]
      rfl
    rw [hfast]
    exact rounded_div (holds_ofNat64 h) holds_ten (by norm_num) hsmall
  · have hslow : Float.ofScientific n true 1 =
        ofUnpacked (UnpackedFloat.div .binary64 (.finite .positive n 0 hn) (.finite .positive 10 0 (by norm_num))) := by
      rw [Float.ofScientific, dif_neg (fun hc => h hc.1)]
      show ofUnpacked (UnpackedFloat.ofScientific .binary64 n (-1)) = _
      rw [UnpackedFloat.ofScientific, dif_neg hn.ne', if_neg (by norm_num), if_neg (by norm_num),
        if_neg (by norm_num)]
      rfl
    rw [hslow]
    simpa using rounded_div_finite 0 0 hn (by norm_num : 0 < 10) (by simpa using hsmall)

end Plainsong.Decimal
