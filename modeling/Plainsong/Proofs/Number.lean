import Plainsong.Datum
import Plainsong.Proofs.Double.Value
/- Loose values that are numbers: what turning a whole number into a double, cutting
   a double to its whole part, and adding and multiplying do to the numbers that
   the values stand for. -/
namespace Plainsong

open Nat

namespace Decimal

open Float.Model Float.Model.UnpackedFloat

/-! ## Bits -/

section Bits

variable (b : BitVec Format.binary64.numBits)

theorem toNat_unpackMantissa : (unpackMantissa b).toNat = b.toNat % 2 ^ 52 := by
  simp [unpackMantissa, BitVec.extractLsb]

theorem toNat_unpackExponent : (unpackExponent b).toNat = b.toNat / 2 ^ 52 % 2048 := by
  simp [unpackExponent, BitVec.extractLsb, shiftRight_eq_div_pow]

theorem toNat_unpackSign : (unpackSign b).toNat = b.toNat / 2 ^ 63 % 2 := by
  simp [unpackSign, BitVec.extractLsb, shiftRight_eq_div_pow]

end Bits

/-- What a double stands for, in the terms of its exact value. -/
def Exact.ofUnpacked : UnpackedFloat → Exact
  | .notANumber => .notANumber
  | .infinity s => .infinite (s == .negative)
  | .zero s => .finite (s == .negative) 0 (-1074)
  | .finite s m e _ => .finite (s == .negative) m e

theorem negative_eq (b : BitVec Format.binary64.numBits) :
    (b.toNat / 2 ^ 63 == 1) = (Sign.ofBitVec (unpackSign b) == .negative) := by
  have hs := toNat_unpackSign b
  have hlt : b.toNat < 2 ^ 64 := b.isLt
  by_cases h : unpackSign b = 0#1
  · have h0 : (unpackSign b).toNat = 0 := by rw [h]; rfl
    have hne : ¬ b.toNat / 2 ^ 63 = 1 := by omega
    rw [Sign.ofBitVec, if_pos h, beq_false_of_ne hne]
    rfl
  · have h1 : ¬ (unpackSign b).toNat = 0 := fun hc => h (BitVec.eq_of_toNat_eq hc)
    have heq : b.toNat / 2 ^ 63 = 1 := by omega
    rw [Sign.ofBitVec, if_neg h, heq]
    rfl

theorem ofFloat_eq (x : Float) : Exact.ofFloat x = Exact.ofUnpacked (unpacked x) := by
  set b : BitVec Format.binary64.numBits := x.toModel.toBits.toBitVec
  have hbits : x.toBits.toNat = b.toNat := rfl
  have hm := toNat_unpackMantissa b
  have hx := toNat_unpackExponent b
  have hall : b.toNat / 2 ^ 52 % 2048 = 2047 ↔ unpackExponent b = -1#11 := by
    rw [← hx]
    exact ⟨fun h => BitVec.eq_of_toNat_eq h, fun h => by rw [h]; rfl⟩
  have hzero : b.toNat / 2 ^ 52 % 2048 = 0 ↔ unpackExponent b = 0#11 := by
    rw [← hx]
    exact ⟨fun h => BitVec.eq_of_toNat_eq h, fun h => by rw [h]; rfl⟩
  have hmant : b.toNat % 2 ^ 52 = 0 ↔ unpackMantissa b = 0#52 := by
    rw [← hm]
    exact ⟨fun h => BitVec.eq_of_toNat_eq h, fun h => by rw [h]; rfl⟩
  have hu : unpacked x = UnpackedFloat.unpack .binary64 b := rfl
  have hfull : (1#1 ++ unpackMantissa b).toNat = b.toNat % 2 ^ 52 + 2 ^ 52 := by
    rw [BitVec.toNat_append, ← shiftLeft_add_eq_or_of_lt (BitVec.isLt _), hm, Nat.add_comm]
    rfl
  simp only [hu, UnpackedFloat.unpack, Exact.ofFloat, hbits, pow_eq, negative_eq]
  by_cases hone : unpackExponent b = -1#11
  · rw [if_pos (hall.mpr hone), if_pos hone]
    by_cases h0 : unpackMantissa b = 0#52
    · rw [if_pos (hmant.mpr h0), if_pos h0]
      rfl
    · rw [if_neg fun hc => h0 (hmant.mp hc), if_neg h0]
      rfl
  rw [if_neg fun hc => hone (hall.mp hc), if_neg hone]
  by_cases hsub : unpackExponent b = 0#11
  · rw [if_pos (hzero.mpr hsub), if_pos hsub]
    by_cases h0 : unpackMantissa b = 0#52
    · rw [dif_pos h0, hmant.mpr h0]
      rfl
    · rw [dif_neg h0, ← hm, hsub]
      rfl
  · rw [if_neg fun hc => hsub (hzero.mp hc), if_neg hsub, ← hfull, ← hx]
    rfl

variable {x y : Float} {b v w : ℚ}

theorem ofFloat_of_zero (h : unpacked x = .zero .positive) : Exact.ofFloat x = .finite false 0 (-1074) := by
  rw [ofFloat_eq, h]
  rfl

theorem ofFloat_of_finite {m : Nat} {e : Int} {hpos : 0 < m}
    (h : unpacked x = .finite .positive m e hpos) : Exact.ofFloat x = .finite false m e := by
  rw [ofFloat_eq, h]
  rfl

theorem holds_of_finite {m : Nat} {e : Int} {h : 0 < m} (hu : unpacked x = .finite .positive m e h) :
    Holds x (m * 2 ^ e) := by
  suffices hc : Canonical m e ∧ e ≤ 971 from ⟨m, e, hc.1, hc.2, by rw [hu, ofParts_pos _ _ h], rfl⟩
  set b : BitVec Format.binary64.numBits := x.toModel.toBits.toBitVec
  have hm := toNat_unpackMantissa b
  have hx := toNat_unpackExponent b
  change UnpackedFloat.unpack .binary64 b = _ at hu
  simp only [UnpackedFloat.unpack] at hu
  split at hu
  · split at hu <;> cases hu
  next hall =>
  have hne : ¬ b.toNat / 2 ^ 52 % 2048 = 2047 := fun hc => hall (BitVec.eq_of_toNat_eq (hx.trans hc))
  split at hu
  next hzero =>
    split at hu
    next => cases hu
    next =>
      rw [finite.injEq] at hu
      obtain ⟨-, rfl, rfl⟩ := hu
      rw [hzero]
      exact ⟨⟨(unpackMantissa b).isLt.trans (by decide), by decide, .inr rfl⟩, by decide⟩
  next hzero =>
    rw [finite.injEq] at hu
    obtain ⟨-, rfl, rfl⟩ := hu
    have hpos : ¬ (unpackExponent b).toNat = 0 := fun hc => hzero (BitVec.eq_of_toNat_eq hc)
    have hexp : ((unpackExponent b).toNat : Int) - (↑Format.binary64.exponentBias + ↑Format.binary64.mantissaBitsWithoutImplicit) =
        (unpackExponent b).toNat - 1075 := rfl
    have hlt : (unpackMantissa b).toNat < 2 ^ 52 := (unpackMantissa b).isLt
    have hmant : (1#1 ++ unpackMantissa b).toNat = 2 ^ 52 + (unpackMantissa b).toNat := by
      rw [BitVec.toNat_append, ← shiftLeft_add_eq_or_of_lt (BitVec.isLt _)]
      rfl
    rw [hexp]
    refine ⟨⟨by omega, by omega, .inl (by omega)⟩, ?_⟩
    omega

theorem ofFloat_of_holds (h : Holds x v) :
    ∃ (m : Nat) (e : Int), Exact.ofFloat x = .finite false m e ∧ v = m * 2 ^ e := by
  obtain ⟨m, e, -, -, hu, rfl⟩ := h
  rcases Nat.eq_zero_or_pos m with rfl | hm
  · exact ⟨0, -1074, ofFloat_of_zero hu, by simp⟩
  · rw [ofParts_pos _ _ hm] at hu
    exact ⟨m, e, ofFloat_of_finite hu, rfl⟩

/-! ## Whole parts -/

theorem quotient_eq (m : Nat) (e : Int) :
    0 < (quotient m e).2 ∧ (m : ℚ) * 2 ^ e = ((quotient m e).1 : ℚ) / (quotient m e).2 := by
  unfold quotient
  split
  next h =>
    refine ⟨Nat.two_pow_pos _, ?_⟩
    have he : e = -(e.natAbs : Int) := by omega
    rw [pow_eq]
    push_cast
    rw [div_eq_mul_inv, ← zpow_natCast, ← zpow_neg, ← he]
  next h =>
    refine ⟨Nat.one_pos, ?_⟩
    have he : e = (e.toNat : Int) := by omega
    rw [pow_eq]
    push_cast
    rw [div_one, ← zpow_natCast, ← he]

theorem truncate?_of_holds (h : Holds x v) : ∃ n : Nat, truncate? x = some n ∧ (n : ℚ) ≤ v ∧ v < n + 1 := by
  obtain ⟨m, e, hexact, rfl⟩ := ofFloat_of_holds h
  obtain ⟨hden, hval⟩ := quotient_eq m e
  have hdq : (0 : ℚ) < (quotient m e).2 := by exact_mod_cast hden
  refine ⟨(quotient m e).1 / (quotient m e).2, ?_, ?_, ?_⟩
  · simp [truncate?, hexact]
  · rw [hval, le_div_iff₀ hdq]
    exact_mod_cast div_mul_le_self _ _
  · rw [hval, div_lt_iff₀ hdq]
    have hlt := lt_mul_div_succ (quotient m e).1 hden
    rw [Nat.mul_comm] at hlt
    exact_mod_cast hlt

/-! ## Infinities and zeros -/

theorem isInf_of_holds (h : Holds x v) : x.isInf = false := by
  obtain ⟨m, e, -, -, hu, -⟩ := h
  show (unpacked x).isInf = false
  rw [hu, ofParts]
  split <;> rfl

theorem isInf_of_unpacked {s : Sign} (h : unpacked x = .infinity s) : x.isInf = true := by
  show (unpacked x).isInf = true
  rw [h]
  rfl

theorem ne_zero_of_holds (h : Holds x v) (hv : 0 < v) : (x == 0) = false := by
  obtain ⟨m, e, -, -, hu, rfl⟩ := h
  have hm : 0 < m := by
    rcases Nat.eq_zero_or_pos m with rfl | hm
    · simp at hv
    · exact hm
  show (unpacked x).beq (unpacked 0) = false
  have h0 : unpacked (0 : Float) = .zero .positive := rfl
  rw [hu, ofParts_pos _ _ hm, h0]
  rfl

theorem ne_zero_of_infinity {s : Sign} (h : unpacked x = .infinity s) : (x == 0) = false := by
  show (unpacked x).beq (unpacked 0) = false
  have h0 : unpacked (0 : Float) = .zero .positive := rfl
  rw [h, h0]
  cases s <;> rfl

theorem holds_two : Holds (2 : Float) 2 := by
  have h := (rounded_ofScientific 2).exact (representable_nat (by norm_num)) (lt_brim_of_lt (by norm_num))
  exact_mod_cast h

theorem div_infinity (hx : Holds x v) (hy : unpacked y = .infinity .positive) : Holds (x / y) 0 := by
  have hquot : x / y = ofUnpacked (UnpackedFloat.div .binary64 (unpacked x) (unpacked y)) := rfl
  obtain ⟨m, e, hc, he, hu, rfl⟩ := hx
  rw [hquot, hu, hy, ofParts]
  split <;> exact holds_zero

theorem infinity_div (hx : unpacked x = .infinity .positive) (hy : Holds y w) (hw : 0 < w) :
    unpacked (x / y) = .infinity .positive := by
  have hquot : x / y = ofUnpacked (UnpackedFloat.div .binary64 (unpacked x) (unpacked y)) := rfl
  obtain ⟨m, e, hc, he, hu, rfl⟩ := hy
  have hm : 0 < m := by
    rcases Nat.eq_zero_or_pos m with rfl | h
    · simp at hw
    · exact h
  have hdiv : UnpackedFloat.div .binary64 (.infinity .positive) (.finite .positive m e hm) = .infinity .positive := rfl
  rw [hquot, hu, hx, ofParts_pos _ _ hm, hdiv]
  rfl

/-- The double is a number, a bound at least, or past the range. -/
def AtLeast (x : Float) (b : ℚ) : Prop := (∃ v, Holds x v ∧ b ≤ v) ∨ unpacked x = .infinity .positive

theorem Rounded.atLeast (h : Rounded x v) (hb : Representable b) (hv : b ≤ v) : AtLeast x b := by
  obtain ⟨w, hf, -, hw, hinf⟩ := h
  rcases lt_or_ge w ceiling with hlt | hge
  · exact .inl ⟨w, hw hlt, hf.le hb hv⟩
  · exact .inr (hinf hge)

theorem AtLeast.ne_zero (h : AtLeast x b) (hb : 0 < b) : (x == 0) = false := by
  rcases h with ⟨v, hv, hle⟩ | hinf
  · exact ne_zero_of_holds hv (hb.trans_le hle)
  · exact ne_zero_of_infinity hinf

theorem AtLeast.div {c : ℚ} (h : AtLeast x b) (hy : Holds y w) (hw : 0 < w) (hc : Representable c)
    (hsmall : (2 : ℚ) ^ (-1074 : Int) ≤ c) (hle : c * w ≤ b) : AtLeast (x / y) c := by
  rcases h with ⟨v, hv, hb⟩ | hinf
  · have hquot : c ≤ v / w := by
      rw [le_div_iff₀ hw]
      exact hle.trans hb
    exact (rounded_div hv hy hw (hsmall.trans hquot)).atLeast hc hquot
  · exact .inr (infinity_div hinf hy hw)

/-! ## Whole numbers as doubles -/

theorem rounded_ofInt (n : Nat) : Rounded (ofInt n) n := by
  have h : ofInt n = Float.ofScientific n false 0 := by
    simp only [ofInt, Int.natAbs_natCast]
    rw [if_neg (by omega)]
  rw [h]
  exact rounded_ofScientific n

theorem rounded_halfOfInt {n : Nat} (hn : 0 < n) : Rounded (halfOfInt n) (n / 2) := by
  have h : halfOfInt n = Float.ofScientific (5 * n) true 1 := by
    simp only [halfOfInt, Int.natAbs_natCast]
    rw [if_neg (by omega)]
  have hval : ((5 * n : Nat) : ℚ) / 10 = n / 2 := by
    push_cast
    ring
  rw [h, ← hval]
  exact rounded_ofScientific_tenths (by omega)

theorem Rounded.cases (h : Rounded x v) :
    (∃ w, Holds x w ∧ Faithful v w ∧ v < brim) ∨ (unpacked x = .infinity .positive ∧ brim ≤ v) := by
  obtain ⟨w, hf, hiff, hw, hinf⟩ := h
  rcases lt_or_ge w ceiling with hlt | hge
  · exact .inl ⟨w, hw hlt, hf, hiff.mp hlt⟩
  · exact .inr ⟨hinf hge, not_lt.mp fun hv => absurd (hiff.mpr hv) (not_lt.mpr hge)⟩

/-! ## Products -/

theorem unpacked_ofUnpacked_notANumber : unpacked (ofUnpacked .notANumber) = .notANumber := rfl

theorem unpacked_ofUnpacked_zero (s : Sign) : unpacked (ofUnpacked (.zero s)) = .zero s := by cases s <;> rfl

theorem unpacked_ofUnpacked_infinity (s : Sign) : unpacked (ofUnpacked (.infinity s)) = .infinity s := by cases s <;> rfl

theorem truncate?_of_notANumber (h : unpacked x = .notANumber) : truncate? x = none := by
  rw [truncate?, ofFloat_eq, h]
  rfl

theorem truncate?_of_infinity {s : Sign} (h : unpacked x = .infinity s) : truncate? x = none := by
  rw [truncate?, ofFloat_eq, h]
  rfl

theorem truncate?_of_zero {s : Sign} (h : unpacked x = .zero s) : truncate? x = some 0 := by
  have hzero : (quotient 0 (-1074)).1 = 0 := rfl
  simp only [truncate?, ofFloat_eq, h, Exact.ofUnpacked, hzero, Nat.zero_div, cast_zero, neg_zero, ite_self]

theorem unpacked_mul (hy : Holds y w) : (unpacked x = .notANumber → unpacked (x * y) = .notANumber) ∧
    (∀ s, unpacked x = .infinity s → unpacked (x * y) = .notANumber ∨ ∃ s', unpacked (x * y) = .infinity s') ∧
    ∀ s, unpacked x = .zero s → ∃ s', unpacked (x * y) = .zero s' := by
  have hprod : x * y = ofUnpacked (UnpackedFloat.mul .binary64 (unpacked x) (unpacked y)) := rfl
  obtain ⟨m, e, -, -, hu, -⟩ := hy
  rcases Nat.eq_zero_or_pos m with rfl | hm
  · have hu : unpacked y = .zero .positive := hu
    refine ⟨fun h => ?_, fun s h => .inl ?_, fun s h => ⟨s * .positive, ?_⟩⟩
    · rw [hprod, h, hu]
      exact unpacked_ofUnpacked_notANumber
    · rw [hprod, h, hu]
      exact unpacked_ofUnpacked_notANumber
    · rw [hprod, h, hu]
      exact unpacked_ofUnpacked_zero _
  · rw [ofParts_pos _ _ hm] at hu
    refine ⟨fun h => ?_, fun s h => .inr ⟨s * .positive, ?_⟩, fun s h => ⟨s * .positive, ?_⟩⟩
    · rw [hprod, h, hu]
      exact unpacked_ofUnpacked_notANumber
    · rw [hprod, h, hu]
      exact unpacked_ofUnpacked_infinity _
    · rw [hprod, h, hu]
      exact unpacked_ofUnpacked_zero _

theorem truncate?_mul_nonneg (hx : ∀ m e, Exact.ofFloat x = .finite true m e → m = 0)
    (hy : Holds y w) {n : Int} (hn : truncate? (x * y) = some n) : 0 ≤ n := by
  obtain ⟨hnan, hinf, hzero⟩ := unpacked_mul (x := x) hy
  cases hux : unpacked x with
  | notANumber =>
    rw [truncate?_of_notANumber (hnan hux)] at hn
    cases hn
  | infinity s =>
    rcases hinf s hux with h | ⟨s', h⟩
    · rw [truncate?_of_notANumber h] at hn
      cases hn
    · rw [truncate?_of_infinity h] at hn
      cases hn
  | zero s =>
    obtain ⟨s', h⟩ := hzero s hux
    rw [truncate?_of_zero h] at hn
    exact (Option.some.inj hn).le
  | finite s m e h =>
    cases s with
    | negative => exact absurd (hx m e (by rw [ofFloat_eq, hux]; rfl)) h.ne'
    | positive =>
      rcases (rounded_mul (holds_of_finite hux) hy).cases with ⟨v, hv, -⟩ | ⟨hover, -⟩
      · obtain ⟨k, hk, -⟩ := truncate?_of_holds hv
        rw [hk] at hn
        exact (Option.some.inj hn) ▸ Int.natCast_nonneg k
      · rw [truncate?_of_infinity hover] at hn
        cases hn

end Decimal

namespace Datum

open Decimal

theorem wholeFloat_of_lt {n : Nat} (h : n < 2 ^ 53) : ∃ x, wholeFloat n = .ok x ∧ Holds x n := by
  have hx : Holds (ofInt n) n :=
    (rounded_ofInt n).exact (representable_nat h) (lt_brim_of_lt (by exact_mod_cast h))
  exact ⟨ofInt n, by simp [wholeFloat, isInf_of_holds hx], hx⟩

theorem holds_of_wholeFloat {n : Nat} {x : Float} (h : wholeFloat n = .ok x) : ∃ w, Holds x w ∧ Faithful n w := by
  rcases (rounded_ofInt n).cases with ⟨w, hw, hf, -⟩ | ⟨hinf, -⟩
  · simp only [wholeFloat, isInf_of_holds hw] at h
    cases h
    exact ⟨w, hw, hf⟩
  · simp [wholeFloat, isInf_of_unpacked hinf] at h

theorem cut_of_holds {x : Float} {v : ℚ} (h : Holds x v) : ∃ n : Nat, cut x = .ok n ∧ (n : ℚ) ≤ v ∧ v < n + 1 := by
  obtain ⟨n, hn, hle, hlt⟩ := truncate?_of_holds h
  exact ⟨n, by simp [cut, hn], hle, hlt⟩

theorem cut_of_holds_nat {x : Float} {n : Nat} (h : Holds x n) : cut x = .ok n := by
  obtain ⟨k, hk, hle, hlt⟩ := cut_of_holds h
  have hkn : k = n := by
    have h₁ : k ≤ n := by exact_mod_cast hle
    have h₂ : n < k + 1 := by exact_mod_cast hlt
    omega
  rw [hk, hkn]

end Datum

end Plainsong
