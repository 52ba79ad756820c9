import Mathlib
import Plainsong.Decimal.Binary
/- Rounding to a double, as whole-number arithmetic. A mantissa with a fraction
   behind it is shifted to the last place of the format bit by bit; what comes out
   is `roundEven` of one quotient (`roundWithAccuracy_eq`). So the rounded value
   passes no number that a double can hold (`Faithful`), and it leaves the range of
   doubles exactly from half a place above the greatest one on. -/
namespace Plainsong.Decimal

open Float.Model Float.Model.UnpackedFloat Nat

/-! ## Nearest whole numbers -/

variable {e : Int} {a b den k m num : Nat}

theorem roundEven_le (h : a ≤ k * b) : roundEven a b ≤ k := by
  rcases Nat.eq_zero_or_pos b with rfl | hb
  · have : a = 0 := by omega
    simp [roundEven, this]
  have hq : a / b ≤ k := by
    rw [div_le_iff_le_mul_add_pred hb]
    rw [Nat.mul_comm] at h
    omega
  simp only [roundEven]
  by_cases hk : a / b = k
  · have hmod : a % b = 0 := by
      have e := div_add_mod a b
      rw [hk, Nat.mul_comm] at e
      omega
    rw [hmod, if_pos (by omega)]
    exact hq
  · split <;> [skip; split] <;> [skip; skip; split] <;> omega

theorem le_roundEven (hb : 0 < b) (h : k * b ≤ a) : k ≤ roundEven a b := by
  have hq : k ≤ a / b := (Nat.le_div_iff_mul_le hb).mpr h
  simp only [roundEven]
  split <;> [skip; split] <;> [skip; skip; split] <;> omega

theorem roundEven_lt (h : 2 * a < (2 * k - 1) * b) : roundEven a b < k := by
  have hb : 0 < b := by
    rcases Nat.eq_zero_or_pos b with rfl | hb
    · omega
    · exact hb
  have hk : 0 < k := by
    rcases Nat.eq_zero_or_pos k with rfl | hk
    · simp at h
    · exact hk
  have e := div_add_mod a b
  have hlt := mod_lt a hb
  have hq : a / b < k := by
    rw [Nat.div_lt_iff_lt_mul hb]
    have : (2 * k - 1) * b ≤ 2 * (k * b) := by
      rw [← Nat.mul_assoc]
      exact Nat.mul_le_mul_right _ (by omega)
    omega
  simp only [roundEven]
  by_cases hkq : a / b + 1 = k
  · have hm : 2 * (a % b) < b := by
      have hs : (2 * k - 1) * b = 2 * (b * (a / b)) + b := by
        have : 2 * k - 1 = 2 * (a / b) + 1 := by omega
        rw [this]
        ring
      omega
    rw [if_pos hm]
    exact hq
  · split <;> [skip; split] <;> [skip; skip; split] <;> omega

theorem le_roundEven_of_half (hb : 0 < b) (hk : k % 2 = 0) (hk0 : 0 < k)
    (h : (2 * k - 1) * b ≤ 2 * a) : k ≤ roundEven a b := by
  have e := div_add_mod a b
  have hlt := mod_lt a hb
  have hs : (2 * k - 1) * b = 2 * (b * (k - 1)) + b := by
    have : 2 * k - 1 = 2 * (k - 1) + 1 := by omega
    rw [this]
    ring
  have hq : k - 1 ≤ a / b := by
    rw [Nat.le_div_iff_mul_le hb, Nat.mul_comm]
    omega
  simp only [roundEven]
  by_cases hkq : a / b = k - 1
  · have hm : b ≤ 2 * (a % b) := by
      rw [hkq] at e
      omega
    rw [if_neg (by omega)]
    split
    · omega
    · rw [if_neg (by omega)]
      omega
  · split <;> [skip; split] <;> [skip; skip; split] <;> omega

/-! ## Shifts -/

theorem shiftRightOne_ofFraction (m : Nat) (h : num < den) :
    (ExtendedMantissa.ofMantissaAndAccuracy m (accuracyOfFraction num den)).shiftRightOne =
      ExtendedMantissa.ofMantissaAndAccuracy (m / 2) (accuracyOfFraction (m % 2 * den + num) (den * 2)) := by
  have hm : m % 2 = 0 ∨ m % 2 = 1 := by omega
  rcases hm with hm | hm
  · by_cases h0 : num = 0
    · simp [accuracyOfFraction, h0, hm, ExtendedMantissa.ofMantissaAndAccuracy, ExtendedMantissa.shiftRightOne]
    · have hlt : compare (2 * num) (den * 2) = .lt := by rw [Nat.compare_eq_lt]; omega
      have hb : ∀ o, (ExtendedMantissa.ofMantissaAndAccuracy m (.inexact o)).shiftRightOne = ⟨m / 2, false, true⟩ := by
        intro o
        cases o <;> simp [ExtendedMantissa.ofMantissaAndAccuracy, ExtendedMantissa.shiftRightOne, hm]
      simp only [accuracyOfFraction, if_neg h0, hm, Nat.zero_mul, Nat.zero_add, hlt, hb]
      rfl
  · have h0 : ¬ 1 * den + num = 0 := by omega
    by_cases hn : num = 0
    · have he : compare (2 * (1 * den + num)) (den * 2) = .eq := by rw [Nat.compare_eq_eq]; omega
      simp only [accuracyOfFraction, if_pos hn, hm, if_neg h0, he]
      simp [ExtendedMantissa.ofMantissaAndAccuracy, ExtendedMantissa.shiftRightOne, hm]
    · have hgt : compare (2 * (1 * den + num)) (den * 2) = .gt := by rw [Nat.compare_eq_gt]; omega
      have hb : ∀ o, (ExtendedMantissa.ofMantissaAndAccuracy m (.inexact o)).shiftRightOne = ⟨m / 2, true, true⟩ := by
        intro o
        cases o <;> simp [ExtendedMantissa.ofMantissaAndAccuracy, ExtendedMantissa.shiftRightOne, hm]
      simp only [accuracyOfFraction, if_neg hn, hm, if_neg h0, hgt, hb]
      rfl

theorem shiftRight_ofFraction (m n : Nat) (h : num < den) :
    ExtendedMantissa.ofMantissaAndAccuracy m (accuracyOfFraction num den) >>> n =
      ExtendedMantissa.ofMantissaAndAccuracy (m / 2 ^ n)
        (accuracyOfFraction (m % 2 ^ n * den + num) (den * 2 ^ n)) := by
  induction n with
  | zero => simp [HShiftRight.hShiftRight, Nat.repeat, mod_one]
  | succ n ih =>
    have hlt : m % 2 ^ n * den + num < den * 2 ^ n := by
      have h1 : m % 2 ^ n + 1 ≤ 2 ^ n := mod_lt _ (Nat.two_pow_pos n)
      calc m % 2 ^ n * den + num < (m % 2 ^ n + 1) * den := by rw [succ_mul]; omega
        _ ≤ 2 ^ n * den := Nat.mul_le_mul_right _ h1
        _ = den * 2 ^ n := Nat.mul_comm _ _
    have hstep : ∀ x : ExtendedMantissa, x >>> (n + 1) = (x >>> n).shiftRightOne := fun _ => rfl
    rw [hstep, ih, shiftRightOne_ofFraction _ hlt]
    congr 1
    · rw [Nat.div_div_eq_div_mul, ← Nat.pow_succ]
    · rw [Nat.pow_succ, mod_mul, Nat.mul_assoc]
      congr 1
      ring

theorem roundedMantissa_ofFraction (q : Nat) (h : num < den) :
    (ExtendedMantissa.ofMantissaAndAccuracy q (accuracyOfFraction num den)).roundedMantissa =
      roundEven (q * den + num) den := by
  have hd : (q * den + num) / den = q := by
    rw [Nat.add_comm, add_mul_div_right _ _ (by omega), div_eq_of_lt h, Nat.zero_add]
  have hr : (q * den + num) % den = num := by
    rw [Nat.add_comm, add_mul_mod_self_right, mod_eq_of_lt h]
  simp only [roundEven, hd, hr]
  by_cases h0 : num = 0
  · simp [accuracyOfFraction, h0, ExtendedMantissa.ofMantissaAndAccuracy, ExtendedMantissa.roundedMantissa,
      ExtendedMantissa.accuracy, Accuracy.roundToNearestEven, (by omega : 0 < den)]
  · simp only [accuracyOfFraction, if_neg h0]
    rcases Nat.lt_trichotomy (2 * num) den with hc | hc | hc
    · rw [Nat.compare_eq_lt.mpr hc, if_pos hc]
      rfl
    · rw [Nat.compare_eq_eq.mpr hc, if_neg (by omega), if_neg (by omega)]
      show q + q % 2 = _
      split <;> omega
    · rw [Nat.compare_eq_gt.mpr hc, if_neg (by omega), if_pos hc]
      rfl

theorem roundedMantissa_shiftRight (m n : Nat) (h : num < den) :
    (ExtendedMantissa.ofMantissaAndAccuracy m (accuracyOfFraction num den) >>> n).roundedMantissa =
      roundEven (m * den + num) (den * 2 ^ n) := by
  have hlt : m % 2 ^ n * den + num < den * 2 ^ n := by
    have h1 : m % 2 ^ n + 1 ≤ 2 ^ n := mod_lt _ (Nat.two_pow_pos n)
    calc m % 2 ^ n * den + num < (m % 2 ^ n + 1) * den := by rw [succ_mul]; omega
      _ ≤ 2 ^ n * den := Nat.mul_le_mul_right _ h1
      _ = den * 2 ^ n := Nat.mul_comm _ _
  rw [shiftRight_ofFraction m n h, roundedMantissa_ofFraction _ hlt]
  congr 1
  have e := div_add_mod m (2 ^ n)
  calc m / 2 ^ n * (den * 2 ^ n) + (m % 2 ^ n * den + num)
      = (2 ^ n * (m / 2 ^ n) + m % 2 ^ n) * den + num := by ring
    _ = m * den + num := by rw [e]

/-! ## The last place of the format -/

/-- The exponent of the last place of a double of the size of `m * 2 ^ e`. -/
def lastPlace (m : Nat) (e : Int) : Int := max ((m.log2 : Int) + e - 52) (-1074)

theorem targetExponent_eq_lastPlace (m : Nat) (e : Int) :
    Format.binary64.targetExponent (totalExponent m e) = lastPlace m e := by
  simp only [Format.targetExponent, totalExponent, lastPlace, Format.mantissaBits, Format.minExponent]
  omega

/-- The mantissa of a fraction rounded to the last place. -/
def roundedAt (m : Nat) (e : Int) (num den : Nat) : Nat :=
  roundEven (m * den + num) (den * 2 ^ (lastPlace m e - e).toNat)

theorem roundedAt_le (e : Int) (h : num < den) : roundedAt m e num den ≤ 2 ^ 53 := by
  have hm : m + 1 ≤ 2 ^ (m.log2 + 1) := lt_log2_self
  have hk : m.log2 + 1 ≤ 53 + (lastPlace m e - e).toNat := by
    simp only [lastPlace]
    omega
  refine roundEven_le ?_
  calc m * den + num ≤ (m + 1) * den := by rw [succ_mul]; omega
    _ ≤ 2 ^ (53 + (lastPlace m e - e).toNat) * den :=
        Nat.mul_le_mul_right _ (hm.trans (Nat.pow_le_pow_right (by omega) hk))
    _ = 2 ^ 53 * (den * 2 ^ (lastPlace m e - e).toNat) := by rw [Nat.pow_add]; ring

theorem le_roundedAt (hm : 0 < m) (h : num < den) (he : e ≤ lastPlace m e)
    (hp : lastPlace m e ≠ -1074) : 2 ^ 52 ≤ roundedAt m e num den := by
  have hl : 2 ^ m.log2 ≤ m := log2_self_le (by omega)
  have hk : 52 + (lastPlace m e - e).toNat = m.log2 := by
    simp only [lastPlace] at *
    omega
  refine le_roundEven (Nat.mul_pos (by omega) (Nat.two_pow_pos _)) ?_
  calc 2 ^ 52 * (den * 2 ^ (lastPlace m e - e).toNat)
      = 2 ^ (52 + (lastPlace m e - e).toNat) * den := by rw [Nat.pow_add]; ring
    _ ≤ m * den + num := by rw [hk]; exact (Nat.mul_le_mul_right _ hl).trans (Nat.le_add_right _ _)

/-- A mantissa and an exponent in the form that a double has. -/
structure Canonical (m : Nat) (e : Int) : Prop where
  lt : m < 2 ^ 53
  least : -1074 ≤ e
  full : 2 ^ 52 ≤ m ∨ e = -1074

theorem log2_eq (h : 2 ^ k ≤ m) (h' : m < 2 ^ (k + 1)) : m.log2 = k := by
  have hm : m ≠ 0 := by have := Nat.two_pow_pos k; omega
  exact (log2_eq_iff hm).mpr ⟨h, h'⟩

theorem Canonical.lastPlace_eq (h : Canonical m e) (hm : 0 < m) : lastPlace m e = e := by
  rcases h.full with hf | rfl
  · rw [lastPlace, log2_eq hf h.lt]
    have := h.least
    omega
  · have : m.log2 < 53 := (log2_lt (by omega)).mpr h.lt
    simp only [lastPlace]
    omega

/-- A number of a sign, a mantissa and an exponent. -/
def ofParts (s : Sign) (m : Nat) (e : Int) : UnpackedFloat :=
  if h : m = 0 then .zero s else .finite s m e (Nat.pos_of_ne_zero h)

theorem mantissa_ofMantissaAndAccuracy (m : Nat) (a : Accuracy) :
    (ExtendedMantissa.ofMantissaAndAccuracy m a).mantissa = m := by
  rcases a with _ | o
  · rfl
  · cases o <;> rfl

theorem roundWithAccuracy_eq (s : Sign) (hm : 0 < m) (h : num < den) (he : e ≤ lastPlace m e) :
    roundWithAccuracy .binary64 s m e (accuracyOfFraction num den) =
      if roundedAt m e num den = 2 ^ 53 then ofParts s (2 ^ 52) (lastPlace m e + 1)
      else ofParts s (roundedAt m e num den) (lastPlace m e) := by
  have hround : (ExtendedMantissa.ofMantissaAndAccuracy m (accuracyOfFraction num den) >>>
      (lastPlace m e - e).toNat).roundedMantissa = roundedAt m e num den :=
    roundedMantissa_shiftRight m _ h
  have hplace : e + (lastPlace m e - e).toNat = lastPlace m e := by omega
  have hle := roundedAt_le (m := m) e h
  have hfull := le_roundedAt hm h he
  show ofParts s _ _ = _
  simp only [targetExponent_eq_lastPlace, hround, hplace]
  generalize roundedAt m e num den = r at *
  have hexact : Accuracy.exact = accuracyOfFraction 0 1 := rfl
  rw [hexact, shiftRight_ofFraction _ _ Nat.zero_lt_one, mantissa_ofMantissaAndAccuracy]
  by_cases h0 : r = 0
  · subst h0
    simp [ofParts]
  by_cases hr : r = 2 ^ 53
  · have hshift : (lastPlace r (lastPlace m e) - lastPlace m e).toNat = 1 := by
      have hl : r.log2 = 53 := by rw [hr]; exact log2_two_pow
      rw [lastPlace, hl]
      simp only [lastPlace]
      omega
    rw [hshift, if_pos hr, hr]
    rfl
  · have hsame : lastPlace r (lastPlace m e) = lastPlace m e :=
      Canonical.lastPlace_eq ⟨by omega, by simp only [lastPlace]; omega, by omega⟩ (by omega)
    rw [hsame, if_neg hr]
    simp

/-! ## The value of what is rounded -/

/-- A rounded value `w` of `v`: no number that a double can hold lies between the two. -/
def Faithful (v w : ℚ) : Prop :=
  ∀ (k : Nat) (f : Int), k < 2 ^ 53 → -1074 ≤ f →
    ((k : ℚ) * 2 ^ f ≤ v → (k : ℚ) * 2 ^ f ≤ w) ∧ (v ≤ (k : ℚ) * 2 ^ f → w ≤ (k : ℚ) * 2 ^ f)

theorem fraction_eq (h : num < den) (he : e ≤ lastPlace m e) : ((m * den + num : Nat) : ℚ) / den * 2 ^ e =
      ((m * den + num : Nat) : ℚ) / ((den * 2 ^ (lastPlace m e - e).toNat : Nat) : ℚ) * 2 ^ lastPlace m e := by
  have hd : (den : ℚ) ≠ 0 := by
    have : 0 < den := by omega
    positivity
  have hp : (2 : ℚ) ^ lastPlace m e = 2 ^ e * 2 ^ (lastPlace m e - e).toNat := by
    rw [← zpow_natCast, ← zpow_add₀ (by norm_num)]
    congr 1
    omega
  rw [hp]
  push_cast
  field_simp

theorem two_pow_le_fraction (hm : 0 < m) (h : num < den) :
    (2 : ℚ) ^ ((m.log2 : Int) + e) ≤ ((m * den + num : Nat) : ℚ) / den * 2 ^ e := by
  have hd : (0 : ℚ) < den := by
    have : 0 < den := by omega
    exact_mod_cast this
  rw [zpow_add₀ (by norm_num), zpow_natCast]
  refine mul_le_mul_of_nonneg_right ?_ (by positivity)
  rw [le_div_iff₀ hd]
  have hl : 2 ^ m.log2 ≤ m := log2_self_le (by omega)
  exact_mod_cast (Nat.mul_le_mul_right den hl).trans (Nat.le_add_right _ _)

theorem fraction_lt_two_pow (h : num < den) :
    ((m * den + num : Nat) : ℚ) / den * 2 ^ e < (2 : ℚ) ^ ((m.log2 : Int) + 1 + e) := by
  have hd : (0 : ℚ) < den := by
    have : 0 < den := by omega
    exact_mod_cast this
  rw [zpow_add₀ (by norm_num)]
  refine mul_lt_mul_of_pos_right ?_ (by positivity)
  rw [div_lt_iff₀ hd]
  have hm : m + 1 ≤ 2 ^ (m.log2 + 1) := lt_log2_self
  have hlt : m * den + num < 2 ^ (m.log2 + 1) * den :=
    lt_of_lt_of_le (by rw [succ_mul]; omega) (Nat.mul_le_mul_right den hm)
  exact_mod_cast hlt

theorem lt_two_pow_of_lt_lastPlace {f : Int} (hk : k < 2 ^ 53)
    (hf : f < lastPlace m e) (hl : lastPlace m e ≠ -1074) : (k : ℚ) * 2 ^ f < 2 ^ ((m.log2 : Int) + e) := by
  have hplace : lastPlace m e = (m.log2 : Int) + e - 52 := by
    simp only [lastPlace] at *
    omega
  calc (k : ℚ) * 2 ^ f < 2 ^ (53 : Int) * 2 ^ f := by
        refine mul_lt_mul_of_pos_right ?_ (by positivity)
        exact_mod_cast hk
    _ = 2 ^ (53 + f) := (zpow_add₀ (by norm_num) _ _).symm
    _ ≤ 2 ^ ((m.log2 : Int) + e) := zpow_le_zpow_right₀ (by norm_num) (by omega)

theorem faithful_roundedAt (hm : 0 < m) (h : num < den) (he : e ≤ lastPlace m e) :
    Faithful (((m * den + num : Nat) : ℚ) / den * 2 ^ e) (roundedAt m e num den * 2 ^ lastPlace m e) := by
  intro k f hk hf
  have hlo := two_pow_le_fraction (e := e) hm h
  rw [fraction_eq h he] at hlo ⊢
  set b : Nat := den * 2 ^ (lastPlace m e - e).toNat with hb
  have hpos : 0 < b := Nat.mul_pos (by omega) (Nat.two_pow_pos _)
  have hbq : (0 : ℚ) < (b : ℚ) := by exact_mod_cast hpos
  have h2 : (0 : ℚ) < 2 ^ lastPlace m e := by positivity
  rcases le_or_gt (lastPlace m e) f with hle | hlt
  · -- the other double is a whole number of last places
    have hgrid : (k : ℚ) * 2 ^ f = ((k * 2 ^ (f - lastPlace m e).toNat : Nat) : ℚ) * 2 ^ lastPlace m e := by
      have : (2 : ℚ) ^ f = 2 ^ (f - lastPlace m e).toNat * 2 ^ lastPlace m e := by
        rw [← zpow_natCast, ← zpow_add₀ (by norm_num)]
        congr 1
        omega
      rw [this]
      push_cast
      ring
    rw [hgrid]
    generalize k * 2 ^ (f - lastPlace m e).toNat = g
    constructor
    · intro hg
      refine mul_le_mul_of_nonneg_right ?_ h2.le
      have := le_of_mul_le_mul_right hg h2
      rw [le_div_iff₀ hbq] at this
      exact_mod_cast le_roundEven hpos (by exact_mod_cast this)
    · intro hg
      refine mul_le_mul_of_nonneg_right ?_ h2.le
      have := le_of_mul_le_mul_right hg h2
      rw [div_le_iff₀ hbq] at this
      exact_mod_cast roundEven_le (by exact_mod_cast this)
  · have hne : lastPlace m e ≠ -1074 := by omega
    have hsmall := lt_two_pow_of_lt_lastPlace (m := m) (e := e) hk hlt hne
    refine ⟨fun _ => ?_, fun hg => absurd (hsmall.trans_le (hlo.trans hg)) (lt_irrefl _)⟩
    have hfull : (2 : ℚ) ^ (52 : Int) ≤ (roundedAt m e num den : ℚ) := by
      exact_mod_cast le_roundedAt hm h he hne
    have hplace : (m.log2 : Int) + e = 52 + lastPlace m e := by
      simp only [lastPlace] at *
      omega
    calc (k : ℚ) * 2 ^ f ≤ 2 ^ ((m.log2 : Int) + e) := hsmall.le
      _ = 2 ^ (52 : Int) * 2 ^ lastPlace m e := by rw [hplace, zpow_add₀ (by norm_num)]
      _ ≤ roundedAt m e num den * 2 ^ lastPlace m e := mul_le_mul_of_nonneg_right hfull h2.le

/-- The least power of two above all doubles. -/
def ceiling : ℚ := 2 ^ 53 * 2 ^ (971 : Int)

/-- Half a place above the greatest double. -/
def brim : ℚ := (2 ^ 53 - 1 / 2) * 2 ^ (971 : Int)

theorem ceiling_eq : ceiling = 2 ^ (1024 : Int) := (zpow_add₀ (by norm_num) 53 971).symm

theorem two_pow_le_brim {n : Int} (hn : n ≤ 1023) : (2 : ℚ) ^ n ≤ brim := by
  calc (2 : ℚ) ^ n ≤ 2 ^ (52 + 971 : Int) := zpow_le_zpow_right₀ (by norm_num) hn
    _ = 2 ^ (52 : Int) * 2 ^ (971 : Int) := zpow_add₀ (by norm_num) _ _
    _ ≤ brim := mul_le_mul_of_nonneg_right (by norm_num) (by positivity)

theorem brim_lt_ceiling : brim < ceiling := mul_lt_mul_of_pos_right (by norm_num) (by positivity)

theorem roundedAt_lt_iff (hm : 0 < m) (h : num < den) (he : e ≤ lastPlace m e) :
    (roundedAt m e num den : ℚ) * 2 ^ lastPlace m e < ceiling ↔
      ((m * den + num : Nat) : ℚ) / den * 2 ^ e < brim := by
  rcases lt_trichotomy (lastPlace m e) 971 with hlt | heq | hgt
  · have hle : (roundedAt m e num den : ℚ) ≤ 2 ^ (53 : Int) := by exact_mod_cast roundedAt_le (m := m) e h
    refine iff_of_true ?_ ((fraction_lt_two_pow h).trans_le (two_pow_le_brim (by simp only [lastPlace] at hlt; omega)))
    calc (roundedAt m e num den : ℚ) * 2 ^ lastPlace m e ≤ 2 ^ (53 : Int) * 2 ^ lastPlace m e :=
          mul_le_mul_of_nonneg_right hle (by positivity)
      _ < 2 ^ (53 : Int) * 2 ^ (971 : Int) :=
          mul_lt_mul_of_pos_left (zpow_lt_zpow_right₀ (by norm_num) hlt) (by positivity)
      _ = ceiling := rfl
  · have hpos : 0 < den * 2 ^ (lastPlace m e - e).toNat := Nat.mul_pos (by omega) (Nat.two_pow_pos _)
    have hbq : (0 : ℚ) < ((den * 2 ^ (lastPlace m e - e).toNat : Nat) : ℚ) := by exact_mod_cast hpos
    have hhalf : (2 ^ 53 - 1 / 2 : ℚ) = ((2 * 2 ^ 53 - 1 : Nat) : ℚ) / 2 := by norm_num
    have hr : roundedAt m e num den = roundEven (m * den + num) (den * 2 ^ (lastPlace m e - e).toNat) := rfl
    rw [fraction_eq h he, hr, ceiling, brim, hhalf]
    generalize den * 2 ^ (lastPlace m e - e).toNat = b at *
    rw [heq, mul_lt_mul_iff_left₀ (by positivity), mul_lt_mul_iff_left₀ (by positivity),
      div_lt_div_iff₀ hbq (by norm_num), mul_comm _ (2 : ℚ)]
    have hnat : ((2 : ℚ) * ((m * den + num : Nat) : ℚ) < ((2 * 2 ^ 53 - 1 : Nat) : ℚ) * (b : ℚ)) ↔
        2 * (m * den + num) < (2 * 2 ^ 53 - 1) * b := by exact_mod_cast Iff.rfl
    have hnat' : ((roundEven (m * den + num) b : Nat) : ℚ) < 2 ^ 53 ↔ roundEven (m * den + num) b < 2 ^ 53 := by
      exact_mod_cast Iff.rfl
    rw [hnat, hnat']
    refine ⟨fun hlt => ?_, roundEven_lt⟩
    by_contra hge
    exact absurd hlt (Nat.not_lt.mpr (le_roundEven_of_half hpos (by norm_num) (by norm_num) (by omega)))
  · have hl : (1024 : Int) ≤ (m.log2 : Int) + e := by
      simp only [lastPlace] at hgt
      omega
    have h52 : (2 : ℚ) ^ (52 : Int) ≤ (roundedAt m e num den : ℚ) := by
      exact_mod_cast le_roundedAt hm h he (by omega)
    refine iff_of_false (not_lt.mpr ?_) (not_lt.mpr ?_)
    · calc ceiling = 2 ^ (52 + 972 : Int) := ceiling_eq
        _ ≤ 2 ^ (52 + lastPlace m e) := zpow_le_zpow_right₀ (by norm_num) (by omega)
        _ = 2 ^ (52 : Int) * 2 ^ lastPlace m e := zpow_add₀ (by norm_num) _ _
        _ ≤ roundedAt m e num den * 2 ^ lastPlace m e := mul_le_mul_of_nonneg_right h52 (by positivity)
    · calc brim ≤ ceiling := brim_lt_ceiling.le
        _ = 2 ^ (1024 : Int) := ceiling_eq
        _ ≤ 2 ^ ((m.log2 : Int) + e) := zpow_le_zpow_right₀ (by norm_num) hl
        _ ≤ _ := two_pow_le_fraction hm h

end Plainsong.Decimal
