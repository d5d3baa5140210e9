import Mathlib.Data.Int.Log
import Mathlib.Data.Rat.Floor
import Mathlib.Tactic.FieldSimp
import Mathlib.Tactic.Linarith
import Mathlib.Tactic.Positivity
import Mathlib.Tactic.Ring

/-! Rounding of rational numbers to 53 significant bits, ties to even. The exponent is unbounded:
subnormal numbers and overflow do not arise for operands of at most 53 bits. -/

namespace Jayess.Number

def roundHalfEven (x : ℚ) : ℤ :=
  if x - ⌊x⌋ < 1 / 2 then ⌊x⌋
  else if 1 / 2 < x - ⌊x⌋ then ⌊x⌋ + 1
  else if ⌊x⌋ % 2 = 0 then ⌊x⌋ else ⌊x⌋ + 1

theorem abs_roundHalfEven_sub_le (x : ℚ) : |(roundHalfEven x : ℚ) - x| ≤ 1 / 2 := by
  have low := Int.floor_le x
  have high := Int.lt_floor_add_one x
  rw [abs_le]
  unfold roundHalfEven
  split
  · constructor <;> linarith
  · split
    · push_cast
      constructor <;> linarith
    · split
      · constructor <;> linarith
      · push_cast
        constructor <;> linarith

variable {n : ℤ} {x : ℚ}

theorem eq_of_abs_sub_lt_one {m : ℤ} (close : |(m : ℚ) - n| < 1) : m = n := by
  have hclose : |m - n| < 1 := by exact_mod_cast close
  rw [Int.abs_lt_one_iff] at hclose
  omega

theorem roundHalfEven_intCast (n : ℤ) : roundHalfEven n = n := by
  apply eq_of_abs_sub_lt_one
  calc |(roundHalfEven n : ℚ) - n| ≤ 1 / 2 := abs_roundHalfEven_sub_le n
    _ < 1 := by norm_num

theorem abs_roundHalfEven_le (bounded : |x| ≤ n) : |roundHalfEven x| ≤ n := by
  have near := abs_roundHalfEven_sub_le x
  have hle : |(roundHalfEven x : ℚ)| < n + 1 := by
    calc |(roundHalfEven x : ℚ)| = |(roundHalfEven x - x) + x| := by rw [sub_add_cancel]
      _ ≤ |(roundHalfEven x : ℚ) - x| + |x| := abs_add_le _ _
      _ < n + 1 := by linarith
  have hint : |roundHalfEven x| < n + 1 := by exact_mod_cast hle
  omega

/-- The exponent of the last of the 53 significant bits of `x`. -/
def ulpExponent (x : ℚ) : ℤ := Int.log 2 |x| - 52

def ulp (x : ℚ) : ℚ := 2 ^ ulpExponent x

/-- The double nearest to `x`. -/
def toDouble (x : ℚ) : ℚ := roundHalfEven (x / ulp x) * ulp x

theorem ulp_pos (x : ℚ) : 0 < ulp x := by
  unfold ulp
  exact zpow_pos (by norm_num) _

theorem ulp_le (nonzero : x ≠ 0) : 2 ^ 52 * ulp x ≤ |x| := by
  have hlog := Int.zpow_log_le_self (b := 2) (by norm_num) (abs_pos.mpr nonzero)
  calc (2 : ℚ) ^ 52 * ulp x = 2 ^ (52 : ℤ) * 2 ^ ulpExponent x := by rw [ulp]; norm_cast
    _ = 2 ^ Int.log 2 |x| := by
      rw [← zpow_add₀ (by norm_num), ulpExponent]
      congr 1
      omega
    _ ≤ |x| := by exact_mod_cast hlog

theorem abs_lt_ulp (x : ℚ) : |x| < 2 ^ 53 * ulp x := by
  have hlog := Int.lt_zpow_succ_log_self (b := 2) (by norm_num) |x|
  calc |x| < 2 ^ (Int.log 2 |x| + 1) := by exact_mod_cast hlog
    _ = 2 ^ (53 : ℤ) * 2 ^ ulpExponent x := by
      rw [← zpow_add₀ (by norm_num), ulpExponent]
      congr 1
      omega
    _ = 2 ^ 53 * ulp x := by rw [ulp]; norm_cast

@[simp] theorem toDouble_zero : toDouble 0 = 0 := by
  have hzero : roundHalfEven ((0 : ℤ) : ℚ) = 0 := roundHalfEven_intCast 0
  simp only [Int.cast_zero] at hzero
  simp [toDouble, hzero]

theorem abs_toDouble_sub_le (x : ℚ) : |toDouble x - x| ≤ ulp x / 2 := by
  have hulp := ulp_pos x
  have hfactor : toDouble x - x = (roundHalfEven (x / ulp x) - x / ulp x) * ulp x := by
    rw [toDouble, sub_mul, div_mul_cancel₀ _ hulp.ne']
  rw [hfactor, abs_mul, abs_of_pos hulp]
  calc |(roundHalfEven (x / ulp x) : ℚ) - x / ulp x| * ulp x ≤ 1 / 2 * ulp x := by
        apply mul_le_mul_of_nonneg_right (abs_roundHalfEven_sub_le _) hulp.le
    _ = ulp x / 2 := by ring

def IsDouble (x : ℚ) : Prop := ∃ m e : ℤ, |m| ≤ 2 ^ 53 ∧ x = m * 2 ^ e

theorem isDouble_intCast (bounded : |n| ≤ 2 ^ 53) : IsDouble n :=
  ⟨n, 0, bounded, by simp⟩

theorem isDouble_toDouble (x : ℚ) : IsDouble (toDouble x) := by
  refine ⟨roundHalfEven (x / ulp x), ulpExponent x, ?_, rfl⟩
  apply abs_roundHalfEven_le
  have hulp := ulp_pos x
  rw [abs_div, abs_of_pos hulp, div_le_iff₀ hulp]
  exact_mod_cast (abs_lt_ulp x).le

theorem IsDouble.exists_ulp (double : IsDouble x) (nonzero : x ≠ 0) :
    ∃ n : ℤ, x = n * ulp x := by
  obtain ⟨m, e, hm, rfl⟩ := double
  have htwo : (0 : ℚ) < 2 ^ e := zpow_pos (by norm_num) _
  have hmq : |(m : ℚ)| ≤ 2 ^ 53 := by exact_mod_cast hm
  have habs : |(m : ℚ) * 2 ^ e| = |(m : ℚ)| * 2 ^ e := by rw [abs_mul, abs_of_pos htwo]
  have hlow := ulp_le nonzero
  by_cases hle : ulpExponent (m * 2 ^ e) ≤ e
  · refine ⟨m * 2 ^ (e - ulpExponent (m * 2 ^ e)).toNat, ?_⟩
    have hexp : (2 : ℚ) ^ e =
        2 ^ (e - ulpExponent (m * 2 ^ e)).toNat * ulp (m * 2 ^ e) := by
      rw [ulp, ← zpow_natCast, ← zpow_add₀ (by norm_num), Int.toNat_of_nonneg (by omega)]
      congr 1
      omega
    push_cast
    rw [mul_assoc, ← hexp]
  · -- only the largest mantissa, a power of two itself, carries into the next exponent
    have hnext : 2 * (2 : ℚ) ^ e ≤ ulp (m * 2 ^ e) := by
      calc 2 * (2 : ℚ) ^ e = 2 ^ (e + 1) := by rw [zpow_add₀ (by norm_num), zpow_one]; ring
        _ ≤ ulp (m * 2 ^ e) := by
          unfold ulp
          apply zpow_le_zpow_right₀ (by norm_num)
          omega
    rw [habs] at hlow
    have hfull : |(m : ℚ)| = 2 ^ 53 := by
      apply le_antisymm hmq
      have hstep : 2 ^ 53 * (2 : ℚ) ^ e ≤ |(m : ℚ)| * 2 ^ e := by linarith
      exact le_of_mul_le_mul_right hstep htwo
    have hulp : ulp (m * 2 ^ e) = 2 * 2 ^ e := by
      apply le_antisymm _ hnext
      rw [hfull] at hlow
      linarith
    rw [hulp]
    rcases abs_eq (by norm_num : (0 : ℚ) ≤ 2 ^ 53) |>.mp hfull with hpos | hneg
    · refine ⟨2 ^ 52, ?_⟩
      rw [hpos]
      push_cast
      ring
    · refine ⟨-2 ^ 52, ?_⟩
      rw [hneg]
      push_cast
      ring

theorem toDouble_eq_self_iff : toDouble x = x ↔ IsDouble x := by
  constructor
  · intro same
    rw [← same]
    exact isDouble_toDouble x
  · intro double
    by_cases hzero : x = 0
    · rw [hzero, toDouble_zero]
    · obtain ⟨n, hn⟩ := double.exists_ulp hzero
      have hquotient : x / ulp x = n := by
        rw [div_eq_iff (ulp_pos x).ne']
        exact hn
      rw [toDouble, hquotient, roundHalfEven_intCast]
      exact hn.symm

/-- A power of two is a double, so that away from doubles the relative error is below half of
`2 ^ -52`. -/
theorem abs_toDouble_sub_lt (nonzero : x ≠ 0) :
    |toDouble x - x| * 2 ^ 53 < |x| := by
  by_cases hdouble : IsDouble x
  · rw [toDouble_eq_self_iff.mpr hdouble, sub_self, abs_zero, zero_mul]
    exact abs_pos.mpr nonzero
  · have herror := abs_toDouble_sub_le x
    have hlow := ulp_le nonzero
    apply lt_of_le_of_ne
    · calc |toDouble x - x| * 2 ^ 53 ≤ ulp x / 2 * 2 ^ 53 :=
            mul_le_mul_of_nonneg_right herror (by positivity)
        _ = 2 ^ 52 * ulp x := by ring
        _ ≤ |x| := hlow
    · intro tight
      apply hdouble
      have hpower : |x| = 2 ^ 52 * ulp x := by linarith
      rcases abs_eq (mul_pos (by norm_num) (ulp_pos x)).le |>.mp hpower with hpos | hneg
      · refine ⟨2 ^ 52, ulpExponent x, by norm_num, hpos.trans ?_⟩
        push_cast
        rfl
      · refine ⟨-2 ^ 52, ulpExponent x, by norm_num, hneg.trans ?_⟩
        norm_num [ulp]

/-- The double nearest to a quotient of integers whose numerator has at most 53 bits is an integer
only where the quotient is. -/
theorem dvd_of_toDouble_div_eq {a b : ℤ} (bounded : |a| ≤ 2 ^ 53) (nonzero : b ≠ 0)
    (whole : toDouble (a / b) = n) : a = n * b := by
  by_cases hzero : a = 0
  · rw [hzero, Int.cast_zero, zero_div, toDouble_zero] at whole
    have hn : n = 0 := by exact_mod_cast whole.symm
    rw [hzero, hn, zero_mul]
  · have hbq : (0 : ℚ) < |(b : ℚ)| := by
      rw [abs_pos]
      exact_mod_cast nonzero
    have hb : (b : ℚ) ≠ 0 := by exact_mod_cast nonzero
    have hquotient : (a : ℚ) / b ≠ 0 := by
      apply div_ne_zero _ hb
      exact_mod_cast hzero
    have herror := abs_toDouble_sub_lt hquotient
    rw [whole] at herror
    have hscaled : |((n * b : ℤ) : ℚ) - a| * 2 ^ 53 < |(a : ℚ)| := by
      have hfactor : ((n * b : ℤ) : ℚ) - a = (n - a / b) * b := by
        push_cast
        field_simp
      calc |((n * b : ℤ) : ℚ) - a| * 2 ^ 53 = |(n : ℚ) - a / b| * 2 ^ 53 * |(b : ℚ)| := by
            rw [hfactor, abs_mul]
            ring
        _ < |(a : ℚ) / b| * |(b : ℚ)| := mul_lt_mul_of_pos_right herror hbq
        _ = |(a : ℚ)| := by rw [abs_div, div_mul_cancel₀ _ hbq.ne']
    have haq : |(a : ℚ)| ≤ 2 ^ 53 := by exact_mod_cast bounded
    have hclose : |((n * b : ℤ) : ℚ) - a| < 1 := by linarith
    exact (eq_of_abs_sub_lt_one hclose).symm

/-- An integer congruent to another and to its nearest double is the other one, as long as the
rounding error stays below the modulus. -/
theorem eq_of_toDouble_eq {x modulus : ℤ} (bounded : |x| ≤ 2 ^ 53 * modulus)
    (congruent : modulus ∣ n - x) (same : toDouble x = n) : n = x := by
  by_cases hzero : x = 0
  · rw [hzero, Int.cast_zero, toDouble_zero] at same
    have hn : n = 0 := by exact_mod_cast same.symm
    rw [hn, hzero]
  · have hx : (x : ℚ) ≠ 0 := by exact_mod_cast hzero
    have herror := abs_toDouble_sub_lt hx
    rw [same] at herror
    have hint : |n - x| * 2 ^ 53 < |x| := by exact_mod_cast herror
    have hsmall : |n - x| < modulus := by linarith
    have hdiff : n - x = 0 := Int.eq_zero_of_abs_lt_dvd congruent hsmall
    omega

end Jayess.Number
