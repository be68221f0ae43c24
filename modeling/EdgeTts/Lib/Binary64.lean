import Mathlib.Data.Int.Log
import Mathlib.Data.Rat.Floor
import Mathlib.Tactic.Linarith
import Mathlib.Tactic.Ring

/-!
# Doubles as exact rationals

A finite `double` is a number with a significand of 53 bits (`IsDouble`).  IEEE 754 computes an
operation exactly and rounds the result to the nearest double, of two equally near ones to the
even one (`nearest`).  A result that is a double is not changed (`IsDouble.nearest_eq`), and any
other one by no more than the 2^53rd part of it (`abs_nearest_sub_le`).

Exponents have no bounds here, so this is the arithmetic of doubles where nothing overflows and
no result is subnormal.
-/
namespace Binary64

/-- A number with a significand of 53 bits. -/
def IsDouble (x : Rat) : Prop := ∃ m e : Int, |m| ≤ 2 ^ 53 ∧ x = m * 2 ^ e

/-- The nearest integer, the even one of two. -/
def roundEven (x : Rat) : Int :=
  if x - ⌊x⌋ < 1 / 2 then ⌊x⌋
  else if x - ⌊x⌋ > 1 / 2 then ⌊x⌋ + 1
  else if ⌊x⌋ % 2 = 0 then ⌊x⌋
  else ⌊x⌋ + 1

/-- The exponent of the last of the 53 bits. -/
def lastPlace (x : Rat) : Int := Int.log 2 |x| - 52

/-- The nearest double. -/
def nearest (x : Rat) : Rat := roundEven (x / 2 ^ lastPlace x) * 2 ^ lastPlace x

theorem roundEven_intCast (n : Int) : roundEven n = n := by
  rw [roundEven, Int.floor_intCast, if_pos (by rw [sub_self]; norm_num)]

theorem abs_roundEven_sub_le (x : Rat) : |(roundEven x : Rat) - x| ≤ 1 / 2 := by
  have hfloor := Int.floor_le x
  have hlt := Int.lt_floor_add_one x
  rw [roundEven, abs_le]
  split_ifs <;> push_cast <;> constructor <;> linarith

/-- A number has its last place 52 bits after its first. -/
theorem two_zpow_lastPlace_le {x : Rat} (h : x ≠ 0) : 2 ^ 52 * (2 : Rat) ^ lastPlace x ≤ |x| := by
  have hle := Int.zpow_log_le_self (R := Rat) (b := 2) (by decide) (abs_pos.mpr h)
  rw [lastPlace, ← zpow_natCast, ← zpow_add₀ (by norm_num)]
  simpa using hle

@[simp] theorem nearest_zero : nearest 0 = 0 := by
  rw [nearest, zero_div, show roundEven 0 = 0 from roundEven_intCast 0, Int.cast_zero, zero_mul]

/-- **Rounding changes a result by its 2^53rd part at most.** -/
theorem abs_nearest_sub_le (x : Rat) : |nearest x - x| ≤ |x| / 2 ^ 53 := by
  by_cases hx : x = 0
  · simp [hx]
  · have hpos : (0 : Rat) < 2 ^ lastPlace x := zpow_pos (by norm_num) _
    have hcut : nearest x - x =
        (roundEven (x / 2 ^ lastPlace x) - x / 2 ^ lastPlace x) * 2 ^ lastPlace x := by
      rw [nearest, sub_mul, div_mul_cancel₀ _ hpos.ne']
    have hhalf := abs_roundEven_sub_le (x / 2 ^ lastPlace x)
    have hplace := two_zpow_lastPlace_le hx
    rw [hcut, abs_mul, abs_of_pos hpos]
    calc _ ≤ 1 / 2 * (2 : Rat) ^ lastPlace x := mul_le_mul_of_nonneg_right hhalf hpos.le
      _ = 2 ^ 52 * 2 ^ lastPlace x / 2 ^ 53 := by ring
      _ ≤ |x| / 2 ^ 53 := by gcongr

theorem nearest_of_multiple {x : Rat} {n : Int} (h : x = n * 2 ^ lastPlace x) : nearest x = x := by
  have hdiv : x / 2 ^ lastPlace x = n :=
    (div_eq_iff (zpow_pos (by norm_num) _).ne').mpr h
  rw [nearest, hdiv, roundEven_intCast]
  exact h.symm

/-- **A double is not changed.** -/
theorem IsDouble.nearest_eq {x : Rat} (h : IsDouble x) : nearest x = x := by
  obtain ⟨m, e, hm, hx⟩ := h
  by_cases hzero : x = 0
  · rw [hzero, nearest_zero]
  have hplace := two_zpow_lastPlace_le hzero
  rcases le_or_gt (lastPlace x) e with hle | hlt
  · -- the last bit of the significand is no later than the last place
    obtain ⟨k, hk⟩ := Int.eq_ofNat_of_zero_le (sub_nonneg.mpr hle)
    refine nearest_of_multiple (n := m * 2 ^ k) ?_
    have hsum : e = k + lastPlace x := by omega
    push_cast
    rw [mul_assoc, ← zpow_natCast, ← zpow_add₀ (by norm_num), ← hsum]
    exact hx
  · -- so it is a power of two, with all its places after the first
    have hupper : |x| ≤ 2 ^ 52 * (2 : Rat) ^ lastPlace x := by
      have hcast : |(m : Rat)| ≤ 2 ^ 53 := by exact_mod_cast hm
      have hexp : (2 : Rat) ^ e ≤ 2 ^ (lastPlace x - 1) :=
        zpow_le_zpow_right₀ (by norm_num) (by omega)
      rw [zpow_sub_one₀ (by norm_num)] at hexp
      have hpos : (0 : Rat) < 2 ^ e := zpow_pos (by norm_num) e
      calc |x| = |(m : Rat)| * 2 ^ e := by rw [hx, abs_mul, abs_of_pos hpos]
        _ ≤ 2 ^ 53 * ((2 : Rat) ^ lastPlace x * 2⁻¹) :=
            mul_le_mul hcast hexp hpos.le (by norm_num)
        _ = 2 ^ 52 * 2 ^ lastPlace x := by ring
    have hpos : (0 : Rat) < 2 ^ 52 * 2 ^ lastPlace x :=
      mul_pos (by norm_num) (zpow_pos (by norm_num) _)
    rcases (abs_eq hpos.le).mp (le_antisymm hupper hplace) with hpow | hpow
    · exact nearest_of_multiple (n := 2 ^ 52) (by exact_mod_cast hpow)
    · exact nearest_of_multiple (n := -2 ^ 52) (by
        push_cast
        rw [neg_mul]
        exact hpow)

/-- An integer with 53 bits, shifted, is a double. -/
theorem isDouble_shift {m : Int} (h : |m| ≤ 2 ^ 53) (k : Nat) :
    IsDouble ((m * 2 ^ k : Int) : Rat) :=
  ⟨m, k, h, by push_cast; rw [zpow_natCast]⟩

end Binary64
