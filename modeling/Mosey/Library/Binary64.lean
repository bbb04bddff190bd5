import Mathlib.Data.Int.Log
import Mathlib.Data.Nat.Cast.Order.Field
import Mathlib.Data.Rat.Floor
import Mathlib.Tactic.Linarith
import Mathlib.Tactic.Positivity

/-!
# Rounding to doubles

A double has 53 significant bits, and an operation on doubles gives the double nearest to the exact
result, the even one of two that are equally near. This is about numbers that are not negative and far
from the ends of the range.
-/

namespace Mosey.Library.Binary64

/-- The nearest integer, and the even one of two. -/
def roundEven (x : ℚ) : ℤ :=
  if x - ⌊x⌋ < 1 / 2 then ⌊x⌋
  else if 1 / 2 < x - ⌊x⌋ then ⌊x⌋ + 1
  else if ⌊x⌋ % 2 = 0 then ⌊x⌋ else ⌊x⌋ + 1

/-- The distance of the doubles near a number. -/
def unit (x : ℚ) : ℚ := 2 ^ (Int.log 2 x - 52)

def round (x : ℚ) : ℚ := roundEven (x / unit x) * unit x

example : round (2 ^ 53 + 1) = 2 ^ 53 := by decide +kernel

theorem unit_pos (x : ℚ) : 0 < unit x := zpow_pos (by decide) _

/-- Rounding leaves the natural numbers as they are. -/
theorem roundEven_natCast (n : ℕ) : roundEven n = n := by
  simp [roundEven]

theorem floor_le_roundEven (x : ℚ) : ⌊x⌋ ≤ roundEven x := by
  rw [roundEven]
  split_ifs <;> omega

theorem roundEven_le (x : ℚ) : (roundEven x : ℚ) ≤ x + 1 / 2 := by
  have hfloor := Int.floor_le x
  rw [roundEven]
  split_ifs <;> push_cast <;> linarith

theorem unit_le {x : ℚ} (hx : 0 < x) : unit x ≤ x / 2 ^ 52 := by
  have hlog : (2 : ℚ) ^ Int.log 2 x ≤ x := by exact_mod_cast Int.zpow_log_le_self (by decide) hx
  rw [unit, zpow_sub₀ (by decide), le_div_iff₀ (by positivity)]
  calc (2 : ℚ) ^ Int.log 2 x / 2 ^ (52 : ℤ) * 2 ^ 52 = 2 ^ Int.log 2 x := div_mul_cancel₀ _ (by decide)
    _ ≤ x := hlog

/-- Below 2^53, whole numbers are multiples of the distance. -/
theorem exists_div_unit_eq {x : ℚ} (hx : x < 2 ^ 53) (n : ℕ) : ∃ m : ℕ, (n : ℚ) / unit x = m := by
  have hlog : Int.log 2 x ≤ 52 := by
    rcases le_or_gt x 0 with hzero | hpos
    · rw [Int.log_of_right_le_zero _ hzero]
      decide
    · have hbound : x < ((2 : ℕ) : ℚ) ^ (53 : ℤ) := by exact_mod_cast hx
      have hlt := (Int.lt_zpow_iff_log_lt (by decide) hpos).mp hbound
      omega
  obtain ⟨k, hk⟩ := Int.eq_ofNat_of_zero_le (Int.sub_nonneg_of_le hlog)
  have hexponent : Int.log 2 x - 52 = -(k : ℤ) := by omega
  refine ⟨n * 2 ^ k, ?_⟩
  rw [unit, hexponent, zpow_neg, zpow_natCast, div_inv_eq_mul]
  push_cast
  rfl

/-- Every natural number below 2^53 has a double of its own. -/
theorem round_natCast {n : ℕ} (hn : n < 2 ^ 53) : round n = n := by
  obtain ⟨m, hm⟩ := exists_div_unit_eq (x := n) (by exact_mod_cast hn) n
  rw [round, hm, roundEven_natCast, Int.cast_natCast, ← hm, div_mul_cancel₀ _ (unit_pos _).ne']

/-- The relative error of rounding is at most 2^-53. -/
theorem round_le {x : ℚ} (hx : 0 ≤ x) : round x ≤ x + x / 2 ^ 53 := by
  rcases hx.eq_or_lt with rfl | hpos
  · have hzero : round 0 = 0 := by exact_mod_cast round_natCast (n := 0) (by decide)
    rw [hzero, zero_div, add_zero]
  · calc round x ≤ (x / unit x + 1 / 2) * unit x :=
          mul_le_mul_of_nonneg_right (roundEven_le _) (unit_pos x).le
      _ = x + unit x / 2 := by rw [add_mul, div_mul_cancel₀ _ (unit_pos x).ne', one_div_mul_eq_div]
      _ ≤ x + x / 2 ^ 53 := by linarith [unit_le hpos]

/-- Rounding does not go below a power of two. -/
theorem zpow_log_le_round {x : ℚ} (hx : 0 < x) : 2 ^ Int.log 2 x ≤ round x := by
  have hlog : (2 : ℚ) ^ Int.log 2 x ≤ x := by exact_mod_cast Int.zpow_log_le_self (by decide) hx
  have hunit : (2 : ℚ) ^ Int.log 2 x = ((2 ^ 52 : ℤ) : ℚ) * unit x := by
    rw [unit, zpow_sub₀ (by decide)]
    push_cast
    exact (mul_div_cancel₀ _ (by decide)).symm
  have hfloor : (2 ^ 52 : ℤ) ≤ roundEven (x / unit x) := by
    refine le_trans (Int.le_floor.mpr ?_) (floor_le_roundEven _)
    rwa [le_div_iff₀ (unit_pos x), ← hunit]
  calc (2 : ℚ) ^ Int.log 2 x = ((2 ^ 52 : ℤ) : ℚ) * unit x := hunit
    _ ≤ roundEven (x / unit x) * unit x :=
      mul_le_mul_of_nonneg_right (by exact_mod_cast hfloor) (unit_pos x).le

theorem two_pow_le_round {x : ℚ} {k : ℕ} (hx : 2 ^ k ≤ x) : 2 ^ k ≤ round x := by
  have hpos : 0 < x := lt_of_lt_of_le (by positivity) hx
  have hlog : (k : ℤ) ≤ Int.log 2 x := by
    rw [← Int.zpow_le_iff_le_log (by decide) hpos]
    exact_mod_cast hx
  calc (2 : ℚ) ^ k = 2 ^ (k : ℤ) := (zpow_natCast 2 k).symm
    _ ≤ 2 ^ Int.log 2 x := zpow_le_zpow_right₀ (by decide) hlog
    _ ≤ round x := zpow_log_le_round hpos

/-- Rounding a quotient does not carry it over the next whole number. -/
theorem floor_round_div {n d : ℕ} (hd : 0 < d) (hn : n < 2 ^ 53) : ⌊round (n / d)⌋₊ = n / d := by
  have hd' : (0 : ℚ) < d := by exact_mod_cast hd
  have hn' : (n : ℚ) < 2 ^ 53 := by exact_mod_cast hn
  have hle : (n : ℚ) / d ≤ n := div_le_self (Nat.cast_nonneg n) (by exact_mod_cast hd)
  have hlower : ((n / d : ℕ) : ℚ) ≤ round (n / d) := by
    obtain ⟨m, hm⟩ := exists_div_unit_eq (hle.trans_lt hn') (n / d)
    have hfloor : (m : ℤ) ≤ roundEven (n / d / unit (n / d)) := by
      refine le_trans (Int.le_floor.mpr ?_) (floor_le_roundEven _)
      rw [Int.cast_natCast, ← hm]
      exact div_le_div_of_nonneg_right Nat.cast_div_le (unit_pos _).le
    rw [round, ← div_le_iff₀ (unit_pos _), hm]
    exact_mod_cast hfloor
  have hupper : round (n / d) < (n / d : ℕ) + 1 := by
    have hnext : (n : ℚ) + 1 ≤ d * ((n / d : ℕ) + 1) := by
      exact_mod_cast Nat.lt_mul_div_succ n hd
    calc round (n / d) ≤ n / d + n / d / 2 ^ 53 := round_le (by positivity)
      _ = (n + n / 2 ^ 53) / d := by rw [add_div, div_right_comm]
      _ < (n + 1) / d := by
        apply div_lt_div_of_pos_right _ hd'
        linarith [(div_lt_one (by positivity)).mpr hn']
      _ ≤ (n / d : ℕ) + 1 := by rwa [div_le_iff₀ hd', mul_comm]
  exact (Nat.floor_eq_iff ((Nat.cast_nonneg _).trans hlower)).mpr ⟨hlower, hupper⟩

end Mosey.Library.Binary64
