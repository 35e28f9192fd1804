import Mathlib.Data.Int.Log
import Mathlib.Data.Rat.Floor
import Mathlib.Tactic.Linarith
import Mathlib.Tactic.Positivity

/-! Rounding of a rational to the nearest binary floating-point number, ties to
the even one, and the error that it makes. -/

namespace FloatRounding

def roundEven (q : ℚ) : ℤ :=
  if q - ⌊q⌋ < 1 / 2 then ⌊q⌋
  else if 1 / 2 < q - ⌊q⌋ then ⌊q⌋ + 1
  else if ⌊q⌋ % 2 = 0 then ⌊q⌋ else ⌊q⌋ + 1

theorem abs_roundEven_sub (q : ℚ) : |(roundEven q : ℚ) - q| ≤ 1 / 2 := by
  have hle := Int.floor_le q
  have hlt := Int.lt_floor_add_one q
  unfold roundEven
  rw [abs_le]
  split_ifs <;> push_cast <;> constructor <;> linarith

theorem le_roundEven {n : ℤ} {q : ℚ} (h : (n : ℚ) ≤ q) : n ≤ roundEven q := by
  have hfloor : n ≤ ⌊q⌋ := Int.le_floor.mpr h
  unfold roundEven
  split_ifs <;> omega

/-- The exponent of the last place of a positive number with `p` places after the
first, where the exponents end at `emin`. -/
def lastPlace (p : Nat) (emin : ℤ) (q : ℚ) : ℤ := max (Int.log 2 q) emin - p

/-- A positive number, rounded to a significand of `p + 1` places. -/
def nearest (p : Nat) (emin : ℤ) (q : ℚ) : ℚ :=
  roundEven (q / 2 ^ lastPlace p emin q) * 2 ^ lastPlace p emin q

theorem lastPlace_pos (p : Nat) (emin : ℤ) (q : ℚ) : (0 : ℚ) < 2 ^ lastPlace p emin q :=
  zpow_pos two_pos _

theorem abs_nearest_sub (p : Nat) (emin : ℤ) (q : ℚ) :
    |nearest p emin q - q| ≤ 2 ^ lastPlace p emin q / 2 := by
  have hpos := lastPlace_pos p emin q
  have hsplit : nearest p emin q - q =
      ((roundEven (q / 2 ^ lastPlace p emin q) : ℚ) - q / 2 ^ lastPlace p emin q) *
        2 ^ lastPlace p emin q := by
    rw [nearest, sub_mul, div_mul_cancel₀ _ hpos.ne']
  rw [hsplit, abs_mul, abs_of_pos hpos]
  have hround := mul_le_mul_of_nonneg_right
    (abs_roundEven_sub (q / 2 ^ lastPlace p emin q)) hpos.le
  linarith

/-- Where the number is normal, its first place is still there after rounding. -/
theorem first_le_nearest {p : Nat} {emin : ℤ} {q : ℚ} (hq : 0 < q) (hmin : 2 ^ emin ≤ q) :
    2 ^ lastPlace p emin q * 2 ^ p ≤ nearest p emin q := by
  have hpos := lastPlace_pos p emin q
  have hlog : emin ≤ Int.log 2 q := (Int.zpow_le_iff_le_log one_lt_two hq).mp (by exact_mod_cast hmin)
  have hfirst : (2 : ℚ) ^ lastPlace p emin q * 2 ^ p = 2 ^ Int.log 2 q := by
    rw [lastPlace, max_eq_left hlog, ← zpow_natCast, ← zpow_add₀ two_ne_zero, sub_add_cancel]
  have hle : (2 : ℚ) ^ Int.log 2 q ≤ q := by exact_mod_cast Int.zpow_log_le_self one_lt_two hq
  have hround : ((2 ^ p : ℤ) : ℚ) ≤ q / 2 ^ lastPlace p emin q := by
    rw [le_div_iff₀ hpos, mul_comm]
    push_cast
    rw [hfirst]
    exact hle
  rw [nearest, mul_comm]
  refine mul_le_mul_of_nonneg_right ?_ hpos.le
  exact_mod_cast le_roundEven hround

/-- Rounding a normal number changes it by at most half a unit of the last place. -/
theorem le_nearest_mul {p : Nat} {emin : ℤ} {q : ℚ} (hq : 0 < q) (hmin : 2 ^ emin ≤ q) :
    q ≤ nearest p emin q * (1 + 1 / 2 ^ (p + 1)) := by
  have herr := (abs_le.mp (abs_nearest_sub p emin q)).1
  have hfirst := first_le_nearest (p := p) hq hmin
  have hpow : (0 : ℚ) < 2 ^ p := by positivity
  have hplace : (2 : ℚ) ^ lastPlace p emin q ≤ nearest p emin q / 2 ^ p := (le_div_iff₀ hpow).mpr hfirst
  calc q ≤ nearest p emin q + 2 ^ lastPlace p emin q / 2 := by linarith
    _ ≤ nearest p emin q + nearest p emin q / 2 ^ p / 2 := by linarith
    _ = nearest p emin q * (1 + 1 / 2 ^ (p + 1)) := by rw [pow_succ]; field_simp

end FloatRounding
