import SslaRt.SignalLayer
import Mathlib.Analysis.SpecialFunctions.Sigmoid
import Mathlib.Analysis.SpecialFunctions.Pow.Real

/-! The sigmoid and the normaliser of the layers over the real numbers. -/

namespace SslaRt

/-- `1e-5f`. -/
noncomputable def lnEps : ℝ := 10995116 / 2 ^ 40

noncomputable def mean {n : Nat} (x : Fin n → ℝ) : ℝ := (∑ i, x i) / n

noncomputable def variance {n : Nat} (x : Fin n → ℝ) : ℝ := (∑ i, (x i - mean x) ^ 2) / n

/-- `layernorm_ct` without its scale and shift. -/
noncomputable def realArith : Arith ℝ where
  sigmoid := Real.sigmoid
  normalise := fun x o => (x o - mean x) * (1 / Real.sqrt (variance x + lnEps))

theorem variance_nonneg {n : Nat} (x : Fin n → ℝ) : 0 ≤ variance x :=
  div_nonneg (Finset.sum_nonneg fun i _ => sq_nonneg (x i - mean x)) (Nat.cast_nonneg n)

theorem lnEps_pos : 0 < lnEps := by
  unfold lnEps
  positivity

theorem realArith_spreads : realArith.Spreads where
  sigmoid_zero := Real.sigmoid_pos 0
  normalise := by
    intro n x
    have hpos : 0 < variance x + lnEps := add_pos_of_nonneg_of_pos (variance_nonneg x) lnEps_pos
    refine ⟨1 / Real.sqrt (variance x + lnEps), one_div_pos.mpr (Real.sqrt_pos.mpr hpos), fun o o' => ?_⟩
    simp only [realArith]
    ring

end SslaRt
