import Mathlib.Algebra.Order.Field.Basic
import Mathlib.Algebra.Order.AbsoluteValue.Basic
import Mathlib.Data.List.Induction
import Mathlib.Tactic.Ring
import Mathlib.Tactic.Linarith

/-! First-order recurrences `h ↦ a * h + v` whose gate `a` stays in an interval
`[0, s]`. With `s < 1` the state is bounded along every run. -/

namespace GatedRecurrence

variable {K : Type*} [Field K] [LinearOrder K] [IsStrictOrderedRing K]

theorem abs_gated_le {a h v : K} (h0 : 0 ≤ a) (h1 : a ≤ 1) : |a * h + v| ≤ |h| + |v| := by
  have hmul : |a * h| ≤ |h| := by
    rw [abs_mul, abs_of_nonneg h0]
    exact mul_le_of_le_one_left (abs_nonneg h) h1
  exact (abs_add_le _ _).trans (by linarith)

/-- A radius that absorbs the input of one step is kept. -/
theorem abs_gated_le_radius {a s h v B M : K} (h0 : 0 ≤ a) (has : a ≤ s) (hv : |v| ≤ B)
    (hM : B ≤ (1 - s) * M) (hh : |h| ≤ M) : |a * h + v| ≤ M := by
  have hM0 : 0 ≤ M := (abs_nonneg h).trans hh
  have hmul : |a * h| ≤ s * M := by
    rw [abs_mul, abs_of_nonneg h0]
    exact mul_le_mul has hh (abs_nonneg h) (h0.trans has)
  calc |a * h + v| ≤ |a * h| + |v| := abs_add_le _ _
    _ ≤ s * M + (1 - s) * M := add_le_add hmul (hv.trans hM)
    _ = M := by ring

/-- The state after a run of steps, each a gate and an input. -/
def run (h : K) (steps : List (K × K)) : K := steps.foldl (fun h p => p.1 * h + p.2) h

omit [LinearOrder K] [IsStrictOrderedRing K] in
theorem run_append (h : K) (steps more : List (K × K)) :
    run h (steps ++ more) = run (run h steps) more := List.foldl_append

theorem abs_run_le_radius {h s B M : K} {steps : List (K × K)}
    (hsteps : ∀ p ∈ steps, 0 ≤ p.1 ∧ p.1 ≤ s ∧ |p.2| ≤ B) (hM : B ≤ (1 - s) * M) (hh : |h| ≤ M) :
    |run h steps| ≤ M := by
  induction steps using List.reverseRecOn with
  | nil => exact hh
  | append_singleton steps p ih =>
    obtain ⟨h0, hs, hv⟩ := hsteps p (by simp)
    rw [run_append]
    exact abs_gated_le_radius h0 hs hv hM (ih fun q hq => hsteps q (by simp [hq]))

/-- The largest of the start and the fixed point of the worst step. -/
theorem abs_run_le_max {h s B : K} {steps : List (K × K)} (hs1 : s < 1)
    (hsteps : ∀ p ∈ steps, 0 ≤ p.1 ∧ p.1 ≤ s ∧ |p.2| ≤ B) :
    |run h steps| ≤ max |h| (B / (1 - s)) := by
  refine abs_run_le_radius hsteps ?_ (le_max_left _ _)
  have hpos : 0 < 1 - s := by linarith
  rw [mul_comm, ← div_le_iff₀ hpos]
  exact le_max_right _ _

end GatedRecurrence
