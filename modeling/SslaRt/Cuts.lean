import Mathlib.Order.Monotone.Basic

/-! A monotone sequence of cuts divides an axis into strips. Halving the cuts
divides the halved axis, but not always into the halves of the strips. -/

namespace Cuts

variable {f : Nat → Nat} {x i j n : Nat}

def InStrip (f : Nat → Nat) (i x : Nat) : Prop := f i ≤ x ∧ x < f (i + 1)

instance (f : Nat → Nat) (i x : Nat) : Decidable (InStrip f i x) :=
  inferInstanceAs (Decidable (_ ∧ _))

theorem exists_strip (h0 : f 0 = 0) (hx : x < f n) : ∃ i < n, InStrip f i x := by
  induction n with
  | zero => omega
  | succ n ih =>
    by_cases hn : x < f n
    · obtain ⟨i, hi, hs⟩ := ih hn
      exact ⟨i, by omega, hs⟩
    · exact ⟨n, by omega, by omega, hx⟩

theorem strip_unique (hf : Monotone f) (hi : InStrip f i x) (hj : InStrip f j x) : i = j := by
  obtain ⟨hi1, hi2⟩ := hi
  obtain ⟨hj1, hj2⟩ := hj
  rcases Nat.lt_trichotomy i j with h | h | h
  · have hh := hf (show i + 1 ≤ j from h)
    omega
  · exact h
  · have hh := hf (show j + 1 ≤ i from h)
    omega

def halve (f : Nat → Nat) : Nat → Nat := fun i => f i / 2

theorem halve_mono (hf : Monotone f) : Monotone (halve f) :=
  fun _ _ h => Nat.div_le_div_right (hf h)

/-- The half of a point of a strip leaves the halved strip exactly if the
point is the last one and the strip ends at an odd cut. -/
theorem half_inStrip (h : InStrip f i x) :
    InStrip (halve f) i (x / 2) ↔ ¬ (x + 1 = f (i + 1) ∧ f (i + 1) % 2 = 1) := by
  unfold InStrip halve at *
  omega

theorem halve_width (hle : f i ≤ f (i + 1)) : halve f (i + 1) - halve f i =
    (f (i + 1) - f i) / 2 + if f i % 2 = 1 ∧ f (i + 1) % 2 = 0 then 1 else 0 := by
  unfold halve
  split <;> omega

theorem exists_of_half {c : Nat} (h : InStrip (halve f) i c) : ∃ x, InStrip f i x ∧ x / 2 = c := by
  unfold InStrip halve at *
  exact ⟨2 * c + 1, by omega, by omega⟩

end Cuts
