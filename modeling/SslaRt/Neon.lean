import SslaRt.SmallIndex
import Mathlib.Algebra.BigOperators.Fin
import Mathlib.Algebra.Ring.Basic
import Mathlib.Tactic.FinCases
import Mathlib.Tactic.Ring

/-! Vectors of four lanes, and the products of matrix rows with a group of
registers: one chain of multiply-adds per row, then paired additions. -/

namespace Neon

variable {R : Type*}

abbrev float32x4 (R : Type*) := Fin 4 → R

def vdupq_n_f32 (x : R) : float32x4 R := fun _ => x

def vgetq_lane_f32 (v : float32x4 R) (l : Fin 4) : R := v l

def vld1q_f32 (p : Nat → R) (off : Nat) : float32x4 R := fun l => p (off + l)

/-- Eight floats, the even ones and the odd ones. -/
def vld2q_f32 (p : Nat → R) (off : Nat) : float32x4 R × float32x4 R :=
  (fun l => p (off + 2 * l), fun l => p (off + 2 * l + 1))

/-- The entry `i` of consecutive registers. -/
def lanes (x : Nat → float32x4 R) (i : Nat) : R := x (i / 4) ⟨i % 4, Nat.mod_lt i (by decide)⟩

theorem lanes_add (x : Nat → float32x4 R) (k : Nat) (l : Fin 4) : lanes x (4 * k + l) = x k l := by
  have hl := l.isLt
  have hk : (4 * k + l.val) / 4 = k := by omega
  have hm : (4 * k + l.val) % 4 = l.val := by omega
  simp only [lanes, hk, hm]

theorem lanes_vld1q (p : Nat → R) (i : Nat) : lanes (fun k => vld1q_f32 p (4 * k)) i = p i := by
  simp only [lanes, vld1q_f32, Nat.div_add_mod]

variable [CommRing R]

def vaddq_f32 (a b : float32x4 R) : float32x4 R := fun l => a l + b l

def vmulq_f32 (a b : float32x4 R) : float32x4 R := fun l => a l * b l

def vfmaq_f32 (a b c : float32x4 R) : float32x4 R := fun l => a l + b l * c l

def vpaddq_f32 (a b : float32x4 R) : float32x4 R
  | 0 => a 0 + a 1
  | 1 => a 2 + a 3
  | 2 => b 0 + b 1
  | 3 => b 2 + b 3

def rowChain (x : Nat → float32x4 R) (w : Nat → R) : Nat → float32x4 R
  | 0 => vmulq_f32 (x 0) (vld1q_f32 w 0)
  | n + 1 => vfmaq_f32 (rowChain x w n) (x (n + 1)) (vld1q_f32 w (4 * (n + 1)))

def fourRows (x : Nat → float32x4 R) (n stride : Nat) (w : Nat → R) : float32x4 R :=
  let a0 := rowChain x (fun i => w i) n
  let a1 := rowChain x (fun i => w (stride + i)) n
  let a2 := rowChain x (fun i => w (2 * stride + i)) n
  let a3 := rowChain x (fun i => w (3 * stride + i)) n
  let s01 := vpaddq_f32 a0 a1
  let s23 := vpaddq_f32 a2 a3
  vpaddq_f32 s01 s23

theorem sum_rowChain (x : Nat → float32x4 R) (w : Nat → R) (n : Nat) :
    rowChain x w n 0 + rowChain x w n 1 + (rowChain x w n 2 + rowChain x w n 3) =
      ∑ i ∈ Finset.range (4 * (n + 1)), lanes x i * w i := by
  have hfour : ∀ k, ∑ i ∈ Finset.range (4 * k + 4), lanes x i * w i =
      ∑ i ∈ Finset.range (4 * k), lanes x i * w i + x k 0 * w (4 * k) + x k 1 * w (4 * k + 1) +
        x k 2 * w (4 * k + 2) + x k 3 * w (4 * k + 3) := by
    intro k
    have h0 := lanes_add x k 0
    have h1 := lanes_add x k 1
    have h2 := lanes_add x k 2
    have h3 := lanes_add x k 3
    simp only [Fin.val_zero, Fin.val_one, Fin.val_two, Nat.add_zero] at h0 h1 h2
    rw [show 4 * k + 4 = 4 * k + 1 + 1 + 1 + 1 by omega]
    simp only [Finset.sum_range_succ, h0, h1, h2, Nat.add_assoc, Nat.reduceAdd]
    exact congrArg (_ + ·) (congrArg (· * _) h3)
  induction n with
  | zero =>
    rw [hfour 0]
    simp only [rowChain, vmulq_f32, vld1q_f32]
    simp [add_assoc]
  | succ n ih =>
    rw [show 4 * (n + 1 + 1) = 4 * (n + 1) + 4 by omega, hfour, ← ih]
    simp only [rowChain, vfmaq_f32, vld1q_f32]
    simp only [Fin.val_zero, Fin.val_one, Fin.val_two, add_zero]
    have h3 : ((3 : Fin 4) : Nat) = 3 := rfl
    rw [h3]
    ring

theorem fourRows_apply (x : Nat → float32x4 R) (n stride : Nat) (w : Nat → R) (l : Fin 4) :
    fourRows x n stride w l =
      ∑ i ∈ Finset.range (4 * (n + 1)), lanes x i * w (l * stride + i) := by
  fin_cases l
  · simpa [fourRows, vpaddq_f32] using sum_rowChain x (fun i => w i) n
  · simpa [fourRows, vpaddq_f32] using sum_rowChain x (fun i => w (stride + i)) n
  · simpa [fourRows, vpaddq_f32] using sum_rowChain x (fun i => w (2 * stride + i)) n
  · simpa [fourRows, vpaddq_f32] using sum_rowChain x (fun i => w (3 * stride + i)) n

end Neon
