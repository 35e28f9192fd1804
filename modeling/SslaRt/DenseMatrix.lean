import Mathlib.Data.Matrix.Mul
import Mathlib.Algebra.BigOperators.Fin

/-! Two-dimensional arrays whose shape is known only at run time, with the
operations that check it. On arrays of the expected shapes the operations are
those of matrices of fixed dimensions. -/

open Matrix

structure DenseMatrix (R : Type*) where
  rows : Nat
  cols : Nat
  entry : Nat → Nat → R

namespace DenseMatrix

variable {R : Type*}

structure HasShape (a : DenseMatrix R) (m n : Nat) : Prop where
  rows : a.rows = m
  cols : a.cols = n

def toMatrix (a : DenseMatrix R) (m n : Nat) : Matrix (Fin m) (Fin n) R :=
  Matrix.of fun i j => a.entry i j

@[simp] theorem toMatrix_apply (a : DenseMatrix R) {m n : Nat} (i : Fin m) (j : Fin n) :
    a.toMatrix m n i j = a.entry i j := rfl

def transpose (a : DenseMatrix R) : DenseMatrix R := ⟨a.cols, a.rows, fun i j => a.entry j i⟩

/-- A slice stops at the last column, as does its start. -/
def sliceCols (a : DenseMatrix R) (lo hi : Nat) : DenseMatrix R :=
  ⟨a.rows, min hi a.cols - min lo a.cols, fun i j => a.entry i (min lo a.cols + j)⟩

def sliceRows (a : DenseMatrix R) (lo hi : Nat) : DenseMatrix R :=
  ⟨min hi a.rows - min lo a.rows, a.cols, fun i j => a.entry (min lo a.rows + i) j⟩

def matmul [NonUnitalNonAssocSemiring R] (a b : DenseMatrix R) : Except String (DenseMatrix R) :=
  if a.cols = b.rows then
    .ok ⟨a.rows, b.cols, fun i j => ∑ k ∈ Finset.range a.cols, a.entry i k * b.entry k j⟩
  else .error "matmul: mismatch in the core dimension"

/-- An axis of length 1 is repeated to the length that is asked for. -/
def broadcastTo (a : DenseMatrix R) (m n : Nat) : Except String (DenseMatrix R) :=
  if (a.rows = m ∨ a.rows = 1) ∧ (a.cols = n ∨ a.cols = 1) then
    .ok ⟨m, n, fun i j => a.entry (if a.rows = 1 then 0 else i) (if a.cols = 1 then 0 else j)⟩
  else .error "could not broadcast input array"

/-- The buffer of the array, row by row. -/
def contiguous (a : DenseMatrix R) : Nat → R := fun n => a.entry (n / a.cols) (n % a.cols)

theorem contiguous_apply (a : DenseMatrix R) (i : Nat) {j : Nat} (hj : j < a.cols) :
    a.contiguous (i * a.cols + j) = a.entry i j := by
  have hpos : 0 < a.cols := Nat.zero_lt_of_lt hj
  rw [contiguous, Nat.add_comm, Nat.add_mul_div_right _ _ hpos, Nat.div_eq_of_lt hj,
    Nat.add_mul_mod_self_right, Nat.mod_eq_of_lt hj, Nat.zero_add]

/-- Three arrays of `m` rows, one above the other. -/
def stack3 (m : Nat) (a b c : DenseMatrix R) : DenseMatrix R :=
  ⟨3 * m, a.cols, fun r j =>
    if r < m then a.entry r j else if r < 2 * m then b.entry (r - m) j else c.entry (r - 2 * m) j⟩

theorem stack3_second {m r : Nat} (a b c : DenseMatrix R) (hr : r < m) (j : Nat) :
    (stack3 m a b c).entry (m + r) j = b.entry r j := by
  have h1 : ¬ m + r < m := by omega
  have h2 : m + r < 2 * m := by omega
  simp only [stack3, if_neg h1, if_pos h2, Nat.add_sub_cancel_left]

theorem stack3_third {m : Nat} (a b c : DenseMatrix R) (r j : Nat) :
    (stack3 m a b c).entry (2 * m + r) j = c.entry r j := by
  have h1 : ¬ 2 * m + r < m := by omega
  have h2 : ¬ 2 * m + r < 2 * m := by omega
  simp only [stack3, if_neg h1, if_neg h2, Nat.add_sub_cancel_left]

section Shapes

variable {a b : DenseMatrix R} {m k n : Nat}

theorem HasShape.transpose (h : a.HasShape m n) : a.transpose.HasShape n m := ⟨h.cols, h.rows⟩

@[simp] theorem toMatrix_transpose (a : DenseMatrix R) (m n : Nat) :
    a.transpose.toMatrix n m = (a.toMatrix m n)ᵀ := rfl

theorem HasShape.sliceCols (h : a.HasShape m n) {lo : Nat} (hlo : lo + k ≤ n) :
    (a.sliceCols lo (lo + k)).HasShape m k := by
  refine ⟨h.rows, ?_⟩
  change min (lo + k) a.cols - min lo a.cols = k
  rw [h.cols]
  omega

theorem HasShape.sliceRows (h : a.HasShape m n) {lo : Nat} (hlo : lo + k ≤ m) :
    (a.sliceRows lo (lo + k)).HasShape k n := by
  refine ⟨?_, h.cols⟩
  change min (lo + k) a.rows - min lo a.rows = k
  rw [h.rows]
  omega

theorem HasShape.sliceCols_entry (h : a.HasShape m n) {lo hi : Nat} (hlo : lo ≤ n) (i j : Nat) :
    (a.sliceCols lo hi).entry i j = a.entry i (lo + j) := by
  change a.entry i (min lo a.cols + j) = _
  rw [h.cols, Nat.min_eq_left hlo]

theorem HasShape.sliceRows_entry (h : a.HasShape m n) {lo hi : Nat} (hlo : lo ≤ m) (i j : Nat) :
    (a.sliceRows lo hi).entry i j = a.entry (lo + i) j := by
  change a.entry (min lo a.rows + i) j = _
  rw [h.rows, Nat.min_eq_left hlo]

theorem HasShape.broadcastTo (h : a.HasShape m n) : ∃ c, a.broadcastTo m n = .ok c ∧
    c.HasShape m n ∧ ∀ i < m, ∀ j < n, c.entry i j = a.entry i j := by
  refine ⟨_, if_pos ⟨.inl h.rows, .inl h.cols⟩, ⟨rfl, rfl⟩, fun i hi j hj => ?_⟩
  have hrow : (if a.rows = 1 then 0 else i) = i := by
    have := h.rows
    split <;> omega
  have hcol : (if a.cols = 1 then 0 else j) = j := by
    have := h.cols
    split <;> omega
  simp only [hrow, hcol]

theorem HasShape.matmul [NonUnitalNonAssocSemiring R] (ha : a.HasShape m k) (hb : b.HasShape k n) :
    ∃ c, a.matmul b = .ok c ∧ c.HasShape m n ∧
      c.toMatrix m n = a.toMatrix m k * b.toMatrix k n := by
  refine ⟨_, if_pos (ha.cols.trans hb.rows.symm), ⟨ha.rows, hb.cols⟩, ?_⟩
  ext i j
  change (∑ l ∈ Finset.range a.cols, a.entry i l * b.entry l j) = _
  rw [ha.cols, Matrix.mul_apply]
  exact (Fin.sum_univ_eq_sum_range (fun l => a.entry i l * b.entry l j) k).symm

end Shapes

end DenseMatrix
