import SslaRt.SmallIndex
import Mathlib.Algebra.BigOperators.Fin
import Mathlib.Algebra.Ring.Basic

/-! Numeric primitives of the layers over an exact commutative ring. The
sigmoid and the LayerNorm normaliser are not interpreted. A float buffer is a
total function of its index, a feature of known dimension a function on `Fin`. -/

namespace SslaRt

structure Arith (R : Type*) where
  sigmoid : R → R
  normalise : ∀ {n : Nat}, (Fin n → R) → Fin n → R

variable {R : Type*} [CommRing R]

/-- `y[o] = Σ_i W[o * IN + i] * x[i]`, row-major `(OUT, IN)`. -/
def matvec (IN OUT : Nat) (x : Fin IN → R) (W : Nat → R) : Fin OUT → R :=
  fun o => ∑ i : Fin IN, W (o * IN + i) * x i

/-- `y[o] = Σ_i W[i * OUT_STRIDE + o] * x[i]`, the transposed layout of the GPU. -/
def matvecW (IN OUT OUT_STRIDE : Nat) (x : Fin IN → R) (W : Nat → R) : Fin OUT → R :=
  fun o => ∑ i : Fin IN, W (i * OUT_STRIDE + o) * x i

def lruStep (ar : Arith R) {n : Nat} (g v q h : Fin n → R) : (Fin n → R) × (Fin n → R) :=
  let hc := fun c => ar.sigmoid (g c) * h c + v c
  (hc, fun c => q c * hc c)

def layernorm (ar : Arith R) {n : Nat} (x : Fin n → R) (gamma beta : Nat → R) : Fin n → R :=
  fun o => ar.normalise x o * gamma o + beta o

def readFeat (n : Nat) (buf : Nat → R) : Fin n → R := fun i => buf i

def writeFeat {n : Nat} (buf : Nat → R) (x : Fin n → R) : Nat → R :=
  fun j => if h : j < n then x ⟨j, h⟩ else buf j

omit [CommRing R] in
@[simp] theorem readFeat_writeFeat {n : Nat} (buf : Nat → R) (x : Fin n → R) :
    readFeat n (writeFeat buf x) = x := by
  funext i
  simp [readFeat, writeFeat]

end SslaRt
