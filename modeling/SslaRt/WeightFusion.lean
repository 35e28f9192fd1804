import SslaRt.CellMemory
import SslaRt.DenseMatrix
import SslaRt.Primitives

/-! `reshape_ssla_layer`: the projections of a layer multiplied with the blocks
of its two concatenated tensors, and the step of one event before and after. -/

namespace SslaRt

open Matrix CellMemory

variable {R : Type*} [CommRing R]

structure RawLayer (R : Type*) where
  W_in_cat : DenseMatrix R
  W_out_cat : DenseMatrix R
  qW : DenseMatrix R
  vW : DenseMatrix R
  gW : DenseMatrix R
  oW : DenseMatrix R

/-- An array of rank 3, a matrix for each position. -/
abbrev Pages (R : Type*) := List (DenseMatrix R)

def Pages.page (s : Pages R) (p : Nat) : DenseMatrix R := s.getD p ⟨0, 0, fun _ _ => 0⟩

namespace RawLayer

section

variable (T : RawLayer R) (D p : Nat)

def nPosIn : Nat := T.W_in_cat.cols / D
def nPosOut : Nat := T.W_out_cat.rows / D
def numPos : Nat := max (T.nPosIn D) (T.nPosOut D)
def pin : Nat := if T.nPosIn D = 1 then 0 else p
def pout : Nat := if T.nPosOut D = 1 then 0 else p

def inBlock : DenseMatrix R := T.W_in_cat.sliceCols (T.pin D p * D) ((T.pin D p + 1) * D)
def outBlock : DenseMatrix R := T.W_out_cat.sliceRows (T.pout D p * D) ((T.pout D p + 1) * D)

end

/-- The body of the loop over the positions. -/
def reshapePosition (T : RawLayer R) (in_dim D p : Nat) :
    Except String (DenseMatrix R × DenseMatrix R) := do
  let scatter := (T.inBlock D p).transpose
  let q ← T.qW.matmul scatter
  let q_rows ← q.broadcastTo D in_dim
  let v ← T.vW.matmul scatter
  let v_rows ← v.broadcastTo D in_dim
  let g ← T.gW.matmul scatter
  let g_rows ← g.broadcastTo D in_dim
  let gather := (T.outBlock D p).transpose
  let go ← gather.matmul T.oW
  let goW ← go.broadcastTo D D
  return (DenseMatrix.stack3 D q_rows v_rows g_rows, goW)

def reshapeSslaLayer (T : RawLayer R) (in_dim hidden_dim : Nat) :
    Except String (Pages R × Pages R) :=
  let D := hidden_dim
  let cols := T.W_in_cat.cols
  let rows := T.W_out_cat.rows
  if D = 0 then .error "integer modulo by zero"
  else if cols % D ≠ 0 then .error s!"W_in_cat cols {cols} not divisible by D={D}"
  else if rows % D ≠ 0 then .error s!"W_out_cat rows {rows} not divisible by D={D}"
  else do
    let pages ← (List.range (T.numPos D)).mapM (T.reshapePosition in_dim D)
    return (pages.map Prod.fst, pages.map Prod.snd)

/-- One position of the module: projected by the block of `W_in_cat`, then by
q, v and g, gated, and projected back. -/
def pythonPosition (ar : Arith R) (T : RawLayer R) {in_dim D : Nat} (in_feat : Fin in_dim → R)
    (p : Nat) (h : Fin D → R) : (Fin D → R) × (Fin D → R) :=
  let u := in_feat ᵥ* (T.inBlock D p).toMatrix in_dim D
  let q_p := u ᵥ* (T.qW.toMatrix D D)ᵀ
  let v_p := u ᵥ* (T.vW.toMatrix D D)ᵀ
  let g_p := u ᵥ* (T.gW.toMatrix D D)ᵀ
  let r := lruStep ar g_p v_p q_p h
  let o_p := r.2 ᵥ* (T.oW.toMatrix D D)ᵀ
  (r.1, o_p ᵥ* (T.outBlock D p).toMatrix D D)

end RawLayer

/-- The loop over the positions. Each has its own hidden state, and the outputs
are summed. -/
def positionLoop {D : Nat} (step : Nat → (Fin D → R) → (Fin D → R) × (Fin D → R)) (A : Nat)
    (h_per_pos : Nat → Fin D → R) : (Fin D → R) × (Nat → Fin D → R) :=
  (sweep step ((List.range A).map fun p => (p, p)) h_per_pos 0).swap

def pythonStep (ar : Arith R) (T : RawLayer R) {in_dim D : Nat} (in_feat : Fin in_dim → R)
    (h_per_pos : Nat → Fin D → R) : (Fin D → R) × (Nat → Fin D → R) :=
  positionLoop (T.pythonPosition ar in_feat) (T.numPos D) h_per_pos

def fusedPosition (ar : Arith R) {in_dim D : Nat} (qvgIn goW : DenseMatrix R)
    (in_feat : Fin in_dim → R) (h : Fin D → R) : (Fin D → R) × (Fin D → R) :=
  let qvg := fun r : Nat => ∑ i : Fin in_dim, qvgIn.entry r i * in_feat i
  let q_p := fun o : Fin D => qvg o
  let v_p := fun o : Fin D => qvg (D + o)
  let g_p := fun o : Fin D => qvg (2 * D + o)
  let r := lruStep ar g_p v_p q_p h
  (r.1, goW.toMatrix D D *ᵥ r.2)

def cppStep (ar : Arith R) (qvgIn goW : Pages R) {in_dim D : Nat} (in_feat : Fin in_dim → R)
    (h_per_pos : Nat → Fin D → R) : (Fin D → R) × (Nat → Fin D → R) :=
  positionLoop (fun p => fusedPosition ar (qvgIn.page p) (goW.page p) in_feat) qvgIn.length h_per_pos

theorem positionLoop_congr {D : Nat} {step step' : Nat → (Fin D → R) → (Fin D → R) × (Fin D → R)}
    {A : Nat} (h : ∀ p < A, step p = step' p) (h_per_pos : Nat → Fin D → R) :
    positionLoop step A h_per_pos = positionLoop step' A h_per_pos := by
  refine congrArg Prod.swap (sweep_congr (fun c hc => ?_) _ _)
  obtain ⟨p, hp, rfl⟩ := List.mem_map.mp hc
  exact h p (List.mem_range.mp hp)

end SslaRt
