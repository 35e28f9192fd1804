import SslaRt.WeightsFile
import SslaRt.LayerForward
import Mathlib.Algebra.BigOperators.Group.List.Basic

/-! `load_layer`: the tensors of one layer, checked as far as the loader checks
them, packed into the buffers of the forward pass. -/

namespace SslaRt

open CheckedRun

variable {R : Type*}

abbrev kPatchArea : Nat := 9

/-- The buffers of a layer as vectors. The three arrays have nine entries. -/
structure LayerBufs (R : Type*) where
  in_dim : Nat
  out_dim : Nat
  num_pos : Int
  qvgIn : Nat → List R
  goW : Nat → List R
  goW_T : Nat → List R
  input_proj : List R
  ln_gamma : List R
  ln_beta : List R

namespace LayerBufs

def setPosition (L : LayerBufs R) (p : Nat) (qvgIn goW goW_T : List R) : LayerBufs R :=
  { L with
    qvgIn := Function.update L.qvgIn p qvgIn
    goW := Function.update L.goW p goW
    goW_T := Function.update L.goW_T p goW_T }

/-- What the forward pass reads in the buffers. -/
def weights [Zero R] (L : LayerBufs R) : LayerWeights R where
  num_pos := L.num_pos.toNat
  qvgIn := fun p i => readAt (L.qvgIn p) i
  goW := fun p i => readAt (L.goW p) i
  goW_T := fun p i => readAt (L.goW_T p) i
  input_proj := if L.input_proj = [] then none else some fun i => readAt L.input_proj i
  ln_gamma := fun i => readAt L.ln_gamma i
  ln_beta := fun i => readAt L.ln_beta i

end LayerBufs

section Pack

/-- `prim::mm`, C = B @ A. -/
def mm [CommRing R] (B : List R) (b_out b_in : Nat) (A : List R) (a_out a_in : Nat) :
    Checked (List R) := do
  Checked.throwIf (b_in ≠ a_out) "prim::mm: shape mismatch"
  Checked.access (decide (∀ o < b_out, ∀ k < b_in, CheckedRun.InRange B (o * b_in + k : Nat)))
  Checked.access (decide (∀ k < b_in, ∀ i < a_in, CheckedRun.InRange A (k * a_in + i : Nat)))
  return tabulate b_out a_in fun o i =>
    ((List.range b_in).map fun k =>
      readAt B (o * b_in + k : Nat) * readAt A (k * a_in + i : Nat)).sum

variable [Zero R]

def packQvg (Q V G : List R) (out_dim in_dim : Nat) : Checked (List R) := do
  let block := out_dim * in_dim
  Checked.access (decide (block ≤ Q.length ∧ block ≤ V.length ∧ block ≤ G.length))
  return Q.take block ++ V.take block ++ G.take block

/-- `scatter[d, c] = W_in_cat[c, pin*D + d]`. -/
def scatterOf (Win : List R) (Win_cols pin : Int) (out_dim in_dim : Nat) : Checked (List R) := do
  let at_ := fun d c : Nat => (c : Int) * Win_cols + (pin * out_dim + d)
  Checked.access (decide (∀ d < out_dim, ∀ c < in_dim, CheckedRun.InRange Win (at_ d c)))
  return tabulate out_dim in_dim fun d c => readAt Win (at_ d c)

/-- `gather[i, j] = W_out_cat[pout*D + j, i]`. -/
def gatherOf (Wout : List R) (pout : Int) (out_dim : Nat) : Checked (List R) := do
  let at_ := fun i j : Nat => (pout * out_dim + j) * out_dim + i
  Checked.access (decide (∀ i < out_dim, ∀ j < out_dim, CheckedRun.InRange Wout (at_ i j)))
  return tabulate out_dim out_dim fun i j => readAt Wout (at_ i j)

def transposeOf (goW : List R) (out_dim : Nat) : Checked (List R) := do
  Checked.access (decide (∀ j < out_dim, ∀ i < out_dim, CheckedRun.InRange goW (j * out_dim + i : Nat)))
  return tabulate out_dim out_dim fun i j => readAt goW (j * out_dim + i : Nat)

end Pack

structure LayerTensors (R : Type*) where
  Win : Tensor R
  Wout : Tensor R
  qW : Tensor R
  vW : Tensor R
  gW : Tensor R
  oW : Tensor R

namespace LayerTensors

variable (T : LayerTensors R) (out_dim : Nat)

def Win_cols : Int := staticCastInt (T.Win.shape.getD 1 0)
def nPosIn : Int := T.Win_cols.tdiv out_dim
def nPosOut : Int := (staticCastInt (T.Wout.shape.getD 0 0)).tdiv out_dim
def numPos : Int := max (T.nPosIn out_dim) (T.nPosOut out_dim)

end LayerTensors

/-- The first part of `load_layer`, with its two checks. -/
def layerTensors (W : WeightsMap R) (name : String) (out_dim : Nat) : Checked (LayerTensors R) := do
  let Win ← mustGet W (name ++ "/W_in_cat")
  let Wout ← mustGet W (name ++ "/W_out_cat")
  Checked.throwIf (Win.shape.length ≠ 2 ∨ Wout.shape.length ≠ 2)
    ("ssla: " ++ name ++ " W_*_cat rank")
  Checked.throwIf ((staticCastInt (Win.shape.getD 1 0)).tmod out_dim ≠ 0 ∨
      (staticCastInt (Wout.shape.getD 0 0)).tmod out_dim ≠ 0)
    ("ssla: " ++ name ++ " W_*_cat shape not multiple of out_dim")
  let qW ← mustGet W (name ++ "/q_proj/weight")
  let vW ← mustGet W (name ++ "/v_proj/weight")
  let gW ← mustGet W (name ++ "/g_proj/weight")
  let oW ← mustGet W (name ++ "/o_proj/weight")
  return ⟨Win, Wout, qW, vW, gW, oW⟩

variable [CommRing R]

/-- The body of the loop over the positions. -/
def loadPosition (T : LayerTensors R) (in_dim out_dim : Nat) (L : LayerBufs R) (p : Nat) :
    Checked (LayerBufs R) := do
  let pin : Int := if T.nPosIn out_dim = 1 then 0 else p
  let pout : Int := if T.nPosOut out_dim = 1 then 0 else p
  let scatter ← scatterOf T.Win.data T.Win_cols pin out_dim in_dim
  let gather ← gatherOf T.Wout.data pout out_dim
  let q_in ← mm T.qW.data out_dim out_dim scatter out_dim in_dim
  let v_in ← mm T.vW.data out_dim out_dim scatter out_dim in_dim
  let g_in ← mm T.gW.data out_dim out_dim scatter out_dim in_dim
  let qvgIn ← packQvg q_in v_in g_in out_dim in_dim
  let goW ← mm gather out_dim out_dim T.oW.data out_dim out_dim
  let goW_T ← transposeOf goW out_dim
  Checked.access (decide (p < kPatchArea))
  return L.setPosition p qvgIn goW goW_T

def loadLayer (W : WeightsMap R) (name : String) (L : LayerBufs R) (in_dim out_dim : Nat) :
    Checked (LayerBufs R) := do
  let T ← layerTensors W name out_dim
  let num_pos := T.numPos out_dim
  let L ← (List.range num_pos.toNat).foldlM (loadPosition T in_dim out_dim)
    { L with in_dim := in_dim, out_dim := out_dim, num_pos := num_pos }
  let input_proj := match maybeGet W (name ++ "/input_proj/weight") with
    | some ip => ip.data
    | none => []
  let gn ← mustGet W (name ++ "/norm/weight")
  let bb ← mustGet W (name ++ "/norm/bias")
  return { L with input_proj := input_proj, ln_gamma := gn.data, ln_beta := bb.data }

end SslaRt
