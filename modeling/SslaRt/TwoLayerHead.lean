import SslaRt.DenseMatrix
import SslaRt.HeadWrites
import SslaRt.LaneStripe
import SslaRt.WeightsFile

/-! The trained head: `load_two_layer_head_weights`, which folds the batch norm
into the convolution and transposes every weight, and `do_two_layer_head`, which
one warp runs on the feature of an event. -/

namespace TwoLayerHead

open SslaRt CheckedRun LaneStripe

variable {R : Type*} [Field R]

/-! ### The weights -/

/-- Row-major, `(IN, OUT)`. -/
structure HeadWeights (R : Type*) where
  head_cls_conv_W : Nat → R
  head_cls_conv_b : Nat → R
  head_cls_pred_W : Nat → R
  head_cls_pred_b : Nat → R
  head_reg_conv_W : Nat → R
  head_reg_conv_b : Nat → R
  head_reg_pred_W : Nat → R
  head_reg_pred_b : Nat → R
  head_obj_pred_W : Nat → R
  head_obj_pred_b : Nat → R

def npzGet (npz : WeightsMap R) (key : String) : Except String (Tensor R) :=
  match maybeGet npz key with
  | some t => .ok t
  | none => .error (key ++ " is not a file in the archive")

def reshape2 (t : Tensor R) (rows cols : Nat) : Except String (DenseMatrix R) :=
  if t.data.length = rows * cols then
    .ok ⟨rows, cols, fun i j => readAt t.data (i * cols + j : Nat)⟩
  else .error "cannot reshape array"

/-- A convolution weight of rank 4 is reshaped; one of rank 2 is taken as it is.
Other ranks do not broadcast against the statistics. -/
def convMatrix (W_conv : Tensor R) : Except String (DenseMatrix R) :=
  match W_conv.shape with
  | [c_out, c_in, _, _] => reshape2 W_conv c_out c_in
  | [c_out, c_in] => reshape2 W_conv c_out c_in
  | _ => .error "operands could not be broadcast together"

/-- A vector that is combined with `n` output channels; a single value is
repeated. -/
def channels (t : Tensor R) (n : Nat) : Except String (Nat → R) :=
  if t.shape = [n] then .ok fun o => readAt t.data o
  else if t.shape = [1] then .ok fun _ => readAt t.data 0
  else .error "operands could not be broadcast together"

section Fuse

variable (sqrt : R → R) (eps : R)

def fuseConvBn (W_conv b_conv bn_w bn_b bn_mu bn_var : Tensor R) :
    Except String (DenseMatrix R × (Nat → R)) := do
  let W ← convMatrix W_conv
  let b ← channels b_conv W.rows
  let gamma ← channels bn_w W.rows
  let beta ← channels bn_b W.rows
  let mu ← channels bn_mu W.rows
  let var ← channels bn_var W.rows
  let scale := fun o => gamma o / sqrt (var o + eps)
  let shift := fun o => beta o - scale o * mu o
  return (⟨W.rows, W.cols, fun o i => W.entry o i * scale o⟩, fun o => b o * scale o + shift o)

def zerosVec (n : Nat) : Tensor R := ⟨[n], List.replicate n 0, by simp⟩

def getConvBias (npz : WeightsMap R) (key : String) (C_out : Nat) : Tensor R :=
  (maybeGet npz key).getD (zerosVec C_out)

/-- The convolution and the batch norm of a branch, `cls` or `reg`. -/
def branchWeights (npz : WeightsMap R) (kind : String) :
    Except String (DenseMatrix R × (Nat → R)) := do
  let W_conv ← npzGet npz ("head/" ++ kind ++ "_convs/0/0/weight")
  let b_conv := getConvBias npz ("head/" ++ kind ++ "_convs/0/0/bias") C3
  let bn_w ← npzGet npz ("head/" ++ kind ++ "_convs/0/1/weight")
  let bn_b ← npzGet npz ("head/" ++ kind ++ "_convs/0/1/bias")
  let bn_mu ← npzGet npz ("head/" ++ kind ++ "_convs/0/1/running_mean")
  let bn_var ← npzGet npz ("head/" ++ kind ++ "_convs/0/1/running_var")
  fuseConvBn sqrt eps W_conv b_conv bn_w bn_b bn_mu bn_var

def predWeights (npz : WeightsMap R) (kind : String) (C_out : Nat) :
    Except String (DenseMatrix R × (Nat → R)) := do
  let weight ← npzGet npz ("head/" ++ kind ++ "_preds/0/weight")
  let W ← reshape2 weight C_out C3
  let b ← npzGet npz ("head/" ++ kind ++ "_preds/0/bias")
  return (W, fun o => readAt b.data o)

/-- The buffer of the transposed matrix. -/
def toInOut (W_out_in : DenseMatrix R) : Nat → R := W_out_in.transpose.contiguous

def loadTwoLayerHeadWeights (npz : WeightsMap R) : Except String (HeadWeights R) := do
  let cls_conv ← branchWeights sqrt eps npz "cls"
  let reg_conv ← branchWeights sqrt eps npz "reg"
  let cls_pred ← predWeights npz "cls" 2
  let reg_pred ← predWeights npz "reg" 4
  let obj_pred ← predWeights npz "obj" 1
  return ⟨toInOut cls_conv.1, cls_conv.2, toInOut cls_pred.1, cls_pred.2,
    toInOut reg_conv.1, reg_conv.2, toInOut reg_pred.1, reg_pred.2,
    toInOut obj_pred.1, obj_pred.2⟩

end Fuse

/-! ### The warp -/

/-- `y[k] = Σ_i W[i * OUT + o] * x[i]` in the lanes that hold a component. -/
def matvecLanes (IN OUT : Nat) (x W : Nat → R) (y : Registers R) : Registers R :=
  fun lane k =>
    if lane + 32 * k < OUT then
      (List.range IN).foldl (fun acc i => acc + W (i * OUT + (lane + 32 * k)) * x i) 0
    else y lane k

/-- What the warp has when it starts: scratch and registers hold anything. -/
structure HeadWarp (R : Type*) where
  y_act_sm : Nat → R
  y_pre : Registers R
  cls_local : Registers R
  reg_local : Registers R
  obj_local : Registers R

def convLanes (ar : Arith R) (in_feat_sm W b : Nat → R) (y_pre : Registers R) (y_act_sm : Nat → R) :
    Registers R × (Nat → R) :=
  let y_pre := matvecLanes C3 C3 in_feat_sm W y_pre
  let act : Registers R := fun lane k =>
    let v := y_pre lane k + b (lane + 32 * k)
    v * ar.sigmoid v
  (y_pre, warpStore C3 id act y_act_sm)

def predLanes (OUT : Nat) (y_act_sm W b : Nat → R) (local_ : Registers R) : Registers R :=
  let local_ := matvecLanes C3 OUT y_act_sm W local_
  fun lane k => if lane < OUT ∧ k = 0 then local_ lane k + b lane else local_ lane k

/-- The predictions of a block, seven for each cell, and the versions. -/
structure HeadMemory (R : Type*) where
  preds : Int → R
  version : Int → UInt32

/-- The lanes run in lockstep. The code has no `__syncwarp` between the reads of `y_act_sm`
by the class prediction and the stores of the regression branch. -/
def doTwoLayerHead (ar : Arith R) (cfg : HeadWeights R) (in_feat_sm : Nat → R) (warp : HeadWarp R)
    (s3x s3y : Int) (strip : HybridStrip) (mem : HeadMemory R) : HeadMemory R :=
  let cls := convLanes ar in_feat_sm cfg.head_cls_conv_W cfg.head_cls_conv_b warp.y_pre warp.y_act_sm
  let cls_local := predLanes 2 cls.2 cfg.head_cls_pred_W cfg.head_cls_pred_b warp.cls_local
  let reg := convLanes ar in_feat_sm cfg.head_reg_conv_W cfg.head_reg_conv_b cls.1 cls.2
  let reg_local := predLanes 4 reg.2 cfg.head_reg_pred_W cfg.head_reg_pred_b warp.reg_local
  let obj_local := predLanes 1 reg.2 cfg.head_obj_pred_W cfg.head_obj_pred_b warp.obj_local
  match headCell strip s3x s3y with
  | none => mem
  | some cell_idx =>
    let off := cell_idx * 7
    let preds := warpStore 4 (fun o => off + 0 + o) reg_local mem.preds
    let preds := warpStore 1 (fun o => off + 4 + o) obj_local preds
    let preds := warpStore 2 (fun o => off + 5 + o) cls_local preds
    ⟨preds, Function.update mem.version cell_idx (mem.version cell_idx + 1)⟩

end TwoLayerHead
