import SslaRt.TwoLayerHead
import Mathlib.Tactic.Ring

/-! The row that the warp writes is the output of the trained head before its
batch norm was folded in. -/

namespace TwoLayerHead

open SslaRt CheckedRun LaneStripe Matrix

variable {R : Type*} [Field R]

/-! ### The head that was trained -/

structure BranchTensors (R : Type*) where
  conv_weight : Tensor R
  conv_bias : Option (Tensor R)
  bn_weight : Tensor R
  bn_bias : Tensor R
  running_mean : Tensor R
  running_var : Tensor R

structure PredTensors (R : Type*) where
  weight : Tensor R
  bias : Tensor R

structure HeadTensors (R : Type*) where
  cls : BranchTensors R
  reg : BranchTensors R
  cls_pred : PredTensors R
  reg_pred : PredTensors R
  obj_pred : PredTensors R

def vec (t : Tensor R) (n : Nat) : Fin n → R := fun o => readAt t.data (o : Nat)

def mat (t : Tensor R) (m n : Nat) : Matrix (Fin m) (Fin n) R :=
  Matrix.of fun o i => readAt t.data (o * n + i : Nat)

section Trained

variable (ar : Arith R) (sqrt : R → R) (eps : R)

def conv1x1 (T : BranchTensors R) (x : Fin C3 → R) : Fin C3 → R :=
  mat T.conv_weight C3 C3 *ᵥ x + match T.conv_bias with
    | some b => vec b C3
    | none => 0

def batchNorm (T : BranchTensors R) (y : Fin C3 → R) : Fin C3 → R := fun o =>
  vec T.bn_weight C3 o * (y o - vec T.running_mean C3 o) / sqrt (vec T.running_var C3 o + eps) +
    vec T.bn_bias C3 o

def silu (y : Fin C3 → R) : Fin C3 → R := fun o => y o * ar.sigmoid (y o)

def trainedBranch (T : BranchTensors R) (x : Fin C3 → R) : Fin C3 → R :=
  silu ar (batchNorm sqrt eps T (conv1x1 T x))

def pred (T : PredTensors R) (OUT : Nat) (y : Fin C3 → R) : Fin OUT → R :=
  mat T.weight OUT C3 *ᵥ y + vec T.bias OUT

/-- The boxes and the objectness come from the regression branch. -/
def trainedHead (T : HeadTensors R) (x : Fin C3 → R) : Fin (4 + 1 + 2) → R :=
  let y_cls := trainedBranch ar sqrt eps T.cls x
  let y_reg := trainedBranch ar sqrt eps T.reg x
  Fin.append (Fin.append (pred T.reg_pred 4 y_reg) (pred T.obj_pred 1 y_reg)) (pred T.cls_pred 2 y_cls)

end Trained

/-! ### Its file -/

structure BranchFile (npz : WeightsMap R) (kind : String) (T : BranchTensors R) : Prop where
  conv_weight : maybeGet npz ("head/" ++ kind ++ "_convs/0/0/weight") = some T.conv_weight
  conv_bias : maybeGet npz ("head/" ++ kind ++ "_convs/0/0/bias") = T.conv_bias
  bn_weight : maybeGet npz ("head/" ++ kind ++ "_convs/0/1/weight") = some T.bn_weight
  bn_bias : maybeGet npz ("head/" ++ kind ++ "_convs/0/1/bias") = some T.bn_bias
  running_mean : maybeGet npz ("head/" ++ kind ++ "_convs/0/1/running_mean") = some T.running_mean
  running_var : maybeGet npz ("head/" ++ kind ++ "_convs/0/1/running_var") = some T.running_var
  conv_shape : T.conv_weight.shape = [C3, C3, 1, 1] ∨ T.conv_weight.shape = [C3, C3]
  bias_shape : ∀ b, T.conv_bias = some b → b.shape = [C3]
  stat_shape : ∀ t ∈ [T.bn_weight, T.bn_bias, T.running_mean, T.running_var], t.shape = [C3]

structure PredFile (npz : WeightsMap R) (kind : String) (C_out : Nat) (T : PredTensors R) : Prop where
  weight : maybeGet npz ("head/" ++ kind ++ "_preds/0/weight") = some T.weight
  bias : maybeGet npz ("head/" ++ kind ++ "_preds/0/bias") = some T.bias
  weight_size : T.weight.shape.prod = C_out * C3
  bias_shape : T.bias.shape = [C_out]

structure HeadFile (npz : WeightsMap R) (T : HeadTensors R) : Prop where
  cls : BranchFile npz "cls" T.cls
  reg : BranchFile npz "reg" T.reg
  cls_pred : PredFile npz "cls" 2 T.cls_pred
  reg_pred : PredFile npz "reg" 4 T.reg_pred
  obj_pred : PredFile npz "obj" 1 T.obj_pred

section Load

variable (ar : Arith R) (sqrt : R → R) (eps : R) {npz : WeightsMap R}

omit [Field R] in
theorem npzGet_some {key : String} {t : Tensor R} (h : maybeGet npz key = some t) :
    npzGet npz key = .ok t := by
  rw [npzGet, h]

theorem channels_ok {t : Tensor R} {n : Nat} (h : t.shape = [n]) :
    channels t n = .ok fun o => readAt t.data (o : Nat) := if_pos h

theorem convMatrix_ok {t : Tensor R} (h : t.shape = [C3, C3, 1, 1] ∨ t.shape = [C3, C3]) :
    convMatrix t = .ok ⟨C3, C3, fun i j => readAt t.data (i * C3 + j : Nat)⟩ := by
  have hlen : t.data.length = C3 * C3 := by
    rw [t.numel]
    obtain h | h := h <;> simp [h]
  unfold convMatrix
  obtain h | h := h
  · rw [h]
    exact if_pos hlen
  · rw [h]
    exact if_pos hlen

/-- The convolution computes what the batch norm leaves of the unfused one. -/
structure FusedBranch (T : BranchTensors R) (W : DenseMatrix R) (b : Nat → R) : Prop where
  shape : W.HasShape C3 C3
  apply : ∀ x : Fin C3 → R, (fun o : Fin C3 => (W.toMatrix C3 C3 *ᵥ x) o + b o) =
    batchNorm sqrt eps T (conv1x1 T x)

/-- A bias that is absent from the file is zero. -/
theorem getConvBias_spec {kind : String} {T : BranchTensors R} (h : BranchFile npz kind T) :
    let b := getConvBias npz ("head/" ++ kind ++ "_convs/0/0/bias") C3
    b.shape = [C3] ∧ vec b C3 = match T.conv_bias with
      | some b => vec b C3
      | none => 0 := by
  simp only [getConvBias, h.conv_bias]
  cases hb : T.conv_bias with
  | some b => exact ⟨h.bias_shape b hb, rfl⟩
  | none =>
    refine ⟨rfl, funext fun o => ?_⟩
    simp [vec, zerosVec, readAt_natCast]

theorem fold_channel {n : Nat} (w x : Fin n → R) (b gamma beta mu s : R) :
    (∑ i, w i * (gamma / s) * x i) + (b * (gamma / s) + (beta - gamma / s * mu)) =
      gamma * ((∑ i, w i * x i) + b - mu) / s + beta := by
  have hsum : (∑ i, w i * (gamma / s) * x i) = (∑ i, w i * x i) * (gamma / s) := by
    rw [Finset.sum_mul]
    exact Finset.sum_congr rfl fun i _ => by ring
  rw [hsum]
  ring

theorem branchWeights_ok {kind : String} {T : BranchTensors R} (h : BranchFile npz kind T) :
    ∃ W b, branchWeights sqrt eps npz kind = .ok (W, b) ∧ FusedBranch sqrt eps T W b := by
  obtain ⟨hshape, hbias⟩ := getConvBias_spec h
  have hstat : ∀ t ∈ [T.bn_weight, T.bn_bias, T.running_mean, T.running_var],
      channels t C3 = .ok fun o => readAt t.data (o : Nat) :=
    fun t ht => channels_ok (h.stat_shape t ht)
  have hok : branchWeights sqrt eps npz kind = .ok
      (⟨C3, C3, fun o i => readAt T.conv_weight.data (o * C3 + i : Nat) *
          (readAt T.bn_weight.data (o : Nat) / sqrt (readAt T.running_var.data (o : Nat) + eps))⟩,
        fun o => readAt (getConvBias npz ("head/" ++ kind ++ "_convs/0/0/bias") C3).data (o : Nat) *
            (readAt T.bn_weight.data (o : Nat) / sqrt (readAt T.running_var.data (o : Nat) + eps)) +
          (readAt T.bn_bias.data (o : Nat) - readAt T.bn_weight.data (o : Nat) /
            sqrt (readAt T.running_var.data (o : Nat) + eps) *
              readAt T.running_mean.data (o : Nat))) := by
    simp only [branchWeights, npzGet_some h.conv_weight, npzGet_some h.bn_weight,
      npzGet_some h.bn_bias, npzGet_some h.running_mean, npzGet_some h.running_var, fuseConvBn,
      convMatrix_ok h.conv_shape, channels_ok hshape, hstat T.bn_weight (by simp),
      hstat T.bn_bias (by simp), hstat T.running_mean (by simp), hstat T.running_var (by simp),
      bind, Except.bind]
    rfl
  refine ⟨_, _, hok, ⟨rfl, rfl⟩, fun x => funext fun o => ?_⟩
  have hconv : conv1x1 T x o = (∑ i : Fin C3, readAt T.conv_weight.data (o * C3 + i : Nat) * x i) +
      readAt (getConvBias npz ("head/" ++ kind ++ "_convs/0/0/bias") C3).data (o : Nat) := by
    rw [conv1x1, ← hbias]
    rfl
  rw [batchNorm, hconv]
  exact fold_channel (fun i : Fin C3 => readAt T.conv_weight.data (o * C3 + i : Nat)) x _
    (vec T.bn_weight C3 o) (vec T.bn_bias C3 o) (vec T.running_mean C3 o)
    (sqrt (vec T.running_var C3 o + eps))

structure HoldsPred (T : PredTensors R) (OUT : Nat) (W : DenseMatrix R) (b : Nat → R) : Prop where
  shape : W.HasShape OUT C3
  apply : ∀ y : Fin C3 → R, (fun o : Fin OUT => (W.toMatrix OUT C3 *ᵥ y) o + b o) = pred T OUT y

theorem predWeights_ok {kind : String} {C_out : Nat} {T : PredTensors R}
    (h : PredFile npz kind C_out T) :
    ∃ W b, predWeights npz kind C_out = .ok (W, b) ∧ HoldsPred T C_out W b := by
  have hlen : T.weight.data.length = C_out * C3 := by rw [T.weight.numel, h.weight_size]
  have hok : predWeights npz kind C_out = .ok
      (⟨C_out, C3, fun i j => readAt T.weight.data (i * C3 + j : Nat)⟩,
        fun o => readAt T.bias.data (o : Nat)) := by
    simp only [predWeights, npzGet_some h.weight, npzGet_some h.bias, reshape2, if_pos hlen, bind,
      Except.bind]
    rfl
  exact ⟨_, _, hok, ⟨rfl, rfl⟩, fun _ => rfl⟩

/-- The buffers hold the trained head. -/
structure HoldsHead (T : HeadTensors R) (cfg : HeadWeights R) : Prop where
  cls_conv : ∃ W, cfg.head_cls_conv_W = toInOut W ∧ FusedBranch sqrt eps T.cls W cfg.head_cls_conv_b
  reg_conv : ∃ W, cfg.head_reg_conv_W = toInOut W ∧ FusedBranch sqrt eps T.reg W cfg.head_reg_conv_b
  cls_pred : ∃ W, cfg.head_cls_pred_W = toInOut W ∧ HoldsPred T.cls_pred 2 W cfg.head_cls_pred_b
  reg_pred : ∃ W, cfg.head_reg_pred_W = toInOut W ∧ HoldsPred T.reg_pred 4 W cfg.head_reg_pred_b
  obj_pred : ∃ W, cfg.head_obj_pred_W = toInOut W ∧ HoldsPred T.obj_pred 1 W cfg.head_obj_pred_b

theorem loadTwoLayerHeadWeights_ok {T : HeadTensors R} (h : HeadFile npz T) :
    ∃ cfg, loadTwoLayerHeadWeights sqrt eps npz = .ok cfg ∧ HoldsHead sqrt eps T cfg := by
  obtain ⟨W₁, b₁, hcls, hcls'⟩ := branchWeights_ok sqrt eps h.cls
  obtain ⟨W₂, b₂, hreg, hreg'⟩ := branchWeights_ok sqrt eps h.reg
  obtain ⟨W₃, b₃, hclsp, hclsp'⟩ := predWeights_ok h.cls_pred
  obtain ⟨W₄, b₄, hregp, hregp'⟩ := predWeights_ok h.reg_pred
  obtain ⟨W₅, b₅, hobjp, hobjp'⟩ := predWeights_ok h.obj_pred
  refine ⟨⟨toInOut W₁, b₁, toInOut W₃, b₃, toInOut W₂, b₂, toInOut W₄, b₄, toInOut W₅, b₅⟩, ?_,
    ⟨W₁, rfl, hcls'⟩, ⟨W₂, rfl, hreg'⟩, ⟨W₃, rfl, hclsp'⟩, ⟨W₄, rfl, hregp'⟩, ⟨W₅, rfl, hobjp'⟩⟩
  simp only [loadTwoLayerHeadWeights, hcls, hreg, hclsp, hregp, hobjp, bind, Except.bind]
  rfl

end Load

/-! ### The warp -/

section Warp

variable (ar : Arith R) (sqrt : R → R) (eps : R)

theorem foldl_add_sum (n : Nat) (f : Nat → R) (acc : R) :
    (List.range n).foldl (fun acc i => acc + f i) acc = acc + ∑ i : Fin n, f i := by
  induction n with
  | zero => simp
  | succ n ih =>
    rw [List.range_succ, List.foldl_append, ih, Fin.sum_univ_castSucc, ← add_assoc]
    rfl

theorem component_matvecLanes {IN OUT : Nat} (x : Nat → R) {W : DenseMatrix R}
    (hW : W.HasShape OUT IN) (y : Registers R) (o : Fin OUT) :
    component (matvecLanes IN OUT x (toInOut W) y) o =
      (W.toMatrix OUT IN *ᵥ readFeat IN x) o := by
  have hlane : (o : Nat) % 32 + 32 * (o / 32) = o := Nat.mod_add_div _ _
  have hcols : W.transpose.cols = OUT := hW.rows
  have hentry : ∀ i : Nat, toInOut W (i * OUT + o) = W.entry o i := by
    intro i
    have h := W.transpose.contiguous_apply i (hcols.symm ▸ o.isLt : (o : Nat) < W.transpose.cols)
    rwa [hcols] at h
  simp only [component, matvecLanes, hlane, if_pos o.isLt, hentry]
  rw [foldl_add_sum, zero_add]
  rfl

theorem convLanes_act {T : BranchTensors R} {W : DenseMatrix R} {b : Nat → R}
    (h : FusedBranch sqrt eps T W b) (in_feat_sm : Nat → R) (y_pre : Registers R)
    (y_act_sm : Nat → R) :
    readFeat C3 (convLanes ar in_feat_sm (toInOut W) b y_pre y_act_sm).2 =
      trainedBranch ar sqrt eps T (readFeat C3 in_feat_sm) := by
  funext o
  have hpre : component (matvecLanes C3 C3 in_feat_sm (toInOut W) y_pre) o + b o =
      batchNorm sqrt eps T (conv1x1 T (readFeat C3 in_feat_sm)) o := by
    rw [component_matvecLanes in_feat_sm h.shape, ← h.apply]
  have hlane : (o : Nat) % 32 + 32 * (o / 32) = o := Nat.mod_add_div _ _
  have hid : Function.Injective (id : Nat → Nat) := Function.injective_id
  have hstore := warpStore_at (fun lane k =>
    (matvecLanes C3 C3 in_feat_sm (toInOut W) y_pre lane k + b (lane + 32 * k)) *
      ar.sigmoid (matvecLanes C3 C3 in_feat_sm (toInOut W) y_pre lane k + b (lane + 32 * k)))
    y_act_sm hid o.isLt
  refine hstore.trans ?_
  rw [trainedBranch, silu, ← hpre, component, hlane]
  rfl

theorem predLanes_out {T : PredTensors R} {OUT : Nat} (hOUT : OUT ≤ 32) {W : DenseMatrix R}
    {b : Nat → R} (h : HoldsPred T OUT W b) {y_act_sm : Nat → R} {y : Fin C3 → R}
    (hy : readFeat C3 y_act_sm = y) (local_ : Registers R) (o : Fin OUT) :
    component (predLanes OUT y_act_sm (toInOut W) b local_) o = pred T OUT y o := by
  have hlt : (o : Nat) < 32 := o.isLt.trans_le hOUT
  have hmod : (o : Nat) % 32 = o := Nat.mod_eq_of_lt hlt
  have hdiv : (o : Nat) / 32 = 0 := Nat.div_eq_of_lt hlt
  have hmv := component_matvecLanes y_act_sm h.shape local_ o
  simp only [component, hmod, hdiv] at hmv ⊢
  simp only [predLanes, o.isLt, and_self, if_true, hmv, hy]
  exact congrFun (h.apply y) o

/-- The seven values of the cell are `out`; nothing else but its version has
changed. -/
structure RowWritten (mem mem' : HeadMemory R) (cell_idx : Int) (out : Fin (4 + 1 + 2) → R) : Prop where
  row : ∀ o : Fin (4 + 1 + 2), mem'.preds (cell_idx * 7 + (o : Nat)) = out o
  frame : ∀ i, (∀ o : Fin (4 + 1 + 2), i ≠ cell_idx * 7 + (o : Nat)) → mem'.preds i = mem.preds i
  version : mem'.version = Function.update mem.version cell_idx (mem.version cell_idx + 1)

def writeHeadRow (cell_idx : Int) (reg obj cls : Registers R) (preds : Int → R) : Int → R :=
  let off := cell_idx * 7
  let preds := warpStore 4 (fun o => off + 0 + o) reg preds
  let preds := warpStore 1 (fun o => off + 4 + o) obj preds
  warpStore 2 (fun o => off + 5 + o) cls preds

omit [Field R] in
theorem writeHeadRow_row (cell_idx : Int) {reg obj cls : Registers R} (preds : Int → R)
    {r : Fin 4 → R} {b : Fin 1 → R} {c : Fin 2 → R} (hr : ∀ o, component reg (o : Fin 4) = r o)
    (hb : ∀ o, component obj (o : Fin 1) = b o) (hc : ∀ o, component cls (o : Fin 2) = c o)
    (o : Fin (4 + 1 + 2)) : writeHeadRow cell_idx reg obj cls preds (cell_idx * 7 + (o : Nat)) =
      Fin.append (Fin.append r b) c o := by
  have hinj : ∀ base : Int, Function.Injective fun o : Nat => base + (o : Int) := by
    intro base o o' h
    simpa using h
  unfold writeHeadRow
  refine Fin.addCases (fun o => ?_) (fun o => ?_) o
  · rw [Fin.append_left, warpStore_frame _ _ (fun o' _ => by have := o.isLt; simp; omega)]
    refine Fin.addCases (fun o => ?_) (fun o => ?_) o
    · rw [Fin.append_left, ← hr, warpStore_frame _ _ (fun o' _ => by have := o.isLt; simp; omega)]
      have h := warpStore_at reg preds (hinj (cell_idx * 7 + 0)) o.isLt
      simpa using h
    · rw [Fin.append_right, ← hb]
      have h := warpStore_at obj (warpStore 4 (fun o => cell_idx * 7 + 0 + o) reg preds)
        (hinj (cell_idx * 7 + 4)) o.isLt
      simpa [add_assoc] using h
  · rw [Fin.append_right, ← hc]
    have h := warpStore_at cls (warpStore 1 (fun o => cell_idx * 7 + 4 + o) obj
      (warpStore 4 (fun o => cell_idx * 7 + 0 + o) reg preds)) (hinj (cell_idx * 7 + 5)) o.isLt
    simpa [add_assoc] using h

omit [Field R] in
theorem writeHeadRow_frame (cell_idx : Int) (reg obj cls : Registers R) (preds : Int → R) {i : Int}
    (hi : ∀ o : Fin (4 + 1 + 2), i ≠ cell_idx * 7 + (o : Nat)) :
    writeHeadRow cell_idx reg obj cls preds i = preds i := by
  have hne : ∀ o < 7, i ≠ cell_idx * 7 + (o : Nat) := fun o ho => hi ⟨o, ho⟩
  unfold writeHeadRow
  rw [warpStore_frame, warpStore_frame, warpStore_frame]
  · intro o ho
    have := hne o (by omega)
    omega
  · intro o ho
    have := hne (4 + o) (by omega)
    push_cast at this
    omega
  · intro o ho
    have := hne (5 + o) (by omega)
    push_cast at this
    omega

theorem doTwoLayerHead_row {T : HeadTensors R} {cfg : HeadWeights R} (h : HoldsHead sqrt eps T cfg)
    (in_feat_sm : Nat → R) (warp : HeadWarp R) {s3x s3y : Int} {strip : HybridStrip}
    {cell_idx : Int} (hcell : headCell strip s3x s3y = some cell_idx) (mem : HeadMemory R) :
    RowWritten mem (doTwoLayerHead ar cfg in_feat_sm warp s3x s3y strip mem) cell_idx
      (trainedHead ar sqrt eps T (readFeat C3 in_feat_sm)) := by
  obtain ⟨W₁, hW₁, hcls⟩ := h.cls_conv
  obtain ⟨W₂, hW₂, hreg⟩ := h.reg_conv
  obtain ⟨W₃, hW₃, hclsp⟩ := h.cls_pred
  obtain ⟨W₄, hW₄, hregp⟩ := h.reg_pred
  obtain ⟨W₅, hW₅, hobjp⟩ := h.obj_pred
  simp only [doTwoLayerHead, hcell, hW₁, hW₂, hW₃, hW₄, hW₅]
  have hy_cls := convLanes_act ar sqrt eps hcls in_feat_sm warp.y_pre warp.y_act_sm
  have hy_reg := convLanes_act ar sqrt eps hreg in_feat_sm
    (convLanes ar in_feat_sm (toInOut W₁) cfg.head_cls_conv_b warp.y_pre warp.y_act_sm).1
    (convLanes ar in_feat_sm (toInOut W₁) cfg.head_cls_conv_b warp.y_pre warp.y_act_sm).2
  refine ⟨fun o => ?_, fun i hi => ?_, rfl⟩
  · exact writeHeadRow_row cell_idx mem.preds
      (fun o => predLanes_out (by decide) hregp hy_reg warp.reg_local o)
      (fun o => predLanes_out (by decide) hobjp hy_reg warp.obj_local o)
      (fun o => predLanes_out (by decide) hclsp hy_cls warp.cls_local o) o
  · exact writeHeadRow_frame cell_idx _ _ _ mem.preds hi

end Warp

theorem two_layer_head (ar : Arith R) (sqrt : R → R) (eps : R) {npz : WeightsMap R}
    {T : HeadTensors R} (h : HeadFile npz T) :
    ∃ cfg, loadTwoLayerHeadWeights sqrt eps npz = .ok cfg ∧
      ∀ (in_feat_sm : Nat → R) (warp : HeadWarp R) (s3x s3y : Int) (strip : HybridStrip)
        (mem : HeadMemory R),
        match headCell strip s3x s3y with
        | some cell_idx =>
          RowWritten mem (doTwoLayerHead ar cfg in_feat_sm warp s3x s3y strip mem) cell_idx
            (trainedHead ar sqrt eps T (readFeat C3 in_feat_sm))
        | none => doTwoLayerHead ar cfg in_feat_sm warp s3x s3y strip mem = mem := by
  obtain ⟨cfg, hcfg, hholds⟩ := loadTwoLayerHeadWeights_ok sqrt eps h
  refine ⟨cfg, hcfg, fun in_feat_sm warp s3x s3y strip mem => ?_⟩
  cases hcell : headCell strip s3x s3y with
  | some cell_idx => exact doTwoLayerHead_row ar sqrt eps hholds in_feat_sm warp hcell mem
  | none => simp only [doTwoLayerHead, hcell]

section Probe

/-- Values that differ within a tensor and from those of the other tensors. -/
def ramp (start : Nat) (shape : List Nat) : Tensor ℚ :=
  ⟨shape, (List.range shape.prod).map fun i => (start + i : Nat) / 128, by simp⟩

/-- The convolution of the regression branch has a bias. -/
def probeHeadTensors : HeadTensors ℚ where
  cls := ⟨ramp 1 [C3, C3, 1, 1], none, ramp 2 [C3], ramp 3 [C3], ramp 4 [C3], ramp 5 [C3]⟩
  reg := ⟨ramp 11 [C3, C3, 1, 1], some (ramp 12 [C3]), ramp 13 [C3], ramp 14 [C3], ramp 15 [C3], ramp 16 [C3]⟩
  cls_pred := ⟨ramp 21 [2, C3, 1, 1], ramp 22 [2]⟩
  reg_pred := ⟨ramp 31 [4, C3, 1, 1], ramp 32 [4]⟩
  obj_pred := ⟨ramp 41 [1, C3, 1, 1], ramp 42 [1]⟩

def probeHeadFile : WeightsMap ℚ where
  entries :=
    [("head/cls_convs/0/0/weight", ramp 1 [C3, C3, 1, 1]),
      ("head/cls_convs/0/1/weight", ramp 2 [C3]), ("head/cls_convs/0/1/bias", ramp 3 [C3]),
      ("head/cls_convs/0/1/running_mean", ramp 4 [C3]),
      ("head/cls_convs/0/1/running_var", ramp 5 [C3]),
      ("head/reg_convs/0/0/weight", ramp 11 [C3, C3, 1, 1]),
      ("head/reg_convs/0/0/bias", ramp 12 [C3]),
      ("head/reg_convs/0/1/weight", ramp 13 [C3]), ("head/reg_convs/0/1/bias", ramp 14 [C3]),
      ("head/reg_convs/0/1/running_mean", ramp 15 [C3]),
      ("head/reg_convs/0/1/running_var", ramp 16 [C3]),
      ("head/cls_preds/0/weight", ramp 21 [2, C3, 1, 1]), ("head/cls_preds/0/bias", ramp 22 [2]),
      ("head/reg_preds/0/weight", ramp 31 [4, C3, 1, 1]), ("head/reg_preds/0/bias", ramp 32 [4]),
      ("head/obj_preds/0/weight", ramp 41 [1, C3, 1, 1]), ("head/obj_preds/0/bias", ramp 42 [1])]
  keys_nodup := by decide +kernel

theorem probeHeadFile_holds : HeadFile probeHeadFile probeHeadTensors where
  cls := ⟨rfl, rfl, rfl, rfl, rfl, rfl, .inl rfl, fun _ h => absurd h (by simp [probeHeadTensors]),
    by simp [probeHeadTensors, ramp]⟩
  reg := ⟨rfl, rfl, rfl, rfl, rfl, rfl, .inl rfl, by simp [probeHeadTensors, ramp],
    by simp [probeHeadTensors, ramp]⟩
  cls_pred := ⟨rfl, rfl, rfl, rfl⟩
  reg_pred := ⟨rfl, rfl, rfl, rfl⟩
  obj_pred := ⟨rfl, rfl, rfl, rfl⟩

theorem two_layer_head_probe : ∃ cfg, loadTwoLayerHeadWeights id (1 / 2) probeHeadFile = .ok cfg ∧
    ∀ (warp : HeadWarp ℚ) (mem : HeadMemory ℚ),
      RowWritten mem
        (doTwoLayerHead ⟨id, fun x => x⟩ cfg (fun i => i) warp 0 0 ⟨0, 2, 0, 1, 0, 2, 0, 1⟩ mem) 0
        (trainedHead ⟨id, fun x => x⟩ id (1 / 2) probeHeadTensors (readFeat C3 fun i => (i : ℚ))) := by
  obtain ⟨cfg, hcfg, hrow⟩ := two_layer_head ⟨id, fun x => x⟩ id (1 / 2) probeHeadFile_holds
  exact ⟨cfg, hcfg, fun warp mem => hrow (fun i => i) warp 0 0 ⟨0, 2, 0, 1, 0, 2, 0, 1⟩ mem⟩

end Probe

end TwoLayerHead
