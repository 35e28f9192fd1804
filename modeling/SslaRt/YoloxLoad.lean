import SslaRt.ReadAccess
import SslaRt.WeightsFile
import SslaRt.YoloxHead

/-! `load_yolox_level`: the tensors of one head level, the batch norms folded into the
convolutions, and the reads of the decoder in what it leaves. -/

namespace SslaRt

open CheckedRun

variable {R : Type*}

/-- The buffers of a head level as vectors. -/
structure YoloxBufs (R : Type*) where
  W_cls_conv : List R
  b_cls_conv : List R
  W_reg_conv : List R
  b_reg_conv : List R
  W_cls_pred : List R
  b_cls_pred : List R
  W_reg_pred : List R
  b_reg_pred : List R
  W_obj_pred : List R
  b_obj_pred : List R

section Decode

variable (data_null : Bool) (C_in C_hid n_cls : Nat) (L : YoloxBufs R)

/-- `decode_yolox_cell` and `decode_yolox_cell_ct`. -/
def decodeReads : List ReadAccess :=
  matvecReads C_in C_hid L.W_cls_conv ++ biasReads data_null C_hid L.b_cls_conv ++
    matvecReads C_hid n_cls L.W_cls_pred ++ biasReads data_null n_cls L.b_cls_pred ++
    matvecReads C_in C_hid L.W_reg_conv ++ biasReads data_null C_hid L.b_reg_conv ++
    matvecReads C_hid 4 L.W_reg_pred ++ biasReads data_null 4 L.b_reg_pred ++
    matvecReads C_hid 1 L.W_obj_pred ++ biasReads data_null 1 L.b_obj_pred

/-- The buffers reach as far as the decoder reads. -/
structure YoloxBufs.Fits : Prop where
  W_cls_conv : C_hid * C_in ≤ L.W_cls_conv.length
  b_cls_conv : BiasFits data_null C_hid L.b_cls_conv
  W_cls_pred : n_cls * C_hid ≤ L.W_cls_pred.length
  b_cls_pred : BiasFits data_null n_cls L.b_cls_pred
  W_reg_conv : C_hid * C_in ≤ L.W_reg_conv.length
  b_reg_conv : BiasFits data_null C_hid L.b_reg_conv
  W_reg_pred : 4 * C_hid ≤ L.W_reg_pred.length
  b_reg_pred : BiasFits data_null 4 L.b_reg_pred
  W_obj_pred : 1 * C_hid ≤ L.W_obj_pred.length
  b_obj_pred : BiasFits data_null 1 L.b_obj_pred

theorem decodeReads_iff : AllOk (decodeReads data_null C_in C_hid n_cls L) ↔
    L.Fits data_null C_in C_hid n_cls := by
  simp only [decodeReads, allOk_append, matvecReads_iff, biasReads_iff]
  constructor
  · rintro ⟨⟨⟨⟨⟨⟨⟨⟨⟨h1, h2⟩, h3⟩, h4⟩, h5⟩, h6⟩, h7⟩, h8⟩, h9⟩, h10⟩
    exact ⟨h1, h2, h3, h4, h5, h6, h7, h8, h9, h10⟩
  · intro h
    exact ⟨⟨⟨⟨⟨⟨⟨⟨⟨h.W_cls_conv, h.b_cls_conv⟩, h.W_cls_pred⟩, h.b_cls_pred⟩, h.W_reg_conv⟩, h.b_reg_conv⟩,
      h.W_reg_pred⟩, h.b_reg_pred⟩, h.W_obj_pred⟩, h.b_obj_pred⟩

end Decode

def mustGetT (W : WeightsMap R) (k err_pre : String) : Checked (Tensor R) :=
  match maybeGet W k with
  | some t => pure t
  | none => .throw (err_pre ++ ": missing tensor " ++ k)

theorem returns_mustGetT {W : WeightsMap R} {k err_pre : String} {t : Tensor R} :
    (mustGetT W k err_pre).Returns t ↔ maybeGet W k = some t := by
  unfold mustGetT
  cases maybeGet W k with
  | none => simp [Checked.Returns, Checked.throw]
  | some t' => simp [Checked.returns_pure]

variable [CommRing R]

/-- `fuse_bn`: scale and shift. The function `rsqrt` is `1 / sqrt(var + eps)` and is not
interpreted. -/
def fuseBn (rsqrt : R → R) (gamma beta mean var : List R) (dim : Int) : Checked (List R × List R) := do
  Checked.throwIf (dim < 0) "vector::_M_default_append"
  let n := dim.toNat
  Checked.access (decide (n ≤ gamma.length ∧ n ≤ beta.length ∧ n ≤ mean.length ∧ n ≤ var.length))
  let inv := fun i : Nat => rsqrt (readAt var i)
  return ((List.range n).map fun i : Nat => readAt gamma i * inv i,
    (List.range n).map fun i : Nat => readAt beta i - readAt gamma i * readAt mean i * inv i)

/-- `fold_bn_into_weight_2d`: the scaled weights and the bias. -/
def foldBn (data_null : Bool) (weights : List R) (out_dim in_dim : Nat) (scale shift : List R)
    (b_conv : Option (List R)) : Checked (List R × List R) := do
  Checked.access (decide (out_dim ≤ scale.length ∧ out_dim ≤ shift.length ∧ out_dim * in_dim ≤ weights.length))
  Checked.access (decide (∀ b ∈ b_conv, AllOk (biasReads data_null out_dim b)))
  let bc := fun o : Nat => match b_conv with
    | some b => readAt b o
    | none => 0
  return ((List.range weights.length).map fun i : Nat =>
      if i < out_dim * in_dim then readAt weights i * readAt scale (i / in_dim : Nat) else readAt weights i,
    (List.range out_dim).map fun o : Nat => bc o * readAt scale o + readAt shift o)

def loadConvBn (data_null : Bool) (rsqrt : R → R) (W : WeightsMap R) (err_pre cp bp : String) :
    Checked (List R × List R) := do
  let cw ← mustGetT W (cp ++ "/weight") err_pre
  Checked.throwIf (cw.shape.length < 2) (err_pre ++ ": " ++ cp ++ " conv rank")
  let out_c := staticCastInt (cw.shape.getD 0 0)
  let in_c := staticCastInt (cw.shape.getD 1 0)
  let bn_g ← mustGetT W (bp ++ "/weight") err_pre
  let bn_b ← mustGetT W (bp ++ "/bias") err_pre
  let bn_mu ← mustGetT W (bp ++ "/running_mean") err_pre
  let bn_va ← mustGetT W (bp ++ "/running_var") err_pre
  let bn ← fuseBn rsqrt bn_g.data bn_b.data bn_mu.data bn_va.data (staticCastInt bn_g.data.length)
  Checked.throwIf (out_c < 0) "cannot create std::vector larger than max_size()"
  foldBn data_null cw.data out_c.toNat in_c.toNat bn.1 bn.2
    ((maybeGet W (cp ++ "/bias")).map Tensor.data)

def loadPred (W : WeightsMap R) (err_pre p : String) : Checked (List R × List R) := do
  let cw ← mustGetT W (p ++ "/weight") err_pre
  let cb ← mustGetT W (p ++ "/bias") err_pre
  return (cw.data, cb.data)

/-- The weights of a level; its dimensions follow from the stage. -/
def loadYoloxLevel (data_null : Bool) (rsqrt : R → R) (W : WeightsMap R) (idx : Nat) (err_pre : String) :
    Checked (YoloxBufs R) := do
  let ls := toString idx
  let cls_conv ← loadConvBn data_null rsqrt W err_pre ("head/cls_convs/" ++ ls ++ "/0")
    ("head/cls_convs/" ++ ls ++ "/1")
  let reg_conv ← loadConvBn data_null rsqrt W err_pre ("head/reg_convs/" ++ ls ++ "/0")
    ("head/reg_convs/" ++ ls ++ "/1")
  let cls_pred ← loadPred W err_pre ("head/cls_preds/" ++ ls)
  let reg_pred ← loadPred W err_pre ("head/reg_preds/" ++ ls)
  let obj_pred ← loadPred W err_pre ("head/obj_preds/" ++ ls)
  return ⟨cls_conv.1, cls_conv.2, reg_conv.1, reg_conv.2, cls_pred.1, cls_pred.2, reg_pred.1,
    reg_pred.2, obj_pred.1, obj_pred.2⟩

end SslaRt
