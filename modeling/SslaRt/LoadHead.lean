import SslaRt.Detector
import SslaRt.YoloxLoad

/-! What the head loader checks, and the sizes that it takes on trust. -/

namespace SslaRt

open CheckedRun

variable {R : Type*}

@[ext]
structure ConvBnTensors (R : Type*) where
  cw : Tensor R
  bias : Option (Tensor R)
  gamma : Tensor R
  beta : Tensor R
  mean : Tensor R
  var : Tensor R

namespace ConvBnTensors

variable (T : ConvBnTensors R)

def out_c : Int := staticCastInt (T.cw.shape.getD 0 0)
def in_c : Int := staticCastInt (T.cw.shape.getD 1 0)

/-- The channels of the batch norm. -/
def dim : Int := staticCastInt T.gamma.data.length

/-- What the loader needs to fold the norm into the convolution. -/
structure Folds (data_null : Bool) : Prop where
  beta : T.dim.toNat ≤ T.beta.data.length
  mean : T.dim.toNat ≤ T.mean.data.length
  var : T.dim.toNat ≤ T.var.data.length
  gamma : T.out_c.toNat ≤ T.dim.toNat
  cw : T.out_c.toNat * T.in_c.toNat ≤ T.cw.data.length
  bias : ∀ b ∈ T.bias, BiasFits data_null T.out_c.toNat b.data

/-- What the decoder needs on top of that. -/
structure Sized (data_null : Bool) (C_in : Nat) : Prop extends T.Folds data_null where
  rows : kC3 * C_in ≤ T.cw.data.length
  channels : kC3 ≤ T.out_c.toNat ∨ data_null ∧ T.out_c.toNat = 0

end ConvBnTensors

/-- The checks of `load_conv_bn`, the ones of the standard library included. -/
structure ConvBnAccepted (W : WeightsMap R) (cp bp : String) (T : ConvBnTensors R) : Prop where
  cw : maybeGet W (cp ++ "/weight") = some T.cw
  rank : 2 ≤ T.cw.shape.length
  bias : maybeGet W (cp ++ "/bias") = T.bias
  gamma : maybeGet W (bp ++ "/weight") = some T.gamma
  beta : maybeGet W (bp ++ "/bias") = some T.beta
  mean : maybeGet W (bp ++ "/running_mean") = some T.mean
  var : maybeGet W (bp ++ "/running_var") = some T.var
  dim_nonneg : 0 ≤ T.dim
  out_nonneg : 0 ≤ T.out_c

structure PredAccepted (W : WeightsMap R) (p : String) (cw cb : Tensor R) : Prop where
  cw : maybeGet W (p ++ "/weight") = some cw
  cb : maybeGet W (p ++ "/bias") = some cb

@[ext]
structure HeadTensors (R : Type*) where
  cls : ConvBnTensors R
  reg : ConvBnTensors R
  cls_pred : Tensor R
  cls_bias : Tensor R
  reg_pred : Tensor R
  reg_bias : Tensor R
  obj_pred : Tensor R
  obj_bias : Tensor R

/-- The checks of `load_yolox_level`. -/
structure HeadAccepted (W : WeightsMap R) (k : Nat) (T : HeadTensors R) : Prop where
  cls_conv : ConvBnAccepted W ("head/cls_convs/" ++ toString k ++ "/0")
    ("head/cls_convs/" ++ toString k ++ "/1") T.cls
  reg_conv : ConvBnAccepted W ("head/reg_convs/" ++ toString k ++ "/0")
    ("head/reg_convs/" ++ toString k ++ "/1") T.reg
  cls_pred : PredAccepted W ("head/cls_preds/" ++ toString k) T.cls_pred T.cls_bias
  reg_pred : PredAccepted W ("head/reg_preds/" ++ toString k) T.reg_pred T.reg_bias
  obj_pred : PredAccepted W ("head/obj_preds/" ++ toString k) T.obj_pred T.obj_bias

/-! ### The tensors are those of the file -/

section Unique

variable {W : WeightsMap R}

theorem maybeGet_unique {k : String} {t t' : Tensor R} (h : maybeGet W k = some t) (h' : maybeGet W k = some t') :
    t = t' := Option.some.inj (h.symm.trans h')

theorem ConvBnAccepted.unique {cp bp : String} {T T' : ConvBnTensors R} (h : ConvBnAccepted W cp bp T)
    (h' : ConvBnAccepted W cp bp T') : T = T' :=
  ConvBnTensors.ext (maybeGet_unique h.cw h'.cw) (h.bias.symm.trans h'.bias) (maybeGet_unique h.gamma h'.gamma)
    (maybeGet_unique h.beta h'.beta) (maybeGet_unique h.mean h'.mean) (maybeGet_unique h.var h'.var)

theorem HeadAccepted.unique {k : Nat} {T T' : HeadTensors R} (h : HeadAccepted W k T) (h' : HeadAccepted W k T') :
    T = T' :=
  HeadTensors.ext (h.cls_conv.unique h'.cls_conv) (h.reg_conv.unique h'.reg_conv)
    (maybeGet_unique h.cls_pred.cw h'.cls_pred.cw) (maybeGet_unique h.cls_pred.cb h'.cls_pred.cb)
    (maybeGet_unique h.reg_pred.cw h'.reg_pred.cw) (maybeGet_unique h.reg_pred.cb h'.reg_pred.cb)
    (maybeGet_unique h.obj_pred.cw h'.obj_pred.cw) (maybeGet_unique h.obj_pred.cb h'.obj_pred.cb)

end Unique

/-! ### Sizes -/

/-- The sizes that the head of a stage with `C_in` channels needs of the tensors. -/
structure HeadTensors.Sized (T : HeadTensors R) (data_null : Bool) (C_in n_cls : Nat) : Prop where
  cls : T.cls.Sized data_null C_in
  reg : T.reg.Sized data_null C_in
  cls_pred : n_cls * kC3 ≤ T.cls_pred.data.length
  cls_bias : BiasFits data_null n_cls T.cls_bias.data
  reg_pred : 4 * kC3 ≤ T.reg_pred.data.length
  reg_bias : BiasFits data_null 4 T.reg_bias.data
  obj_pred : 1 * kC3 ≤ T.obj_pred.data.length
  obj_bias : BiasFits data_null 1 T.obj_bias.data

/-- What the loader makes of the tensors. -/
structure HeadLoaded (T : HeadTensors R) (L : YoloxBufs R) : Prop where
  W_cls_conv : L.W_cls_conv.length = T.cls.cw.data.length
  b_cls_conv : L.b_cls_conv.length = T.cls.out_c.toNat
  W_reg_conv : L.W_reg_conv.length = T.reg.cw.data.length
  b_reg_conv : L.b_reg_conv.length = T.reg.out_c.toNat
  W_cls_pred : L.W_cls_pred = T.cls_pred.data
  b_cls_pred : L.b_cls_pred = T.cls_bias.data
  W_reg_pred : L.W_reg_pred = T.reg_pred.data
  b_reg_pred : L.b_reg_pred = T.reg_bias.data
  W_obj_pred : L.W_obj_pred = T.obj_pred.data
  b_obj_pred : L.b_obj_pred = T.obj_bias.data

section Sizes

variable {data_null : Bool} {C_in n_cls : Nat} {T : HeadTensors R} {L : YoloxBufs R}

theorem biasFits_length (data_null : Bool) (n : Nat) (b : List R) :
    BiasFits data_null n b ↔ n ≤ b.length ∨ data_null ∧ b.length = 0 := by
  rw [BiasFits, List.length_eq_zero_iff]

/-- The tensors have the sizes exactly if they can be folded and the buffers fit. -/
theorem HeadLoaded.sized_iff (h : HeadLoaded T L) : T.Sized data_null C_in n_cls ↔
    (T.cls.Folds data_null ∧ T.reg.Folds data_null) ∧ L.Fits data_null C_in kC3 n_cls := by
  have hcls := biasFits_length data_null kC3 L.b_cls_conv
  have hreg := biasFits_length data_null kC3 L.b_reg_conv
  rw [h.b_cls_conv] at hcls
  rw [h.b_reg_conv] at hreg
  constructor
  · intro hT
    refine ⟨⟨hT.cls.toFolds, hT.reg.toFolds⟩, ?_, hcls.mpr hT.cls.channels, ?_, ?_, ?_, hreg.mpr hT.reg.channels,
      ?_, ?_, ?_, ?_⟩
    · rw [h.W_cls_conv]
      exact hT.cls.rows
    · rw [h.W_cls_pred]
      exact hT.cls_pred
    · rw [h.b_cls_pred]
      exact hT.cls_bias
    · rw [h.W_reg_conv]
      exact hT.reg.rows
    · rw [h.W_reg_pred]
      exact hT.reg_pred
    · rw [h.b_reg_pred]
      exact hT.reg_bias
    · rw [h.W_obj_pred]
      exact hT.obj_pred
    · rw [h.b_obj_pred]
      exact hT.obj_bias
  · rintro ⟨⟨hfc, hfr⟩, hL⟩
    exact ⟨⟨hfc, h.W_cls_conv ▸ hL.W_cls_conv, hcls.mp hL.b_cls_conv⟩,
      ⟨hfr, h.W_reg_conv ▸ hL.W_reg_conv, hreg.mp hL.b_reg_conv⟩, h.W_cls_pred ▸ hL.W_cls_pred,
      h.b_cls_pred ▸ hL.b_cls_pred, h.W_reg_pred ▸ hL.W_reg_pred, h.b_reg_pred ▸ hL.b_reg_pred,
      h.W_obj_pred ▸ hL.W_obj_pred, h.b_obj_pred ▸ hL.b_obj_pred⟩

end Sizes

section Head

variable [CommRing R] (data_null : Bool) (rsqrt : R → R) {W : WeightsMap R} (err_pre : String)

omit [CommRing R] in
theorem mustGetT_eq {k : String} {t : Tensor R} (h : maybeGet W k = some t) :
    mustGetT W k err_pre = pure t := by
  unfold mustGetT
  rw [h]

theorem staticCastInt_toNat_le (n : Nat) : (staticCastInt n).toNat ≤ n := by
  have hle : (n : Int).bmod (2 ^ 32) ≤ (n : Int) % (2 ^ 32 : Nat) := by
    rw [Int.bmod_def]
    split <;> omega
  unfold staticCastInt
  omega

theorem fuseBn_spec (gamma beta mean var : List R) {dim : Int} (hdim : 0 ≤ dim) :
    ∃ r, (fuseBn rsqrt gamma beta mean var dim).Returns r ∧ r.1.length = dim.toNat ∧
      r.2.length = dim.toNat ∧ ((fuseBn rsqrt gamma beta mean var dim).Safe ↔
        dim.toNat ≤ gamma.length ∧ dim.toNat ≤ beta.length ∧ dim.toNat ≤ mean.length ∧
          dim.toNat ≤ var.length) := by
  unfold fuseBn
  rw [Checked.throwIf_neg (not_lt.mpr hdim), Checked.ok_bind]
  refine ⟨_, rfl, by simp, by simp, ?_⟩
  rw [Checked.safe_access_bind, and_iff_left (Checked.safe_pure _)]

theorem foldBn_spec (weights : List R) (out_dim in_dim : Nat) (scale shift : List R)
    (b_conv : Option (List R)) : ∃ r,
    (foldBn data_null weights out_dim in_dim scale shift b_conv).Returns r ∧
      r.1.length = weights.length ∧ r.2.length = out_dim ∧
      ((foldBn data_null weights out_dim in_dim scale shift b_conv).Safe ↔
        (out_dim ≤ scale.length ∧ out_dim ≤ shift.length ∧ out_dim * in_dim ≤ weights.length) ∧
          ∀ b ∈ b_conv, BiasFits data_null out_dim b) := by
  refine ⟨_, rfl, by simp, by simp, ?_⟩
  unfold foldBn
  rw [Checked.safe_access_bind, Checked.safe_access_bind, and_iff_left (Checked.safe_pure _)]
  simp only [biasReads_iff]

variable {cp bp : String}

/-- An accepted convolution is loaded, and safely exactly if its norm can be folded. -/
theorem loadConvBn_spec {T : ConvBnTensors R} (h : ConvBnAccepted W cp bp T) :
    ∃ r, (loadConvBn data_null rsqrt W err_pre cp bp).Returns r ∧ r.1.length = T.cw.data.length ∧
      r.2.length = T.out_c.toNat ∧
      ((loadConvBn data_null rsqrt W err_pre cp bp).Safe ↔ T.Folds data_null) := by
  obtain ⟨bn, hbn, hscale, hshift, hfuse⟩ := fuseBn_spec rsqrt T.gamma.data T.beta.data T.mean.data
    T.var.data h.dim_nonneg
  obtain ⟨r, hr, hw, hb, hfold⟩ := foldBn_spec data_null T.cw.data T.out_c.toNat T.in_c.toNat bn.1 bn.2
    (T.bias.map Tensor.data)
  have heq : loadConvBn data_null rsqrt W err_pre cp bp = (do
      let bn ← fuseBn rsqrt T.gamma.data T.beta.data T.mean.data T.var.data T.dim
      Checked.throwIf (T.out_c < 0) "cannot create std::vector larger than max_size()"
      foldBn data_null T.cw.data T.out_c.toNat T.in_c.toNat bn.1 bn.2 (T.bias.map Tensor.data)) := by
    unfold loadConvBn
    rw [mustGetT_eq err_pre h.cw, Checked.ok_bind, Checked.throwIf_neg (not_lt.mpr h.rank), Checked.ok_bind,
      mustGetT_eq err_pre h.gamma, Checked.ok_bind, mustGetT_eq err_pre h.beta, Checked.ok_bind,
      mustGetT_eq err_pre h.mean, Checked.ok_bind, mustGetT_eq err_pre h.var, Checked.ok_bind, h.bias]
    rfl
  have hgamma : T.dim.toNat ≤ T.gamma.data.length := staticCastInt_toNat_le _
  have hout : Checked.throwIf (T.out_c < 0) "cannot create std::vector larger than max_size()" = pure ⟨⟩ :=
    Checked.throwIf_neg (not_lt.mpr h.out_nonneg)
  rw [heq]
  refine ⟨r, Checked.returns_bind.mpr ⟨bn, hbn, ?_⟩, hw, hb, ?_⟩
  · rw [hout, Checked.ok_bind]
    exact hr
  · rw [Checked.safe_bind_iff hbn, hout, Checked.ok_bind, hfuse, hfold, hscale, hshift]
    constructor
    · rintro ⟨⟨-, hbeta, hmean, hvar⟩, ⟨hs, -, hcw⟩, hbias⟩
      exact ⟨hbeta, hmean, hvar, hs, hcw, fun b hb => hbias b.data (Option.mem_map_of_mem _ hb)⟩
    · intro hT
      refine ⟨⟨hgamma, hT.beta, hT.mean, hT.var⟩, ⟨hT.gamma, hT.gamma, hT.cw⟩, fun b hb => ?_⟩
      obtain ⟨t, ht, rfl⟩ := Option.mem_map.mp hb
      exact hT.bias t ht

/-- What the checks establish. -/
theorem loadConvBn_accepted {r : List R × List R}
    (h : (loadConvBn data_null rsqrt W err_pre cp bp).Returns r) : ∃ T, ConvBnAccepted W cp bp T := by
  obtain ⟨cw, hcw, h⟩ := Checked.returns_bind.mp h
  obtain ⟨_, hrank, h⟩ := Checked.returns_bind.mp h
  obtain ⟨bn_g, hg, h⟩ := Checked.returns_bind.mp h
  obtain ⟨bn_b, hb, h⟩ := Checked.returns_bind.mp h
  obtain ⟨bn_mu, hmu, h⟩ := Checked.returns_bind.mp h
  obtain ⟨bn_va, hva, h⟩ := Checked.returns_bind.mp h
  obtain ⟨bn, hbn, h⟩ := Checked.returns_bind.mp h
  obtain ⟨_, hdim, -⟩ := Checked.returns_bind.mp hbn
  obtain ⟨_, hout, -⟩ := Checked.returns_bind.mp h
  exact ⟨⟨cw, maybeGet W (cp ++ "/bias"), bn_g, bn_b, bn_mu, bn_va⟩, returns_mustGetT.mp hcw,
    not_lt.mp (Checked.returns_throwIf.mp hrank), rfl, returns_mustGetT.mp hg, returns_mustGetT.mp hb,
    returns_mustGetT.mp hmu, returns_mustGetT.mp hva, not_lt.mp (Checked.returns_throwIf.mp hdim),
    not_lt.mp (Checked.returns_throwIf.mp hout)⟩

omit [CommRing R] in
theorem loadPred_eq {p : String} {cw cb : Tensor R} (h : PredAccepted W p cw cb) :
    loadPred W err_pre p = pure (cw.data, cb.data) := by
  unfold loadPred
  rw [mustGetT_eq err_pre h.cw, Checked.ok_bind, mustGetT_eq err_pre h.cb, Checked.ok_bind]

omit [CommRing R] in
theorem loadPred_accepted {p : String} {r : List R × List R} (h : (loadPred W err_pre p).Returns r) :
    ∃ cw cb, PredAccepted W p cw cb := by
  obtain ⟨cw, hcw, h⟩ := Checked.returns_bind.mp h
  obtain ⟨cb, hcb, -⟩ := Checked.returns_bind.mp h
  exact ⟨cw, cb, returns_mustGetT.mp hcw, returns_mustGetT.mp hcb⟩

variable {k : Nat}

theorem loadYoloxLevel_spec {T : HeadTensors R} (h : HeadAccepted W k T) :
    ∃ L, (loadYoloxLevel data_null rsqrt W k err_pre).Returns L ∧ HeadLoaded T L ∧
      ((loadYoloxLevel data_null rsqrt W k err_pre).Safe ↔ T.cls.Folds data_null ∧ T.reg.Folds data_null) := by
  obtain ⟨cls, hcls, hcw, hcb, hcsafe⟩ := loadConvBn_spec data_null rsqrt err_pre h.cls_conv
  obtain ⟨reg, hreg, hrw, hrb, hrsafe⟩ := loadConvBn_spec data_null rsqrt err_pre h.reg_conv
  unfold loadYoloxLevel
  dsimp only
  rw [loadPred_eq err_pre h.cls_pred, loadPred_eq err_pre h.reg_pred, loadPred_eq err_pre h.obj_pred]
  refine ⟨_, Checked.returns_bind.mpr ⟨cls, hcls, Checked.returns_bind.mpr ⟨reg, hreg, rfl⟩⟩,
    ⟨hcw, hcb, hrw, hrb, rfl, rfl, rfl, rfl, rfl, rfl⟩, ?_⟩
  rw [Checked.safe_bind_iff hcls, Checked.safe_bind_iff hreg, hcsafe, hrsafe]
  exact and_congr_right fun _ => and_iff_left rfl

theorem loadYoloxLevel_accepted {L : YoloxBufs R}
    (h : (loadYoloxLevel data_null rsqrt W k err_pre).Returns L) : ∃ T, HeadAccepted W k T := by
  obtain ⟨_, h1, h⟩ := Checked.returns_bind.mp h
  obtain ⟨_, h2, h⟩ := Checked.returns_bind.mp h
  obtain ⟨_, h3, h⟩ := Checked.returns_bind.mp h
  obtain ⟨_, h4, h⟩ := Checked.returns_bind.mp h
  obtain ⟨_, h5, -⟩ := Checked.returns_bind.mp h
  obtain ⟨cls, hcls⟩ := loadConvBn_accepted data_null rsqrt err_pre h1
  obtain ⟨reg, hreg⟩ := loadConvBn_accepted data_null rsqrt err_pre h2
  obtain ⟨cw, cb, hc⟩ := loadPred_accepted err_pre h3
  obtain ⟨rw, rb, hr⟩ := loadPred_accepted err_pre h4
  obtain ⟨ow, ob, ho⟩ := loadPred_accepted err_pre h5
  exact ⟨⟨cls, reg, cw, cb, rw, rb, ow, ob⟩, hcls, hreg, hc, hr, ho⟩

end Head

end SslaRt
