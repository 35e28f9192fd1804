import SslaRt.LoadSpec
import Mathlib.Tactic.IntervalCases

/-! `load` accepts some files whose dimensions do not fit the forward pass: the
exact dimensions that it leaves unchecked. -/

namespace SslaRt

open CheckedRun

variable {R : Type*}

/-- The dimensions that the forward pass needs of the tensors of layer `l`, with
`n_in` and `n_out` positions. Of these `load` checks two ranks and two remainders. -/
structure LayerDims (W : WeightsMap R) (name : String) (l n_in n_out : Nat) : Prop where
  pos_in : n_in = 1 ∨ n_in = 9
  pos_out : n_out = 1 ∨ n_out = 9
  single : l = 0 → n_in = 1 ∧ n_out = 1
  nine : 1 ≤ l → l ≤ 3 → n_in = 9 ∨ n_out = 9
  W_in_cat : HasShape W (name ++ "/W_in_cat") [inDim l, n_in * outDim l]
  W_out_cat : HasShape W (name ++ "/W_out_cat") [n_out * outDim l, outDim l]
  q_proj : HasShape W (name ++ "/q_proj/weight") [outDim l, outDim l]
  v_proj : HasShape W (name ++ "/v_proj/weight") [outDim l, outDim l]
  g_proj : HasShape W (name ++ "/g_proj/weight") [outDim l, outDim l]
  o_proj : HasShape W (name ++ "/o_proj/weight") [outDim l, outDim l]
  input_proj : ∀ t, maybeGet W (name ++ "/input_proj/weight") = some t → t.shape = [outDim l, inDim l]
  projected : inDim l ≠ outDim l → (maybeGet W (name ++ "/input_proj/weight")).isSome
  gamma : ∃ t, maybeGet W (name ++ "/norm/weight") = some t ∧ t.data.length = outDim l
  beta : ∃ t, maybeGet W (name ++ "/norm/bias") = some t ∧ t.data.length = outDim l

/-- A layer that is well formed for the forward pass: its tensors in the file,
and the buffers that `load` leaves. -/
structure LayerWellFormed (W : WeightsMap R) (name : String) (l : Nat) (L : LayerBufs R) : Prop
    extends L.Sized l where
  W_in_cat : ∃ n : Nat, (n = 1 ∨ (n : Int) = L.num_pos) ∧
    HasShape W (name ++ "/W_in_cat") [inDim l, n * outDim l]
  W_out_cat : ∃ n : Nat, (n = 1 ∨ (n : Int) = L.num_pos) ∧
    HasShape W (name ++ "/W_out_cat") [n * outDim l, outDim l]
  q_proj : HasShape W (name ++ "/q_proj/weight") [outDim l, outDim l]
  v_proj : HasShape W (name ++ "/v_proj/weight") [outDim l, outDim l]
  g_proj : HasShape W (name ++ "/g_proj/weight") [outDim l, outDim l]
  o_proj : HasShape W (name ++ "/o_proj/weight") [outDim l, outDim l]
  proj_shape : ∀ t, maybeGet W (name ++ "/input_proj/weight") = some t →
    t.shape = [outDim l, inDim l]

theorem chans_bounds (s : Nat) : 0 < chans s ∧ chans s ≤ 96 := by
  unfold chans
  split <;> decide

theorem outDim_bounds (l : Nat) : 0 < outDim l ∧ outDim l ≤ 96 := chans_bounds (l / 2)

theorem inDim_pos (l : Nat) : 0 < inDim l := by
  cases l with
  | zero => decide
  | succ l => exact (outDim_bounds l).1

section Layer

variable {W : WeightsMap R} {name : String} {l : Nat} {T : LayerTensors R} {gn bb : Tensor R}

theorem HasShape.get {k : String} {shape : List Nat} {t : Tensor R} (h : HasShape W k shape)
    (ht : maybeGet W k = some t) : t.shape = shape := by
  obtain ⟨t', ht', hshape⟩ := h
  obtain rfl := Option.some.inj (ht.symm.trans ht')
  exact hshape

theorem LayerDims.fits {n_in n_out : Nat} (h : LayerDims W name l n_in n_out)
    (hT : TensorsAccepted W name (outDim l) T) : T.Fits (outDim l) (inDim l) n_in n_out := by
  obtain ⟨hpos, hle⟩ := outDim_bounds l
  have hin := Nat.mul_le_mul (show n_in ≤ 9 by have := h.pos_in; omega) hle
  have hout := Nat.mul_le_mul (show n_out ≤ 9 by have := h.pos_out; omega) hle
  exact ⟨h.W_in_cat.get hT.Win, h.W_out_cat.get hT.Wout, h.q_proj.get hT.qW, h.v_proj.get hT.vW,
    h.g_proj.get hT.gW, h.o_proj.get hT.oW, by omega, by omega, hpos⟩

variable [CommRing R] {L : LayerBufs R}

theorem LayerDims.wellFormed {n_in n_out : Nat} (h : LayerDims W name l n_in n_out)
    (hacc : LayerAccepted W name (outDim l) T gn bb)
    (hL : LayerLoaded W name (inDim l) (outDim l) T gn bb L) : LayerWellFormed W name l L := by
  have hT := h.fits hacc.tensors
  have hnum := hL.num_pos.trans hT.numPos_eq
  have hin := h.pos_in
  have hout := h.pos_out
  have hbuf : ∀ p : Nat, p < L.num_pos → PositionSized (inDim l) (outDim l) p L :=
    fun p hp => hL.positions p (by omega)
  have hip : L.input_proj ≠ [] → L.input_proj.length = outDim l * inDim l := by
    rw [hL.input_proj]
    intro hne
    cases hget : maybeGet W (name ++ "/input_proj/weight") with
    | none => simp [hget] at hne
    | some t => simp [t.numel, h.input_proj t hget]
  have hpresent : inDim l ≠ outDim l → L.input_proj ≠ [] := by
    intro hne
    rw [hL.input_proj]
    obtain ⟨t, ht⟩ := Option.isSome_iff_exists.mp (h.projected hne)
    have hlen : t.data.length = outDim l * inDim l := by simp [t.numel, h.input_proj t ht]
    rw [ht]
    have hpos := Nat.mul_pos (outDim_bounds l).1 (inDim_pos l)
    exact List.ne_nil_of_length_pos (hlen ▸ hpos)
  have hgam : L.ln_gamma.length = outDim l := by
    obtain ⟨t, ht, hlen⟩ := h.gamma
    obtain rfl := Option.some.inj (hacc.gn.symm.trans ht)
    rw [hL.ln_gamma, hlen]
  have hbeta : L.ln_beta.length = outDim l := by
    obtain ⟨t, ht, hlen⟩ := h.beta
    obtain rfl := Option.some.inj (hacc.bb.symm.trans ht)
    rw [hL.ln_beta, hlen]
  have hgoT : ∀ p : Nat, p < L.num_pos → (L.goW_T p).length = outDim l * outDim l := by
    intro p hp
    rw [(hbuf p hp).goW_T, tabulate_length]
  refine ⟨⟨?_, ?_, ?_, fun p hp => (hbuf p hp).qvgIn, fun p hp => (hbuf p hp).goW, hgoT, hip,
    hpresent, hgam, hbeta⟩, ?_, ?_, h.q_proj, h.v_proj, h.g_proj, h.o_proj, h.input_proj⟩
  · omega
  · intro hl
    have := h.single hl
    omega
  · intro h1 h3
    have := h.nine h1 h3
    omega
  · exact ⟨n_in, by omega, h.W_in_cat⟩
  · exact ⟨n_out, by omega, h.W_out_cat⟩

/-- Conversely the shapes of a well formed layer are the dimensions. -/
theorem LayerWellFormed.dims (h : LayerWellFormed W name l L)
    (hacc : LayerAccepted W name (outDim l) T gn bb)
    (hL : LayerLoaded W name (inDim l) (outDim l) T gn bb L) :
    ∃ n_in n_out, LayerDims W name l n_in n_out := by
  obtain ⟨n_in, hin, hWin⟩ := h.W_in_cat
  obtain ⟨n_out, hout, hWout⟩ := h.W_out_cat
  have hp := h.num_pos
  obtain ⟨hpos, hle⟩ := outDim_bounds l
  have hin9 := Nat.mul_le_mul (show n_in ≤ 9 by omega) hle
  have hout9 := Nat.mul_le_mul (show n_out ≤ 9 by omega) hle
  have hT : T.Fits (outDim l) (inDim l) n_in n_out :=
    ⟨hWin.get hacc.tensors.Win, hWout.get hacc.tensors.Wout, h.q_proj.get hacc.tensors.qW,
      h.v_proj.get hacc.tensors.vW, h.g_proj.get hacc.tensors.gW, h.o_proj.get hacc.tensors.oW,
      by omega, by omega, hpos⟩
  have hnum := hL.num_pos.trans hT.numPos_eq
  refine ⟨n_in, n_out, ⟨by omega, by omega, ?_, ?_, hWin, hWout, h.q_proj, h.v_proj, h.g_proj,
    h.o_proj, h.proj_shape, ?_, ⟨gn, hacc.gn, ?_⟩, ⟨bb, hacc.bb, ?_⟩⟩⟩
  · intro hl
    have := h.single hl
    omega
  · intro h1 h3
    have := h.nine h1 h3
    omega
  · intro hne
    have hip := h.projected hne
    rw [hL.input_proj] at hip
    cases hget : maybeGet W (name ++ "/input_proj/weight") with
    | none => simp [hget] at hip
    | some t => rfl
  · rw [← hL.ln_gamma]
    exact h.ln_gamma
  · rw [← hL.ln_beta]
    exact h.ln_beta

end Layer

/-! ### The head levels -/

/-- The dimensions of a convolution from `C_in` channels with its batch norm. -/
structure ConvBnDims (W : WeightsMap R) (cp bp : String) (C_in : Nat) : Prop where
  conv : HasShape W (cp ++ "/weight") [kC3, C_in]
  bias : ∀ t, maybeGet W (cp ++ "/bias") = some t → t.shape = [kC3]
  gamma : HasShape W (bp ++ "/weight") [kC3]
  beta : HasShape W (bp ++ "/bias") [kC3]
  mean : HasShape W (bp ++ "/running_mean") [kC3]
  var : HasShape W (bp ++ "/running_var") [kC3]

/-- The dimensions of a head level. -/
structure HeadDims (W : WeightsMap R) (k C_in n_cls : Nat) : Prop where
  cls_conv : ConvBnDims W ("head/cls_convs/" ++ toString k ++ "/0") ("head/cls_convs/" ++ toString k ++ "/1") C_in
  reg_conv : ConvBnDims W ("head/reg_convs/" ++ toString k ++ "/0") ("head/reg_convs/" ++ toString k ++ "/1") C_in
  cls_pred : HasShape W ("head/cls_preds/" ++ toString k ++ "/weight") [n_cls, kC3]
  cls_bias : HasShape W ("head/cls_preds/" ++ toString k ++ "/bias") [n_cls]
  reg_pred : HasShape W ("head/reg_preds/" ++ toString k ++ "/weight") [4, kC3]
  reg_bias : HasShape W ("head/reg_preds/" ++ toString k ++ "/bias") [4]
  obj_pred : HasShape W ("head/obj_preds/" ++ toString k ++ "/weight") [1, kC3]
  obj_bias : HasShape W ("head/obj_preds/" ++ toString k ++ "/bias") [1]

section Head

variable {W : WeightsMap R} {C_in n_cls : Nat} (data_null : Bool)

/-- The numbers of values that go with a shape. -/
theorem HasShape.exists_length {k : String} {shape : List Nat} (h : HasShape W k shape) :
    ∃ t, maybeGet W k = some t ∧ t.shape = shape ∧ t.data.length = shape.prod := by
  obtain ⟨t, ht, hs⟩ := h
  exact ⟨t, ht, hs, by rw [t.numel, hs]⟩

theorem ConvBnDims.sized {cp bp : String} (h : ConvBnDims W cp bp C_in) (hC : C_in < 2 ^ 31) :
    ∃ T, ConvBnAccepted W cp bp T ∧ T.Sized data_null C_in := by
  obtain ⟨cw, hcw, hcw_shape, hcw_len⟩ := h.conv.exists_length
  obtain ⟨g, hg, -, hg_len⟩ := h.gamma.exists_length
  obtain ⟨b, hb, -, hb_len⟩ := h.beta.exists_length
  obtain ⟨mu, hmu, -, hmu_len⟩ := h.mean.exists_length
  obtain ⟨va, hva, -, hva_len⟩ := h.var.exists_length
  rw [List.prod_pair] at hcw_len
  rw [List.prod_singleton] at hg_len hb_len hmu_len hva_len
  let T : ConvBnTensors R := ⟨cw, maybeGet W (cp ++ "/bias"), g, b, mu, va⟩
  have hdim : T.dim = (kC3 : Nat) := by
    change staticCastInt g.data.length = _
    rw [hg_len]
    exact staticCastInt_of_lt (by decide)
  have hout : T.out_c = (kC3 : Nat) := by
    change staticCastInt (cw.shape.getD 0 0) = _
    rw [hcw_shape]
    exact staticCastInt_of_lt (n := kC3) (by decide)
  have hin : T.in_c = C_in := by
    change staticCastInt (cw.shape.getD 1 0) = _
    rw [hcw_shape]
    exact staticCastInt_of_lt hC
  have hbias : ∀ t ∈ T.bias, BiasFits data_null kC3 t.data := by
    intro t ht
    have hs := h.bias t ht
    exact .inl (by rw [t.numel, hs, List.prod_singleton])
  refine ⟨T, ⟨hcw, by rw [hcw_shape]; exact le_rfl, rfl, hg, hb, hmu, hva, by rw [hdim]; exact Int.natCast_nonneg _,
    by rw [hout]; exact Int.natCast_nonneg _⟩, ⟨?_, ?_, ?_, ?_, ?_, ?_⟩, hcw_len.ge, .inl ?_⟩
  · rw [hdim, Int.toNat_natCast]
    exact hb_len.ge
  · rw [hdim, Int.toNat_natCast]
    exact hmu_len.ge
  · rw [hdim, Int.toNat_natCast]
    exact hva_len.ge
  · rw [hdim, hout]
  · rw [hout, hin, Int.toNat_natCast, Int.toNat_natCast]
    exact hcw_len.ge
  · rw [hout, Int.toNat_natCast]
    exact hbias
  · rw [hout, Int.toNat_natCast]

theorem HeadDims.sized {k : Nat} (h : HeadDims W k C_in n_cls) (hC : C_in < 2 ^ 31) :
    ∃ T, HeadAccepted W k T ∧ T.Sized data_null C_in n_cls := by
  obtain ⟨cls, hcls, hcls_sized⟩ := h.cls_conv.sized data_null hC
  obtain ⟨reg, hreg, hreg_sized⟩ := h.reg_conv.sized data_null hC
  obtain ⟨cw, hcw, -, hcw_len⟩ := h.cls_pred.exists_length
  obtain ⟨cb, hcb, -, hcb_len⟩ := h.cls_bias.exists_length
  obtain ⟨rw, hrw, -, hrw_len⟩ := h.reg_pred.exists_length
  obtain ⟨rb, hrb, -, hrb_len⟩ := h.reg_bias.exists_length
  obtain ⟨ow, how, -, how_len⟩ := h.obj_pred.exists_length
  obtain ⟨ob, hob, -, hob_len⟩ := h.obj_bias.exists_length
  rw [List.prod_pair] at hcw_len hrw_len how_len
  rw [List.prod_singleton] at hcb_len hrb_len hob_len
  exact ⟨⟨cls, reg, cw, cb, rw, rb, ow, ob⟩, ⟨hcls, hreg, ⟨hcw, hcb⟩, ⟨hrw, hrb⟩, ⟨how, hob⟩⟩, hcls_sized,
    hreg_sized, hcw_len.ge, .inl hcb_len.ge, hrw_len.ge, .inl hrb_len.ge, how_len.ge, .inl hob_len.ge⟩

end Head

/-! ### The whole file -/

namespace LoadedPipeline

/-- The tensors of a head level have the sizes of the stage that it reads. -/
def LevelSized (data_null : Bool) (info : ModelMeta) (W : WeightsMap R) (k : Nat) : Prop :=
  ∃ T, HeadAccepted W k T ∧ T.Sized data_null (chans (4 - numHeadLevels W + k)) info.classCount

section Reads

variable {data_null : Bool} {P : LoadedPipeline R}

theorem prepopulateReads_ok (h : ∀ k < P.num_head_levels_, AllOk (P.levelReads data_null k)) :
    AllOk (P.prepopulateReads data_null) := by
  unfold prepopulateReads
  split
  · exact .nil
  · exact allOk_flatMap fun k hk => allOk_flatMap fun _ _ => allOk_flatMap fun _ _ => h k (List.mem_range.mp hk)

end Reads

variable [CommRing R] (data_null : Bool) (rsqrt : R → R) {W : WeightsMap R}

/-- The layers are packed safely whatever the norms. -/
theorem loadLayers_safe (P : LoadedPipeline R) (hacc : ∀ l < 8, ∃ T gn bb n_in n_out,
    LayerAccepted W (layerName W l) (outDim l) T gn bb ∧ T.Fits (outDim l) (inDim l) n_in n_out ∧
      (n_in = 1 ∨ n_in = 9) ∧ (n_out = 1 ∨ n_out = 9)) : (P.loadLayers W).Safe := by
  refine Checked.foldlM_safe (fun P l hl => ?_) P
  obtain ⟨T, gn, bb, n_in, n_out, h, hfits, hin, hout⟩ := hacc l (List.mem_range.mp hl)
  refine Checked.safe_bind_all ?_ fun _ => Checked.safe_pure _
  exact loadLayer_safe h hfits (by omega) (by omega) (by omega) _

variable (P : LoadedPipeline R) (info : ModelMeta)

/-- The sizes of a loaded level, in terms of what `load` leaves. -/
theorem levelSized_iff {P' : LoadedPipeline R} (h : (P.load data_null rsqrt info W).Returns P') {k : Nat}
    {T : HeadTensors R} (hT : HeadAccepted W k T) (hload : HeadLoaded T (P'.head_ k)) :
    LevelSized data_null info W k ↔ (T.cls.Folds data_null ∧ T.reg.Folds data_null) ∧
      (P'.head_ k).Fits data_null (chans (P'.head_stage_idx_ k)) kC3 P'.num_classes_ := by
  obtain ⟨-, -, hc, -, hn⟩ := settings_eq (load_settings data_null rsqrt P info h)
  unfold head_stage_idx_
  rw [hc, hn, ← hload.sized_iff]
  constructor
  · rintro ⟨T', hT', hsized⟩
    rw [hT.unique hT']
    exact hsized
  · intro hsized
    exact ⟨T, hT, hsized⟩

/-- What a successful `load` promises: it has read and written inside its vectors, every
layer is well formed, and no later call on an event of the grid reads outside a
weight buffer. -/
def LoadSound (W : WeightsMap R) : Prop :=
  ∀ P', (P.load data_null rsqrt info W).Returns P' → (P.load data_null rsqrt info W).Safe ∧
    (∀ l < 8, LayerWellFormed W (layerName W l) l (P'.layers_ l)) ∧
    ∀ call, P'.CallInGrid call → AllOk (P'.forwardReads data_null call)

theorem load_levels {P' : LoadedPipeline R} (h : (P.load data_null rsqrt info W).Returns P') :
    P'.num_head_levels_ = numHeadLevels W := (settings_eq (load_settings data_null rsqrt P info h)).2.2.2.2

theorem load_fits {P' : LoadedPipeline R} (h : (P.load data_null rsqrt info W).Returns P')
    (hheads : ∀ k < numHeadLevels W, LevelSized data_null info W k) : ∀ k < P'.num_head_levels_,
    (P'.head_ k).Fits data_null (chans (P'.head_stage_idx_ k)) kC3 P'.num_classes_ := by
  intro k hk
  rw [load_levels data_null rsqrt P info h] at hk
  obtain ⟨-, T, hT, hload⟩ := load_heads data_null rsqrt P info h hk
  exact ((levelSized_iff data_null rsqrt P info h hT hload).mp (hheads k hk)).2

theorem load_safe {P' : LoadedPipeline R} (h : (P.load data_null rsqrt info W).Returns P')
    (hlayers : ((P.setMeta info).loadLayers W).Safe)
    (hheads : ∀ k < numHeadLevels W, LevelSized data_null info W k)
    (hrows : RowsFit info.gridHeight info.gridWidth (numHeadLevels W)) : (P.load data_null rsqrt info W).Safe := by
  have hlevel : Nonempty (HeadTensors R) :=
    (hheads 0 (Nat.pos_of_ne_zero (load_parts data_null rsqrt P info h).1.2.2)).nonempty
  have hfits := load_fits data_null rsqrt P info h hheads
  choose! T hT hsized using hheads
  refine (load_safe_iff data_null rsqrt P info h hT).mpr ⟨hlayers, fun k hk => ?_, ?_, hrows⟩
  · exact ⟨(hsized k hk).cls.toFolds, (hsized k hk).reg.toFolds⟩
  · exact prepopulateReads_ok fun k hk => (decodeReads_iff data_null _ _ _ _).mpr (hfits k hk)

theorem load_wellFormed {P' : LoadedPipeline R} (h : (P.load data_null rsqrt info W).Returns P')
    (hdims : ∀ l < 8, ∃ n_in n_out, LayerDims W (layerName W l) l n_in n_out) :
    ∀ l < 8, LayerWellFormed W (layerName W l) l (P'.layers_ l) := by
  intro l hl
  obtain ⟨T, gn, bb, hT, hload⟩ := load_layers data_null rsqrt P info h hl
  obtain ⟨n_in, n_out, hd⟩ := hdims l hl
  exact hd.wellFormed hT hload

theorem loadSound_of_dims (hdims : ∀ l < 8, ∃ n_in n_out, LayerDims W (layerName W l) l n_in n_out)
    (hheads : ∀ k < numHeadLevels W, LevelSized data_null info W k)
    (hrows : RowsFit info.gridHeight info.gridWidth (numHeadLevels W)) : P.LoadSound data_null rsqrt info W := by
  intro P' hP'
  have hwf := load_wellFormed data_null rsqrt P info hP' hdims
  have hlayers : ((P.setMeta info).loadLayers W).Safe := by
    refine loadLayers_safe _ fun l hl => ?_
    obtain ⟨T, gn, bb, hT, -⟩ := load_layers data_null rsqrt P info hP' hl
    obtain ⟨n_in, n_out, hd⟩ := hdims l hl
    exact ⟨T, gn, bb, n_in, n_out, hT, hd.fits hT.tensors, hd.pos_in, hd.pos_out⟩
  have hle := (load_levels data_null rsqrt P info hP').trans_le (numHeadLevels_le W)
  obtain ⟨hH, hW⟩ := load_grid data_null rsqrt P info hP'
  have hhead := (headReads_iff data_null hle hH hW).mpr (load_fits data_null rsqrt P info hP' hheads)
  exact ⟨load_safe data_null rsqrt P info hP' hlayers hheads hrows, hwf,
    fun call hcall => forwardReads_ok (fun l hl => (hwf l hl).toSized) hhead call hcall⟩

/-- `load` keeps its promise exactly for the files that it rejects and for those
that have the dimensions it leaves unchecked and a grid whose cells it can count. -/
theorem load_sound_iff : P.LoadSound data_null rsqrt info W ↔
    (LoadAccepts info W → (∀ l < 8, ∃ n_in n_out, LayerDims W (layerName W l) l n_in n_out) ∧
      (∀ k < numHeadLevels W, LevelSized data_null info W k) ∧
        RowsFit info.gridHeight info.gridWidth (numHeadLevels W)) := by
  constructor
  · intro h hacc
    obtain ⟨P', hP'⟩ := (load_returns data_null rsqrt P info).mpr hacc
    obtain ⟨hsafe, hwf, hreads⟩ := h P' hP'
    have hlevels := fun k (hk : k < numHeadLevels W) => (load_heads data_null rsqrt P info hP' hk).2
    have hlevel : Nonempty (HeadTensors R) := (hlevels 0 (Nat.pos_of_ne_zero hacc.levels)).nonempty
    choose! T hT hload using hlevels
    obtain ⟨-, hfolds, -, hrows⟩ := (load_safe_iff data_null rsqrt P info hP' hT).mp hsafe
    refine ⟨fun l hl => ?_, fun k hk => ?_, hrows⟩
    · obtain ⟨T, gn, bb, hT, hload⟩ := load_layers data_null rsqrt P info hP' hl
      exact (hwf l hl).dims hT hload
    · have hn := load_levels data_null rsqrt P info hP'
      obtain ⟨hH, hW⟩ := load_grid data_null rsqrt P info hP'
      have hfits := (headReads_iff data_null (hn.trans_le (numHeadLevels_le W)) hH hW).mp
        fun stage gx gy hcell => hreads (.head_decode_cell stage gx gy) hcell
      exact (levelSized_iff data_null rsqrt P info hP' (hT k hk) (hload k hk)).mpr
        ⟨hfolds k hk, hfits k (hk.trans_eq hn.symm)⟩
  · intro h P' hP'
    obtain ⟨hdims, hheads, hrows⟩ := h ((load_returns data_null rsqrt P info).mp ⟨P', hP'⟩)
    exact loadSound_of_dims data_null rsqrt P info hdims hheads hrows P' hP'

end LoadedPipeline

section Probe

def zeros (shape : List Nat) : Tensor ℤ := ⟨shape, List.replicate shape.prod 0, by simp⟩

/-- The tensors of layer `l`, with `gamma` values of the norm. -/
def probeLayer (l gamma : Nat) : List (String × Tensor ℤ) :=
  let name := "layers/" ++ toString l
  let n := if l = 0 then 1 else 9
  [(name ++ "/W_in_cat", zeros [inDim l, n * outDim l]),
    (name ++ "/W_out_cat", zeros [n * outDim l, outDim l]),
    (name ++ "/q_proj/weight", zeros [outDim l, outDim l]),
    (name ++ "/v_proj/weight", zeros [outDim l, outDim l]),
    (name ++ "/g_proj/weight", zeros [outDim l, outDim l]),
    (name ++ "/o_proj/weight", zeros [outDim l, outDim l]),
    (name ++ "/norm/weight", zeros [gamma]), (name ++ "/norm/bias", zeros [outDim l])] ++
    if inDim l = outDim l then [] else [(name ++ "/input_proj/weight", zeros [outDim l, inDim l])]

def probeHead : List (String × Tensor ℤ) :=
  (["cls", "reg"].flatMap fun kind =>
    [("head/" ++ kind ++ "_convs/0/0/weight", zeros [96, 96]),
      ("head/" ++ kind ++ "_convs/0/1/weight", zeros [96]),
      ("head/" ++ kind ++ "_convs/0/1/bias", zeros [96]),
      ("head/" ++ kind ++ "_convs/0/1/running_mean", zeros [96]),
      ("head/" ++ kind ++ "_convs/0/1/running_var", zeros [96])]) ++
    [("cls", 2), ("reg", 4), ("obj", 1)].flatMap fun (kind, n) =>
      [("head/" ++ kind ++ "_preds/0/weight", zeros [n, 96]),
        ("head/" ++ kind ++ "_preds/0/bias", zeros [n])]

/-- A norm vector of one value in layer 0, where the layer has twelve channels. -/
def shortNormFile : WeightsMap ℤ where
  entries := (List.range 8).flatMap (fun l => probeLayer l (if l = 0 then 1 else outDim l)) ++ probeHead
  keys_nodup := by decide +kernel

def shapeAt (k : String) : Option (List Nat) := (maybeGet shortNormFile k).map Tensor.shape

theorem hasShape_of_shapeAt {k : String} {shape : List Nat} (h : shapeAt k = some shape) :
    HasShape shortNormFile k shape :=
  Option.map_eq_some_iff.mp h

theorem probe_indices : sslaIndices shortNormFile = [0, 1, 2, 3, 4, 5, 6, 7] := by decide +kernel

theorem probe_layerName : ∀ l < 8, layerName shortNormFile l = "layers/" ++ toString l := by
  intro l hl
  unfold layerName
  rw [probe_indices]
  interval_cases l <;> rfl

theorem probe_shapes : ∀ l < 8,
    let name := "layers/" ++ toString l
    let n := if l = 0 then 1 else 9
    shapeAt (name ++ "/W_in_cat") = some [inDim l, n * outDim l] ∧
      shapeAt (name ++ "/W_out_cat") = some [n * outDim l, outDim l] ∧
      shapeAt (name ++ "/q_proj/weight") = some [outDim l, outDim l] ∧
      shapeAt (name ++ "/v_proj/weight") = some [outDim l, outDim l] ∧
      shapeAt (name ++ "/g_proj/weight") = some [outDim l, outDim l] ∧
      shapeAt (name ++ "/o_proj/weight") = some [outDim l, outDim l] ∧
      shapeAt (name ++ "/norm/weight") = some [if l = 0 then 1 else outDim l] ∧
      shapeAt (name ++ "/norm/bias") = some [outDim l] := by
  decide +kernel

theorem probe_convBn {cp bp : String} (hconv : shapeAt (cp ++ "/weight") = some [96, 96])
    (hbias : shapeAt (cp ++ "/bias") = none)
    (hbn : ∀ k ∈ ["/weight", "/bias", "/running_mean", "/running_var"], shapeAt (bp ++ k) = some [96]) :
    ConvBnDims shortNormFile cp bp 96 := by
  refine ⟨hasShape_of_shapeAt hconv, fun t ht => ?_, hasShape_of_shapeAt (hbn _ (by simp)),
    hasShape_of_shapeAt (hbn _ (by simp)), hasShape_of_shapeAt (hbn _ (by simp)), hasShape_of_shapeAt (hbn _ (by simp))⟩
  rw [shapeAt, ht] at hbias
  exact absurd hbias (by simp)

theorem probe_levels : numHeadLevels shortNormFile = 1 := by decide +kernel

theorem probe_headDims : HeadDims shortNormFile 0 96 2 := by
  refine ⟨probe_convBn (by decide +kernel) (by decide +kernel) (by decide +kernel),
    probe_convBn (by decide +kernel) (by decide +kernel) (by decide +kernel), ?_, ?_, ?_, ?_, ?_, ?_⟩ <;>
    exact hasShape_of_shapeAt (by decide +kernel)

theorem probe_layers : ∀ l < 8, ∃ T gn bb n_in n_out,
    LayerAccepted shortNormFile (layerName shortNormFile l) (outDim l) T gn bb ∧
      T.Fits (outDim l) (inDim l) n_in n_out ∧ (n_in = 1 ∨ n_in = 9) ∧ (n_out = 1 ∨ n_out = 9) := by
  intro l hl
  rw [probe_layerName l hl]
  obtain ⟨hWin, hWout, hq, hv, hg, ho, hgn, hbb⟩ := probe_shapes l hl
  obtain ⟨Win, hWin, hWin_shape⟩ := hasShape_of_shapeAt hWin
  obtain ⟨Wout, hWout, hWout_shape⟩ := hasShape_of_shapeAt hWout
  obtain ⟨qW, hq, hq_shape⟩ := hasShape_of_shapeAt hq
  obtain ⟨vW, hv, hv_shape⟩ := hasShape_of_shapeAt hv
  obtain ⟨gW, hg, hg_shape⟩ := hasShape_of_shapeAt hg
  obtain ⟨oW, ho, ho_shape⟩ := hasShape_of_shapeAt ho
  obtain ⟨gn, hgn, -⟩ := hasShape_of_shapeAt hgn
  obtain ⟨bb, hbb, -⟩ := hasShape_of_shapeAt hbb
  obtain ⟨hpos, hle⟩ := outDim_bounds l
  have hsmall : (if l = 0 then 1 else 9) * outDim l < 2 ^ 31 := by split <;> omega
  have hcast := staticCastInt_of_lt hsmall
  refine ⟨⟨Win, Wout, qW, vW, gW, oW⟩, gn, bb, if l = 0 then 1 else 9, if l = 0 then 1 else 9,
    ⟨⟨hWin, hWout, by simp [hWin_shape, hWout_shape], ?_, hq, hv, hg, ho⟩, hgn, hbb⟩,
    ⟨hWin_shape, hWout_shape, hq_shape, hv_shape, hg_shape, ho_shape, hsmall, hsmall, hpos⟩, ?_, ?_⟩
  · simp only [hWin_shape, hWout_shape, List.getD_cons_succ, List.getD_cons_zero, hcast,
      Int.natCast_mul, Int.mul_tmod_left, and_self]
  · split <;> simp
  · split <;> simp

def probeInfo : ModelMeta := ⟨"ssla_s_yolox_det", 240, 304, 2, 4⟩

theorem probe_level {k : Nat} (hk : k < numHeadLevels shortNormFile) :
    ∃ T, HeadAccepted shortNormFile k T ∧ T.Sized true (chans (4 - numHeadLevels shortNormFile + k)) 2 := by
  rw [probe_levels, Nat.lt_one_iff] at hk
  rw [hk, probe_levels]
  exact probe_headDims.sized true (by decide)

theorem probe_rows : RowsFit probeInfo.gridHeight probeInfo.gridWidth (numHeadLevels shortNormFile) := by
  rw [probe_levels]
  exact .inr (by decide)

theorem probe_accepted : LoadAccepts probeInfo shortNormFile := by
  refine ⟨rfl, by rw [probe_indices]; rfl, fun l hl => ?_, ?_, by decide, fun k hk => ?_, ?_⟩
  · obtain ⟨T, gn, bb, -, -, hacc, -⟩ := probe_layers l hl
    exact ⟨T, gn, bb, hacc⟩
  · rw [probe_levels]
    exact Nat.one_ne_zero
  · obtain ⟨T, hT, -⟩ := probe_level hk
    exact ⟨T, hT⟩
  · rw [probe_levels]
    decide

/-- The object before the first `load`. -/
def newPipeline : LoadedPipeline ℤ where
  H_ := 0
  W_ := 0
  num_classes_ := 0
  tdrop_window_ := 4
  layers_ := fun _ => ⟨0, 0, 1, fun _ => [], fun _ => [], fun _ => [], [], [], []⟩
  num_head_levels_ := 0
  head_ := fun _ => ⟨[], [], [], [], [], [], [], [], [], []⟩

/-- The file is accepted and its tensors are read inside. The first event then makes the
norm of layer 0 read twelve values of a vector that has one. -/
theorem load_accepts_shortNorm : ∃ P', (newPipeline.load true id probeInfo shortNormFile).Returns P' ∧
    (newPipeline.load true id probeInfo shortNormFile).Safe ∧
    P'.CallInGrid (.stage_forward 0 1 1) ∧ ¬ AllOk (P'.forwardReads true (.stage_forward 0 1 1)) := by
  obtain ⟨P', hP'⟩ := (LoadedPipeline.load_returns true id newPipeline _).mpr probe_accepted
  obtain ⟨hH, hW, -⟩ := LoadedPipeline.settings_eq (LoadedPipeline.load_settings true id newPipeline _ hP')
  obtain ⟨T, gn, bb, hacc, hload⟩ := LoadedPipeline.load_layers true id newPipeline _ hP' (by decide : 0 < 8)
  have hshape : gn.shape = [1] := by
    refine (hasShape_of_shapeAt (probe_shapes 0 (by decide)).2.2.2.2.2.2.1).get ?_
    rw [← probe_layerName 0 (by decide)]
    exact hacc.gn
  have hlen : (P'.layers_ 0).ln_gamma.length = 1 := by
    rw [hload.ln_gamma, gn.numel, hshape]
    rfl
  refine ⟨P', hP', LoadedPipeline.load_safe true id newPipeline _ hP' (LoadedPipeline.loadLayers_safe _ probe_layers)
    (fun k hk => probe_level hk) probe_rows, ?_, fun hok => ?_⟩
  · change 1 < P'.W_ / 1 ∧ 1 < P'.H_ / 1
    rw [hW, hH]
    decide
  · have hread : (⟨(P'.layers_ 0).ln_gamma.length, 1⟩ : ReadAccess) ∈ P'.stageReads 0 1 1 := by
      have hinterior : Interior 1 1 (P'.H_ / 1) (P'.W_ / 1) := by
        rw [hH, hW]
        decide
      change _ ∈ ite (Interior 1 1 (P'.H_ / 1) (P'.W_ / 1)) _ _
      rw [if_pos hinterior]
      refine List.mem_append_left _ (List.mem_append_right _ ?_)
      exact List.mem_flatMap.mpr ⟨1, List.mem_range.mpr (by decide), List.mem_cons_self⟩
    have hlt : 1 < (P'.layers_ 0).ln_gamma.length := hok _ hread
    omega

end Probe

end SslaRt

