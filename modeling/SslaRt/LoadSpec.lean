import SslaRt.LoadHead
import SslaRt.LoadLayerSpec

/-! When `load` returns, and which layers it then leaves. -/

namespace SslaRt

open CheckedRun

variable {R : Type*}

/-- The checks of `load`, in the order of the code; `grid` is what its divisions need. -/
structure LoadAccepts (info : ModelMeta) (W : WeightsMap R) : Prop where
  model : info.model = "ssla_s_yolox_det"
  eight : (sslaIndices W).length = 8
  layers : ∀ l < 8, ∃ T gn bb, LayerAccepted W (layerName W l) (outDim l) T gn bb
  levels : numHeadLevels W ≠ 0
  grid : 8 ≤ info.gridHeight ∧ 8 ≤ info.gridWidth
  heads : ∀ k < numHeadLevels W, ∃ T, HeadAccepted W k T
  vectors : VectorsFit info.gridHeight info.gridWidth info.classCount (numHeadLevels W)

/-- The rows of the predictions have distinct numbers, or there is no row to fill. -/
def RowsFit (height width levels : Nat) : Prop :=
  staticCastInt (anchorCount height width levels) = 0 ∨ anchorCount height width levels < 2 ^ 31

/-! ### Rows of the predictions -/

theorem flatMap_rows (base w h : Nat) :
    (List.range h).flatMap (fun gy => (List.range w).map fun gx => base + gy * w + gx) = List.range' base (h * w) := by
  induction h with
  | zero => simp
  | succ h ih =>
    have hrow : (List.range w).map (fun gx => base + h * w + gx) = List.range' (base + h * w) w :=
      List.range'_eq_map_range.symm
    rw [List.range_succ, List.flatMap_append, ih, List.flatMap_singleton, hrow, Nat.succ_mul]
    exact List.range'_append_1

namespace LoadedPipeline

/-- The settings of a pipeline: everything but its buffers. -/
def settings (P : LoadedPipeline R) : Nat × Nat × Nat × Int × Nat :=
  (P.H_, P.W_, P.num_classes_, P.tdrop_window_, P.num_head_levels_)

theorem settings_eq {P P' : LoadedPipeline R} (h : P'.settings = P.settings) :
    P'.H_ = P.H_ ∧ P'.W_ = P.W_ ∧ P'.num_classes_ = P.num_classes_ ∧
      P'.tdrop_window_ = P.tdrop_window_ ∧ P'.num_head_levels_ = P.num_head_levels_ := by
  simpa [settings] using h

def HasGrid (P : LoadedPipeline R) (k : Nat) : Prop :=
  0 < P.Hs_ (P.head_stage_idx_ k) ∧ 0 < P.Ws_ (P.head_stage_idx_ k)

theorem HasGrid.congr {P P' : LoadedPipeline R} {k : Nat} (hs : P'.settings = P.settings) (h : P.HasGrid k) :
    P'.HasGrid k := by
  obtain ⟨hH, hW, -, -, hn⟩ := settings_eq hs
  unfold HasGrid Hs_ Ws_ head_stage_idx_
  rw [hH, hW, hn]
  exact h

section Rows

variable (P : LoadedPipeline R)

theorem flatMap_levels (n : Nat) : (List.range n).flatMap (fun k =>
    (List.range (P.Hs_ (P.head_stage_idx_ k))).flatMap fun gy =>
      (List.range (P.Ws_ (P.head_stage_idx_ k))).map fun gx =>
        P.row_offset k + gy * P.Ws_ (P.head_stage_idx_ k) + gx) = List.range (P.row_offset n) := by
  induction n with
  | zero => rfl
  | succ n ih =>
    have hnext : P.row_offset (n + 1) =
        P.row_offset n + P.Hs_ (P.head_stage_idx_ n) * P.Ws_ (P.head_stage_idx_ n) := by
      unfold row_offset
      rw [List.range_succ, List.map_append, List.sum_append, List.map_singleton, List.sum_singleton]
    rw [List.range_succ, List.flatMap_append, ih, List.flatMap_singleton, flatMap_rows, hnext, List.range_add,
      List.range'_eq_map_range]

/-- A number that wraps around to a positive one is above a row with that number. -/
theorem rows_lt_iff (n : Nat) :
    (∀ row < n, 0 ≤ staticCastInt row ∧ staticCastInt row < staticCastInt n) ↔ n < 2 ^ 31 := by
  constructor
  · intro h
    by_contra hlt
    have hbound : staticCastInt n < 2 ^ 31 := by
      have hb := Int.bmod_lt (x := n) (m := 2 ^ 32) (by decide)
      exact lt_of_lt_of_eq hb rfl
    have hpos : 0 < staticCastInt n := lt_of_le_of_lt (h 0 (by omega)).1 (h 0 (by omega)).2
    have hrow := (h (staticCastInt n).toNat (by omega)).2
    rw [staticCastInt_of_lt (by omega)] at hrow
    omega
  · intro hlt row hrow
    rw [staticCastInt_of_lt hlt, staticCastInt_of_lt (hrow.trans hlt)]
    exact ⟨Int.natCast_nonneg row, Int.ofNat_lt.mpr hrow⟩

theorem prepopulateRows_ok_iff :
    (∀ row ∈ P.prepopulateRows, P.RowOk row) ↔ RowsFit P.H_ P.W_ P.num_head_levels_ := by
  have htotal : P.row_offset P.num_head_levels_ = P.total_anchors_ := rfl
  unfold prepopulateRows RowsFit
  split
  · next hnone =>
    refine iff_of_true (by simp) (.inl ?_)
    rcases hnone with hzero | hzero
    · have hcount : anchorCount P.H_ P.W_ P.num_head_levels_ = 0 := by rw [hzero]; rfl
      rw [hcount]
      exact staticCastInt_of_lt (Nat.two_pow_pos 31)
    · exact hzero
  · next hsome =>
    obtain ⟨-, hne⟩ := not_or.mp hsome
    rw [P.flatMap_levels, htotal]
    simp only [List.mem_range]
    exact (rows_lt_iff _).trans (or_iff_right hne).symm

end Rows

variable [CommRing R] (data_null : Bool) (rsqrt : R → R) {W : WeightsMap R}

def HeadLoadedAt (W : WeightsMap R) (k : Nat) (P : LoadedPipeline R) : Prop :=
  ∃ T, HeadAccepted W k T ∧ HeadLoaded T (P.head_ k)

theorem setHead_loaded {P : LoadedPipeline R} {k : Nat} {L : YoloxBufs R}
    (hL : (loadYoloxLevel data_null rsqrt W k "deploy/ssla_kernels").Returns L) {k' : Nat}
    (h : k' = k ∨ HeadLoadedAt W k' P) : HeadLoadedAt W k' (P.setHead k L) := by
  by_cases hk : k' = k
  · subst hk
    obtain ⟨T, hT⟩ := loadYoloxLevel_accepted data_null rsqrt _ hL
    obtain ⟨L', hL', hload, -⟩ := loadYoloxLevel_spec data_null rsqrt "deploy/ssla_kernels" hT
    obtain rfl := Checked.returns_unique hL hL'
    exact ⟨T, hT, by simpa [setHead] using hload⟩
  · obtain ⟨T, hT, hload⟩ := h.resolve_left hk
    exact ⟨T, hT, by simpa [setHead, Function.update_of_ne hk] using hload⟩

theorem loadHead_spec {P P' : LoadedPipeline R} {k : Nat} (h : (loadHead data_null rsqrt W P k).Returns P') :
    P.HasGrid k ∧ ∃ L, (loadYoloxLevel data_null rsqrt W k "deploy/ssla_kernels").Returns L ∧
      P' = P.setHead k L := by
  obtain ⟨_, hH, h⟩ := Checked.returns_bind.mp h
  obtain ⟨_, hW, h⟩ := Checked.returns_bind.mp h
  obtain ⟨L, hL, h⟩ := Checked.returns_bind.mp h
  exact ⟨⟨Checked.returns_divisor.mp hH, Checked.returns_divisor.mp hW⟩, L, hL, (Except.ok.inj h).symm⟩

theorem loadHead_returns {P : LoadedPipeline R} {k : Nat} (hgrid : P.HasGrid k) {T : HeadTensors R}
    (hT : HeadAccepted W k T) : (∃ P', (loadHead data_null rsqrt W P k).Returns P') ∧
      ((loadHead data_null rsqrt W P k).Safe ↔ T.cls.Folds data_null ∧ T.reg.Folds data_null) := by
  obtain ⟨L, hL, -, hsafe⟩ := loadYoloxLevel_spec data_null rsqrt "deploy/ssla_kernels" hT
  unfold loadHead
  rw [Checked.divisor_pos hgrid.1, Checked.divisor_pos hgrid.2, Checked.ok_bind, Checked.ok_bind]
  refine ⟨Checked.exists_returns_bind hL ⟨_, rfl⟩, ?_⟩
  rw [Checked.safe_bind_iff hL, hsafe]
  exact and_iff_left rfl

theorem loadHeads_spec {P P' : LoadedPipeline R} (h : (P.loadHeads data_null rsqrt W).Returns P') :
    (P'.layers_ = P.layers_ ∧ P'.settings = P.settings) ∧
      ∀ k < P.num_head_levels_, P'.HasGrid k ∧ HeadLoadedAt W k P' := by
  constructor
  · refine Checked.foldlM_keeps (I := fun P' : LoadedPipeline R => P'.layers_ = P.layers_ ∧ P'.settings = P.settings)
      (fun P k P' hP hsame => ?_) h ⟨rfl, rfl⟩
    obtain ⟨-, L, -, rfl⟩ := loadHead_spec data_null rsqrt hP
    exact hsame
  · intro k hk
    refine Checked.foldlM_inv (I := fun k P' => P'.HasGrid k ∧ HeadLoadedAt W k P') (fun P k P' hP => ?_)
      (fun P k P' k' hP hk' => ?_) h k (.inl (List.mem_range.mpr hk))
    · obtain ⟨hgrid, L, hL, rfl⟩ := loadHead_spec data_null rsqrt hP
      exact ⟨hgrid.congr rfl, setHead_loaded data_null rsqrt hL (.inl rfl)⟩
    · obtain ⟨-, L, hL, rfl⟩ := loadHead_spec data_null rsqrt hP
      exact ⟨hk'.1.congr rfl, setHead_loaded data_null rsqrt hL (.inr hk'.2)⟩

/-- The levels are loaded, and safely exactly if the norms of each can be folded. -/
theorem loadHeads_returns {P : LoadedPipeline R} {T : Nat → HeadTensors R}
    (hgrid : ∀ k < P.num_head_levels_, P.HasGrid k)
    (hT : ∀ k < P.num_head_levels_, HeadAccepted W k (T k)) :
    (∃ P', (P.loadHeads data_null rsqrt W).Returns P') ∧
      ((P.loadHeads data_null rsqrt W).Safe ↔
        ∀ k < P.num_head_levels_, (T k).cls.Folds data_null ∧ (T k).reg.Folds data_null) := by
  have hstep : ∀ Q : LoadedPipeline R, Q.settings = P.settings → ∀ k ∈ List.range P.num_head_levels_,
      ((loadHead data_null rsqrt W Q k).Safe ↔ (T k).cls.Folds data_null ∧ (T k).reg.Folds data_null) ∧
        ∃ Q', (loadHead data_null rsqrt W Q k).Returns Q' ∧ Q'.settings = P.settings := by
    intro Q hQ k hk
    have hlt := List.mem_range.mp hk
    obtain ⟨⟨Q', hQ'⟩, hsafe⟩ := loadHead_returns data_null rsqrt ((hgrid k hlt).congr hQ) (hT k hlt)
    obtain ⟨-, L, -, rfl⟩ := loadHead_spec data_null rsqrt hQ'
    exact ⟨hsafe, _, hQ', hQ⟩
  obtain ⟨P', hP', -⟩ := Checked.foldlM_returns_inv (I := fun Q : LoadedPipeline R => Q.settings = P.settings)
    (fun Q hQ k hk => (hstep Q hQ k hk).2) rfl
  refine ⟨⟨P', hP'⟩, ?_⟩
  rw [loadHeads, Checked.foldlM_safe_iff hstep rfl]
  simp only [List.mem_range]

def LayerLoadedAt (W : WeightsMap R) (l : Nat) (P : LoadedPipeline R) : Prop :=
  ∃ T gn bb, LayerAccepted W (layerName W l) (outDim l) T gn bb ∧
    LayerLoaded W (layerName W l) (inDim l) (outDim l) T gn bb (P.layers_ l)

theorem setLayer_loaded {P : LoadedPipeline R} {l : Nat} {L L₀ : LayerBufs R}
    (hL : (loadLayer W (layerName W l) L₀ (inDim l) (outDim l)).Returns L) {l' : Nat}
    (h : l' = l ∨ LayerLoadedAt W l' P) : LayerLoadedAt W l' (P.setLayer l L) := by
  by_cases hl : l' = l
  · subst hl
    obtain ⟨T, gn, bb, hacc, hload⟩ := loadLayer_spec hL
    exact ⟨T, gn, bb, hacc, by simpa [setLayer] using hload⟩
  · obtain ⟨T, gn, bb, hacc, hload⟩ := h.resolve_left hl
    exact ⟨T, gn, bb, hacc, by simpa [setLayer, Function.update_of_ne hl] using hload⟩

theorem loadLayers_spec {P P' : LoadedPipeline R} (h : (P.loadLayers W).Returns P') {l : Nat}
    (hl : l < 8) : LayerLoadedAt W l P' := by
  refine Checked.foldlM_inv (I := LayerLoadedAt W) ?_ ?_ h l (.inl (List.mem_range.mpr hl))
  · intro P l P' hP
    obtain ⟨L, hL, hP'⟩ := Checked.returns_bind.mp hP
    obtain rfl := Except.ok.inj hP'
    exact setLayer_loaded hL (.inl rfl)
  · intro P l P' l' hP hl'
    obtain ⟨L, hL, hP'⟩ := Checked.returns_bind.mp hP
    obtain rfl := Except.ok.inj hP'
    exact setLayer_loaded hL (.inr hl')

theorem loadLayers_returns (P : LoadedPipeline R)
    (hacc : ∀ l < 8, ∃ T gn bb, LayerAccepted W (layerName W l) (outDim l) T gn bb) :
    ∃ P', (P.loadLayers W).Returns P' := by
  refine Checked.foldlM_returns (fun P l hl => ?_) P
  obtain ⟨T, gn, bb, h⟩ := hacc l (List.mem_range.mp hl)
  obtain ⟨L, hL⟩ := loadLayer_returns (inDim l) h (P.layers_ l)
  exact Checked.exists_returns_bind hL ⟨_, rfl⟩

theorem loadLayers_settings {P P' : LoadedPipeline R} (h : (P.loadLayers W).Returns P') :
    P'.settings = P.settings := by
  refine Checked.foldlM_keeps (I := fun Q : LoadedPipeline R => Q.settings = P.settings)
    (fun Q l Q' hstep hQ => ?_) h rfl
  obtain ⟨L, -, hQ'⟩ := Checked.returns_bind.mp hstep
  obtain rfl := Except.ok.inj hQ'
  exact hQ

variable (P : LoadedPipeline R) (info : ModelMeta)

/-- The pipeline of `load` before the head levels. -/
def headless (P₁ : LoadedPipeline R) (W : WeightsMap R) : LoadedPipeline R :=
  { P₁ with num_head_levels_ := numHeadLevels W }

/-- The parts of a `load` that returns. -/
theorem load_parts {P' : LoadedPipeline R} (h : (P.load data_null rsqrt info W).Returns P') :
    (info.model = "ssla_s_yolox_det" ∧ (sslaIndices W).length = 8 ∧ numHeadLevels W ≠ 0) ∧
      ∃ P₁, ((P.setMeta info).loadLayers W).Returns P₁ ∧
        ((headless P₁ W).loadHeads data_null rsqrt W).Returns P' ∧
        VectorsFit P'.H_ P'.W_ P'.num_classes_ P'.num_head_levels_ := by
  obtain ⟨_, hmodel, h⟩ := Checked.returns_bind.mp h
  obtain ⟨_, hcount, h⟩ := Checked.returns_bind.mp h
  obtain ⟨P₁, hlayers, h⟩ := Checked.returns_bind.mp h
  obtain ⟨_, hlevels, h⟩ := Checked.returns_bind.mp h
  obtain ⟨P₂, hheads, h⟩ := Checked.returns_bind.mp h
  obtain ⟨_, hvectors, h⟩ := Checked.returns_bind.mp h
  obtain rfl : P₂ = P' := Except.ok.inj h
  exact ⟨⟨not_not.mp (Checked.returns_throwIf.mp hmodel), not_not.mp (Checked.returns_throwIf.mp hcount),
    Checked.returns_throwIf.mp hlevels⟩, P₁, hlayers, hheads,
    not_not.mp (Checked.returns_throwIf.mp hvectors)⟩

theorem load_settings {P' : LoadedPipeline R} (h : (P.load data_null rsqrt info W).Returns P') :
    P'.settings = (headless (P.setMeta info) W).settings := by
  obtain ⟨-, P₁, hlayers, hheads, -⟩ := load_parts data_null rsqrt P info h
  obtain ⟨hH, hW, hc, ht, -⟩ := settings_eq (loadLayers_settings hlayers)
  rw [(loadHeads_spec data_null rsqrt hheads).1.2]
  simp only [settings, headless, hH, hW, hc, ht]

theorem load_layers {P' : LoadedPipeline R} (h : (P.load data_null rsqrt info W).Returns P') {l : Nat}
    (hl : l < 8) : LayerLoadedAt W l P' := by
  obtain ⟨-, P₁, hlayers, hheads, -⟩ := load_parts data_null rsqrt P info h
  have hsame : P'.layers_ = P₁.layers_ := (loadHeads_spec data_null rsqrt hheads).1.1
  obtain ⟨T, gn, bb, hacc, hload⟩ := loadLayers_spec hlayers hl
  exact ⟨T, gn, bb, hacc, by rw [hsame]; exact hload⟩

theorem load_heads {P' : LoadedPipeline R} (h : (P.load data_null rsqrt info W).Returns P') {k : Nat}
    (hk : k < numHeadLevels W) : P'.HasGrid k ∧ HeadLoadedAt W k P' := by
  obtain ⟨-, P₁, -, hheads, -⟩ := load_parts data_null rsqrt P info h
  exact (loadHeads_spec data_null rsqrt hheads).2 k hk

/-- The last level reads the last stage, whose grid is not empty. -/
theorem load_grid {P' : LoadedPipeline R} (h : (P.load data_null rsqrt info W).Returns P') :
    0 < P'.Hs_ 3 ∧ 0 < P'.Ws_ 3 := by
  have hlevels := (load_parts data_null rsqrt P info h).1.2.2
  have hle := numHeadLevels_le W
  obtain ⟨hgrid, -⟩ := load_heads data_null rsqrt P info h (k := numHeadLevels W - 1) (by omega)
  have hnum : P'.num_head_levels_ = numHeadLevels W := (settings_eq (load_settings data_null rsqrt P info h)).2.2.2.2
  have hidx : P'.head_stage_idx_ (numHeadLevels W - 1) = 3 := by
    unfold head_stage_idx_
    omega
  unfold HasGrid at hgrid
  rwa [hidx] at hgrid

omit [CommRing R] in
theorem hasGrid_of_eight {k : Nat} (hk : k < numHeadLevels W) (hnum : P.num_head_levels_ = numHeadLevels W)
    (hH : 8 ≤ P.H_) (hW : 8 ≤ P.W_) : P.HasGrid k := by
  have hle := numHeadLevels_le W
  have hidx : P.head_stage_idx_ k ≤ 3 := by
    unfold head_stage_idx_
    omega
  have hpow : 2 ^ P.head_stage_idx_ k ≤ 8 := Nat.pow_le_pow_right (by decide) hidx
  exact ⟨Nat.div_pos (hpow.trans hH) (Nat.two_pow_pos _), Nat.div_pos (hpow.trans hW) (Nat.two_pow_pos _)⟩

/-- The accesses of a `load` that returns: those of the layers, of the foldings, and of the
decoder with the predictions that it fills. -/
theorem load_safe_iff {P' : LoadedPipeline R} (h : (P.load data_null rsqrt info W).Returns P')
    {T : Nat → HeadTensors R} (hT : ∀ k < numHeadLevels W, HeadAccepted W k (T k)) :
    (P.load data_null rsqrt info W).Safe ↔ ((P.setMeta info).loadLayers W).Safe ∧
      (∀ k < numHeadLevels W, (T k).cls.Folds data_null ∧ (T k).reg.Folds data_null) ∧
        AllOk (P'.prepopulateReads data_null) ∧ RowsFit info.gridHeight info.gridWidth (numHeadLevels W) := by
  obtain ⟨⟨hmodel, height, hlevels⟩, P₁, hlayers, hheads, hvectors⟩ := load_parts data_null rsqrt P info h
  have hfold := (loadHeads_returns data_null rsqrt (P := headless P₁ W)
    (fun k hk => ((loadHeads_spec data_null rsqrt hheads).2 k hk).1.congr
      (loadHeads_spec data_null rsqrt hheads).1.2.symm) hT).2
  obtain ⟨hH, hW, -, -, hn⟩ := settings_eq (load_settings data_null rsqrt P info h)
  have hload : P.load data_null rsqrt info W = (do
      let P ← (P.setMeta info).loadLayers W
      let P ← (headless P W).loadHeads data_null rsqrt W
      Checked.throwIf (¬ VectorsFit P.H_ P.W_ P.num_classes_ P.num_head_levels_)
        "cannot create std::vector larger than max_size()"
      Checked.access (decide (AllOk (P.prepopulateReads data_null)))
      Checked.access (decide (∀ row ∈ P.prepopulateRows, P.RowOk row))
      return P) := by
    unfold load
    simp only [Checked.throwIf_neg (not_not.mpr hmodel), Checked.throwIf_neg (not_not.mpr height),
      Checked.throwIf_neg hlevels, Checked.ok_bind]
    rfl
  rw [hload, Checked.safe_bind_iff hlayers, Checked.safe_bind_iff hheads, hfold,
    Checked.throwIf_neg (not_not.mpr hvectors), Checked.ok_bind, Checked.safe_access_bind, Checked.safe_access_bind,
    prepopulateRows_ok_iff, and_iff_left (Checked.safe_pure _), hH, hW, hn]
  exact Iff.rfl

theorem load_returns : (∃ P', (P.load data_null rsqrt info W).Returns P') ↔ LoadAccepts info W := by
  constructor
  · rintro ⟨P', h⟩
    obtain ⟨⟨hmodel, height, hlevels⟩, P₁, hlayers, -, hvectors⟩ := load_parts data_null rsqrt P info h
    obtain ⟨hH, hW, hc, -, hn⟩ := settings_eq (load_settings data_null rsqrt P info h)
    obtain ⟨hH3, hW3⟩ := load_grid data_null rsqrt P info h
    unfold Hs_ at hH3
    unfold Ws_ at hW3
    rw [hH] at hvectors hH3
    rw [hW] at hvectors hW3
    rw [hc, hn] at hvectors
    have hH8 := (Nat.div_pos_iff.mp hH3).2
    have hW8 := (Nat.div_pos_iff.mp hW3).2
    refine ⟨hmodel, height, fun l hl => ?_, hlevels, ⟨hH8, hW8⟩, fun k hk => ?_, hvectors⟩
    · obtain ⟨T, gn, bb, hacc, -⟩ := loadLayers_spec hlayers hl
      exact ⟨T, gn, bb, hacc⟩
    · obtain ⟨-, T, hT, -⟩ := load_heads data_null rsqrt P info h hk
      exact ⟨T, hT⟩
  · intro h
    obtain ⟨P₁, hlayers⟩ := loadLayers_returns (P.setMeta info) h.layers
    obtain ⟨hH, hW, hc, -⟩ := settings_eq (loadLayers_settings hlayers)
    have hlevel : Nonempty (HeadTensors R) := (h.heads 0 (Nat.pos_of_ne_zero h.levels)).nonempty
    choose! T hT using h.heads
    have hgrid : ∀ k < numHeadLevels W, (headless P₁ W).HasGrid k := fun k hk =>
      hasGrid_of_eight _ hk rfl (hH ▸ h.grid.1) (hW ▸ h.grid.2)
    obtain ⟨⟨P', hheads⟩, -⟩ := loadHeads_returns data_null rsqrt (P := headless P₁ W) hgrid hT
    obtain ⟨hH', hW', hc', -, hn'⟩ := settings_eq (loadHeads_spec data_null rsqrt hheads).1.2
    have hvectors : VectorsFit P'.H_ P'.W_ P'.num_classes_ P'.num_head_levels_ := by
      rw [hH', hW', hc', hn']
      simp only [headless, hH, hW, hc]
      exact h.vectors
    refine Checked.exists_returns_bind (a := ⟨⟩) (Checked.returns_throwIf.mpr (not_not.mpr h.model)) ?_
    refine Checked.exists_returns_bind (a := ⟨⟩) (Checked.returns_throwIf.mpr (not_not.mpr h.eight)) ?_
    refine Checked.exists_returns_bind hlayers ?_
    refine Checked.exists_returns_bind (a := ⟨⟩) (Checked.returns_throwIf.mpr h.levels) ?_
    refine Checked.exists_returns_bind hheads ?_
    exact Checked.exists_returns_bind (a := ⟨⟩) (Checked.returns_throwIf.mpr (not_not.mpr hvectors)) ⟨P', rfl⟩

end LoadedPipeline

end SslaRt
