import SslaRt.FusedBuffers
import SslaRt.FusedSpec
import SslaRt.GpuWeights

/-! The fused weights in their three layouts: the pages of `reshape_ssla_layer`,
the row-major buffers of `load_layer`, and the transposed copies of the GPU. Each
is read as the step of the module. -/

namespace SslaRt

open CheckedRun Matrix

variable {R : Type*} [CommRing R]

section Readers

variable (ar : Arith R) {in_dim D p : Nat} {qvg go : DenseMatrix R} (in_feat : Fin in_dim → R)

theorem RowMajor.row {m n : Nat} {buf : List R} {a : DenseMatrix R}
    (h : RowMajor buf (a.toMatrix m n)) {r : Nat} (hr : r < m) (x : Fin n → R) :
    ∑ i : Fin n, readAt buf (r * n + i : Nat) * x i = ∑ i : Fin n, a.entry r i * x i :=
  Finset.sum_congr rfl fun i _ => congrArg (· * x i) (h.entry ⟨r, hr⟩ i)

/-- The generic layer on the buffers of a position. -/
theorem processPatch_fused {L : LayerBufs R} (hL : PositionFused L qvg go in_dim D p) :
    processPatch ar in_dim D L.weights in_feat p = fusedPosition ar qvg go in_feat := by
  funext h
  have hrow : ∀ k < 3, ∀ o : Fin D,
      featBuf (matvec in_dim (3 * D) in_feat (L.weights.qvgIn p)) (k * D + o) =
        ∑ i : Fin in_dim, qvg.entry (k * D + o) i * in_feat i := by
    intro k hk o
    have hlt : k * D + o < 3 * D :=
      calc k * D + o < (k + 1) * D := by rw [Nat.succ_mul]; omega
        _ ≤ 3 * D := Nat.mul_le_mul_right _ hk
    rw [qvg_row L.weights in_feat p hk o]
    exact hL.qvgIn.row hlt in_feat
  have hq := hrow 0 (by decide)
  have hv := hrow 1 (by decide)
  have hg := hrow 2 (by decide)
  have hout : ∀ x : Fin D → R, matvec D D x (L.weights.goW p) = go.toMatrix D D *ᵥ x :=
    fun x => funext fun o => hL.goW.row o.isLt x
  simp only [Nat.zero_mul, Nat.zero_add, Nat.one_mul] at hq hv
  simp only [processPatch, fusedPosition, hq, hv, hg, hout]

/-- The tiled kernels, which read `goW_T` instead of `goW`. -/
theorem patchTiled_fused {L : LayerBufs R} (hL : PositionFused L qvg go in_dim D p)
    (hin : 4 ∣ in_dim) (hpos : 0 < in_dim) (hout : 4 ∣ D) :
    Implements ar in_dim D L.weights in_feat p (patchTiled ar in_dim D (loadRegs (featBuf in_feat))
      (L.weights.qvgIn p) (L.weights.goW_T p)) := by
  refine patchTiled_implements ar hin hpos hout fun i j hi hj => ?_
  exact (hL.goW_T.entry ⟨i, hi⟩ ⟨j, hj⟩).trans (hL.goW.entry ⟨j, hj⟩ ⟨i, hi⟩).symm

/-- The kernel of the GPU on the transposed copies. -/
theorem processPatchCell_fused {L : LayerRef R in_dim D} (hq : L.qvgIn p = qvg.entry)
    (hg : L.goW p = go.entry) :
    processPatchCell ar in_dim D in_feat (fun n => (upload L).qvgIn (p * (3 * D * in_dim) + n))
      (fun n => (upload L).goW (p * (D * D) + n)) = fusedPosition ar qvg go in_feat := by
  funext h
  rw [processPatchCell_page ar (fun _ _ => upload_qvgIn L p) ((upload_represents L).goW p) in_feat h,
    LayerRef.process, hq, hg]
  rfl

end Readers

namespace LayerTensors

variable (T : LayerTensors R) (in_dim D A : Nat) (qvgIn goW : Pages R)

/-- `load_layer` stays inside its arrays and fills `A` positions with the pages,
which the generic and the tiled layers read as the step of the module. -/
def BuffersFused : Prop :=
  ∀ (W : WeightsMap R) (name : String) (gn bb : Tensor R), LayerAccepted W name D T gn bb →
    ∀ L : LayerBufs R, (loadLayer W name L in_dim D).Safe ∧
      ∃ L', (loadLayer W name L in_dim D).Returns L' ∧ L'.num_pos = A ∧ ∀ p < A,
        PositionFused L' (qvgIn.page p) (goW.page p) in_dim D p ∧
          ∀ (ar : Arith R) (in_feat : Fin in_dim → R),
            processPatch ar in_dim D L'.weights in_feat p = T.raw.pythonPosition ar in_feat p ∧
              (4 ∣ in_dim → 0 < in_dim → 4 ∣ D → Implements ar in_dim D L'.weights in_feat p
                (patchTiled ar in_dim D (loadRegs (featBuf in_feat)) (L'.weights.qvgIn p)
                  (L'.weights.goW_T p)))

/-- The transposed copies of the pages and of the projection are read as the
step of the module and as its residual. -/
def CopiesFused : Prop :=
  ∀ L : LayerRef R in_dim D, (∀ p, L.qvgIn p = (qvgIn.page p).entry) →
    (∀ p, L.goW p = (goW.page p).entry) → ∀ (ar : Arith R) (in_feat : Fin in_dim → R),
      (∀ p < A, processPatchCell ar in_dim D in_feat
          (fun n => (upload L).qvgIn (p * (3 * D * in_dim) + n))
          (fun n => (upload L).goW (p * (D * D) + n)) = T.raw.pythonPosition ar in_feat p) ∧
        ∀ residual_event, readFeat D (computeResidual in_dim D in_feat (upload L).input_proj
          residual_event) = L.residual in_feat

variable {T in_dim D qvgIn goW} {n_in n_out : Nat} (hT : T.Blocks in_dim D n_in n_out)
  (hpages : ∀ p < max n_in n_out, T.raw.FusedPage in_dim D p (qvgIn.page p) (goW.page p))

include hpages

include hT in
theorem buffersFused (h9 : max n_in n_out ≤ 9) (hin : n_in * D < 2 ^ 31) (hout : n_out * D < 2 ^ 31) :
    T.BuffersFused in_dim D (max n_in n_out) qvgIn goW := by
  intro W name gn bb hacc L
  have hfits := hT.fits hin hout
  obtain ⟨L', hL'⟩ := loadLayer_returns in_dim hacc L
  obtain ⟨hnum, hfused⟩ := loadLayer_fused hT hfits hacc hpages hL'
  refine ⟨loadLayer_safe hacc hfits (by omega) hT.blocks_in hT.blocks_out L, L', hL', hnum,
    fun p hp => ⟨hfused p hp, fun ar in_feat => ⟨?_, ?_⟩⟩⟩
  · rw [processPatch_fused ar in_feat (hfused p hp), (hpages p hp).step]
  · exact patchTiled_fused ar in_feat (hfused p hp)

theorem copiesFused : T.CopiesFused in_dim D (max n_in n_out) qvgIn goW := by
  intro L hq hg ar in_feat
  refine ⟨fun p hp => ?_, fun residual_event => ?_⟩
  · rw [processPatchCell_fused ar in_feat (hq p) (hg p), (hpages p hp).step]
  · exact readFeat_computeResidual (upload_represents L) in_feat residual_event

end LayerTensors

theorem weight_fusion {T : LayerTensors R} {in_dim D n_in n_out : Nat}
    (hT : T.Blocks in_dim D n_in n_out) : ∃ qvgIn goW : Pages R,
      T.raw.reshapeSslaLayer in_dim D = .ok (qvgIn, goW) ∧
        (∀ (ar : Arith R) (in_feat : Fin in_dim → R) (h_per_pos : Nat → Fin D → R),
          cppStep ar qvgIn goW in_feat h_per_pos = pythonStep ar T.raw in_feat h_per_pos) ∧
        T.CopiesFused in_dim D (max n_in n_out) qvgIn goW ∧
        (max n_in n_out ≤ 9 → n_in * D < 2 ^ 31 → n_out * D < 2 ^ 31 →
          T.BuffersFused in_dim D (max n_in n_out) qvgIn goW) := by
  obtain ⟨qvgIn, goW, hok, hlen, hpages⟩ := RawLayer.reshapeSslaLayer_ok hT.shaped
  exact ⟨qvgIn, goW, hok, RawLayer.cppStep_eq hT.shaped hlen hpages,
    LayerTensors.copiesFused hpages, fun h9 => LayerTensors.buffersFused hT hpages h9⟩

section Limits

def ones (shape : List Nat) : Tensor ℤ := ⟨shape, List.replicate shape.prod 1, by simp⟩

def onesTensors (in_dim D n_in n_out : Nat) : LayerTensors ℤ where
  Win := ones [in_dim, n_in * D]
  Wout := ones [n_out * D, D]
  qW := ones [D, D]
  vW := ones [D, D]
  gW := ones [D, D]
  oW := ones [D, D]

theorem onesTensors_blocks (in_dim : Nat) {D n_in n_out : Nat} (hD : 0 < D)
    (hin : n_in = 1 ∨ n_in = max n_in n_out) (hout : n_out = 1 ∨ n_out = max n_in n_out) :
    (onesTensors in_dim D n_in n_out).Blocks in_dim D n_in n_out :=
  ⟨hD, rfl, rfl, rfl, rfl, rfl, rfl, hin, hout⟩

theorem weight_fusion_nine : ∃ qvgIn goW : Pages ℤ,
    (onesTensors 4 8 9 1).raw.reshapeSslaLayer 4 8 = .ok (qvgIn, goW) ∧
      (∀ (ar : Arith ℤ) (in_feat : Fin 4 → ℤ) (h_per_pos : Nat → Fin 8 → ℤ),
        cppStep ar qvgIn goW in_feat h_per_pos =
          pythonStep ar (onesTensors 4 8 9 1).raw in_feat h_per_pos) ∧
      (onesTensors 4 8 9 1).CopiesFused 4 8 9 qvgIn goW ∧
      (onesTensors 4 8 9 1).BuffersFused 4 8 9 qvgIn goW := by
  obtain ⟨qvgIn, goW, hok, hstep, hcopies, hbufs⟩ :=
    weight_fusion (onesTensors_blocks 4 (by decide : 0 < 8) (.inr rfl : 9 = 1 ∨ 9 = max 9 1)
      (.inl rfl))
  exact ⟨qvgIn, goW, hok, hstep, hcopies, hbufs (by decide) (by decide) (by decide)⟩

def onesFile (in_dim D n_in n_out : Nat) : WeightsMap ℤ where
  entries :=
    [("l/W_in_cat", ones [in_dim, n_in * D]), ("l/W_out_cat", ones [n_out * D, D]),
      ("l/q_proj/weight", ones [D, D]), ("l/v_proj/weight", ones [D, D]),
      ("l/g_proj/weight", ones [D, D]), ("l/o_proj/weight", ones [D, D]),
      ("l/norm/weight", ones [D]), ("l/norm/bias", ones [D])]
  keys_nodup := by simp

theorem onesFile_accepted {in_dim D n_in n_out : Nat}
    (hin : (staticCastInt (n_in * D)).tmod D = 0) (hout : (staticCastInt (n_out * D)).tmod D = 0) :
    LayerAccepted (onesFile in_dim D n_in n_out) "l" D (onesTensors in_dim D n_in n_out) (ones [D])
      (ones [D]) :=
  ⟨⟨rfl, rfl, ⟨rfl, rfl⟩, ⟨hin, hout⟩, rfl, rfl, rfl, rfl⟩, rfl, rfl⟩

def emptyBufs : LayerBufs ℤ := ⟨0, 0, 1, fun _ => [], fun _ => [], fun _ => [], [], [], []⟩

/-- The arrays of a layer have nine entries, and the widths are ints: ten blocks
are written outside them, and of nine blocks of 2^28 columns one is counted. -/
theorem load_layer_limits :
    (onesTensors 2 12 10 10).Blocks 2 12 10 10 ∧
      LayerAccepted (onesFile 2 12 10 10) "l" 12 (onesTensors 2 12 10 10) (ones [12]) (ones [12]) ∧
      ¬ (loadLayer (onesFile 2 12 10 10) "l" emptyBufs 2 12).Safe ∧
    (onesTensors 2 (2 ^ 28) 9 1).Blocks 2 (2 ^ 28) 9 1 ∧
      ∃ L', (loadLayer (onesFile 2 (2 ^ 28) 9 1) "l" emptyBufs 2 (2 ^ 28)).Returns L' ∧
        L'.num_pos = 1 := by
  refine ⟨onesTensors_blocks 2 (by decide) (by decide) (by decide),
    onesFile_accepted (by decide) (by decide), ?_,
    onesTensors_blocks 2 (by decide) (by decide) (by decide), ?_⟩
  · have hrange : (loadLayer (onesFile 2 12 10 10) "l" emptyBufs 2 12).in_range = false := by
      decide +kernel
    exact fun h => Bool.false_ne_true (hrange.symm.trans h)
  · have hacc : LayerAccepted (onesFile 2 (2 ^ 28) 9 1) "l" (2 ^ 28) _ _ _ :=
      onesFile_accepted (by decide) (by decide)
    obtain ⟨L', hL'⟩ := loadLayer_returns 2 hacc emptyBufs
    obtain ⟨T, gn, bb, hT, hload⟩ := loadLayer_spec hL'
    obtain rfl := Checked.returns_unique (layerTensors_returns.mpr hacc.tensors)
      (layerTensors_returns.mpr hT.tensors)
    refine ⟨L', hL', hload.num_pos.trans ?_⟩
    decide +kernel

end Limits

end SslaRt
