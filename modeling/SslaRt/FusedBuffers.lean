import SslaRt.FusedPages
import SslaRt.LoadLayerSpec
import Mathlib.Data.List.GetD

/-! The buffers of `load_layer` list the pages of `reshape_ssla_layer` row by row,
those of `goW` once more transposed. -/

namespace SslaRt

open CheckedRun Matrix

variable {R : Type*}

/-- The buffer lists the entries of the matrix row by row. -/
structure RowMajor [Zero R] {m n : Nat} (buf : List R) (M : Matrix (Fin m) (Fin n) R) : Prop where
  length : buf.length = m * n
  entry : ∀ (i : Fin m) (j : Fin n), readAt buf (i * n + j : Nat) = M i j

theorem RowMajor.append [Zero R] {m m' n : Nat} {a b : List R} {M : Matrix (Fin m) (Fin n) R}
    {N : Matrix (Fin m') (Fin n) R} (ha : RowMajor a M) (hb : RowMajor b N)
    {K : Matrix (Fin (m + m')) (Fin n) R} (hM : ∀ i j, K (Fin.castAdd m' i) j = M i j)
    (hN : ∀ i j, K (Fin.natAdd m i) j = N i j) : RowMajor (a ++ b) K := by
  refine ⟨by rw [List.length_append, ha.length, hb.length, Nat.add_mul], fun i j => ?_⟩
  rw [readAt_natCast]
  refine Fin.addCases (fun i => ?_) (fun i => ?_) i
  · have hlt : (i : Nat) * n + j < m * n :=
      calc (i : Nat) * n + j < (i + 1) * n := by rw [Nat.succ_mul]; omega
        _ ≤ m * n := Nat.mul_le_mul_right _ i.isLt
    rw [hM, ← ha.entry i j, readAt_natCast, Fin.val_castAdd,
      List.getD_append _ _ _ _ (by rwa [ha.length])]
  · have hrow : (m + i : Nat) * n + j = a.length + (i * n + j) := by rw [ha.length]; ring
    rw [hN, ← hb.entry i j, readAt_natCast, Fin.val_natAdd, hrow,
      List.getD_append_right _ _ _ _ (Nat.le_add_right _ _), Nat.add_sub_cancel_left]

theorem RowMajor.mm [CommRing R] {m k n : Nat} {b a : List R} {M : Matrix (Fin m) (Fin k) R}
    {N : Matrix (Fin k) (Fin n) R} (hb : RowMajor b M) (ha : RowMajor a N) :
    ∃ c, (mm b m k a k n).Returns c ∧ RowMajor c (M * N) := by
  have hne : ¬ k ≠ k := fun h => h rfl
  refine ⟨_, Checked.returns_bind.mpr ⟨⟨⟩, Checked.returns_throwIf.mpr hne, rfl⟩,
    tabulate_length _ _ _, fun i j => ?_⟩
  rw [readAt_tabulate _ i.isLt j.isLt, Matrix.mul_apply]
  calc ((List.range k).map fun l =>
        readAt b (i * k + l : Nat) * readAt a (l * n + j : Nat)).sum
      = ∑ l : Fin k, readAt b (i * k + l : Nat) * readAt a (l * n + j : Nat) :=
        (Fin.sum_univ_eq_sum_range (fun l =>
          readAt b (i * k + l : Nat) * readAt a (l * n + j : Nat)) k).symm
    _ = ∑ l : Fin k, M i l * N l j :=
        Finset.sum_congr rfl fun l _ => by rw [hb.entry i l, ha.entry l j]

/-! ### The tensors of the file -/

section Tensors

variable [Zero R]

/-- A tensor of rank 2, in the order of C. -/
def Tensor.dense (t : Tensor R) : DenseMatrix R :=
  ⟨t.shape.getD 0 0, t.shape.getD 1 0, fun i j => readAt t.data (i * t.shape.getD 1 0 + j : Nat)⟩

theorem Tensor.dense_hasShape {t : Tensor R} {m n : Nat} (h : t.shape = [m, n]) :
    t.dense.HasShape m n := by
  constructor <;> simp [Tensor.dense, h]

theorem Tensor.dense_rowMajor {t : Tensor R} {m n : Nat} (h : t.shape = [m, n]) :
    RowMajor t.data (t.dense.toMatrix m n) := by
  refine ⟨by simp [t.numel, h], fun i j => ?_⟩
  simp [Tensor.dense, h]

namespace LayerTensors

def raw (T : LayerTensors R) : RawLayer R :=
  ⟨T.Win.dense, T.Wout.dense, T.qW.dense, T.vW.dense, T.gW.dense, T.oW.dense⟩

/-- A layer whose concatenated tensors have one block, or one for each position. -/
structure Blocks (T : LayerTensors R) (in_dim D n_in n_out : Nat) : Prop where
  pos : 0 < D
  Win : T.Win.shape = [in_dim, n_in * D]
  Wout : T.Wout.shape = [n_out * D, D]
  qW : T.qW.shape = [D, D]
  vW : T.vW.shape = [D, D]
  gW : T.gW.shape = [D, D]
  oW : T.oW.shape = [D, D]
  blocks_in : n_in = 1 ∨ n_in = max n_in n_out
  blocks_out : n_out = 1 ∨ n_out = max n_in n_out

variable {T : LayerTensors R} {in_dim D n_in n_out : Nat} (hT : T.Blocks in_dim D n_in n_out)

include hT

theorem Blocks.shaped : T.raw.Shaped in_dim D n_in n_out where
  pos := hT.pos
  W_in_cat := Tensor.dense_hasShape hT.Win
  W_out_cat := Tensor.dense_hasShape hT.Wout
  qW := Tensor.dense_hasShape hT.qW
  vW := Tensor.dense_hasShape hT.vW
  gW := Tensor.dense_hasShape hT.gW
  oW := Tensor.dense_hasShape hT.oW
  blocks_in := hT.blocks_in
  blocks_out := hT.blocks_out

omit [Zero R] in
theorem Blocks.fits (hin : n_in * D < 2 ^ 31) (hout : n_out * D < 2 ^ 31) :
    T.Fits D in_dim n_in n_out where
  Win := hT.Win
  Wout := hT.Wout
  qW := hT.qW
  vW := hT.vW
  gW := hT.gW
  oW := hT.oW
  small_in := hin
  small_out := hout
  pos := hT.pos

end LayerTensors

end Tensors

/-! ### The buffers of `load_layer` -/

section Loaded

variable [CommRing R] {T : LayerTensors R} {in_dim D n_in n_out : Nat}
  (hT : T.Blocks in_dim D n_in n_out) (hfits : T.Fits D in_dim n_in n_out)

include hT hfits

theorem pin_eq (p : Nat) : (if T.nPosIn D = 1 then 0 else (p : Int)) = (T.raw.pin D p : Nat) := by
  rw [hfits.nPosIn_eq, RawLayer.pin, hT.shaped.nPosIn_eq]
  by_cases h : n_in = 1
  · simp [h]
  · simp [h]

theorem pout_eq (p : Nat) :
    (if T.nPosOut D = 1 then 0 else (p : Int)) = (T.raw.pout D p : Nat) := by
  rw [hfits.nPosOut_eq, RawLayer.pout, hT.shaped.nPosOut_eq]
  by_cases h : n_out = 1
  · simp [h]
  · simp [h]

variable {p : Nat} (hp : p < max n_in n_out)

include hp

theorem scatterOf_rowMajor : ∃ s,
    (scatterOf T.Win.data T.Win_cols (if T.nPosIn D = 1 then 0 else (p : Int)) D in_dim).Returns s ∧
      RowMajor s ((T.raw.inBlock D p).toMatrix in_dim D)ᵀ := by
  refine ⟨_, rfl, tabulate_length _ _ _, fun d c => ?_⟩
  rw [readAt_tabulate _ d.isLt c.isLt, pin_eq hT hfits, hfits.win_cols]
  have hcols : T.Win.shape.getD 1 0 = n_in * D := by simp [hT.Win]
  calc readAt T.Win.data ((c : Nat) * (n_in * D : Nat) + ((T.raw.pin D p : Nat) * D + d))
      = readAt T.Win.data (c * T.Win.shape.getD 1 0 + (T.raw.pin D p * D + d) : Nat) := by
        rw [hcols]
        push_cast
        rfl
    _ = (T.raw.inBlock D p).entry c d := (hT.shaped.inBlock_entry hp c d).symm

theorem gatherOf_rowMajor : ∃ s,
    (gatherOf T.Wout.data (if T.nPosOut D = 1 then 0 else (p : Int)) D).Returns s ∧
      RowMajor s ((T.raw.outBlock D p).toMatrix D D)ᵀ := by
  refine ⟨_, rfl, tabulate_length _ _ _, fun i j => ?_⟩
  rw [readAt_tabulate _ i.isLt j.isLt, pout_eq hT hfits]
  have hcols : T.Wout.shape.getD 1 0 = D := by simp [hT.Wout]
  calc readAt T.Wout.data (((T.raw.pout D p : Nat) * D + j) * D + i)
      = readAt T.Wout.data ((T.raw.pout D p * D + j) * T.Wout.shape.getD 1 0 + i : Nat) := by
        rw [hcols]
        push_cast
        rfl
    _ = (T.raw.outBlock D p).entry j i := (hT.shaped.outBlock_entry hp j i).symm

omit hT hfits hp in
theorem stack_rowMajor {q v g : List R} {Q V G : Matrix (Fin D) (Fin in_dim) R}
    (hq : RowMajor q Q) (hv : RowMajor v V) (hg : RowMajor g G) {K : DenseMatrix R}
    (hQ : ∀ o i, K.entry (o : Fin D) (i : Fin in_dim) = Q o i)
    (hV : ∀ o i, K.entry (D + (o : Fin D)) (i : Fin in_dim) = V o i)
    (hG : ∀ o i, K.entry (2 * D + (o : Fin D)) (i : Fin in_dim) = G o i) :
    RowMajor (q ++ v ++ g) (K.toMatrix (3 * D) in_dim) := by
  have h2 : RowMajor (q ++ v) (K.toMatrix (D + D) in_dim) := hq.append hv hQ hV
  have h3 : RowMajor (q ++ v ++ g) (K.toMatrix (D + D + D) in_dim) := by
    refine h2.append hg (fun _ _ => rfl) fun o i => ?_
    rw [DenseMatrix.toMatrix_apply, Fin.val_natAdd, ← Nat.two_mul, hG]
  have hD : D + D + D = 3 * D := by ring
  rw [← hD]
  exact h3

/-- The buffers of the position `p` list the pages of `reshape_ssla_layer`. -/
structure PositionFused (L : LayerBufs R) (qvg go : DenseMatrix R) (in_dim D p : Nat) : Prop where
  qvgIn : RowMajor (L.qvgIn p) (qvg.toMatrix (3 * D) in_dim)
  goW : RowMajor (L.goW p) (go.toMatrix D D)
  goW_T : RowMajor (L.goW_T p) (go.toMatrix D D)ᵀ

theorem loadPosition_fused {qvgIn goW : DenseMatrix R}
    (hpage : T.raw.FusedPage in_dim D p qvgIn goW) {L L' : LayerBufs R}
    (h : (loadPosition T in_dim D L p).Returns L') : PositionFused L' qvgIn goW in_dim D p := by
  obtain ⟨scatter, hs, hscatter⟩ := scatterOf_rowMajor hT hfits hp
  obtain ⟨gather, hg, hgather⟩ := gatherOf_rowMajor hT hfits hp
  obtain ⟨q_in, hq, hqm⟩ := (Tensor.dense_rowMajor hT.qW).mm hscatter
  obtain ⟨v_in, hv, hvm⟩ := (Tensor.dense_rowMajor hT.vW).mm hscatter
  obtain ⟨g_in, hgi, hgm⟩ := (Tensor.dense_rowMajor hT.gW).mm hscatter
  obtain ⟨go, hgo, hgom⟩ := hgather.mm (Tensor.dense_rowMajor hT.oW)
  have hpack : (packQvg q_in v_in g_in D in_dim).Returns (q_in ++ v_in ++ g_in) := by
    refine Checked.returns_bind.mpr ⟨⟨⟩, rfl, congrArg Except.ok ?_⟩
    rw [List.take_of_length_le hqm.length.le, List.take_of_length_le hvm.length.le,
      List.take_of_length_le hgm.length.le]
  have hres : (loadPosition T in_dim D L p).Returns (L.setPosition p (q_in ++ v_in ++ g_in) go
      (tabulate D D fun i j => readAt go (j * D + i : Nat))) := by
    refine Checked.returns_bind.mpr ⟨_, hs, Checked.returns_bind.mpr ⟨_, hg, ?_⟩⟩
    refine Checked.returns_bind.mpr ⟨_, hq, Checked.returns_bind.mpr ⟨_, hv, ?_⟩⟩
    exact Checked.returns_bind.mpr ⟨_, hgi, Checked.returns_bind.mpr ⟨_, hpack,
      Checked.returns_bind.mpr ⟨_, hgo, rfl⟩⟩⟩
  obtain rfl := Checked.returns_unique hres h
  have hgom : RowMajor go (goW.toMatrix D D) := by
    rw [hpage.goW_rows]
    exact hgom
  have hqvg := stack_rowMajor hqm hvm hgm hpage.q_rows hpage.v_rows hpage.g_rows
  constructor
  · simpa only [LayerBufs.setPosition, Function.update_self] using hqvg
  · simpa only [LayerBufs.setPosition, Function.update_self] using hgom
  · simp only [LayerBufs.setPosition, Function.update_self]
    refine ⟨tabulate_length _ _ _, fun i j => ?_⟩
    rw [readAt_tabulate _ i.isLt j.isLt]
    exact hgom.entry j i

omit hp in
theorem loadLayer_fused {W : WeightsMap R} {name : String} {gn bb : Tensor R}
    (hacc : LayerAccepted W name D T gn bb) {qvgIn goW : Pages R}
    (hpages : ∀ p < max n_in n_out, T.raw.FusedPage in_dim D p (qvgIn.page p) (goW.page p))
    {L L' : LayerBufs R} (h : (loadLayer W name L in_dim D).Returns L') :
    L'.num_pos = (max n_in n_out : Nat) ∧
      ∀ p < max n_in n_out, PositionFused L' (qvgIn.page p) (goW.page p) in_dim D p := by
  obtain ⟨T', hT', h⟩ := Checked.returns_bind.mp h
  obtain ⟨L₁, hL₁, h⟩ := Checked.returns_bind.mp h
  obtain ⟨gn', -, h⟩ := Checked.returns_bind.mp h
  obtain ⟨bb', -, h⟩ := Checked.returns_bind.mp h
  obtain rfl := Except.ok.inj h
  obtain rfl := Checked.returns_unique (layerTensors_returns.mpr hacc.tensors) hT'
  have hnum := (loadPositions_inv hL₁).1
  refine ⟨hnum.trans hfits.numPos_eq, fun p hp => ?_⟩
  have hinv := Checked.foldlM_inv (f := loadPosition T in_dim D)
    (I := fun p L => p < max n_in n_out → PositionFused L (qvgIn.page p) (goW.page p) in_dim D p)
    (fun L p L' hL hp => loadPosition_fused hT hfits hp (hpages p hp) hL)
    (fun L p L' q hL hq hq9 => ?_) hL₁ p ?_ hp
  · obtain ⟨hqvg, hgo, hgoT⟩ := hinv
    exact ⟨hqvg, hgo, hgoT⟩
  · by_cases hqp : q = p
    · subst hqp
      exact loadPosition_fused hT hfits hq9 (hpages q hq9) hL
    · obtain ⟨qvg, go, hres, -, -⟩ := loadPosition_returns T in_dim D L p
      obtain rfl := Checked.returns_unique hres hL
      obtain ⟨hqvg, hgo, hgoT⟩ := hq hq9
      constructor <;> simpa only [LayerBufs.setPosition, Function.update_of_ne hqp]
  · refine .inl (List.mem_range.mpr ?_)
    rw [hfits.numPos_eq]
    exact hp

end Loaded

end SslaRt
