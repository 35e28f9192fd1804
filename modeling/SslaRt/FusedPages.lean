import SslaRt.WeightFusion

/-! What the pages of `reshape_ssla_layer` hold, and that a step over them is the
step of the module. -/

namespace SslaRt

open Matrix

variable {R : Type*} [CommRing R]

namespace RawLayer

/-- The shapes of a layer: the concatenated tensors have one block, or one for
each position. -/
structure Shaped (T : RawLayer R) (in_dim D n_in n_out : Nat) : Prop where
  pos : 0 < D
  W_in_cat : T.W_in_cat.HasShape in_dim (n_in * D)
  W_out_cat : T.W_out_cat.HasShape (n_out * D) D
  qW : T.qW.HasShape D D
  vW : T.vW.HasShape D D
  gW : T.gW.HasShape D D
  oW : T.oW.HasShape D D
  blocks_in : n_in = 1 ∨ n_in = max n_in n_out
  blocks_out : n_out = 1 ∨ n_out = max n_in n_out

/-- The rows of q, v and g above each other, each the product of its projection
with the block of the position, and the product of the block with `o_proj`. -/
structure FusedPage (T : RawLayer R) (in_dim D p : Nat) (qvgIn goW : DenseMatrix R) : Prop where
  qvgIn_shape : qvgIn.HasShape (3 * D) in_dim
  goW_shape : goW.HasShape D D
  q_rows : ∀ (o : Fin D) (i : Fin in_dim), qvgIn.entry o i =
    (T.qW.toMatrix D D * ((T.inBlock D p).toMatrix in_dim D)ᵀ) o i
  v_rows : ∀ (o : Fin D) (i : Fin in_dim), qvgIn.entry (D + o) i =
    (T.vW.toMatrix D D * ((T.inBlock D p).toMatrix in_dim D)ᵀ) o i
  g_rows : ∀ (o : Fin D) (i : Fin in_dim), qvgIn.entry (2 * D + o) i =
    (T.gW.toMatrix D D * ((T.inBlock D p).toMatrix in_dim D)ᵀ) o i
  goW_rows : goW.toMatrix D D = ((T.outBlock D p).toMatrix D D)ᵀ * T.oW.toMatrix D D

section Step

theorem vecMul_vecMul_transpose {m k n : Type*} [Fintype m] [Fintype k] [Fintype n] (x : m → R)
    (S : Matrix m k R) (Q : Matrix n k R) : (x ᵥ* S) ᵥ* Qᵀ = (Q * Sᵀ) *ᵥ x := by
  rw [vecMul_transpose, ← mulVec_transpose, mulVec_mulVec]

theorem vecMul_transpose_vecMul {m k n : Type*} [Fintype m] [Fintype k] [Fintype n] (y : m → R)
    (Q : Matrix k m R) (S : Matrix k n R) : (y ᵥ* Qᵀ) ᵥ* S = (Sᵀ * Q) *ᵥ y := by
  rw [vecMul_transpose, ← mulVec_transpose, mulVec_mulVec]

variable {T : RawLayer R} {in_dim D p : Nat} {qvgIn goW : DenseMatrix R}

theorem FusedPage.step (h : T.FusedPage in_dim D p qvgIn goW) (ar : Arith R)
    (in_feat : Fin in_dim → R) :
    fusedPosition (D := D) ar qvgIn goW in_feat = T.pythonPosition ar in_feat p := by
  funext h_old
  have hq : (fun o : Fin D => ∑ i : Fin in_dim, qvgIn.entry o i * in_feat i) =
      (in_feat ᵥ* (T.inBlock D p).toMatrix in_dim D) ᵥ* (T.qW.toMatrix D D)ᵀ := by
    rw [vecMul_vecMul_transpose]
    exact funext fun o => Finset.sum_congr rfl fun i _ => congrArg (· * in_feat i) (h.q_rows o i)
  have hv : (fun o : Fin D => ∑ i : Fin in_dim, qvgIn.entry (D + o) i * in_feat i) =
      (in_feat ᵥ* (T.inBlock D p).toMatrix in_dim D) ᵥ* (T.vW.toMatrix D D)ᵀ := by
    rw [vecMul_vecMul_transpose]
    exact funext fun o => Finset.sum_congr rfl fun i _ => congrArg (· * in_feat i) (h.v_rows o i)
  have hg : (fun o : Fin D => ∑ i : Fin in_dim, qvgIn.entry (2 * D + o) i * in_feat i) =
      (in_feat ᵥ* (T.inBlock D p).toMatrix in_dim D) ᵥ* (T.gW.toMatrix D D)ᵀ := by
    rw [vecMul_vecMul_transpose]
    exact funext fun o => Finset.sum_congr rfl fun i _ => congrArg (· * in_feat i) (h.g_rows o i)
  simp only [fusedPosition, pythonPosition, hq, hv, hg, h.goW_rows, vecMul_transpose_vecMul]

end Step

section Reshape

variable {T : RawLayer R} {in_dim D n_in n_out : Nat} (hT : T.Shaped in_dim D n_in n_out)

include hT

omit [CommRing R]

theorem Shaped.nPosIn_eq : T.nPosIn D = n_in := by
  rw [nPosIn, hT.W_in_cat.cols, Nat.mul_div_cancel _ hT.pos]

theorem Shaped.nPosOut_eq : T.nPosOut D = n_out := by
  rw [nPosOut, hT.W_out_cat.rows, Nat.mul_div_cancel _ hT.pos]

theorem Shaped.numPos_eq : T.numPos D = max n_in n_out := by
  rw [numPos, hT.nPosIn_eq, hT.nPosOut_eq]

variable {p : Nat} (hp : p < max n_in n_out)

include hp

theorem Shaped.pin_lt : T.pin D p < n_in := by
  have := hT.blocks_in
  rw [pin, hT.nPosIn_eq]
  split <;> omega

theorem Shaped.pout_lt : T.pout D p < n_out := by
  have := hT.blocks_out
  rw [pout, hT.nPosOut_eq]
  split <;> omega

theorem Shaped.pin_cols : T.pin D p * D + D ≤ n_in * D := by
  rw [← Nat.succ_mul]
  exact Nat.mul_le_mul_right D (hT.pin_lt hp)

theorem Shaped.pout_rows : T.pout D p * D + D ≤ n_out * D := by
  rw [← Nat.succ_mul]
  exact Nat.mul_le_mul_right D (hT.pout_lt hp)

theorem Shaped.inBlock_shape : (T.inBlock D p).HasShape in_dim D := by
  rw [inBlock, Nat.succ_mul]
  exact hT.W_in_cat.sliceCols (hT.pin_cols hp)

theorem Shaped.outBlock_shape : (T.outBlock D p).HasShape D D := by
  rw [outBlock, Nat.succ_mul]
  exact hT.W_out_cat.sliceRows (hT.pout_rows hp)

theorem Shaped.inBlock_entry (c d : Nat) :
    (T.inBlock D p).entry c d = T.W_in_cat.entry c (T.pin D p * D + d) :=
  hT.W_in_cat.sliceCols_entry (Nat.le_of_add_right_le (hT.pin_cols hp)) c d

theorem Shaped.outBlock_entry (j i : Nat) :
    (T.outBlock D p).entry j i = T.W_out_cat.entry (T.pout D p * D + j) i :=
  hT.W_out_cat.sliceRows_entry (Nat.le_of_add_right_le (hT.pout_rows hp)) j i

end Reshape

theorem matmul_broadcast {a b : DenseMatrix R} {m k n : Nat} (ha : a.HasShape m k)
    (hb : b.HasShape k n) : ∃ c c' : DenseMatrix R, a.matmul b = .ok c ∧
      c.broadcastTo m n = .ok c' ∧ c'.HasShape m n ∧
      c'.toMatrix m n = a.toMatrix m k * b.toMatrix k n := by
  obtain ⟨c, hc, hshape, hprod⟩ := ha.matmul hb
  obtain ⟨c', hc', hshape', hentry⟩ := hshape.broadcastTo
  refine ⟨c, c', hc, hc', hshape', ?_⟩
  rw [← hprod]
  ext i j
  exact hentry i i.isLt j j.isLt

variable {T : RawLayer R} {in_dim D n_in n_out : Nat}

theorem reshapePosition_ok (hT : T.Shaped in_dim D n_in n_out) {p : Nat}
    (hp : p < max n_in n_out) : ∃ pages : DenseMatrix R × DenseMatrix R,
      T.reshapePosition in_dim D p = .ok pages ∧ T.FusedPage in_dim D p pages.1 pages.2 := by
  have hscatter := (hT.inBlock_shape hp).transpose
  have hgather := (hT.outBlock_shape hp).transpose
  obtain ⟨q, q_rows, hq, hq', hqs, hqm⟩ := matmul_broadcast hT.qW hscatter
  obtain ⟨v, v_rows, hv, hv', hvs, hvm⟩ := matmul_broadcast hT.vW hscatter
  obtain ⟨g, g_rows, hg, hg', hgs, hgm⟩ := matmul_broadcast hT.gW hscatter
  obtain ⟨go, goW, hgo, hgo', hgos, hgom⟩ := matmul_broadcast hgather hT.oW
  refine ⟨(DenseMatrix.stack3 D q_rows v_rows g_rows, goW), ?_, ⟨rfl, hqs.cols⟩, hgos,
    fun o i => ?_, fun o i => ?_, fun o i => ?_, hgom⟩
  · simp only [reshapePosition, hq, hq', hv, hv', hg, hg', hgo, hgo', bind, Except.bind, pure,
      Except.pure]
  · rw [← DenseMatrix.toMatrix_transpose, ← hqm]
    exact if_pos o.isLt
  · rw [← DenseMatrix.toMatrix_transpose, ← hvm]
    exact DenseMatrix.stack3_second _ _ _ o.isLt i
  · rw [← DenseMatrix.toMatrix_transpose, ← hgm]
    exact DenseMatrix.stack3_third _ _ _ o i

theorem mapM_ok {α β ε : Type*} {f : α → Except ε β} {P : α → β → Prop} {l : List α}
    (h : ∀ x ∈ l, ∃ y, f x = .ok y ∧ P x y) : ∃ ys, l.mapM f = .ok ys ∧ List.Forall₂ P l ys := by
  induction l with
  | nil => exact ⟨[], rfl, .nil⟩
  | cons x l ih =>
    obtain ⟨y, hy, hxy⟩ := h x (by simp)
    obtain ⟨ys, hys, hall⟩ := ih fun z hz => h z (by simp [hz])
    refine ⟨y :: ys, ?_, .cons hxy hall⟩
    rw [List.mapM_cons, hy, hys]
    rfl

theorem reshapeSslaLayer_ok (hT : T.Shaped in_dim D n_in n_out) : ∃ qvgIn goW : Pages R,
    T.reshapeSslaLayer in_dim D = .ok (qvgIn, goW) ∧ qvgIn.length = max n_in n_out ∧
      ∀ p < max n_in n_out, T.FusedPage in_dim D p (qvgIn.page p) (goW.page p) := by
  have hcols : T.W_in_cat.cols % D = 0 := by rw [hT.W_in_cat.cols, Nat.mul_mod_left]
  have hrows : T.W_out_cat.rows % D = 0 := by rw [hT.W_out_cat.rows, Nat.mul_mod_left]
  obtain ⟨pages, hpages, hall⟩ := mapM_ok (f := T.reshapePosition in_dim D)
    (P := fun p y => T.FusedPage in_dim D p y.1 y.2)
    fun p hp => reshapePosition_ok hT (List.mem_range.mp hp)
  have hlen : pages.length = max n_in n_out := by rw [← hall.length_eq, List.length_range]
  refine ⟨pages.map Prod.fst, pages.map Prod.snd, ?_, by rw [List.length_map, hlen], fun p hp => ?_⟩
  · simp only [reshapeSslaLayer, hT.pos.ne', hcols, hrows, hT.numPos_eq, hpages, if_false, ne_eq,
      not_true_eq_false]
    rfl
  · have hpage := hall.get (i := p) (by rwa [List.length_range]) (by rwa [hlen])
    simp only [List.get_eq_getElem, List.getElem_range] at hpage
    simpa only [Pages.page, List.getD_eq_getElem?_getD, List.getElem?_map,
      List.getElem?_eq_getElem (hlen.symm ▸ hp : p < pages.length), Option.map_some,
      Option.getD_some] using hpage

theorem cppStep_eq (hT : T.Shaped in_dim D n_in n_out) {qvgIn goW : Pages R}
    (hlen : qvgIn.length = max n_in n_out)
    (hpages : ∀ p < max n_in n_out, T.FusedPage in_dim D p (qvgIn.page p) (goW.page p))
    (ar : Arith R) (in_feat : Fin in_dim → R) (h_per_pos : Nat → Fin D → R) :
    cppStep ar qvgIn goW in_feat h_per_pos = pythonStep ar T in_feat h_per_pos := by
  rw [cppStep, pythonStep, hlen, hT.numPos_eq]
  exact positionLoop_congr (fun p hp => (hpages p hp).step ar in_feat) h_per_pos

end RawLayer

end SslaRt
