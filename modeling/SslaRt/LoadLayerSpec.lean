import SslaRt.WeightReads

/-! What `load_layer` checks, and the buffers that it leaves when these checks
pass. -/

namespace SslaRt

open CheckedRun

variable {R : Type*}

def HasShape (W : WeightsMap R) (k : String) (shape : List Nat) : Prop :=
  ∃ t, maybeGet W k = some t ∧ t.shape = shape

/-- The checks of `load_layer`: the tensors are there, the two concatenated
ones have rank 2 and a multiple of `out_dim` columns and rows. -/
structure TensorsAccepted (W : WeightsMap R) (name : String) (out_dim : Nat) (T : LayerTensors R) :
    Prop where
  Win : maybeGet W (name ++ "/W_in_cat") = some T.Win
  Wout : maybeGet W (name ++ "/W_out_cat") = some T.Wout
  rank : T.Win.shape.length = 2 ∧ T.Wout.shape.length = 2
  divides : (staticCastInt (T.Win.shape.getD 1 0)).tmod out_dim = 0 ∧
    (staticCastInt (T.Wout.shape.getD 0 0)).tmod out_dim = 0
  qW : maybeGet W (name ++ "/q_proj/weight") = some T.qW
  vW : maybeGet W (name ++ "/v_proj/weight") = some T.vW
  gW : maybeGet W (name ++ "/g_proj/weight") = some T.gW
  oW : maybeGet W (name ++ "/o_proj/weight") = some T.oW

structure LayerAccepted (W : WeightsMap R) (name : String) (out_dim : Nat) (T : LayerTensors R)
    (gn bb : Tensor R) : Prop where
  tensors : TensorsAccepted W name out_dim T
  gn : maybeGet W (name ++ "/norm/weight") = some gn
  bb : maybeGet W (name ++ "/norm/bias") = some bb

namespace LayerTensors

variable (T : LayerTensors R) (out_dim : Nat)

/-- The sizes under which packing reads inside every tensor. -/
structure Fits (in_dim n_in n_out : Nat) : Prop where
  Win : T.Win.shape = [in_dim, n_in * out_dim]
  Wout : T.Wout.shape = [n_out * out_dim, out_dim]
  qW : T.qW.shape = [out_dim, out_dim]
  vW : T.vW.shape = [out_dim, out_dim]
  gW : T.gW.shape = [out_dim, out_dim]
  oW : T.oW.shape = [out_dim, out_dim]
  small_in : n_in * out_dim < 2 ^ 31
  small_out : n_out * out_dim < 2 ^ 31
  pos : 0 < out_dim

end LayerTensors

/-- The position `p` as the loop over the positions leaves it. -/
structure PositionSized [Zero R] (in_dim out_dim : Nat) (p : Nat) (L : LayerBufs R) : Prop where
  qvgIn : (L.qvgIn p).length = 3 * out_dim * in_dim
  goW : (L.goW p).length = out_dim * out_dim
  goW_T : L.goW_T p = tabulate out_dim out_dim fun i j => readAt (L.goW p) (j * out_dim + i : Nat)

theorem setPosition_sized [Zero R] {in_dim out_dim p q : Nat} {L : LayerBufs R}
    {qvgIn goW : List R} (hq : qvgIn.length = 3 * out_dim * in_dim)
    (hg : goW.length = out_dim * out_dim)
    (hL : q = p ∨ PositionSized in_dim out_dim q L) : PositionSized in_dim out_dim q
      (L.setPosition p qvgIn goW
        (tabulate out_dim out_dim fun i j => readAt goW (j * out_dim + i : Nat))) := by
  by_cases hqp : q = p
  · subst hqp
    constructor <;> simp [LayerBufs.setPosition, hq, hg]
  · have hL := hL.resolve_left hqp
    constructor <;> simp [LayerBufs.setPosition, Function.update_of_ne hqp, hL.qvgIn, hL.goW, hL.goW_T]

variable [CommRing R]

theorem mm_result (B : List R) (b_out b_in : Nat) (A : List R) (a_in : Nat) :
    ∃ C, (mm B b_out b_in A b_in a_in).Returns C ∧ C.length = b_out * a_in ∧
      (B.length = b_out * b_in → A.length = b_in * a_in → (mm B b_out b_in A b_in a_in).Safe) := by
  have hne : ¬ b_in ≠ b_in := fun h => h rfl
  refine ⟨tabulate b_out a_in fun o i => ((List.range b_in).map fun k =>
    readAt B (o * b_in + k : Nat) * readAt A (k * a_in + i : Nat)).sum, ?_,
    tabulate_length _ _ _, fun hB hA => ?_⟩
  · exact Checked.returns_bind.mpr ⟨⟨⟩, Checked.returns_throwIf.mpr hne, rfl⟩
  · have hb : ∀ o < b_out, ∀ k < b_in, CheckedRun.InRange B (o * b_in + k : Nat) :=
      fun o ho k hk => inRange_rowMajor hB ho hk
    have ha : ∀ k < b_in, ∀ i < a_in, CheckedRun.InRange A (k * a_in + i : Nat) :=
      fun k hk i hi => inRange_rowMajor hA hk hi
    refine Checked.safe_bind_all Checked.safe_throwIf fun _ => ?_
    refine Checked.safe_bind_all (decide_eq_true hb) fun _ => ?_
    exact Checked.safe_access_pure ha _

section Position

variable (T : LayerTensors R) (in_dim out_dim : Nat)

/-- One pass of the loop never throws. It fills the position `p`. -/
theorem loadPosition_returns (L : LayerBufs R) (p : Nat) : ∃ qvgIn goW : List R,
    (loadPosition T in_dim out_dim L p).Returns (L.setPosition p qvgIn goW
        (tabulate out_dim out_dim fun i j => readAt goW (j * out_dim + i : Nat))) ∧
    qvgIn.length = 3 * out_dim * in_dim ∧ goW.length = out_dim * out_dim := by
  obtain ⟨scatter, hscatter⟩ : ∃ s, (scatterOf T.Win.data T.Win_cols
    (if T.nPosIn out_dim = 1 then 0 else p) out_dim in_dim).Returns s := ⟨_, rfl⟩
  obtain ⟨gather, hgather⟩ : ∃ g, (gatherOf T.Wout.data
    (if T.nPosOut out_dim = 1 then 0 else p) out_dim).Returns g := ⟨_, rfl⟩
  obtain ⟨q_in, hq, hqlen, -⟩ := mm_result T.qW.data out_dim out_dim scatter in_dim
  obtain ⟨v_in, hv, hvlen, -⟩ := mm_result T.vW.data out_dim out_dim scatter in_dim
  obtain ⟨g_in, hg, hglen, -⟩ := mm_result T.gW.data out_dim out_dim scatter in_dim
  obtain ⟨goW, hgo, hgolen, -⟩ := mm_result gather out_dim out_dim T.oW.data out_dim
  refine ⟨q_in.take (out_dim * in_dim) ++ v_in.take (out_dim * in_dim) ++
    g_in.take (out_dim * in_dim), goW, ?_, ?_, hgolen⟩
  · refine Checked.returns_bind.mpr ⟨_, hscatter, Checked.returns_bind.mpr ⟨_, hgather, ?_⟩⟩
    refine Checked.returns_bind.mpr ⟨_, hq, Checked.returns_bind.mpr ⟨_, hv, ?_⟩⟩
    exact Checked.returns_bind.mpr ⟨_, hg, Checked.returns_bind.mpr ⟨_, rfl,
      Checked.returns_bind.mpr ⟨_, hgo, rfl⟩⟩⟩
  · simp only [List.length_append, List.length_take, hqlen, hvlen, hglen, Nat.min_self]
    ring

variable {T in_dim out_dim} {n_in n_out : Nat} (hT : T.Fits out_dim in_dim n_in n_out)

include hT

omit [CommRing R] in
theorem LayerTensors.Fits.win_cols : T.Win_cols = (n_in * out_dim : Nat) := by
  unfold LayerTensors.Win_cols
  rw [hT.Win]
  exact staticCastInt_of_lt hT.small_in

omit [CommRing R] in
theorem LayerTensors.Fits.nPosIn_eq : T.nPosIn out_dim = n_in := by
  unfold LayerTensors.nPosIn
  rw [hT.win_cols, Int.natCast_mul, Int.mul_tdiv_cancel _ (by have := hT.pos; omega)]

omit [CommRing R] in
theorem LayerTensors.Fits.nPosOut_eq : T.nPosOut out_dim = n_out := by
  unfold LayerTensors.nPosOut
  rw [hT.Wout]
  change (staticCastInt (n_out * out_dim)).tdiv out_dim = _
  rw [staticCastInt_of_lt hT.small_out, Int.natCast_mul,
    Int.mul_tdiv_cancel _ (by have := hT.pos; omega)]

omit [CommRing R] in
theorem LayerTensors.Fits.numPos_eq : T.numPos out_dim = (max n_in n_out : Nat) := by
  rw [LayerTensors.numPos, hT.nPosIn_eq, hT.nPosOut_eq]
  omega

theorem scatterOf_safe {pin : Nat} (hp : pin < n_in) :
    (scatterOf T.Win.data T.Win_cols pin out_dim in_dim).Safe := by
  have hlen : T.Win.data.length = in_dim * (n_in * out_dim) := by simp [T.Win.numel, hT.Win]
  have hin : ∀ d < out_dim, ∀ c < in_dim, CheckedRun.InRange T.Win.data
      ((c : Int) * T.Win_cols + ((pin : Int) * out_dim + d)) := by
    intro d hd c hc
    have hcol : pin * out_dim + d < n_in * out_dim :=
      calc pin * out_dim + d < (pin + 1) * out_dim := by rw [Nat.succ_mul]; omega
        _ ≤ n_in * out_dim := Nat.mul_le_mul_right _ hp
    have h := inRange_rowMajor hlen hc hcol
    rw [hT.win_cols]
    push_cast at h ⊢
    exact h
  exact Checked.safe_access_pure hin _

theorem gatherOf_safe {pout : Nat} (hp : pout < n_out) :
    (gatherOf T.Wout.data pout out_dim).Safe := by
  have hlen : T.Wout.data.length = n_out * out_dim * out_dim := by simp [T.Wout.numel, hT.Wout]
  have hin : ∀ i < out_dim, ∀ j < out_dim,
      CheckedRun.InRange T.Wout.data (((pout : Int) * out_dim + j) * out_dim + i) := by
    intro i hi j hj
    have hrow : pout * out_dim + j < n_out * out_dim :=
      calc pout * out_dim + j < (pout + 1) * out_dim := by rw [Nat.succ_mul]; omega
        _ ≤ n_out * out_dim := Nat.mul_le_mul_right _ hp
    have h := inRange_rowMajor hlen hrow hi
    push_cast at h ⊢
    exact h
  exact Checked.safe_access_pure hin _

theorem loadPosition_safe (h9 : n_in ≤ 9 ∧ n_out ≤ 9) (L : LayerBufs R) {p : Nat}
    (hin : n_in = 1 ∨ p < n_in) (hout : n_out = 1 ∨ p < n_out) (hp : p < max n_in n_out) :
    (loadPosition T in_dim out_dim L p).Safe := by
  have hpin : ∃ k : Nat, (if T.nPosIn out_dim = 1 then 0 else (p : Int)) = k ∧ k < n_in := by
    rw [hT.nPosIn_eq]
    by_cases h1 : n_in = 1
    · exact ⟨0, by simp [h1], by omega⟩
    · exact ⟨p, by simp [h1], hin.resolve_left h1⟩
  have hpout : ∃ k : Nat, (if T.nPosOut out_dim = 1 then 0 else (p : Int)) = k ∧ k < n_out := by
    rw [hT.nPosOut_eq]
    by_cases h1 : n_out = 1
    · exact ⟨0, by simp [h1], by omega⟩
    · exact ⟨p, by simp [h1], hout.resolve_left h1⟩
  obtain ⟨pin, hpin, hpin_lt⟩ := hpin
  obtain ⟨pout, hpout, hpout_lt⟩ := hpout
  have hscatter := scatterOf_safe hT hpin_lt
  have hgather := gatherOf_safe hT hpout_lt
  have hsq : ∀ t : Tensor R, t.shape = [out_dim, out_dim] → t.data.length = out_dim * out_dim :=
    fun t ht => by simp [t.numel, ht]
  unfold loadPosition
  rw [hpin, hpout]
  obtain ⟨scatter, hs, hslen⟩ : ∃ s, (scatterOf T.Win.data T.Win_cols
    pin out_dim in_dim).Returns s ∧ s.length = out_dim * in_dim :=
    ⟨_, rfl, tabulate_length _ _ _⟩
  obtain ⟨gather, hg, hglen⟩ : ∃ g, (gatherOf T.Wout.data pout out_dim).Returns g ∧
    g.length = out_dim * out_dim := ⟨_, rfl, tabulate_length _ _ _⟩
  obtain ⟨q_in, hq, hqlen, hqr⟩ := mm_result T.qW.data out_dim out_dim scatter in_dim
  obtain ⟨v_in, hv, hvlen, hvr⟩ := mm_result T.vW.data out_dim out_dim scatter in_dim
  obtain ⟨g_in, hgi, hgilen, hgir⟩ := mm_result T.gW.data out_dim out_dim scatter in_dim
  obtain ⟨goW, hgo, hgolen, hgor⟩ := mm_result gather out_dim out_dim T.oW.data out_dim
  refine Checked.safe_bind hs hscatter (Checked.safe_bind hg hgather ?_)
  refine Checked.safe_bind hq (hqr (hsq _ hT.qW) hslen) ?_
  refine Checked.safe_bind hv (hvr (hsq _ hT.vW) hslen) ?_
  refine Checked.safe_bind hgi (hgir (hsq _ hT.gW) hslen) ?_
  have hpack : (packQvg q_in v_in g_in out_dim in_dim).Safe := by
    exact Checked.safe_access_pure ⟨hqlen.ge, hvlen.ge, hgilen.ge⟩ _
  refine Checked.safe_bind rfl hpack ?_
  refine Checked.safe_bind hgo (hgor hglen (hsq _ hT.oW)) ?_
  have htr : (transposeOf goW out_dim).Safe := by
    have h : ∀ j < out_dim, ∀ i < out_dim, CheckedRun.InRange goW (j * out_dim + i : Nat) :=
      fun j hj i hi => inRange_rowMajor hgolen hj hi
    exact Checked.safe_access_pure h _
  refine Checked.safe_bind rfl htr ?_
  have hlt : p < kPatchArea := hp.trans_le (Nat.max_le.mpr h9)
  exact Checked.safe_access_pure hlt _

end Position

/-! ### The whole layer -/

/-- The buffers that a layer has after `load_layer`. -/
structure LayerLoaded (W : WeightsMap R) (name : String) (in_dim out_dim : Nat) (T : LayerTensors R)
    (gn bb : Tensor R) (L : LayerBufs R) : Prop where
  num_pos : L.num_pos = T.numPos out_dim
  positions : ∀ p < L.num_pos.toNat, PositionSized in_dim out_dim p L
  input_proj : L.input_proj = match maybeGet W (name ++ "/input_proj/weight") with
    | some ip => ip.data
    | none => []
  ln_gamma : L.ln_gamma = gn.data
  ln_beta : L.ln_beta = bb.data

variable {W : WeightsMap R} {name : String} {in_dim out_dim : Nat}

theorem loadPositions_inv {T : LayerTensors R} {L L' : LayerBufs R} {ps : List Nat}
    (h : (ps.foldlM (loadPosition T in_dim out_dim) L).Returns L') :
    L'.num_pos = L.num_pos ∧ ∀ p ∈ ps, PositionSized in_dim out_dim p L' := by
  have hstep : ∀ L p L', (loadPosition T in_dim out_dim L p).Returns L' →
      L'.num_pos = L.num_pos ∧
        ∀ q, q = p ∨ PositionSized in_dim out_dim q L → PositionSized in_dim out_dim q L' := by
    intro L p L' hL
    obtain ⟨qvgIn, goW, hres, hq, hg⟩ := loadPosition_returns T in_dim out_dim L p
    obtain rfl := Except.ok.inj (hres.symm.trans hL)
    exact ⟨rfl, fun q hqp => setPosition_sized hq hg hqp⟩
  constructor
  · exact Checked.foldlM_keeps (I := fun L' => L'.num_pos = L.num_pos)
      (fun L p L' hL hnum => (hstep L p L' hL).1.trans hnum) h rfl
  · intro p hp
    exact Checked.foldlM_inv (fun L p L' hL => (hstep L p L' hL).2 p (.inl rfl))
      (fun L p L' q hL hq => (hstep L p L' hL).2 q (.inr hq)) h p (.inl hp)

omit [CommRing R] in
theorem layerTensors_returns {T : LayerTensors R} : (layerTensors W name out_dim).Returns T ↔
    TensorsAccepted W name out_dim T := by
  have hrank : ¬ (T.Win.shape.length ≠ 2 ∨ T.Wout.shape.length ≠ 2) ↔
      T.Win.shape.length = 2 ∧ T.Wout.shape.length = 2 := by omega
  have hdiv : ¬ ((staticCastInt (T.Win.shape.getD 1 0)).tmod out_dim ≠ 0 ∨
        (staticCastInt (T.Wout.shape.getD 0 0)).tmod out_dim ≠ 0) ↔
      (staticCastInt (T.Win.shape.getD 1 0)).tmod out_dim = 0 ∧
        (staticCastInt (T.Wout.shape.getD 0 0)).tmod out_dim = 0 := by omega
  constructor
  · intro h
    obtain ⟨Win, hWin, h⟩ := Checked.returns_bind.mp h
    obtain ⟨Wout, hWout, h⟩ := Checked.returns_bind.mp h
    obtain ⟨_, hr, h⟩ := Checked.returns_bind.mp h
    obtain ⟨_, hd, h⟩ := Checked.returns_bind.mp h
    obtain ⟨qW, hqW, h⟩ := Checked.returns_bind.mp h
    obtain ⟨vW, hvW, h⟩ := Checked.returns_bind.mp h
    obtain ⟨gW, hgW, h⟩ := Checked.returns_bind.mp h
    obtain ⟨oW, hoW, h⟩ := Checked.returns_bind.mp h
    obtain rfl := Except.ok.inj h
    exact ⟨returns_mustGet.mp hWin, returns_mustGet.mp hWout, hrank.mp (Checked.returns_throwIf.mp hr),
      hdiv.mp (Checked.returns_throwIf.mp hd), returns_mustGet.mp hqW, returns_mustGet.mp hvW,
      returns_mustGet.mp hgW, returns_mustGet.mp hoW⟩
  · intro h
    refine Checked.returns_bind.mpr ⟨_, returns_mustGet.mpr h.Win, ?_⟩
    refine Checked.returns_bind.mpr ⟨_, returns_mustGet.mpr h.Wout, ?_⟩
    refine Checked.returns_bind.mpr ⟨⟨⟩, Checked.returns_throwIf.mpr (hrank.mpr h.rank), ?_⟩
    refine Checked.returns_bind.mpr ⟨⟨⟩, Checked.returns_throwIf.mpr (hdiv.mpr h.divides), ?_⟩
    refine Checked.returns_bind.mpr ⟨_, returns_mustGet.mpr h.qW, ?_⟩
    refine Checked.returns_bind.mpr ⟨_, returns_mustGet.mpr h.vW, ?_⟩
    refine Checked.returns_bind.mpr ⟨_, returns_mustGet.mpr h.gW, ?_⟩
    exact Checked.returns_bind.mpr ⟨_, returns_mustGet.mpr h.oW, rfl⟩

omit [CommRing R] in
theorem layerTensors_safe : (layerTensors W name out_dim).Safe := by
  refine Checked.safe_bind_all (safe_mustGet _) fun _ => ?_
  refine Checked.safe_bind_all (safe_mustGet _) fun _ => ?_
  refine Checked.safe_bind_all Checked.safe_throwIf fun _ => ?_
  refine Checked.safe_bind_all Checked.safe_throwIf fun _ => ?_
  refine Checked.safe_bind_all (safe_mustGet _) fun _ => ?_
  refine Checked.safe_bind_all (safe_mustGet _) fun _ => ?_
  refine Checked.safe_bind_all (safe_mustGet _) fun _ => ?_
  exact Checked.safe_bind_all (safe_mustGet _) fun _ => Checked.safe_pure _

theorem loadLayer_spec {L L' : LayerBufs R} (h : (loadLayer W name L in_dim out_dim).Returns L') :
    ∃ T gn bb, LayerAccepted W name out_dim T gn bb ∧
      LayerLoaded W name in_dim out_dim T gn bb L' := by
  obtain ⟨T, hT, h⟩ := Checked.returns_bind.mp h
  obtain ⟨L₁, hL₁, h⟩ := Checked.returns_bind.mp h
  obtain ⟨gn, hgn, h⟩ := Checked.returns_bind.mp h
  obtain ⟨bb, hbb, h⟩ := Checked.returns_bind.mp h
  obtain rfl := Except.ok.inj h
  obtain ⟨hnum, hpos⟩ := loadPositions_inv hL₁
  refine ⟨T, gn, bb, ⟨layerTensors_returns.mp hT, returns_mustGet.mp hgn, returns_mustGet.mp hbb⟩, ?_⟩
  refine ⟨hnum, fun p hp => ?_, rfl, rfl, rfl⟩
  have hp : p < (T.numPos out_dim).toNat := by
    rw [← show L₁.num_pos = T.numPos out_dim from hnum]
    exact hp
  obtain ⟨hq, hg, ht⟩ := hpos p (List.mem_range.mpr hp)
  exact ⟨hq, hg, ht⟩

variable (in_dim) in
theorem loadLayer_returns {T : LayerTensors R} {gn bb : Tensor R}
    (h : LayerAccepted W name out_dim T gn bb) (L : LayerBufs R) :
    ∃ L', (loadLayer W name L in_dim out_dim).Returns L' := by
  obtain ⟨L₁, hL₁⟩ := Checked.foldlM_returns (f := loadPosition T in_dim out_dim)
    (l := List.range (T.numPos out_dim).toNat) (fun L p _ => by
      obtain ⟨qvgIn, goW, hres, -⟩ := loadPosition_returns T in_dim out_dim L p
      exact ⟨_, hres⟩) { L with in_dim := in_dim, out_dim := out_dim, num_pos := T.numPos out_dim }
  refine Checked.exists_returns_bind (layerTensors_returns.mpr h.tensors) ?_
  refine Checked.exists_returns_bind hL₁ ?_
  refine Checked.exists_returns_bind (returns_mustGet.mpr h.gn) ?_
  exact Checked.exists_returns_bind (returns_mustGet.mpr h.bb) ⟨_, rfl⟩

theorem loadLayer_safe {T : LayerTensors R} {gn bb : Tensor R}
    (h : LayerAccepted W name out_dim T gn bb) {n_in n_out : Nat}
    (hT : T.Fits out_dim in_dim n_in n_out) (h9 : n_in ≤ 9 ∧ n_out ≤ 9)
    (hin : n_in = 1 ∨ n_in = max n_in n_out) (hout : n_out = 1 ∨ n_out = max n_in n_out)
    (L : LayerBufs R) : (loadLayer W name L in_dim out_dim).Safe := by
  refine Checked.safe_bind (layerTensors_returns.mpr h.tensors) layerTensors_safe ?_
  refine Checked.safe_bind_all (Checked.foldlM_safe (fun L p hp => ?_) _) fun _ => ?_
  · have hlt : p < max n_in n_out := by
      have hp := List.mem_range.mp hp
      rw [hT.numPos_eq] at hp
      omega
    exact loadPosition_safe hT h9 L (by omega) (by omega) (by omega)
  · refine Checked.safe_bind_all (safe_mustGet _) fun _ => ?_
    exact Checked.safe_bind_all (safe_mustGet _) fun _ => Checked.safe_pure _

end SslaRt
