import SslaRt.LoadSchema
import SslaRt.StageSpec

/-! The pipeline that `load` leaves for a file of the right dimensions satisfies
the schema under which the fused layers compute the generic ones. -/

namespace SslaRt

open CheckedRun

variable {R : Type*} [CommRing R]

/-- The copy that the tiled layers read is the transpose of `goW`. -/
def LayerBufs.Transposed (out_dim : Nat) (L : LayerBufs R) : Prop :=
  ∀ p i j : Nat, i < out_dim → j < out_dim →
    L.weights.goW_T p (i * out_dim + j) = L.weights.goW p (j * out_dim + i)

variable {W : WeightsMap R} {in_dim out_dim : Nat}

theorem loadPosition_transposed {T : LayerTensors R} {L L' : LayerBufs R} {p : Nat}
    (h : (loadPosition T in_dim out_dim L p).Returns L') (hL : L.Transposed out_dim) :
    L'.Transposed out_dim := by
  obtain ⟨qvgIn, goW, hres, -, -⟩ := loadPosition_returns T in_dim out_dim L p
  obtain rfl := Checked.returns_unique hres h
  intro q i j hi hj
  by_cases hqp : q = p
  · subst hqp
    simp only [LayerBufs.weights, LayerBufs.setPosition, Function.update_self]
    exact readAt_tabulate _ hi hj
  · have hq := hL q i j hi hj
    simpa only [LayerBufs.weights, LayerBufs.setPosition, Function.update_of_ne hqp] using hq

theorem loadLayer_transposed {name : String} {L L' : LayerBufs R}
    (h : (loadLayer W name L in_dim out_dim).Returns L') (hL : L.Transposed out_dim) :
    L'.Transposed out_dim := by
  obtain ⟨T, -, h⟩ := Checked.returns_bind.mp h
  obtain ⟨L₁, hL₁, h⟩ := Checked.returns_bind.mp h
  obtain ⟨gn, -, h⟩ := Checked.returns_bind.mp h
  obtain ⟨bb, -, h⟩ := Checked.returns_bind.mp h
  obtain rfl := Except.ok.inj h
  have hstart : LayerBufs.Transposed out_dim
      { L with in_dim := in_dim, out_dim := out_dim, num_pos := T.numPos out_dim } := hL
  have hL₁ : L₁.Transposed out_dim := Checked.foldlM_keeps (I := LayerBufs.Transposed out_dim)
    (f := loadPosition T in_dim out_dim) (fun _ _ _ hpos htr => loadPosition_transposed hpos htr)
    hL₁ hstart
  exact hL₁

namespace LoadedPipeline

theorem loadLayers_transposed {P P' : LoadedPipeline R} (h : (P.loadLayers W).Returns P')
    (hP : ∀ l, (P.layers_ l).Transposed (outDim l)) (l : Nat) :
    (P'.layers_ l).Transposed (outDim l) := by
  refine Checked.foldlM_keeps (I := fun (P : LoadedPipeline R) =>
    ∀ l, (P.layers_ l).Transposed (outDim l)) (fun P l P' hstep hP => ?_) h hP l
  obtain ⟨L, hL, hP'⟩ := Checked.returns_bind.mp hstep
  obtain rfl := Except.ok.inj hP'
  intro l'
  by_cases hl : l' = l
  · subst hl
    simpa only [setLayer, Function.update_self] using loadLayer_transposed hL (hP l')
  · simpa only [setLayer, Function.update_of_ne hl] using hP l'

variable (data_null : Bool) (rsqrt : R → R) (P : LoadedPipeline R) (info : ModelMeta)

theorem load_transposed {P' : LoadedPipeline R} (h : (P.load data_null rsqrt info W).Returns P')
    (hP : ∀ l, (P.layers_ l).Transposed (outDim l)) (l : Nat) :
    (P'.layers_ l).Transposed (outDim l) := by
  obtain ⟨-, P₁, hlayers, hheads, -⟩ := load_parts data_null rsqrt P info h
  have hsame : P'.layers_ = P₁.layers_ := (loadHeads_spec data_null rsqrt hheads).1.1
  rw [hsame]
  exact loadLayers_transposed hlayers hP l

/-- The read-only part of the pipeline. -/
def pipeline (ar : Arith R) (castFloat : ℚ → R) (P : LoadedPipeline R) : SslaSPipeline R where
  ar := ar
  castFloat := castFloat
  H_ := P.H_
  W_ := P.W_
  tdrop_window_ := P.tdrop_window_
  layers_ := fun l => (P.layers_ l).weights

theorem weights_schema {name : String} {l : Nat} {L : LayerBufs R}
    (hwf : LayerWellFormed W name l L) (htr : L.Transposed (outDim l))
    (hsq : inDim l = outDim l → L.input_proj = []) :
    L.weights.Schema (inDim l) (outDim l) L.num_pos.toNat := by
  refine ⟨rfl, ?_, fun p i j _ hi hj => htr p i j hi hj⟩
  by_cases hdim : inDim l = outDim l
  · simp [LayerBufs.weights, hsq hdim, hdim]
  · simp [LayerBufs.weights, hwf.projected hdim, hdim]

/-- A layer whose dimensions agree must have no projection: the generic layer
would apply it and the fused one does not. -/
theorem load_schema {P' : LoadedPipeline R} (h : (P.load data_null rsqrt info W).Returns P')
    (hP : ∀ l, (P.layers_ l).Transposed (outDim l))
    (hdims : ∀ l < 8, ∃ n_in n_out, LayerDims W (layerName W l) l n_in n_out)
    (hsq : ∀ l < 8, inDim l = outDim l →
      maybeGet W (layerName W l ++ "/input_proj/weight") = none)
    (ar : Arith R) (castFloat : ℚ → R) : (P'.pipeline ar castFloat).Schema := by
  have hwf := load_wellFormed data_null rsqrt P info h hdims
  have hschema : ∀ l < 8, (P'.layers_ l).weights.Schema (inDim l) (outDim l)
      (P'.layers_ l).num_pos.toNat := by
    intro l hl
    obtain ⟨T, gn, bb, -, hload⟩ := load_layers data_null rsqrt P info h hl
    refine weights_schema (hwf l hl) (load_transposed data_null rsqrt P info h hP l) fun hdim => ?_
    rw [hload.input_proj, hsq l hl hdim]
  have hnum : ∀ l, 1 ≤ l → l ≤ 3 → (P'.layers_ l).num_pos.toNat = 9 := by
    intro l h1 h3
    rw [(hwf l (by omega)).nine h1 h3]
    rfl
  have hnum0 : (P'.layers_ 0).num_pos.toNat = 1 := by
    rw [(hwf 0 (by decide)).single rfl]
    rfl
  have h0 := hschema 0 (by decide)
  have h1 := hschema 1 (by decide)
  have h2 := hschema 2 (by decide)
  have h3 := hschema 3 (by decide)
  rw [hnum0] at h0
  rw [hnum 1 (by decide) (by decide)] at h1
  rw [hnum 2 (by decide) (by decide)] at h2
  rw [hnum 3 (by decide) (by decide)] at h3
  exact ⟨h0, h1, h2, h3⟩

end LoadedPipeline

end SslaRt
