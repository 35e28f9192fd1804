import SslaRt.StubNames

/-! The stub export is loaded: the readers give back its values, and the pipeline has the
dimensions that every layer needs. -/

namespace SslaRt

open CheckedRun TextSearch

section Lookup

variable {R : Type*} {W : WeightsMap R}

theorem maybeGet_eq_some_iff {k : String} {t : Tensor R} : maybeGet W k = some t ↔ (k, t) ∈ W.entries := by
  unfold maybeGet
  have hnodup := W.keys_nodup
  generalize W.entries = entries at hnodup ⊢
  induction entries with
  | nil => simp
  | cons e entries ih =>
    obtain ⟨k', t'⟩ := e
    rw [List.map_cons, List.nodup_cons] at hnodup
    by_cases hk : k = k'
    · subst hk
      have hout : (k, t) ∉ entries := fun hmem => hnodup.1 (List.mem_map.mpr ⟨_, hmem, rfl⟩)
      simp [hout, eq_comm]
    · have hbeq : (k == k') = false := by simpa using hk
      rw [List.lookup_cons, hbeq]
      simpa [hk] using ih hnodup.2

/-- The names and shapes of the tensors of a file. -/
def ShapedAs (W : WeightsMap R) (ws : List (String × List Nat)) : Prop :=
  W.entries.map (fun e => (e.1, e.2.shape)) = ws

variable {ws : List (String × List Nat)}

theorem ShapedAs.hasShape (h : ShapedAs W ws) {k : String} {shape : List Nat} (hk : (k, shape) ∈ ws) :
    HasShape W k shape := by
  rw [← h] at hk
  obtain ⟨⟨k', t⟩, hmem, heq⟩ := List.mem_map.mp hk
  cases heq
  exact ⟨t, maybeGet_eq_some_iff.mpr hmem, rfl⟩

theorem ShapedAs.isSome_iff (h : ShapedAs W ws) {k : String} :
    (maybeGet W k).isSome ↔ k ∈ ws.map Prod.fst := by
  rw [← h, List.map_map, List.mem_map, Option.isSome_iff_exists]
  simp only [maybeGet_eq_some_iff, Function.comp_apply, Prod.exists]
  constructor
  · rintro ⟨t, ht⟩
    exact ⟨k, t, ht, rfl⟩
  · rintro ⟨_, t, ht, rfl⟩
    exact ⟨t, ht⟩

theorem HasShape.isSome {k : String} {shape : List Nat} (h : SslaRt.HasShape W k shape) :
    (maybeGet W k).isSome := by
  obtain ⟨t, ht, -⟩ := h
  simp [ht]

/-- Tensors of the right dimensions pass the checks of the layer. -/
theorem LayerDims.accepted {name : String} {l n_in n_out : Nat} (h : LayerDims W name l n_in n_out) :
    ∃ T gn bb, LayerAccepted W name (outDim l) T gn bb := by
  obtain ⟨Win, hWin, hWin_shape⟩ := h.W_in_cat
  obtain ⟨Wout, hWout, hWout_shape⟩ := h.W_out_cat
  obtain ⟨qW, hq, -⟩ := h.q_proj
  obtain ⟨vW, hv, -⟩ := h.v_proj
  obtain ⟨gW, hg, -⟩ := h.g_proj
  obtain ⟨oW, ho, -⟩ := h.o_proj
  obtain ⟨gn, hgn, -⟩ := h.gamma
  obtain ⟨bb, hbb, -⟩ := h.beta
  have hcast : ∀ n, n = 1 ∨ n = 9 → staticCastInt (n * outDim l) = ((n * outDim l : Nat) : Int) := by
    intro n hn
    obtain ⟨-, hle⟩ := outDim_bounds l
    refine staticCastInt_of_lt ?_
    rcases hn with rfl | rfl <;> omega
  refine ⟨⟨Win, Wout, qW, vW, gW, oW⟩, gn, bb,
    ⟨hWin, hWout, by simp [hWin_shape, hWout_shape], ?_, hq, hv, hg, ho⟩, hgn, hbb⟩
  simp only [hWin_shape, hWout_shape, List.getD_cons_succ, List.getD_cons_zero, hcast n_in h.pos_in,
    hcast n_out h.pos_out, Int.natCast_mul, Int.mul_tmod_left, and_self]

end Lookup

section Dims

variable {R : Type*} {W : WeightsMap R} {n_cls levels : Nat}

theorem mem_stubLayers {l : Nat} (hl : l < 8) {e : String × List Nat}
    (he : e ∈ buildLayer (inDim l) (outDim l) (if l = 0 then 1 else 3) ("layers/" ++ toString l)) :
    e ∈ stubLayers := by
  have hspec : ((inDim l, outDim l, if l = 0 then 1 else 3), l) ∈ layerSpecs.zipIdx := by
    interval_cases l <;> decide
  exact List.mem_flatMap.mpr ⟨_, hspec, he⟩

theorem mem_stubWeights_layer {l : Nat} (hl : l < 8) {e : String × List Nat}
    (he : e ∈ buildLayer (inDim l) (outDim l) (if l = 0 then 1 else 3) ("layers/" ++ toString l)) :
    e ∈ stubWeights n_cls levels := List.mem_append_left _ (mem_stubLayers hl he)

theorem mem_stubWeights_head {k : Nat} (hk : k < levels) {e : String × List Nat}
    (he : e ∈ buildYoloxHeadLevel (stubChans.getD (4 - levels + k) 0) (stubChans.getD 3 0) n_cls k) :
    e ∈ stubWeights n_cls levels :=
  List.mem_append_right _ (List.mem_flatMap.mpr ⟨k, List.mem_range.mpr hk, he⟩)

/-- The positions of layer `l`. -/
def stubPositions (l : Nat) : Nat := if l = 0 then 1 else 9

theorem stub_layerDims (h : ShapedAs W (stubWeights n_cls levels)) {l : Nat} (hl : l < 8) :
    LayerDims W ("layers/" ++ toString l) l (stubPositions l) (stubPositions l) := by
  have hshape : ∀ k shape, (k, shape) ∈ buildLayer (inDim l) (outDim l) (if l = 0 then 1 else 3)
      ("layers/" ++ toString l) → SslaRt.HasShape W k shape :=
    fun k shape he => h.hasShape (mem_stubWeights_layer hl he)
  have hpos : (if l = 0 then 1 else 3) * (if l = 0 then 1 else 3) = stubPositions l := by
    unfold stubPositions
    split <;> rfl
  have hvec : ∀ k, SslaRt.HasShape W k [outDim l] →
      ∃ t, maybeGet W k = some t ∧ t.data.length = outDim l := by
    rintro k ⟨t, ht, hs⟩
    exact ⟨t, ht, by simp [t.numel, hs]⟩
  have hcases : stubPositions l = 1 ∨ stubPositions l = 9 := by
    unfold stubPositions
    split <;> simp
  refine ⟨hcases, hcases, fun hz => by simp [stubPositions, hz], fun h1 _ => .inl ?_, hshape _ _ ?_, hshape _ _ ?_,
    hshape _ _ ?_, hshape _ _ ?_, hshape _ _ ?_, hshape _ _ ?_, fun t ht => ?_, fun hne => ?_, hvec _ (hshape _ _ ?_),
    hvec _ (hshape _ _ ?_)⟩
  · unfold stubPositions
    rw [if_neg (by omega)]
  · simp [buildLayer, hpos]
  · simp [buildLayer, hpos]
  · simp [buildLayer, String.append_assoc]
  · simp [buildLayer, String.append_assoc]
  · simp [buildLayer, String.append_assoc]
  · simp [buildLayer, String.append_assoc]
  · by_cases heq : inDim l = outDim l
    · -- a layer without a projection
      have hnone : "layers/" ++ toString l ++ "/input_proj/weight" ∉ (stubWeights n_cls levels).map Prod.fst :=
        stubWeights_noProjection heq
      rw [← h.isSome_iff, ht] at hnone
      simp at hnone
    · refine (hshape _ _ ?_).get ht
      simp [buildLayer, heq]
  · refine (hshape _ [outDim l, inDim l] ?_).isSome
    simp [buildLayer, hne]
  · simp [buildLayer]
  · simp [buildLayer]

theorem stub_indices (h : ShapedAs W (stubWeights n_cls levels)) : sslaIndices W = [0, 1, 2, 3, 4, 5, 6, 7] := by
  have hkeys : W.entries.map Prod.fst = (stubWeights n_cls levels).map Prod.fst := by
    rw [← h, List.map_map]
    rfl
  unfold sslaIndices
  rw [hkeys, stubWeights_indices]
  rfl

theorem stub_layerName (h : ShapedAs W (stubWeights n_cls levels)) {l : Nat} (hl : l < 8) :
    layerName W l = "layers/" ++ toString l := by
  unfold layerName
  rw [stub_indices h]
  interval_cases l <;> rfl

theorem stub_numHeadLevels (h : ShapedAs W (stubWeights n_cls levels)) (hle : levels ≤ 4) :
    numHeadLevels W = levels := by
  have hlevel : ∀ k, (maybeGet W ("head/cls_convs/" ++ toString k ++ "/0/weight")).isSome = decide (k < levels) := by
    intro k
    rw [Bool.eq_iff_iff, h.isSome_iff, mem_stubWeights_level, decide_eq_true_iff]
  unfold numHeadLevels
  simp only [hlevel]
  interval_cases levels <;> rfl

theorem convBn_dims {C_in : Nat} {branch s cp bp : String}
    (hmem : ∀ e ∈ convBn C_in kC3 branch s, SslaRt.HasShape W e.1 e.2)
    (hcp : cp = "head/" ++ branch ++ "/" ++ s ++ "/0") (hbp : bp = "head/" ++ branch ++ "/" ++ s ++ "/1")
    (hbias : maybeGet W ("head/" ++ branch ++ "/" ++ s ++ "/0/bias") = none) : ConvBnDims W cp bp C_in := by
  simp only [convBn, List.forall_mem_cons] at hmem
  obtain ⟨hcw, hg, hb, hmu, hva, -⟩ := hmem
  subst hcp hbp
  refine ⟨?_, fun t ht => ?_, ?_, ?_, ?_, ?_⟩
  · simpa [String.append_assoc] using hcw
  · simp only [String.append_assoc] at hbias ht
    have hnone := hbias.symm.trans ht
    exact absurd hnone (by simp)
  · simpa [String.append_assoc] using hg
  · simpa [String.append_assoc] using hb
  · simpa [String.append_assoc] using hmu
  · simpa [String.append_assoc] using hva

theorem head_append (branch s suffix : String) :
    "head/" ++ (branch ++ "/") ++ s ++ suffix = "head/" ++ branch ++ "/" ++ s ++ suffix := by
  simp only [String.append_assoc]

theorem stubChans_eq {s : Nat} (h : s < 4) : stubChans.getD s 0 = chans s := by
  interval_cases s <;> rfl

/-- A head level reads the stage that its weights are made for. -/
theorem stub_headDims (h : ShapedAs W (stubWeights n_cls levels)) (hle : levels ≤ 4) {k : Nat} (hk : k < levels) :
    HeadDims W k (chans (4 - levels + k)) n_cls := by
  have hmem : ∀ e ∈ buildYoloxHeadLevel (stubChans.getD (4 - levels + k) 0) (stubChans.getD 3 0) n_cls k,
      SslaRt.HasShape W e.1 e.2 := fun e he => h.hasShape (mem_stubWeights_head hk he)
  rw [stubChans_eq (by omega : 4 - levels + k < 4), show stubChans.getD 3 0 = kC3 from rfl] at hmem
  simp only [buildYoloxHeadLevel, List.forall_mem_append] at hmem
  obtain ⟨⟨hcls, hreg⟩, hpred⟩ := hmem
  simp only [List.forall_mem_cons] at hpred
  obtain ⟨hcw, hcb, hrw, hrb, how, hob, -⟩ := hpred
  have hbias : ∀ branch : String, branch.toList.length = 9 →
      maybeGet W ("head/" ++ branch ++ "/" ++ toString k ++ "/0/bias") = none := by
    intro branch hbranch
    exact Option.not_isSome_iff_eq_none.mp fun hsome => stubWeights_noBias hbranch (h.isSome_iff.mp hsome)
  exact ⟨convBn_dims hcls (head_append "cls_convs" _ _) (head_append "cls_convs" _ _) (hbias _ rfl),
    convBn_dims hreg (head_append "reg_convs" _ _) (head_append "reg_convs" _ _) (hbias _ rfl),
    hcw, hcb, hrw, hrb, how, hob⟩

end Dims

end SslaRt
