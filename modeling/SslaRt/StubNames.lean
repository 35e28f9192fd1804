import SslaRt.StubExport

/-! The names of the stub export: they are distinct, and the loader finds in them the eight
layers and the head levels. -/

namespace SslaRt

open TextSearch

section Numbered

theorem decimal_inj {k k' : Nat} (h : decimal k = decimal k') : k = k' := by
  rw [← digitsValue_decimal k, h, digitsValue_decimal]

theorem slash_notMem_decimal (k : Nat) : '/' ∉ decimal k := notMem_decimal rfl

/-- The number in a name can be read off it. -/
theorem numbered_inj {k k' : Nat} {a b : List Char} (h : decimal k ++ '/' :: a = decimal k' ++ '/' :: b) :
    k = k' ∧ a = b := by
  have hpre : decimal k ++ '/' :: a <+: decimal k' ++ '/' :: b := by rw [h]
  have hdec := ((token_unique (slash_notMem_decimal k) (slash_notMem_decimal k')).mp hpre).1
  refine ⟨decimal_inj hdec, ?_⟩
  rw [hdec] at h
  simpa using h

end Numbered

section Layers

/-- What stands behind the number of a layer. -/
def layerSuffixes : List String :=
  ["W_in_cat", "W_out_cat", "q_proj/weight", "v_proj/weight", "g_proj/weight", "o_proj/weight",
    "input_proj/weight", "norm/weight", "norm/bias"]

def layerTensorName (l : Nat) (suffix : String) : String := "layers/" ++ toString l ++ "/" ++ suffix

theorem layerTensorName_toList (l : Nat) (suffix : String) :
    (layerTensorName l suffix).toList = "layers/".toList ++ (decimal l ++ '/' :: suffix.toList) := by
  simp [layerTensorName, decimal]

theorem layerTensorName_inj {l l' : Nat} {a b : String} (h : layerTensorName l a = layerTensorName l' b) :
    l = l' ∧ a = b := by
  have hlist := congrArg String.toList h
  rw [layerTensorName_toList, layerTensorName_toList] at hlist
  obtain ⟨hl, hab⟩ := numbered_inj (List.append_cancel_left hlist)
  exact ⟨hl, String.toList_injective hab⟩

/-- The suffixes of a layer: a projection only where the dimensions differ. -/
def suffixesOf (in_d out_d : Nat) : List String :=
  layerSuffixes.filter fun suffix => suffix ≠ "input_proj/weight" ∨ in_d ≠ out_d

theorem buildLayer_names (in_d out_d K l : Nat) :
    (buildLayer in_d out_d K ("layers/" ++ toString l)).map Prod.fst =
      (suffixesOf in_d out_d).map (layerTensorName l) := by
  by_cases h : in_d = out_d
  · simp [buildLayer, suffixesOf, layerSuffixes, layerTensorName, h, String.append_assoc]
  · simp [buildLayer, suffixesOf, layerSuffixes, layerTensorName, h, String.append_assoc]

theorem layerSuffixes_nodup : layerSuffixes.Nodup := by decide

theorem stubLayers_names : stubLayers.map Prod.fst =
    layerSpecs.zipIdx.flatMap fun s => (suffixesOf s.1.1 s.1.2.1).map (layerTensorName s.2) := by
  unfold stubLayers
  rw [List.map_flatMap]
  simp only [buildLayer_names]

theorem stubLayers_nodup : (stubLayers.map Prod.fst).Nodup := by
  rw [stubLayers_names, List.nodup_flatMap]
  refine ⟨fun s _ => ?_, ?_⟩
  · exact (layerSuffixes_nodup.filter _).map fun a b h => (layerTensorName_inj h).2
  · have hindex : layerSpecs.zipIdx.Pairwise fun a b => a.2 ≠ b.2 := by decide
    refine hindex.imp fun hne => ?_
    rintro s hs hs'
    obtain ⟨a, -, rfl⟩ := List.mem_map.mp hs
    obtain ⟨b, -, heq⟩ := List.mem_map.mp hs'
    exact hne (layerTensorName_inj heq).1.symm

/-- Of the names of a layer only the one of `W_in_cat` has an index. -/
theorem layerIndex_name {l : Nat} (hl : l < 8) (suffix : String) :
    layerIndex (layerTensorName l suffix) = if suffix = "W_in_cat" then some (l : Int) else none := by
  have hlist := layerTensorName_toList l suffix
  have hpre : "layers/".toList.isPrefixOf (layerTensorName l suffix).toList = true := by
    rw [hlist, List.isPrefixOf_iff_prefix]
    exact List.prefix_append _ _
  have hdrop : (layerTensorName l suffix).toList.drop "layers/".toList.length = decimal l ++ '/' :: suffix.toList := by
    rw [hlist, List.drop_left]
  have hlen : "layers/".toList.length < (layerTensorName l suffix).toList.length := by
    rw [hlist]
    simp
  have htake : (decimal l ++ '/' :: suffix.toList).takeWhile (fun c => decide (c ≠ '/')) = decimal l := by
    have hdigits : ∀ c ∈ decimal l, decide (c ≠ '/') = true := by
      intro c hc
      have hne : c ≠ '/' := fun heq => slash_notMem_decimal l (heq ▸ hc)
      simpa using hne
    rw [List.takeWhile_append_of_pos hdigits]
    simp
  have hstoi : stoi (decimal l) = some (l : Int) := by
    interval_cases l <;> rfl
  unfold layerIndex
  simp only [hpre, hdrop, htake, not_le.mpr hlen, false_or, Bool.true_eq_false, if_false]
  have hne : ¬ decimal l = decimal l ++ '/' :: suffix.toList := by simp
  have hrest : (decimal l ++ '/' :: suffix.toList).drop ((decimal l).length + 1) = suffix.toList := by simp
  rw [if_neg hne, hrest, hstoi]
  by_cases hs : suffix = "W_in_cat"
  · simp [hs]
  · rw [if_pos fun h => hs (String.toList_injective h), if_neg hs]

theorem stubLayers_indices : (stubLayers.map Prod.fst).filterMap layerIndex = [0, 1, 2, 3, 4, 5, 6, 7] := by
  rw [stubLayers_names, List.filterMap_flatMap]
  have hlayer : ∀ s ∈ layerSpecs.zipIdx,
      ((suffixesOf s.1.1 s.1.2.1).map (layerTensorName s.2)).filterMap layerIndex = [(s.2 : Int)] := by
    intro s hs
    have hl : s.2 < 8 := List.snd_lt_of_mem_zipIdx hs
    rw [List.filterMap_map]
    simp only [Function.comp_def, layerIndex_name hl]
    simp [suffixesOf, layerSuffixes]
  rw [List.flatMap_congr hlayer]
  rfl

theorem stubLayers_noProjection {l : Nat} (heq : inDim l = outDim l) :
    layerTensorName l "input_proj/weight" ∉ stubLayers.map Prod.fst := by
  rw [stubLayers_names]
  intro hmem
  obtain ⟨s, hs, hname⟩ := List.mem_flatMap.mp hmem
  obtain ⟨suffix, hsuffix, hname⟩ := List.mem_map.mp hname
  obtain ⟨hs2, rfl⟩ := layerTensorName_inj hname
  have hdims : ∀ s ∈ layerSpecs.zipIdx, s.1.1 = inDim s.2 ∧ s.1.2.1 = outDim s.2 := by decide
  obtain ⟨hin, hout⟩ := hdims s hs
  rw [suffixesOf, List.mem_filter, hin, hout, hs2, heq] at hsuffix
  simp at hsuffix

end Layers

section Heads

/-- The branches of a head level with what stands behind its number. -/
def headParts : List (String × String) :=
  (["cls_convs", "reg_convs"].flatMap fun branch =>
    ["0/weight", "1/weight", "1/bias", "1/running_mean", "1/running_var"].map fun suffix => (branch, suffix)) ++
    ["cls_preds", "reg_preds", "obj_preds"].flatMap fun branch => [(branch, "weight"), (branch, "bias")]

def headTensorName (k : Nat) (part : String × String) : String :=
  "head/" ++ part.1 ++ "/" ++ toString k ++ "/" ++ part.2

theorem headTensorName_toList (k : Nat) (part : String × String) : (headTensorName k part).toList =
    "head/".toList ++ (part.1.toList ++ '/' :: (decimal k ++ '/' :: part.2.toList)) := by
  simp [headTensorName, decimal]

theorem headParts_branch : ∀ part ∈ headParts, part.1.toList.length = 9 := by simp [headParts]

theorem headTensorName_inj {k k' : Nat} {a b : String × String} (ha : a.1.toList.length = 9)
    (hb : b.1.toList.length = 9) (h : headTensorName k a = headTensorName k' b) : k = k' ∧ a = b := by
  have hlist := congrArg String.toList h
  rw [headTensorName_toList, headTensorName_toList] at hlist
  obtain ⟨hbranch, hrest⟩ := List.append_inj (List.append_cancel_left hlist)
    (by rw [ha, hb])
  obtain ⟨hk, hsuffix⟩ := numbered_inj (List.cons.inj hrest).2
  exact ⟨hk, Prod.ext (String.toList_injective hbranch) (String.toList_injective hsuffix)⟩

theorem buildHead_names (C_in C_hid n_cls k : Nat) :
    (buildYoloxHeadLevel C_in C_hid n_cls k).map Prod.fst = headParts.map (headTensorName k) := by
  have hinj : Function.Injective String.toList := fun _ _ h => String.toList_injective h
  apply List.map_injective_iff.mpr hinj
  simp [buildYoloxHeadLevel, convBn, headParts, headTensorName]

theorem headParts_nodup : headParts.Nodup := by decide

theorem mem_stubHeads_names {n_cls levels k : Nat} {part : String × String} (hpart : part.1.toList.length = 9) :
    headTensorName k part ∈ (stubHeads n_cls levels).map Prod.fst ↔ k < levels ∧ part ∈ headParts := by
  unfold stubHeads
  rw [List.map_flatMap]
  simp only [buildHead_names, List.mem_flatMap, List.mem_range, List.mem_map]
  constructor
  · rintro ⟨k', hk', part', hpart', heq⟩
    obtain ⟨rfl, rfl⟩ := headTensorName_inj (headParts_branch part' hpart') hpart heq
    exact ⟨hk', hpart'⟩
  · rintro ⟨hk, hmem⟩
    exact ⟨k, hk, part, hmem, rfl⟩

theorem stubHeads_nodup (n_cls levels : Nat) : ((stubHeads n_cls levels).map Prod.fst).Nodup := by
  unfold stubHeads
  rw [List.map_flatMap, List.nodup_flatMap]
  simp only [buildHead_names]
  refine ⟨fun k _ => ?_, ?_⟩
  · exact headParts_nodup.map_on fun a ha b hb h => (headTensorName_inj (headParts_branch a ha) (headParts_branch b hb) h).2
  · refine List.nodup_range.imp fun hne => ?_
    rintro s hs hs'
    obtain ⟨a, ha, rfl⟩ := List.mem_map.mp hs
    obtain ⟨b, hb, heq⟩ := List.mem_map.mp hs'
    exact hne (headTensorName_inj (headParts_branch b hb) (headParts_branch a ha) heq).1.symm

theorem stubHeads_first {n_cls levels : Nat} {s : String} (h : s ∈ (stubHeads n_cls levels).map Prod.fst) :
    s.toList.head? = some 'h' := by
  unfold stubHeads at h
  rw [List.map_flatMap] at h
  simp only [buildHead_names, List.mem_flatMap, List.mem_map] at h
  obtain ⟨k, -, part, -, rfl⟩ := h
  simp [headTensorName_toList]

theorem stubLayers_first {s : String} (h : s ∈ stubLayers.map Prod.fst) : s.toList.head? = some 'l' := by
  rw [stubLayers_names] at h
  simp only [List.mem_flatMap, List.mem_map] at h
  obtain ⟨spec, -, suffix, -, rfl⟩ := h
  simp [layerTensorName_toList]

theorem layerIndex_head {s : String} (h : s.toList.head? = some 'h') : layerIndex s = none := by
  have hfalse : "layers/".toList.isPrefixOf s.toList = false := by
    cases hs : s.toList with
    | nil => rfl
    | cons c cs =>
      rw [hs, List.head?_cons] at h
      obtain rfl := Option.some.inj h
      rfl
  unfold layerIndex
  simp only [hfalse, or_true, if_true]

end Heads

section All

variable (n_cls levels : Nat)

theorem stubWeights_names :
    (stubWeights n_cls levels).map Prod.fst = stubLayers.map Prod.fst ++ (stubHeads n_cls levels).map Prod.fst :=
  List.map_append

theorem stubWeights_nodup : ((stubWeights n_cls levels).map Prod.fst).Nodup := by
  rw [stubWeights_names]
  refine List.nodup_append.mpr ⟨stubLayers_nodup, stubHeads_nodup n_cls levels, ?_⟩
  rintro s hs _ hs' rfl
  have hl := stubLayers_first hs
  rw [stubHeads_first hs'] at hl
  exact absurd hl (by decide)

theorem stubWeights_indices :
    ((stubWeights n_cls levels).map Prod.fst).filterMap layerIndex = [0, 1, 2, 3, 4, 5, 6, 7] := by
  have hheads : ((stubHeads n_cls levels).map Prod.fst).filterMap layerIndex = [] :=
    List.filterMap_eq_nil_iff.mpr fun s hs => layerIndex_head (stubHeads_first hs)
  rw [stubWeights_names, List.filterMap_append, stubLayers_indices, hheads, List.append_nil]

variable {n_cls levels}

theorem stubWeights_noProjection {l : Nat} (heq : inDim l = outDim l) :
    "layers/" ++ toString l ++ "/input_proj/weight" ∉ (stubWeights n_cls levels).map Prod.fst := by
  have hname : "layers/" ++ toString l ++ "/input_proj/weight" = layerTensorName l "input_proj/weight" := by
    simp [layerTensorName, String.append_assoc]
  rw [hname, stubWeights_names, List.mem_append, not_or]
  refine ⟨stubLayers_noProjection heq, fun h => ?_⟩
  have hh := stubHeads_first h
  rw [layerTensorName_toList] at hh
  simp at hh

theorem mem_stubWeights_head_name {k : Nat} {part : String × String} (hpart : part.1.toList.length = 9) :
    headTensorName k part ∈ (stubWeights n_cls levels).map Prod.fst ↔ k < levels ∧ part ∈ headParts := by
  rw [stubWeights_names, List.mem_append, mem_stubHeads_names hpart]
  refine or_iff_right fun h => ?_
  have hl := stubLayers_first h
  rw [headTensorName_toList] at hl
  simp at hl

/-- The loader counts the head levels by the names of their first tensors. -/
theorem mem_stubWeights_level {k : Nat} :
    "head/cls_convs/" ++ toString k ++ "/0/weight" ∈ (stubWeights n_cls levels).map Prod.fst ↔ k < levels := by
  have hname : "head/cls_convs/" ++ toString k ++ "/0/weight" = headTensorName k ("cls_convs", "0/weight") := by
    apply String.toList_injective
    simp [headTensorName]
  rw [hname, mem_stubWeights_head_name (by simp)]
  exact and_iff_left (by simp [headParts])

/-- The convolutions have no bias of their own. -/
theorem stubWeights_noBias {k : Nat} {branch : String} (hb : branch.toList.length = 9) :
    "head/" ++ branch ++ "/" ++ toString k ++ "/0/bias" ∉ (stubWeights n_cls levels).map Prod.fst := by
  have hname : "head/" ++ branch ++ "/" ++ toString k ++ "/0/bias" = headTensorName k (branch, "0/bias") := by
    apply String.toList_injective
    simp [headTensorName]
  rw [hname, mem_stubWeights_head_name hb, not_and]
  simp [headParts]

end All

end SslaRt
