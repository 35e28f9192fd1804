import SslaRt.StubExportSpec
import Mathlib.Algebra.Order.BigOperators.Group.List

/-! The two files of the stub export, from the script to the pipeline. -/

namespace SslaRt

open CheckedRun TextSearch

section Members

variable (args : StubArgs)

theorem intText_natCast (n : Nat) : intText (n : Int) = decimal n := by
  unfold intText
  rw [if_neg (by omega), Int.natAbs_natCast]

theorem length_decimal {n e : Nat} (he : 0 < e) (h : n < 10 ^ e) : (decimal n).length ≤ e :=
  Nat.toDigits_length 10 n e he h

theorem sum_flatMap_le {α β : Type*} {f : α → List β} {g : β → Nat} {b : Nat} {l : List α}
    (h : ∀ k ∈ l, ((f k).map g).sum ≤ b) : ((l.flatMap f).map g).sum ≤ l.length * b := by
  induction l with
  | nil => simp
  | cons k l ih =>
    have hk := h k List.mem_cons_self
    have hrest := ih fun x hx => h x (List.mem_cons_of_mem k hx)
    rw [List.flatMap_cons, List.map_append, List.sum_append, List.length_cons, Nat.succ_mul]
    omega

theorem head_params (C_in n_cls k : Nat) :
    ((buildYoloxHeadLevel C_in 96 n_cls k).map fun e => e.2.prod).sum = 192 * C_in + 97 * n_cls + 1253 := by
  simp [buildYoloxHeadLevel, convBn]
  omega

theorem stubChans_le (s : Nat) : stubChans.getD s 0 ≤ 96 := by
  by_cases h : s < 4
  · interval_cases s <;> decide
  · have hnone : stubChans[s]? = none := List.getElem?_eq_none (by simp [stubChans]; omega)
    rw [List.getD_eq_getElem?_getD, hnone]
    simp

theorem stubHeads_params {n_cls levels : Nat} (hn : n_cls < 2 ^ 31) (hle : levels ≤ 4) :
    ((stubHeads n_cls levels).map fun e => e.2.prod).sum < 2 ^ 42 := by
  have h : ((stubHeads n_cls levels).map fun e => e.2.prod).sum ≤
      (List.range levels).length * (192 * 96 + 97 * n_cls + 1253) := by
    refine sum_flatMap_le fun k _ => ?_
    have hC := stubChans_le (4 - levels + k)
    rw [show stubChans.getD 3 0 = 96 from rfl, head_params]
    omega
  rw [List.length_range] at h
  have hmul := Nat.mul_le_mul_right (192 * 96 + 97 * n_cls + 1253) hle
  omega

theorem total_params_lt : args.total_params < 2 ^ 43 := by
  have hlayers : (stubLayers.map fun e => e.2.prod).sum < 2 ^ 42 := by decide +kernel
  have hheads := stubHeads_params args.classes_lt args.levels_pos.2
  unfold StubArgs.total_params StubArgs.weights stubWeights
  rw [List.map_append, List.sum_append]
  omega

theorem stubMeta_texts : memberTexts (stubMeta args) = ["ssla_s_yolox_det".toList, "ssla".toList,
    "float32".toList, "C_order_row_major".toList, "/".toList, "stub_random".toList] := rfl

/-- The numbers of the file. -/
def stubNumbers : List Nat :=
  [1, args.h, args.w, args.num_classes, 1, args.tdrop, args.total_params]

theorem stubNumbers_lt : ∀ n ∈ stubNumbers args, n < 2 ^ 43 := by
  have hh := args.h_ge.2
  have hw := args.w_ge.2
  have hn := args.classes_lt
  have ht := args.tdrop_pos.2
  have hp := total_params_lt args
  simp only [stubNumbers, List.forall_mem_cons]
  refine ⟨by omega, by omega, by omega, by omega, by omega, by omega, hp, by simp⟩

theorem stubMeta_values : ∀ m ∈ stubMeta args,
    (∃ n ∈ stubNumbers args, m.value = .int n ∧ m.key ∉ metaTextKeys) ∨
      ∃ s, m.value = .text s ∧ s.chars ∈ memberTexts (stubMeta args) := by
  intro m hm
  cases hv : m.value with
  | text s => exact .inr ⟨s, rfl, text_mem hm hv⟩
  | int k =>
    simp only [stubMeta, List.mem_cons, List.not_mem_nil, or_false] at hm
    rcases hm with rfl | rfl | rfl | rfl | rfl | rfl | rfl | rfl | rfl | rfl | rfl | rfl | rfl <;> cases hv
    · exact .inl ⟨1, by simp [stubNumbers], rfl, (by decide : "schema_version" ∉ metaTextKeys)⟩
    · exact .inl ⟨args.h, by simp [stubNumbers], rfl, (by decide : "height" ∉ metaTextKeys)⟩
    · exact .inl ⟨args.w, by simp [stubNumbers], rfl, (by decide : "width" ∉ metaTextKeys)⟩
    · exact .inl ⟨args.num_classes, by simp [stubNumbers], rfl, (by decide : "num_classes" ∉ metaTextKeys)⟩
    · exact .inl ⟨1, by simp [stubNumbers], rfl, (by decide : "num_anchors" ∉ metaTextKeys)⟩
    · exact .inl ⟨args.tdrop, by simp [stubNumbers], rfl, (by decide : "ssla_tdrop_window" ∉ metaTextKeys)⟩
    · exact .inl ⟨args.total_params, by simp [stubNumbers], rfl, (by decide : "total_params" ∉ metaTextKeys)⟩

theorem length_membersText {ms : List JsonMember} {a b : Nat} (hkey : ∀ m ∈ ms, m.key.toList.length ≤ a)
    (hval : ∀ m ∈ ms, m.value.written.length ≤ b) : (membersText ms).length ≤ ms.length * (a + b + 8) := by
  induction ms with
  | nil => simp [membersText]
  | cons m ms ih =>
    have hm := hkey m List.mem_cons_self
    have hv := hval m List.mem_cons_self
    have hrest := ih (fun x hx => hkey x (List.mem_cons_of_mem m hx)) fun x hx => hval x (List.mem_cons_of_mem m hx)
    have hend : (memberEnd ms).length ≤ 4 := by
      rcases memberEnd_cases ms with h | h <;> rw [h] <;> decide
    have hsep : ": ".toList.length = 2 := rfl
    simp only [membersText, quoted, List.length_append, List.length_cons, List.length_nil, hsep, Nat.add_mul]
    omega

theorem stubMeta_searchable : Searchable (stubMeta args) := by
  refine ⟨?_, fun m hm hkey => ?_, fun m hm n hn => ?_, ?_⟩
  · rw [stubMeta_texts]
    decide
  · rcases stubMeta_values args m hm with ⟨n, -, -, hout⟩ | ⟨s, hs, -⟩
    · exact absurd hkey hout
    · exact ⟨s, hs⟩
  · rcases stubMeta_values args m hm with ⟨k, hk, hkv, -⟩ | ⟨s, hs, -⟩
    · have hlt := stubNumbers_lt args k hk
      rw [hn] at hkv
      obtain rfl : n = k := JsonValue.int.inj hkv
      omega
    · rw [hn] at hs
      cases hs
  · have hkeys : ∀ m ∈ stubMeta args, m.key.toList.length ≤ 20 := by
      have hall : ∀ key ∈ (stubMeta args).map JsonMember.key, key.toList.length ≤ 20 := by
        change ∀ key ∈ ["schema_version", "model", "method", "height", "width", "num_classes", "num_anchors",
          "ssla_tdrop_window", "dtype", "layout", "key_separator", "checkpoint", "total_params"], _
        decide
      exact fun m hm => hall _ (List.mem_map_of_mem hm)
    have htexts : ∀ t ∈ memberTexts (stubMeta args), t.length ≤ 20 := by
      rw [stubMeta_texts]
      decide
    have hvals : ∀ m ∈ stubMeta args, m.value.written.length ≤ 22 := by
      intro m hm
      rcases stubMeta_values args m hm with ⟨n, hn, hv, -⟩ | ⟨s, hs, hmem⟩
      · have hlt := stubNumbers_lt args n hn
        have hlen := length_decimal (n := n) (e := 20) (by decide) (by omega)
        rw [hv, JsonValue.written, intText_natCast]
        omega
      · have hlen := htexts _ hmem
        rw [hs]
        simp only [JsonValue.written, List.length_cons, List.length_append, List.length_nil]
        omega
    have hlen := length_membersText hkeys hvals
    have hthirteen : (stubMeta args).length = 13 := rfl
    have hdump : jsonDump (stubMeta args) = "\x7b\n  ".toList ++ membersText (stubMeta args) := rfl
    have hopen : "\x7b\n  ".toList.length = 4 := rfl
    rw [hdump, List.length_append, hopen]
    rw [hthirteen] at hlen
    unfold npos
    omega

/-- The settings that the pipeline takes from the file. -/
def stubInfo : ModelMeta := ⟨"ssla_s_yolox_det", args.h, args.w, args.num_classes, args.tdrop⟩

theorem bmod_int {n : Nat} (h : n < 2 ^ 31) : (n : Int).bmod (2 ^ 32) = n :=
  Int.bmod_eq_of_le (by omega) (by omega)

theorem stubMeta_info : (metaOf (stubMeta args)).toModelMeta = stubInfo args ∧
    (metaOf (stubMeta args)).schema_version = 1 := by
  have htext : textOf (stubMeta args) "model" = "ssla_s_yolox_det".toList := rfl
  have hh : intOf (stubMeta args) "height" = args.h := rfl
  have hw : intOf (stubMeta args) "width" = args.w := rfl
  have hn : intOf (stubMeta args) "num_classes" = args.num_classes := rfl
  have ht : intOf (stubMeta args) "ssla_tdrop_window" = args.tdrop := rfl
  have hv : intOf (stubMeta args) "schema_version" = 1 := rfl
  refine ⟨?_, ?_⟩
  · simp only [metaOf, metaFrom, stubInfo, htext, hh, hw, hn, ht, bmod_int args.h_ge.2, bmod_int args.w_ge.2,
      bmod_int args.classes_lt, bmod_int args.tdrop_pos.2, String.ofList_toList]
  · simp only [metaOf, metaFrom, hv]
    decide

end Members

section Zeros

variable {args : StubArgs}

theorem stubWeights_dims {n_cls levels : Nat} (hn : n_cls < 2 ^ 31) : ∀ e ∈ stubWeights n_cls levels,
    e.2 ≠ [] ∧ e.2.length ≤ 2 ∧ ∀ n ∈ e.2, n < 2 ^ 31 := by
  have hlayers : ∀ e ∈ stubLayers, e.2 ≠ [] ∧ e.2.length ≤ 2 ∧ ∀ n ∈ e.2, n < 2 ^ 31 := by decide +kernel
  intro e he
  rcases List.mem_append.mp he with he | he
  · exact hlayers e he
  · obtain ⟨k, -, hk⟩ := List.mem_flatMap.mp he
    have hC := stubChans_le (4 - levels + k)
    rw [show stubChans.getD 3 0 = 96 from rfl] at hk
    generalize stubChans.getD (4 - levels + k) 0 = C_in at hC hk
    simp only [buildYoloxHeadLevel, convBn, List.mem_append, List.mem_cons, List.not_mem_nil, or_false] at hk
    rcases hk with ((rfl | rfl | rfl | rfl | rfl) | rfl | rfl | rfl | rfl | rfl) | rfl | rfl | rfl | rfl | rfl | rfl <;>
      simp <;> omega

theorem stubWeights_ascii {n_cls levels : Nat} (hle : levels ≤ 4) : ∀ e ∈ stubWeights n_cls levels,
    e.1.toList ≠ [] ∧ (∀ c ∈ e.1.toList, c.toNat < 256) ∧ e.1.toList.length < 64 := by
  have hdigit : ∀ k < 10, (decimal k).length ≤ 1 ∧ ∀ c ∈ decimal k, c.toNat < 256 := by
    intro k hk
    refine ⟨length_decimal (by decide) hk, fun c hc => ?_⟩
    exact written_lt (.int k) c (by rwa [JsonValue.written, intText_natCast])
  have hlayer : ∀ suffix ∈ layerSuffixes, suffix.toList.length < 20 ∧ ∀ c ∈ suffix.toList, c.toNat < 256 := by
    simp [layerSuffixes]
  have hhead : ∀ part ∈ headParts, (∀ c ∈ part.1.toList, c.toNat < 256) ∧ part.2.toList.length < 20 ∧
      ∀ c ∈ part.2.toList, c.toNat < 256 := by simp [headParts]
  intro e he
  have hname := List.mem_map_of_mem (f := Prod.fst) he
  rw [stubWeights_names, List.mem_append] at hname
  rcases hname with hname | hname
  · rw [stubLayers_names] at hname
    simp only [List.mem_flatMap, List.mem_map] at hname
    obtain ⟨s, hs, suffix, hsuffix, heq⟩ := hname
    obtain ⟨hlen, hchars⟩ := hlayer suffix (List.mem_filter.mp hsuffix).1
    have hl : s.2 < 8 := List.snd_lt_of_mem_zipIdx hs
    obtain ⟨hd, hdc⟩ := hdigit s.2 (by omega)
    rw [← heq, layerTensorName_toList]
    refine ⟨by simp, ?_, ?_⟩
    · simp only [List.forall_mem_append, List.forall_mem_cons]
      exact ⟨by simp, hdc, by decide, hchars⟩
    · have hopen : "layers/".toList.length = 7 := rfl
      rw [List.length_append, List.length_append, List.length_cons, hopen]
      omega
  · unfold stubHeads at hname
    rw [List.map_flatMap] at hname
    simp only [buildHead_names, List.mem_flatMap, List.mem_map, List.mem_range] at hname
    obtain ⟨k, hk, part, hpart, heq⟩ := hname
    obtain ⟨hbranch, hlen, hchars⟩ := hhead part hpart
    have hnine := headParts_branch part hpart
    obtain ⟨hd, hdc⟩ := hdigit k (by omega)
    rw [← heq, headTensorName_toList]
    refine ⟨by simp, ?_, ?_⟩
    · simp only [List.forall_mem_append, List.forall_mem_cons]
      exact ⟨by simp, hbranch, by decide, hdc, by decide, hchars⟩
    · have hopen : "head/".toList.length = 5 := rfl
      rw [List.length_append, List.length_append, List.length_cons, List.length_append, List.length_cons, hopen]
      omega

theorem length_sizesText {shape : List Nat} (h : ∀ n ∈ shape, n < 2 ^ 31) :
    (sizesText shape).length ≤ 12 * shape.length := by
  have hdecimal : ∀ n < 2 ^ 31, (decimal n).length ≤ 10 := by
    intro n hn
    have hlt : n < 10 ^ 10 := lt_trans hn (by norm_num)
    exact length_decimal (by norm_num) hlt
  induction shape using sizesText.induct with
  | case1 => simp [sizesText]
  | case2 n =>
    have hn := hdecimal n (h n (by simp))
    simp only [sizesText, List.length_singleton]
    omega
  | case3 n ns hns ih =>
    have hn := hdecimal n (h n List.mem_cons_self)
    have hrest := ih fun m hm => h m (List.mem_cons_of_mem n hm)
    have hsep : ", ".toList.length = 2 := rfl
    rw [sizesText.eq_3 n ns hns, List.length_append, List.length_append, hsep, List.length_cons]
    omega

theorem length_tupleText {shape : List Nat} (hlen : shape.length ≤ 2) (h : ∀ n ∈ shape, n < 2 ^ 31) :
    (tupleText shape).length ≤ 25 := by
  have hsizes := length_sizesText h
  have hcomma : (if shape.length = 1 then ",".toList else []).length ≤ 1 := by
    split <;> simp
  unfold tupleText
  rw [List.length_append]
  omega

theorem length_npyHeader {shape : List Nat} (hlen : shape.length ≤ 2) (h : ∀ n ∈ shape, n < 2 ^ 31) :
    (npyHeader "<f4".toList false shape 0).length < 100 := by
  have htuple := length_tupleText hlen h
  have hopen : "\x7b'descr': '".toList.length = 11 := rfl
  have hdescr : "<f4".toList.length = 3 := rfl
  have horder : "', 'fortran_order': ".toList.length = 20 := rfl
  have hfalse : "False".toList.length = 5 := rfl
  have hshape : ", 'shape': (".toList.length = 12 := rfl
  have hclose : "), \x7d".toList.length = 4 := rfl
  unfold npyHeader
  simp only [List.length_append, List.length_replicate, List.length_singleton, hopen, hdescr, horder, hshape, hclose,
    Bool.false_eq_true, if_false, hfalse]
  omega

theorem npyBytes_size {shape : List Nat} (hprod : shape.prod < 2 ^ 43)
    (hheader : (npyHeader "<f4".toList false shape 0).length < 100) :
    (npyBytes (npyHeader "<f4".toList false shape 0) (List.replicate (4 * shape.prod) 0)).length < 2 ^ 63 := by
  rw [npyBytes_length, List.length_replicate]
  unfold npyStart
  rcases npyVersion_cases (npyHeader "<f4".toList false shape 0) with h | h <;> omega

variable (args)

theorem weights_prod {e : String × List Nat} (he : e ∈ args.weights) : e.2.prod < 2 ^ 43 := by
  have hmem : e.2.prod ∈ args.weights.map fun e => e.2.prod := List.mem_map_of_mem he
  have hle : e.2.prod ≤ args.total_params := List.single_le_sum (fun _ _ => Nat.zero_le _) _ hmem
  exact lt_of_le_of_lt hle (total_params_lt args)

theorem weights_header {e : String × List Nat} (he : e ∈ args.weights) :
    (npyHeader "<f4".toList false e.2 0).length < 100 := by
  obtain ⟨-, hlen, hdims⟩ := stubWeights_dims args.classes_lt e he
  exact length_npyHeader hlen hdims

theorem size_bounds : 64 + 4 < 2 ^ 16 ∧ 2 ^ 31 < 2 ^ 64 ∧ 2 ^ 43 < 2 ^ 61 ∧ 100 < 2 ^ 32 := by norm_num

/-- Zeros of the shape of an entry. -/
def zeroArray (e : String × List Nat) (he : e ∈ args.weights) : NpzArray where
  zip := ⟨45, 0, 0, 0, 0, true⟩
  name := e.1.toList
  descr := "<f4".toList
  fortran := false
  shape := e.2
  pad := 0
  payload := List.replicate (4 * e.2.prod) 0
  name_ne := (stubWeights_ascii args.levels_pos.2 e he).1
  name_chars := (stubWeights_ascii args.levels_pos.2 e he).2.1
  name_length := Nat.lt_trans (Nat.add_lt_add_right (stubWeights_ascii args.levels_pos.2 e he).2.2 4) size_bounds.1
  descr_quote := float32_quote
  descr_chars := float32_chars
  shape_lt := fun n hn => Nat.lt_trans ((stubWeights_dims args.classes_lt e he).2.2 n hn) size_bounds.2.1
  numel_lt := Nat.lt_trans (weights_prod args he) size_bounds.2.2.1
  header_lt := Nat.lt_trans (weights_header args he) size_bounds.2.2.2
  size_lt := npyBytes_size (weights_prod args he) (weights_header args he)

/-- The arguments have an export. -/
def zeroExport : StubExport args where
  arrays := args.weights.attach.map fun e => zeroArray args e.1 e.2
  directory := []
  named := by
    rw [List.map_map]
    refine Eq.trans (List.map_congr_left fun e _ => ?_) (List.attach_map_subtype_val _)
    simp [zeroArray]
  float32 := by
    intro a ha
    obtain ⟨e, -, rfl⟩ := List.mem_map.mp ha
    exact ⟨rfl, .inl rfl⟩
  filled := by
    intro a ha
    obtain ⟨e, -, rfl⟩ := List.mem_map.mp ha
    simp [zeroArray]
  stops := .inl (by simp)

end Zeros

section Files

variable {R : Type} (f32 : Nat → R) {args : StubArgs} (E : StubExport args)

theorem StubExport.shape_ne {a : NpzArray} (ha : a ∈ E.arrays) : a.shape ≠ [] := by
  have hmem : (String.ofList a.name, a.shape) ∈ args.weights := by
    rw [← E.named]
    exact List.mem_map_of_mem ha
  exact (stubWeights_dims args.classes_lt _ hmem).1

theorem StubExport.names_nodup : (E.arrays.map NpzArray.name).Nodup := by
  have hnames : (E.arrays.map NpzArray.name).map String.ofList = args.weights.map Prod.fst := by
    refine Eq.trans ?_ (congrArg (List.map Prod.fst) E.named)
    simp [Function.comp_def]
  have hnodup := stubWeights_nodup args.num_classes args.num_head_levels
  exact List.Nodup.of_map String.ofList (hnames ▸ hnodup)

/-- The tensors of the file. -/
def StubExport.tensors : List (List Char × NpyTensor R) := E.arrays.map fun a => (a.name, a.tensor f32)

variable {files : String → Option (List UInt8)} {dir : String}

theorem StubExport.loadWeights (h : E.WrittenTo files dir) :
    loadWeightsNpz f32 files dir = ⟨.ok (E.tensors f32), true⟩ := by
  have hfits : ∀ a ∈ E.arrays, a.Fits := fun a ha => (E.filled a ha).symm.le
  rw [loadWeightsNpz_accepted f32 E.stops h.npz_file E.float32, collect_of_nodup f32 E.names_nodup]
  exact congrArg (Checked.mk _) (by simpa using hfits)

theorem StubExport.exists_weights (h : E.WrittenTo files dir) :
    ∃ W : WeightsMap R, W.raw = E.tensors f32 ∧ ShapedAs W args.weights := by
  have hmap : NpzMap (E.tensors f32) := by
    have hret : (loadWeightsNpz f32 files dir).Returns (E.tensors f32) := by
      rw [E.loadWeights f32 h]
      rfl
    exact loadWeightsNpz_map f32 hret
  obtain ⟨W, hW⟩ := hmap.exists_raw.mpr fun e he => by
    obtain ⟨a, ha, rfl⟩ := List.mem_map.mp he
    have hlt := a.numel_lt
    simp only [NpzArray.tensor, if_neg (E.shape_ne ha)]
    omega
  refine ⟨W, hW, ?_⟩
  have hshapes := congrArg (List.map fun e => (String.ofList e.1, e.2.shape)) hW
  rw [WeightsMap.raw, StubExport.tensors, List.map_map, List.map_map] at hshapes
  refine Eq.trans ?_ (hshapes.trans (Eq.trans ?_ E.named))
  · simp [Tensor.raw, Function.comp_def]
  · refine List.map_congr_left fun a ha => ?_
    simp [NpzArray.tensor, E.shape_ne ha]

theorem StubExport.loadMeta (h : E.WrittenTo files dir) :
    (SslaRt.loadMeta files dir).Returns (metaOf (stubMeta args)) := by
  rw [loadMeta_ok (stubMeta_searchable args) h.meta_file (by rw [(stubMeta_info args).2])]
  rfl

theorem stub_dims {W : WeightsMap R} (hW : ShapedAs W args.weights) :
    ∀ l < 8, ∃ n_in n_out, LayerDims W (layerName W l) l n_in n_out := by
  intro l hl
  rw [stub_layerName hW hl]
  exact ⟨_, _, stub_layerDims hW hl⟩

variable (args) in
theorem stub_grid : (stubInfo args).gridHeight = args.h ∧ (stubInfo args).gridWidth = args.w ∧
    (stubInfo args).classCount = args.num_classes := by
  have hh := args.h_ge.1
  have hw := args.w_ge.1
  refine ⟨if_pos ?_, if_pos ?_, if_pos (Int.natCast_pos.mpr args.classes_pos.1)⟩
  · exact Int.natCast_pos.mpr (by omega)
  · exact Int.natCast_pos.mpr (by omega)

theorem stub_level (data_null : Bool) {W : WeightsMap R} (hW : ShapedAs W args.weights) {k : Nat}
    (hk : k < numHeadLevels W) : LoadedPipeline.LevelSized data_null (stubInfo args) W k := by
  have hle := args.levels_pos.2
  have hlevels := stub_numHeadLevels hW hle
  rw [hlevels] at hk
  unfold LoadedPipeline.LevelSized
  rw [hlevels, (stub_grid args).2.2]
  have hC := chans_bounds (4 - args.num_head_levels + k)
  exact (stub_headDims hW hle hk).sized data_null (by omega)

/-- The first level has at most the cells of the grid, each other one a quarter of them. -/
theorem anchorCount_le {levels : Nat} (height width : Nat) (hle : levels ≤ 4) :
    anchorCount height width levels ≤ 2 * (height * width) := by
  cases levels with
  | zero => exact Nat.zero_le _
  | succ n =>
    have hquarter : ∀ m ∈ (List.range n).map
        fun k => height / 2 ^ (4 - (n + 1) + (k + 1)) * (width / 2 ^ (4 - (n + 1) + (k + 1))),
        m ≤ height * width / 4 := by
      intro m hm
      obtain ⟨k, -, rfl⟩ := List.mem_map.mp hm
      rw [Nat.le_div_iff_mul_le (by norm_num), ← Nat.add_assoc, Nat.pow_succ]
      calc height / (2 ^ (4 - (n + 1) + k) * 2) * (width / (2 ^ (4 - (n + 1) + k) * 2)) * 4
          ≤ height / 2 * (width / 2) * 4 := by
            refine Nat.mul_le_mul_right 4 (Nat.mul_le_mul ?_ ?_) <;>
              exact Nat.div_le_div_left (Nat.le_mul_of_pos_left 2 (Nat.two_pow_pos _)) (by norm_num)
        _ = height / 2 * 2 * (width / 2 * 2) := by ring
        _ ≤ height * width := Nat.mul_le_mul (Nat.div_mul_le_self _ _) (Nat.div_mul_le_self _ _)
    have hfirst : height / 2 ^ (4 - (n + 1) + 0) * (width / 2 ^ (4 - (n + 1) + 0)) ≤ height * width :=
      Nat.mul_le_mul (Nat.div_le_self _ _) (Nat.div_le_self _ _)
    have hrest := List.sum_le_card_nsmul _ _ hquarter
    rw [List.length_map, List.length_range, smul_eq_mul] at hrest
    have hthree : n * (height * width / 4) ≤ 3 * (height * width / 4) := Nat.mul_le_mul_right _ (by omega)
    unfold anchorCount
    rw [List.range_succ_eq_map, List.map_cons, List.sum_cons, List.map_map]
    simp only [Function.comp_def, Nat.succ_eq_add_one]
    omega

theorem staticCastSize_of_lt {n m : Nat} (h : n ≤ m) (hm : m < 2 ^ 64) : staticCastSize n ≤ m := by
  unfold staticCastSize
  omega

/-- Below `2 ^ 29` cells and `2 ^ 31` columns of a prediction every vector is legal. -/
theorem vectorsFit_of_lt {height width n_cls levels : Nat} (hcells : height * width < 2 ^ 29)
    (hn : 5 + n_cls < 2 ^ 31) (hle : levels ≤ 4) : VectorsFit height width n_cls levels := by
  have hstage : ∀ s, height / 2 ^ s * (width / 2 ^ s) < 2 ^ 29 := fun s =>
    lt_of_le_of_lt (Nat.mul_le_mul (Nat.div_le_self _ _) (Nat.div_le_self _ _)) hcells
  have hcount := anchorCount_le height width hle
  unfold VectorsFit loadVectors
  simp only [List.forall_mem_append, List.forall_mem_map, List.forall_mem_cons]
  refine ⟨⟨fun l _ => ?_, fun s _ => ?_⟩, ?_, ?_, ?_, by simp⟩
  · have hdim : height / 2 ^ (l / 2) * (width / 2 ^ (l / 2)) * outDim l ≤ 2 ^ 29 * 96 :=
      Nat.mul_le_mul (hstage _).le (outDim_bounds l).2
    exact staticCastSize_of_lt (hdim.trans (by norm_num)) (by norm_num)
  · exact staticCastSize_of_lt ((hstage (s + 1)).le.trans (by norm_num)) (by norm_num)
  · exact staticCastSize_of_lt (by omega) (by norm_num)
  · exact staticCastSize_of_lt ((hstage 0).le.trans (by norm_num)) (by norm_num)
  · have hprod : anchorCount height width levels * (5 + n_cls) ≤ (2 ^ 30 - 1) * (2 ^ 31 - 1) :=
      Nat.mul_le_mul (by omega) (by omega)
    rw [staticCastInt_of_lt (by omega), staticCastInt_of_lt hn, ← Nat.cast_mul]
    exact staticCastSize_of_lt (hprod.trans (by norm_num)) (by norm_num)

theorem stub_rows {W : WeightsMap R} (hW : ShapedAs W args.weights) :
    RowsFit (stubInfo args).gridHeight (stubInfo args).gridWidth (numHeadLevels W) := by
  have hcount := anchorCount_le args.h args.w args.levels_pos.2
  have hcells := args.cells_lt
  rw [(stub_grid args).1, (stub_grid args).2.1, stub_numHeadLevels hW args.levels_pos.2]
  exact .inr (by omega)

theorem stub_accepted {W : WeightsMap R} (hW : ShapedAs W args.weights) : LoadAccepts (stubInfo args) W := by
  have hlevels := stub_numHeadLevels hW args.levels_pos.2
  obtain ⟨hgridH, hgridW, hclasses⟩ := stub_grid args
  refine ⟨rfl, by rw [stub_indices hW]; rfl, fun l hl => ?_, ?_, ?_, fun k hk => ?_, ?_⟩
  · obtain ⟨n_in, n_out, h⟩ := stub_dims hW l hl
    exact h.accepted
  · rw [hlevels]
    exact args.levels_pos.1.ne'
  · rw [hgridH, hgridW]
    exact ⟨args.h_ge.1, args.w_ge.1⟩
  · obtain ⟨T, hT, -⟩ := stub_level true hW hk
    exact ⟨T, hT⟩
  · rw [hgridH, hgridW, hclasses, hlevels]
    exact vectorsFit_of_lt args.cells_lt args.classes_pos.2 args.levels_pos.2

variable (P : LoadedPipeline R)

theorem stub_settings : (LoadedPipeline.headless (P.setMeta (stubInfo args)) W).settings =
    (args.h, args.w, args.num_classes, (args.tdrop : Int), numHeadLevels W) := by
  obtain ⟨hgridH, hgridW, hclasses⟩ := stub_grid args
  have ht : (stubInfo args).ssla_tdrop_window > 0 := Int.natCast_pos.mpr args.tdrop_pos.1
  simp only [LoadedPipeline.settings, LoadedPipeline.headless, LoadedPipeline.setMeta, hgridH, hgridW, hclasses,
    if_pos ht]
  rfl

variable [CommRing R] (data_null : Bool) (rsqrt : R → R)

/-- The stub export of any values is loaded without an error and without an access outside
a tensor. The pipeline has the settings of the script; its layers are well formed and its
head levels made for the stages that they read, so that no event reads outside a buffer;
and the layers satisfy the schema of the fused ones. -/
theorem stubExport_loads (hfiles : E.WrittenTo files dir) (hP : ∀ l, (P.layers_ l).Transposed (outDim l)) :
    ∃ info W P', (loadMeta files dir).Returns info ∧ (loadWeightsNpz f32 files dir).Returns W.raw ∧
      (loadWeightsNpz f32 files dir).Safe ∧ W.raw = E.tensors f32 ∧
      (P.load data_null rsqrt info.toModelMeta W).Returns P' ∧ (P.load data_null rsqrt info.toModelMeta W).Safe ∧
      P'.settings = (args.h, args.w, args.num_classes, (args.tdrop : Int), args.num_head_levels) ∧
      (∀ l < 8, LayerWellFormed W (layerName W l) l (P'.layers_ l)) ∧
      (∀ call, P'.CallInGrid call → AllOk (P'.forwardReads data_null call)) ∧
      (∀ k < args.num_head_levels, HeadDims W k (chans (4 - args.num_head_levels + k)) args.num_classes) ∧
      ∀ ar castFloat, (P'.pipeline ar castFloat).Schema := by
  obtain ⟨W, hraw, hW⟩ := E.exists_weights f32 hfiles
  have hinfo := (stubMeta_info args).1
  have hweights := E.loadWeights f32 hfiles
  obtain ⟨P', hP'⟩ := (LoadedPipeline.load_returns data_null rsqrt P (stubInfo args)).mpr (stub_accepted hW)
  obtain ⟨hsafe, hwf, hreads⟩ := LoadedPipeline.loadSound_of_dims data_null rsqrt P (stubInfo args) (stub_dims hW)
    (fun _ hk => stub_level data_null hW hk) (stub_rows hW) P' hP'
  have hset := LoadedPipeline.load_settings data_null rsqrt P (stubInfo args) hP'
  rw [stub_settings, stub_numHeadLevels hW args.levels_pos.2] at hset
  refine ⟨metaOf (stubMeta args), W, P', E.loadMeta hfiles, ?_, ?_, hraw, ?_, ?_, hset, hwf, hreads,
    fun k hk => stub_headDims hW args.levels_pos.2 hk, fun ar castFloat => ?_⟩
  · rw [hweights, hraw]
    rfl
  · rw [hweights]
    rfl
  · rw [hinfo]
    exact hP'
  · rw [hinfo]
    exact hsafe
  · refine LoadedPipeline.load_schema data_null rsqrt P (stubInfo args) hP' hP (stub_dims hW) (fun l hl heq => ?_)
      ar castFloat
    have hnone := fun h => stubWeights_noProjection heq (hW.isSome_iff.mp h)
    rw [stub_layerName hW hl]
    simpa using hnone

section Probe

def probeArgs : StubArgs := ⟨64, 80, 2, 4, 1, by norm_num, by norm_num, by norm_num, by norm_num, by norm_num, by norm_num⟩

def probeExportFiles (path : String) : Option (List UInt8) :=
  some (if path = "meta.json" then (zeroExport probeArgs).metaJson else (zeroExport probeArgs).npz)

theorem probeExport_written : (zeroExport probeArgs).WrittenTo probeExportFiles "" := ⟨rfl, rfl⟩

theorem newPipeline_transposed : ∀ l, (newPipeline.layers_ l).Transposed (outDim l) := by
  intro l p i j _ _
  rfl

theorem stubExport_loads_probe : ∃ info W P', (loadMeta probeExportFiles "").Returns info ∧
    (loadWeightsNpz Int.ofNat probeExportFiles "").Returns W.raw ∧
    (newPipeline.load true id info.toModelMeta W).Returns P' ∧ P'.settings = (64, 80, 2, 4, 1) := by
  obtain ⟨info, W, P', hinfo, hW, -, -, hP', -, hset, -⟩ := stubExport_loads Int.ofNat (zeroExport probeArgs) newPipeline
    true id probeExport_written newPipeline_transposed
  exact ⟨info, W, P', hinfo, hW, hP', hset⟩

end Probe

end Files

end SslaRt
