import SslaRt.LoadPipeline
import SslaRt.ReadAccess
import SslaRt.ShardLayer

/-! The indices at which the forward calls read the weight buffers. -/

namespace SslaRt

variable {R : Type*}

def layernormReads (DIM : Nat) (gamma beta : List R) : List ReadAccess :=
  (List.range DIM).flatMap fun i => [⟨gamma.length, i⟩, ⟨beta.length, i⟩]

section Layer

variable (IN OUT : Nat) (L : LayerBufs R)

/-- An entry of an array of nine buffers, and then the buffer. -/
def patchReads (goW : Nat → List R) (pos : Nat) : List ReadAccess :=
  ⟨kPatchArea, pos⟩ :: matvecReads IN (3 * OUT) (L.qvgIn pos) ++
    ⟨kPatchArea, pos⟩ :: matvecReads OUT OUT (goW pos)

def residualReads : List ReadAccess :=
  if L.input_proj = [] then [] else matvecReads IN OUT L.input_proj

def finalizeReads : List ReadAccess :=
  residualReads IN OUT L ++ layernormReads OUT L.ln_gamma L.ln_beta

/-- `layer_forward_ct` and `layer_forward_locked_ct`. -/
def layerForwardReads (ev_x ev_y Hl Wl : Nat) : List ReadAccess :=
  residualReads IN OUT L ++
    (patchOrder L.num_pos.toNat ev_x ev_y Hl Wl).flatMap (fun c => patchReads IN OUT L L.goW c.2) ++
    layernormReads OUT L.ln_gamma L.ln_beta

def shardLayerReads (owned_patch_mask : BitVec 16) (ev_x ev_y Hl Wl : Nat) : List ReadAccess :=
  (shardPatches L.num_pos.toNat owned_patch_mask ev_x ev_y Hl Wl).flatMap
    fun c => patchReads IN OUT L L.goW c.2

/-- A fused layer reads the projection without a test for an empty one. -/
def fusedReads (proj : Bool) (goW : Nat → List R) (positions : List Nat) : List ReadAccess :=
  (if proj then matvecReads IN OUT L.input_proj else []) ++
    positions.flatMap (patchReads IN OUT L goW) ++ layernormReads OUT L.ln_gamma L.ln_beta

/-- The state-only layers; the tiled one reads the rows of v and g only. -/
def stateOnlyReads (lo : Nat) (positions : List Nat) : List ReadAccess :=
  positions.flatMap fun pos => ⟨kPatchArea, pos⟩ :: rowReads IN lo (3 * OUT) (L.qvgIn pos)

end Layer

inductive ForwardCall
  | stage_forward (stage : Fin 4) (ev_x ev_y : Nat)
  | stage_forward_state_only (stage : Fin 4) (ev_x ev_y : Nat)
  | layer_forward (layer_idx : Fin 8) (ev_x ev_y : Nat)
  | shard_layer_forward (layer_idx : Fin 2) (ev_x ev_y : Nat) (owned_patch_mask : BitVec 16)
  | layer_finalize (layer_idx : Fin 2)
  | layer_forward_locked (layer_idx : Fin 8) (ev_x ev_y : Nat)
  | stage_forward_locked (stage : Fin 4) (ev_x ev_y : Nat)
  | head_decode_cell (stage : Fin 4) (gx gy : Nat)
  | head_decode_cell_locked (stage : Fin 4) (gx gy : Nat)

namespace LoadedPipeline

variable (P : LoadedPipeline R)

def InGrid (stage ev_x ev_y : Nat) : Prop := ev_x < P.Ws_ stage ∧ ev_y < P.Hs_ stage

def layerReads (l ev_x ev_y : Nat) : List ReadAccess :=
  layerForwardReads (inDim l) (outDim l) (P.layers_ l) ev_x ev_y (P.Hs_ (l / 2)) (P.Ws_ (l / 2))

def stageReads (stage : Fin 4) (ev_x ev_y : Nat) : List ReadAccess :=
  match stage with
  | 0 =>
    if Interior ev_x ev_y (P.Hs_ 0) (P.Ws_ 0) then
      fusedReads kInDim kC0 (P.layers_ 0) true (P.layers_ 0).goW [0] ++
        fusedReads kC0 kC0 (P.layers_ 1) false (P.layers_ 1).goW deltaArr
    else P.layerReads 0 ev_x ev_y ++ P.layerReads 1 ev_x ev_y
  | 1 =>
    if Interior ev_x ev_y (P.Hs_ 1) (P.Ws_ 1) then
      fusedReads kC0 kC1 (P.layers_ 2) true (P.layers_ 2).goW_T deltaArr ++
        fusedReads kC1 kC1 (P.layers_ 3) false (P.layers_ 3).goW_T deltaArr
    else P.layerReads 2 ev_x ev_y ++ P.layerReads 3 ev_x ev_y
  | 2 => P.layerReads 4 ev_x ev_y ++ P.layerReads 5 ev_x ev_y
  | 3 => P.layerReads 6 ev_x ev_y ++ P.layerReads 7 ev_x ev_y

def stageStateOnlyReads (stage : Fin 4) (ev_x ev_y : Nat) : List ReadAccess :=
  match stage with
  | 0 =>
    if Interior ev_x ev_y (P.Hs_ 0) (P.Ws_ 0) then
      fusedReads kInDim kC0 (P.layers_ 0) true (P.layers_ 0).goW [0] ++
        stateOnlyReads kC0 kC0 (P.layers_ 1) 0 deltaArr
    else P.stageReads 0 ev_x ev_y
  | 1 =>
    if Interior ev_x ev_y (P.Hs_ 1) (P.Ws_ 1) then
      fusedReads kC0 kC1 (P.layers_ 2) true (P.layers_ 2).goW_T deltaArr ++
        stateOnlyReads kC1 kC1 (P.layers_ 3) kC1 deltaArr
    else P.stageReads 1 ev_x ev_y
  | 2 => P.stageReads 2 ev_x ev_y
  | 3 => P.stageReads 3 ev_x ev_y

def headLevel (stage : Nat) : Option Nat :=
  (List.range P.num_head_levels_).find? fun k => P.head_stage_idx_ k = stage

/-- A cell outside the grid of the level is left alone. -/
def headReads (data_null : Bool) (stage gx gy : Nat) : List ReadAccess :=
  match P.headLevel stage with
  | none => []
  | some level => if gx ≥ P.Ws_ stage ∨ gy ≥ P.Hs_ stage then [] else P.levelReads data_null level

/-- The accesses of one call on an event inside the grid. -/
def forwardReads (data_null : Bool) : ForwardCall → List ReadAccess
  | .stage_forward stage ev_x ev_y => P.stageReads stage ev_x ev_y
  | .stage_forward_state_only stage ev_x ev_y => P.stageStateOnlyReads stage ev_x ev_y
  | .layer_forward layer_idx ev_x ev_y => P.layerReads layer_idx ev_x ev_y
  | .shard_layer_forward layer_idx ev_x ev_y owned_patch_mask =>
    shardLayerReads (inDim layer_idx) (outDim layer_idx) (P.layers_ layer_idx) owned_patch_mask
      ev_x ev_y (P.Hs_ 0) (P.Ws_ 0)
  | .layer_finalize layer_idx =>
    finalizeReads (inDim layer_idx) (outDim layer_idx) (P.layers_ layer_idx)
  | .layer_forward_locked layer_idx ev_x ev_y => P.layerReads layer_idx ev_x ev_y
  | .stage_forward_locked stage ev_x ev_y =>
    P.layerReads (2 * stage) ev_x ev_y ++ P.layerReads (2 * stage + 1) ev_x ev_y
  | .head_decode_cell stage gx gy => P.headReads data_null stage gx gy
  | .head_decode_cell_locked stage gx gy => P.headReads data_null stage gx gy

def CallInGrid : ForwardCall → Prop
  | .stage_forward stage ev_x ev_y => P.InGrid stage ev_x ev_y
  | .stage_forward_state_only stage ev_x ev_y => P.InGrid stage ev_x ev_y
  | .layer_forward layer_idx ev_x ev_y => P.InGrid (layer_idx / 2) ev_x ev_y
  | .shard_layer_forward _ ev_x ev_y _ => P.InGrid 0 ev_x ev_y
  | .layer_finalize _ => True
  | .layer_forward_locked layer_idx ev_x ev_y => P.InGrid (layer_idx / 2) ev_x ev_y
  | .stage_forward_locked stage ev_x ev_y => P.InGrid stage ev_x ev_y
  | .head_decode_cell stage gx gy => P.InGrid stage gx gy
  | .head_decode_cell_locked stage gx gy => P.InGrid stage gx gy

end LoadedPipeline

/-! ### Buffers of the right size -/

/-- What the forward pass needs of the buffers of layer `l`. -/
structure LayerBufs.Sized (L : LayerBufs R) (l : Nat) : Prop where
  num_pos : L.num_pos = 1 ∨ L.num_pos = 9
  single : l = 0 → L.num_pos = 1
  nine : 1 ≤ l → l ≤ 3 → L.num_pos = 9
  qvgIn : ∀ p : Nat, p < L.num_pos → (L.qvgIn p).length = 3 * outDim l * inDim l
  goW : ∀ p : Nat, p < L.num_pos → (L.goW p).length = outDim l * outDim l
  goW_T : ∀ p : Nat, p < L.num_pos → (L.goW_T p).length = outDim l * outDim l
  input_proj : L.input_proj ≠ [] → L.input_proj.length = outDim l * inDim l
  projected : inDim l ≠ outDim l → L.input_proj ≠ []
  ln_gamma : L.ln_gamma.length = outDim l
  ln_beta : L.ln_beta.length = outDim l

theorem layernormReads_ok {DIM : Nat} {gamma beta : List R} (hg : gamma.length = DIM)
    (hb : beta.length = DIM) : AllOk (layernormReads DIM gamma beta) := by
  refine allOk_flatMap fun i hi => ?_
  have hlt := List.mem_range.mp hi
  refine AllOk.cons ?_ (AllOk.cons ?_ fun a ha => absurd ha List.not_mem_nil)
  · exact hlt.trans_eq hg.symm
  · exact hlt.trans_eq hb.symm

theorem patchOrder_pos {num_pos ev_x ev_y Hl Wl : Nat} {c : Nat × Nat}
    (hc : c ∈ patchOrder num_pos ev_x ev_y Hl Wl) : c.2 < if num_pos = 1 then 1 else 9 := by
  by_cases hp : num_pos = 1
  · rw [patchOrder, if_pos hp, List.mem_singleton] at hc
    subst hc
    rw [if_pos hp]
    exact Nat.zero_lt_one
  · rw [patchOrder_eq hp] at hc
    obtain ⟨d, hd, hn⟩ := List.mem_filterMap.mp hc
    obtain ⟨rfl, -⟩ := neighbour_eq_some.mp hn
    rw [if_neg hp]
    simp only [List.mem_cons, List.not_mem_nil, or_false] at hd
    omega

theorem shardPatches_pos {num_pos ev_x ev_y Hl Wl : Nat} {mask : BitVec 16} {c : Nat × Nat}
    (hc : c ∈ shardPatches num_pos mask ev_x ev_y Hl Wl) : c.2 < if num_pos = 1 then 1 else 9 := by
  unfold shardPatches at hc
  by_cases hp : num_pos = 1
  · rw [if_pos hp] at hc
    rw [if_pos hp]
    split at hc
    · obtain rfl := List.mem_singleton.mp hc
      exact Nat.zero_lt_one
    · exact absurd hc List.not_mem_nil
  · rw [if_neg hp] at hc
    rw [if_neg hp]
    obtain ⟨p, hp9, hsome⟩ := List.mem_filterMap.mp hc
    have hlt := List.mem_range.mp hp9
    split at hsome
    · obtain ⟨cell, -, rfl⟩ := Option.map_eq_some_iff.mp hsome
      exact hlt
    · exact absurd hsome (by simp)

namespace LayerBufs.Sized

variable {L : LayerBufs R} {l : Nat} (hL : L.Sized l)

include hL

theorem pos_lt {p : Nat} (hp : p < if L.num_pos.toNat = 1 then 1 else 9) :
    (p : Int) < L.num_pos := by
  obtain h | h := hL.num_pos
  · rw [h] at hp ⊢
    simp only [Int.toNat_one, if_true] at hp
    omega
  · rw [h] at hp ⊢
    have h9 : (9 : Int).toNat ≠ 1 := by decide
    rw [if_neg h9] at hp
    omega

theorem lt_patchArea {p : Nat} (hp : (p : Int) < L.num_pos) : p < kPatchArea := by
  have h9 : L.num_pos ≤ 9 := by
    obtain h | h := hL.num_pos <;> omega
  exact Int.ofNat_lt.mp (hp.trans_le h9)

theorem patchReads_ok {goW : Nat → List R}
    (hgo : ∀ p : Nat, p < L.num_pos → (goW p).length = outDim l * outDim l) {p : Nat}
    (hp : (p : Int) < L.num_pos) : AllOk (patchReads (inDim l) (outDim l) L goW p) := by
  have h9 := hL.lt_patchArea hp
  exact AllOk.append (AllOk.cons h9 (rowReads_ok (hL.qvgIn p hp).ge))
    (AllOk.cons h9 (rowReads_ok (hgo p hp).ge))

theorem residualReads_ok : AllOk (residualReads (inDim l) (outDim l) L) := by
  unfold residualReads
  split
  · exact fun a ha => absurd ha List.not_mem_nil
  · next h => exact rowReads_ok (hL.input_proj h).ge

theorem norm_ok : AllOk (layernormReads (outDim l) L.ln_gamma L.ln_beta) :=
  layernormReads_ok hL.ln_gamma hL.ln_beta

theorem layerForwardReads_ok (ev_x ev_y Hl Wl : Nat) :
    AllOk (layerForwardReads (inDim l) (outDim l) L ev_x ev_y Hl Wl) := by
  refine (hL.residualReads_ok.append (allOk_flatMap fun c hc => ?_)).append hL.norm_ok
  exact hL.patchReads_ok hL.goW (hL.pos_lt (patchOrder_pos hc))

theorem shardLayerReads_ok (mask : BitVec 16) (ev_x ev_y Hl Wl : Nat) :
    AllOk (shardLayerReads (inDim l) (outDim l) L mask ev_x ev_y Hl Wl) :=
  allOk_flatMap fun _ hc => hL.patchReads_ok hL.goW (hL.pos_lt (shardPatches_pos hc))

theorem fusedReads_ok {proj : Bool} {goW : Nat → List R} {positions : List Nat}
    (hproj : proj = true → inDim l ≠ outDim l)
    (hgo : ∀ p : Nat, p < L.num_pos → (goW p).length = outDim l * outDim l)
    (hpos : ∀ p ∈ positions, (p : Int) < L.num_pos) :
    AllOk (fusedReads (inDim l) (outDim l) L proj goW positions) := by
  refine AllOk.append (AllOk.append ?_ ?_) hL.norm_ok
  · split
    · next h => exact rowReads_ok (hL.input_proj (hL.projected (hproj h))).ge
    · exact fun a ha => absurd ha List.not_mem_nil
  · exact allOk_flatMap fun p hp => hL.patchReads_ok hgo (hpos p hp)

theorem stateOnlyReads_ok {lo : Nat} {positions : List Nat}
    (hpos : ∀ p ∈ positions, (p : Int) < L.num_pos) :
    AllOk (stateOnlyReads (inDim l) (outDim l) L lo positions) := by
  refine allOk_flatMap fun p hp => ?_
  have h9 := hL.lt_patchArea (hpos p hp)
  exact AllOk.cons h9 (rowReads_ok (hL.qvgIn p (hpos p hp)).ge)

end LayerBufs.Sized

theorem mem_deltaArr {p : Nat} (hp : p ∈ deltaArr) : (p : Int) < 9 := by
  simp only [deltaArr, List.mem_cons, List.not_mem_nil, or_false] at hp
  omega

namespace LoadedPipeline

section Grid

variable (P : LoadedPipeline R)

theorem Hs_pos {s : Nat} (h : 0 < P.Hs_ 3) (hs : s ≤ 3) : 0 < P.Hs_ s :=
  h.trans_le (Nat.div_le_div_left (Nat.pow_le_pow_right (by decide) hs) (Nat.two_pow_pos s))

theorem Ws_pos {s : Nat} (h : 0 < P.Ws_ 3) (hs : s ≤ 3) : 0 < P.Ws_ s :=
  h.trans_le (Nat.div_le_div_left (Nat.pow_le_pow_right (by decide) hs) (Nat.two_pow_pos s))

theorem headLevel_stage {k : Nat} (hk : k < P.num_head_levels_) :
    P.headLevel (P.head_stage_idx_ k) = some k := by
  refine List.find?_range_eq_some.mpr ⟨by simp, List.mem_range.mpr hk, fun j hj => ?_⟩
  unfold head_stage_idx_
  simp
  omega

end Grid

variable {P : LoadedPipeline R} (hP : ∀ l < 8, (P.layers_ l).Sized l)

include hP

theorem layerReads_ok {l : Nat} (hl : l < 8) (ev_x ev_y : Nat) : AllOk (P.layerReads l ev_x ev_y) :=
  (hP l hl).layerForwardReads_ok ev_x ev_y _ _

theorem delta_pos {l : Nat} (h1 : 1 ≤ l) (h3 : l ≤ 3) (p : Nat) (hp : p ∈ deltaArr) :
    (p : Int) < (P.layers_ l).num_pos := by
  rw [(hP l (by omega)).nine h1 h3]
  exact mem_deltaArr hp

theorem first_ok : AllOk (fusedReads kInDim kC0 (P.layers_ 0) true (P.layers_ 0).goW [0]) := by
  have h0 := hP 0 (by decide)
  refine h0.fusedReads_ok (fun _ => by decide) h0.goW fun p hp => ?_
  rw [h0.single rfl, List.mem_singleton.mp hp]
  decide

theorem second_ok : AllOk (fusedReads kC0 kC1 (P.layers_ 2) true (P.layers_ 2).goW_T deltaArr) := by
  have h2 := hP 2 (by decide)
  exact h2.fusedReads_ok (fun _ => by decide) h2.goW_T (delta_pos hP (by decide) (by decide))

theorem stageReads_ok (stage : Fin 4) (ev_x ev_y : Nat) : AllOk (P.stageReads stage ev_x ev_y) := by
  have h1 := hP 1 (by decide)
  have h3 := hP 3 (by decide)
  match stage with
  | 0 =>
    change AllOk (ite _ _ _)
    split
    · exact (first_ok hP).append (h1.fusedReads_ok (fun h => absurd h Bool.false_ne_true) h1.goW
        (delta_pos hP (by decide) (by decide)))
    · exact (layerReads_ok hP (by decide) _ _).append (layerReads_ok hP (by decide) _ _)
  | 1 =>
    change AllOk (ite _ _ _)
    split
    · exact (second_ok hP).append (h3.fusedReads_ok (fun h => absurd h Bool.false_ne_true) h3.goW_T
        (delta_pos hP (by decide) (by decide)))
    · exact (layerReads_ok hP (by decide) _ _).append (layerReads_ok hP (by decide) _ _)
  | 2 => exact (layerReads_ok hP (by decide) _ _).append (layerReads_ok hP (by decide) _ _)
  | 3 => exact (layerReads_ok hP (by decide) _ _).append (layerReads_ok hP (by decide) _ _)

theorem stageStateOnlyReads_ok (stage : Fin 4) (ev_x ev_y : Nat) :
    AllOk (P.stageStateOnlyReads stage ev_x ev_y) := by
  match stage with
  | 0 =>
    change AllOk (ite _ _ _)
    split
    · exact (first_ok hP).append ((hP 1 (by decide)).stateOnlyReads_ok
        (delta_pos hP (by decide) (by decide)))
    · exact stageReads_ok hP 0 ev_x ev_y
  | 1 =>
    change AllOk (ite _ _ _)
    split
    · exact (second_ok hP).append ((hP 3 (by decide)).stateOnlyReads_ok
        (delta_pos hP (by decide) (by decide)))
    · exact stageReads_ok hP 1 ev_x ev_y
  | 2 => exact stageReads_ok hP 2 ev_x ev_y
  | 3 => exact stageReads_ok hP 3 ev_x ev_y

omit hP in
/-- The decoder reads inside the buffers in every cell exactly if those of each level fit. -/
theorem headReads_iff (data_null : Bool) (hle : P.num_head_levels_ ≤ 4) (hH : 0 < P.Hs_ 3) (hW : 0 < P.Ws_ 3) :
    (∀ (stage : Fin 4) gx gy, P.InGrid stage gx gy → AllOk (P.headReads data_null stage gx gy)) ↔
      ∀ k < P.num_head_levels_,
        (P.head_ k).Fits data_null (chans (P.head_stage_idx_ k)) kC3 P.num_classes_ := by
  have hread : ∀ k, AllOk (P.levelReads data_null k) ↔
      (P.head_ k).Fits data_null (chans (P.head_stage_idx_ k)) kC3 P.num_classes_ :=
    fun k => decodeReads_iff data_null _ _ _ _
  constructor
  · intro h k hk
    have hidx : P.head_stage_idx_ k < 4 := by
      unfold head_stage_idx_
      omega
    have hpos : 0 < P.Ws_ (P.head_stage_idx_ k) ∧ 0 < P.Hs_ (P.head_stage_idx_ k) :=
      ⟨P.Ws_pos hW (by omega), P.Hs_pos hH (by omega)⟩
    have hcell := h ⟨P.head_stage_idx_ k, hidx⟩ 0 0 hpos
    unfold headReads at hcell
    rw [P.headLevel_stage hk] at hcell
    dsimp only at hcell
    rw [if_neg (by omega)] at hcell
    exact (hread k).mp hcell
  · intro h stage gx gy _
    unfold headReads
    cases hlevel : P.headLevel stage with
    | none => exact .nil
    | some k =>
      have hk := List.mem_range.mp (List.mem_of_find?_eq_some hlevel)
      dsimp only
      split
      · exact .nil
      · exact (hread k).mpr (h k hk)

theorem forwardReads_ok {data_null : Bool}
    (hhead : ∀ (stage : Fin 4) gx gy, P.InGrid stage gx gy → AllOk (P.headReads data_null stage gx gy))
    (call : ForwardCall) (hcall : P.CallInGrid call) : AllOk (P.forwardReads data_null call) := by
  cases call with
  | stage_forward stage ev_x ev_y => exact stageReads_ok hP stage ev_x ev_y
  | stage_forward_state_only stage ev_x ev_y => exact stageStateOnlyReads_ok hP stage ev_x ev_y
  | layer_forward l ev_x ev_y => exact layerReads_ok hP l.isLt ev_x ev_y
  | shard_layer_forward l ev_x ev_y mask =>
    exact (hP l (by omega)).shardLayerReads_ok mask ev_x ev_y _ _
  | layer_finalize l =>
    have hl := hP l (by omega)
    exact hl.residualReads_ok.append hl.norm_ok
  | layer_forward_locked l ev_x ev_y => exact layerReads_ok hP l.isLt ev_x ev_y
  | stage_forward_locked stage ev_x ev_y =>
    exact (layerReads_ok hP (by omega) _ _).append (layerReads_ok hP (by omega) _ _)
  | head_decode_cell stage gx gy => exact hhead stage gx gy hcall
  | head_decode_cell_locked stage gx gy => exact hhead stage gx gy hcall

end LoadedPipeline

end SslaRt
