import SslaRt.GpuWeights
import SslaRt.Interleave

/-! One layer of the cell-owner kernel. Nine warps walk the batch at their own
pace; warp `w` updates the cells `(cy, cx)` with `(cy + 1) % 3 = w / 3` and
`(cx + 1) % 3 = w % 3`. Every interleaving of the warps has the effect of
stepping the events one at a time with the reference layer. -/

namespace SslaRt

open CellMemory Interleave

variable {R : Type*} [CommRing R]

abbrev N_WARPS : Nat := 9

structure EventSlot (R : Type*) where
  in_feat : Nat → R
  residual : Nat → R
  evx : Nat
  evy : Nat
  is_owner : Bool

/-- `mask == NULL || mask[e] != 0`. -/
def selected (mask : Option (Nat → Bool)) (e : Nat) : Bool :=
  match mask with
  | none => true
  | some m => m e

/-- One warp per event of the batch runs `f` on the slot of this event. -/
def perEventWarp (batch_size : Nat) (f : Nat → EventSlot R → EventSlot R)
    (event_slots : Nat → EventSlot R) : Nat → EventSlot R :=
  fun e => if e < N_WARPS ∧ e < batch_size then f e (event_slots e) else event_slots e

/-- The signed offset from `ev` to the coordinate of the 3x3 patch owned by `own`. -/
def warpOffset (own ev : Nat) : Int := Int.tmod (Int.tmod ((own : Int) - ev) 3 + 3) 3 - 1

def patchTask (Hl Wl : Nat) (warp_id : Fin N_WARPS) (evx evy : Nat) : Option (Nat × Nat) :=
  let own_y := warp_id.val / 3
  let own_x := warp_id.val % 3
  let dy := warpOffset own_y evy
  let dx := warpOffset own_x evx
  let py : Int := evy + dy
  let px : Int := evx + dx
  if py < 0 ∨ py ≥ Hl ∨ px < 0 ∨ px ≥ Wl then none
  else some ((py * Wl + px).toNat, ((1 - dy) * 3 + (1 - dx)).toNat)

/-- Hidden state and staging buffer `contrib[event][warp]` of one layer. -/
abbrev ComputeState (R : Type*) (OUT : Nat) :=
  (Nat → Fin OUT → R) × (Nat × Fin N_WARPS → Fin OUT → R)

def computeTask (ar : Arith R) (IN OUT : Nat) (Hl Wl : Nat) (event_slots : Nat → EventSlot R)
    (enter_mask output_mask : Option (Nat → Bool)) (layer : LayerWeightsS2S3 R)
    (st : ComputeState R OUT) (t : Fin N_WARPS × Nat) : ComputeState R OUT :=
  if selected enter_mask t.2 = false then st
  else
    match patchTask Hl Wl t.1 (event_slots t.2).evx (event_slots t.2).evy with
    | none => st
    | some (patch_idx, delta) =>
      let in_feat := readFeat IN (event_slots t.2).in_feat
      let qvg_w := fun n => layer.qvgIn (delta * (3 * OUT * IN) + n)
      if selected output_mask t.2 = true then
        let go_w := fun n => layer.goW (delta * (OUT * OUT) + n)
        let r := processPatchCell ar IN OUT in_feat qvg_w go_w (st.1 patch_idx)
        (Function.update st.1 patch_idx r.1, Function.update st.2 (t.2, t.1) r.2)
      else
        (Function.update st.1 patch_idx
          (processPatchCellStateOnly ar IN OUT in_feat qvg_w (st.1 patch_idx)), st.2)

/-- `contrib` is zeroed before the warps start. -/
def computePhase (ar : Arith R) (IN OUT : Nat) {batch_size : Nat}
    (sched : Schedule N_WARPS batch_size) (Hl Wl : Nat) (event_slots : Nat → EventSlot R)
    (enter_mask output_mask : Option (Nat → Bool)) (layer : LayerWeightsS2S3 R)
    (hidden : Nat → Fin OUT → R) : ComputeState R OUT :=
  sched.order.foldl (computeTask ar IN OUT Hl Wl event_slots enter_mask output_mask layer)
    (hidden, fun _ _ => 0)

def gatherResidualLn (ar : Arith R) {OUT : Nat} (contrib_event : Fin N_WARPS → Fin OUT → R)
    (residual_event ln_gamma ln_beta : Nat → R) : Fin OUT → R :=
  layernorm ar (fun o => residual_event o + ∑ w, contrib_event w o) ln_gamma ln_beta

def residualPhase (IN OUT : Nat) (batch_size : Nat) (gathered : Nat → Bool)
    (layer : LayerWeightsS2S3 R) (event_slots : Nat → EventSlot R) : Nat → EventSlot R :=
  perEventWarp batch_size (fun e s =>
    let residual := computeResidual IN OUT (readFeat IN s.in_feat) layer.input_proj s.residual
    if gathered e then { s with residual := residual } else s) event_slots

def gatherPhase (ar : Arith R) (OUT : Nat) (batch_size : Nat) (gathered : Nat → Bool)
    (layer : LayerWeightsS2S3 R) (contrib : Nat × Fin N_WARPS → Fin OUT → R)
    (event_slots : Nat → EventSlot R) : Nat → EventSlot R :=
  perEventWarp batch_size (fun e s =>
    let out_feat := gatherResidualLn ar (fun w => contrib (e, w)) s.residual layer.ln_gamma
      layer.ln_beta
    if gathered e then { s with in_feat := writeFeat s.in_feat out_feat } else s) event_slots

/-- The phases of a layer: residual, compute, gather. One warp per event of
`gathered` computes its residual and, at the end, its output in place. -/
def runLayerPhases (ar : Arith R) (IN OUT : Nat) {batch_size : Nat}
    (sched : Schedule N_WARPS batch_size) (Hl Wl : Nat) (event_slots : Nat → EventSlot R)
    (gathered : Nat → Bool) (enter_mask output_mask : Option (Nat → Bool))
    (layer : LayerWeightsS2S3 R) (hidden : Nat → Fin OUT → R) :
    (Nat → EventSlot R) × (Nat → Fin OUT → R) :=
  let slots := residualPhase IN OUT batch_size gathered layer event_slots
  let st := computePhase ar IN OUT sched Hl Wl slots enter_mask output_mask layer hidden
  (gatherPhase ar OUT batch_size gathered layer st.2 slots, st.1)

def runLayerCelledImplicit (ar : Arith R) (IN OUT : Nat) {batch_size : Nat}
    (sched : Schedule N_WARPS batch_size) (Hl Wl : Nat) (event_slots : Nat → EventSlot R)
    (mask : Option (Nat → Bool)) (layer : LayerWeightsS2S3 R) (hidden : Nat → Fin OUT → R) :
    (Nat → EventSlot R) × (Nat → Fin OUT → R) :=
  runLayerPhases ar IN OUT sched Hl Wl event_slots (fun _ => true) mask none layer hidden

/-- Events outside `enter_mask` are skipped; those inside it but outside
`output_mask` only advance the hidden state. -/
def runLayerCelledImplicitSplit (ar : Arith R) (IN OUT : Nat) {batch_size : Nat}
    (sched : Schedule N_WARPS batch_size) (Hl Wl : Nat) (event_slots : Nat → EventSlot R)
    (enter_mask output_mask : Option (Nat → Bool)) (layer : LayerWeightsS2S3 R)
    (hidden : Nat → Fin OUT → R) : (Nat → EventSlot R) × (Nat → Fin OUT → R) :=
  runLayerPhases ar IN OUT sched Hl Wl event_slots
    (fun e => selected enter_mask e && selected output_mask e) enter_mask output_mask layer hidden

theorem warpOffset_eq (own ev : Nat) : warpOffset own ev = ((own : Int) - ev) % 3 - 1 := by
  unfold warpOffset
  rw [Int.tmod_eq_emod, Int.tmod_eq_emod]
  split <;> split <;> simp <;> omega

def patchDelta (warp_id : Fin N_WARPS) (evx evy : Nat) : Nat :=
  ((1 - warpOffset (warp_id.val / 3) evy) * 3 + (1 - warpOffset (warp_id.val % 3) evx)).toNat

theorem patchTask_eq (Hl Wl : Nat) (w : Fin N_WARPS) (evx evy : Nat) :
    patchTask Hl Wl w evx evy = neighbour evx evy Hl Wl (patchDelta w evx evy) := by
  have hdy := warpOffset_eq (w.val / 3) evy
  have hdx := warpOffset_eq (w.val % 3) evx
  have hy3 : warpOffset (w.val / 3) evy = 1 - (patchDelta w evx evy / 3 : Nat) := by
    unfold patchDelta
    omega
  have hx3 : warpOffset (w.val % 3) evx = 1 - (patchDelta w evx evy % 3 : Nat) := by
    unfold patchDelta
    omega
  rw [← boundary_cell_eq evx evy Hl Wl (patchDelta w evx evy) hy3 hx3]
  simp only [patchTask]
  by_cases hy : (evy : Int) + warpOffset (w.val / 3) evy < 0 ∨
      (evy : Int) + warpOffset (w.val / 3) evy ≥ Hl
  · rw [if_pos (by omega), if_pos hy]
  · by_cases hx : (evx : Int) + warpOffset (w.val % 3) evx < 0 ∨
        (evx : Int) + warpOffset (w.val % 3) evx ≥ Wl
    · rw [if_pos (by omega), if_neg hy, if_pos hx]
    · rw [if_neg (by omega), if_neg hy, if_neg hx]

theorem patchDelta_lt (w : Fin N_WARPS) (evx evy : Nat) : patchDelta w evx evy < 9 := by
  have hdy := warpOffset_eq (w.val / 3) evy
  have hdx := warpOffset_eq (w.val % 3) evx
  unfold patchDelta
  omega

theorem patchDelta_mod (w : Fin N_WARPS) (evx evy : Nat) :
    patchDelta w evx evy = patchDelta w (evx % 3) (evy % 3) := by
  have hmod : ∀ own ev : Nat, warpOffset own ev = warpOffset own (ev % 3) := by
    intro own ev
    rw [warpOffset_eq, warpOffset_eq]
    omega
  unfold patchDelta
  rw [hmod _ evx, hmod _ evy]

/-- The nine warps cover the nine offsets of an event, each once. -/
theorem patchDelta_perm (evx evy : Nat) :
    ((List.finRange N_WARPS).map (fun w => patchDelta w evx evy)).Perm
      [8, 7, 6, 5, 4, 3, 2, 1, 0] := by
  have hfin : ∀ x y : Fin 3, ((List.finRange N_WARPS).map (fun w => patchDelta w x y)).Perm
      [8, 7, 6, 5, 4, 3, 2, 1, 0] := by decide
  have hh := hfin ⟨evx % 3, Nat.mod_lt _ (by decide)⟩ ⟨evy % 3, Nat.mod_lt _ (by decide)⟩
  simpa only [← patchDelta_mod] using hh

def warpTasks (Hl Wl evx evy : Nat) : List (Nat × Nat) :=
  (List.finRange N_WARPS).filterMap (fun w => patchTask Hl Wl w evx evy)

theorem warpTasks_perm (Hl Wl evx evy : Nat) :
    (warpTasks Hl Wl evx evy).Perm (neighbours evx evy Hl Wl) := by
  have hh := (patchDelta_perm evx evy).filterMap (neighbour evx evy Hl Wl)
  rw [List.filterMap_map] at hh
  simpa only [warpTasks, neighbours, patchTask_eq, Function.comp_def] using hh

theorem patchTask_owner {Hl Wl evx evy c d : Nat} {w : Fin N_WARPS}
    (h : patchTask Hl Wl w evx evy = some (c, d)) :
    ∃ py px, c = py * Wl + px ∧ px < Wl ∧ w.val = (py + 1) % 3 * 3 + (px + 1) % 3 := by
  rw [patchTask_eq] at h
  obtain ⟨-, hc, hy, -, hx, hxw⟩ := neighbour_eq_some.mp h
  have hdy := warpOffset_eq (w.val / 3) evy
  have hdx := warpOffset_eq (w.val % 3) evx
  have hw : w.val < 9 := w.isLt
  have hd : (patchDelta w evx evy : Int) =
      (1 - warpOffset (w.val / 3) evy) * 3 + (1 - warpOffset (w.val % 3) evx) := by
    unfold patchDelta
    omega
  refine ⟨_, _, hc, hxw, ?_⟩
  rw [hdy, hdx] at hd
  clear hc hdy hdx
  omega

theorem patchTask_disjoint {Hl Wl evx evy evx' evy' c d c' d' : Nat} {w w' : Fin N_WARPS}
    (hw : w ≠ w') (h : patchTask Hl Wl w evx evy = some (c, d))
    (h' : patchTask Hl Wl w' evx' evy' = some (c', d')) : c ≠ c' := by
  obtain ⟨py, px, rfl, hpx, hown⟩ := patchTask_owner h
  obtain ⟨qy, qx, rfl, hqx, hown'⟩ := patchTask_owner h'
  intro he
  obtain ⟨rfl, rfl⟩ := rowMajor_inj hpx hqx he
  exact hw (Fin.ext (hown.trans hown'.symm))

end SslaRt
