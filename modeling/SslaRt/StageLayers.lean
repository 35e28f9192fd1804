import SslaRt.LocalUpdate
import SslaRt.ShardWorkerRefinement

/-! The four layers of the CPU stages as local updates: each reads and writes
the cells of its patch, in the generic form and in the fused one. -/

namespace SslaRt

open CellMemory

variable {R : Type*} [CommRing R]

def featResidual (IN OUT : Nat) (L : LayerWeights R) (feat_in : Fin IN → R) : Fin OUT → R :=
  match L.input_proj with
  | some W => matvec IN OUT feat_in W
  | none => fun o => featBuf feat_in o

theorem layerForwardCt_isLocal (ar : Arith R) (IN OUT : Nat) (L : LayerWeights R)
    (ev_x ev_y Hl Wl : Nat) : IsLocal (cells (patchOrder L.num_pos ev_x ev_y Hl Wl))
      (layerForwardCt ar IN OUT L ev_x ev_y Hl Wl) := by
  let step : (Fin IN → R) → Nat → (Fin OUT → R) → (Fin OUT → R) → (Fin OUT → R) × (Fin OUT → R) :=
    fun feat_in pos h a => ((processPatch ar IN OUT L feat_in pos h).1,
      a + (processPatch ar IN OUT L feat_in pos h).2)
  let post : (Fin IN → R) → (Fin OUT → R) → Fin OUT → R := fun feat_in a =>
    layernorm ar (a + featResidual IN OUT L feat_in) L.ln_gamma L.ln_beta
  exact visit_isLocal (fun _ _ _ _ _ => rfl : ∀ x d s a a', (step x d s a).1 = (step x d s a').1)
    (patchOrder L.num_pos ev_x ev_y Hl Wl) (fun _ => 0) post

theorem s0_l0_interior_isLocal (ar : Arith R) (ev_x ev_y Wl : Nat)
    (input_proj qvgIn0 goW0 ln_gamma ln_beta : Nat → R) :
    IsLocal [ev_y * Wl + ev_x] fun feat_in H_all =>
      s0_l0_interior ar ev_x ev_y Wl feat_in input_proj qvgIn0 goW0 ln_gamma ln_beta H_all := by
  let x0b : (Fin kInDim → R) → Neon.float32x4 R := fun feat_in => Neon.vdupq_n_f32 (feat_in 0)
  let x1b : (Fin kInDim → R) → Neon.float32x4 R := fun feat_in => Neon.vdupq_n_f32 (feat_in 1)
  let step : (Fin kInDim → R) → Unit → (Fin kC0 → R) → Regs R → (Fin kC0 → R) × Regs R :=
    fun feat_in _ => patch_2_12 ar (x0b feat_in) (x1b feat_in) qvgIn0 goW0
  exact visit_isLocal
    (fun _ _ _ _ _ => rfl : ∀ x d s a a', (step x d s a).1 = (step x d s a').1)
    [(ev_y * Wl + ev_x, ())] (fun feat_in og => mqv2 (x0b feat_in) (x1b feat_in) input_proj (og * 4))
    fun _ out => layernorm ar (storeRegs 12 out) ln_gamma ln_beta

section Fused

variable (ar : Arith R) {ev_x ev_y Hl Wl : Nat} (hi : Interior ev_x ev_y Hl Wl)

include hi

omit [CommRing R] in
theorem interiorLoop_isLocal {F O : Type*} {OUT : Nat}
    {patch : F → Nat → (Fin OUT → R) → Regs R → (Fin OUT → R) × Regs R}
    {patchState : F → Nat → (Fin OUT → R) → Fin OUT → R}
    (hpatch : ∀ x pos h out, (patch x pos h out).1 = patchState x pos h)
    (start : F → Regs R) (post : F → Regs R → O) :
    IsLocal (cells (neighbours ev_x ev_y Hl Wl)) fun (x : F) (H_all : Nat → Fin OUT → R) =>
      let r := interiorLoop (patch x) (interiorCells ev_x ev_y Wl) H_all (start x)
      (r.1, post x r.2) := by
  rw [← interiorCells_eq hi]
  have hstate : ∀ x pos h out out', (patch x pos h out).1 = (patch x pos h out').1 :=
    fun x pos h out out' => (hpatch x pos h out).trans (hpatch x pos h out').symm
  exact visit_isLocal hstate (interiorCells ev_x ev_y Wl) start post

theorem s0_l1_interior_isLocal (qvgIn_arr goW_arr : Nat → Nat → R) (ln_gamma ln_beta : Nat → R) :
    IsLocal (cells (neighbours ev_x ev_y Hl Wl)) fun feat_in H_all =>
      s0_l1_interior ar ev_x ev_y Wl feat_in qvgIn_arr goW_arr ln_gamma ln_beta H_all := by
  let patch : (Fin kC0 → R) → Nat → (Fin kC0 → R) → Regs R → (Fin kC0 → R) × Regs R :=
    fun feat_in pos => patch_12_12 ar (loadRegs (featBuf feat_in)) (qvgIn_arr pos) (goW_arr pos)
  have hpatch : ∀ x pos h out, (patch x pos h out).1 = _ := fun _ _ _ _ => patchRows_state ar 12 _ _ _ _
  exact interiorLoop_isLocal hi hpatch
    (fun _ _ => Neon.vdupq_n_f32 0) fun feat_in out => layernorm ar
      (storeRegs 12 fun og => Neon.vaddq_f32 (out og) (loadRegs (featBuf feat_in) og)) ln_gamma ln_beta

theorem s1_l0_interior_tiled_isLocal (input_proj : Nat → R) (qvgIn_arr goW_T_arr : Nat → Nat → R)
    (ln_gamma ln_beta : Nat → R) :
    IsLocal (cells (neighbours ev_x ev_y Hl Wl)) fun feat_in H_all =>
      s1_l0_interior_tiled ar ev_x ev_y Wl feat_in input_proj qvgIn_arr goW_T_arr ln_gamma ln_beta
        H_all := by
  let patch : (Fin kC0 → R) → Nat → (Fin kC1 → R) → Regs R → (Fin kC1 → R) × Regs R :=
    fun feat_in pos =>
      patch_12_24_tiled ar (loadRegs (featBuf feat_in)) (qvgIn_arr pos) (goW_T_arr pos)
  have hpatch : ∀ x pos h out, (patch x pos h out).1 = _ := fun _ _ _ _ => patchTiled_state ar 12 24 _ _ _ _ _
  exact interiorLoop_isLocal hi hpatch
    (fun feat_in og => mqv 12 (loadRegs (featBuf feat_in)) input_proj (og * 4))
    fun _ out => layernorm ar (storeRegs 24 out) ln_gamma ln_beta

theorem s1_l1_interior_tiled_isLocal (qvgIn_arr goW_T_arr : Nat → Nat → R)
    (ln_gamma ln_beta : Nat → R) :
    IsLocal (cells (neighbours ev_x ev_y Hl Wl)) fun feat_in H_all =>
      s1_l1_interior_tiled ar ev_x ev_y Wl feat_in qvgIn_arr goW_T_arr ln_gamma ln_beta H_all := by
  let patch : (Fin kC1 → R) → Nat → (Fin kC1 → R) → Regs R → (Fin kC1 → R) × Regs R :=
    fun feat_in pos =>
      patch_24_24_tiled ar (loadRegs (featBuf feat_in)) (qvgIn_arr pos) (goW_T_arr pos)
  have hpatch : ∀ x pos h out, (patch x pos h out).1 = _ := fun _ _ _ _ => patchTiled_state ar 24 24 _ _ _ _ _
  exact interiorLoop_isLocal hi hpatch
    (fun _ _ => Neon.vdupq_n_f32 0) fun feat_in out => layernorm ar
      (storeRegs 24 fun og => Neon.vaddq_f32 (out og) (loadRegs (featBuf feat_in) og)) ln_gamma ln_beta

end Fused

section Layers

variable (P : SslaSPipeline R) (ev_x ev_y : Nat)

/-- The layers of `stageForward0` and `stageForward1`, each on its own hidden state. -/
def SslaSPipeline.layer0 (feat_in : Fin kInDim → R) (H_all : Nat → Fin kC0 → R) :
    (Nat → Fin kC0 → R) × (Fin kC0 → R) :=
  if Interior ev_x ev_y (P.Hs_ 0) (P.Ws_ 0) then
    s0_l0_interior P.ar ev_x ev_y (P.Ws_ 0) feat_in (P.inputProj 0) ((P.layers_ 0).qvgIn 0)
      ((P.layers_ 0).goW 0) (P.layers_ 0).ln_gamma (P.layers_ 0).ln_beta H_all
  else P.layerForward 0 ev_x ev_y feat_in H_all

def SslaSPipeline.layer1 (feat_in : Fin kC0 → R) (H_all : Nat → Fin kC0 → R) :
    (Nat → Fin kC0 → R) × (Fin kC0 → R) :=
  if Interior ev_x ev_y (P.Hs_ 0) (P.Ws_ 0) then
    s0_l1_interior P.ar ev_x ev_y (P.Ws_ 0) feat_in (P.layers_ 1).qvgIn (P.layers_ 1).goW
      (P.layers_ 1).ln_gamma (P.layers_ 1).ln_beta H_all
  else P.layerForward 1 ev_x ev_y feat_in H_all

def SslaSPipeline.layer2 (feat_in : Fin kC0 → R) (H_all : Nat → Fin kC1 → R) :
    (Nat → Fin kC1 → R) × (Fin kC1 → R) :=
  if Interior ev_x ev_y (P.Hs_ 1) (P.Ws_ 1) then
    s1_l0_interior_tiled P.ar ev_x ev_y (P.Ws_ 1) feat_in (P.inputProj 2) (P.layers_ 2).qvgIn
      (P.layers_ 2).goW_T (P.layers_ 2).ln_gamma (P.layers_ 2).ln_beta H_all
  else P.layerForward 2 ev_x ev_y feat_in H_all

def SslaSPipeline.layer3 (feat_in : Fin kC1 → R) (H_all : Nat → Fin kC1 → R) :
    (Nat → Fin kC1 → R) × (Fin kC1 → R) :=
  if Interior ev_x ev_y (P.Hs_ 1) (P.Ws_ 1) then
    s1_l1_interior_tiled P.ar ev_x ev_y (P.Ws_ 1) feat_in (P.layers_ 3).qvgIn (P.layers_ 3).goW_T
      (P.layers_ 3).ln_gamma (P.layers_ 3).ln_beta H_all
  else P.layerForward 3 ev_x ev_y feat_in H_all

theorem stageForward0_eq (s : PipeState R) (feat_in : Fin kInDim → R) :
    P.stageForward0 s ev_x ev_y feat_in =
      let l0 := P.layer0 ev_x ev_y feat_in s.hidden_0
      let l1 := P.layer1 ev_x ev_y l0.2 s.hidden_1
      ({ s with hidden_0 := l0.1, hidden_1 := l1.1 }, l1.2) := by
  unfold SslaSPipeline.stageForward0 SslaSPipeline.layer0 SslaSPipeline.layer1
  split
  · rfl
  · rfl

theorem stageForward1_eq (s : PipeState R) (feat_in : Fin kC0 → R) :
    P.stageForward1 s ev_x ev_y feat_in =
      let l2 := P.layer2 ev_x ev_y feat_in s.hidden_2
      let l3 := P.layer3 ev_x ev_y l2.2 s.hidden_3
      ({ s with hidden_2 := l2.1, hidden_3 := l3.1 }, l3.2) := rfl

theorem isLocal_ite {F O S : Type*} {patch : List Nat} {c : Prop} [Decidable c]
    {f g : F → (Nat → S) → (Nat → S) × O} (hf : c → IsLocal patch f) (hg : ¬ c → IsLocal patch g) :
    IsLocal patch fun x m => if c then f x m else g x m := by
  by_cases hc : c
  · simpa only [if_pos hc] using hf hc
  · simpa only [if_neg hc] using hg hc

theorem layerForward_isLocal {IN OUT layer_idx : Nat} (hp : (P.layers_ layer_idx).num_pos ≠ 1) :
    IsLocal (cells (neighbours ev_x ev_y (P.Hs_ (layer_idx / 2)) (P.Ws_ (layer_idx / 2))))
      fun (feat_in : Fin IN → R) (H_all : Nat → Fin OUT → R) =>
        P.layerForward layer_idx ev_x ev_y feat_in H_all := by
  have hh := layerForwardCt_isLocal P.ar IN OUT (P.layers_ layer_idx) ev_x ev_y
    (P.Hs_ (layer_idx / 2)) (P.Ws_ (layer_idx / 2))
  rw [patchOrder_eq hp] at hh
  exact hh

theorem layer0_isLocal (hp : (P.layers_ 0).num_pos = 1) :
    IsLocal [ev_y * P.Ws_ 0 + ev_x] (P.layer0 ev_x ev_y) := by
  refine isLocal_ite (fun _ => s0_l0_interior_isLocal P.ar ev_x ev_y _ _ _ _ _ _) (fun _ => ?_)
  have hh := layerForwardCt_isLocal P.ar kInDim kC0 (P.layers_ 0) ev_x ev_y (P.Hs_ 0) (P.Ws_ 0)
  rw [patchOrder, if_pos hp] at hh
  exact hh

theorem layer1_isLocal (hp : (P.layers_ 1).num_pos ≠ 1) :
    IsLocal (cells (neighbours ev_x ev_y (P.Hs_ 0) (P.Ws_ 0))) (P.layer1 ev_x ev_y) :=
  isLocal_ite (fun hi => s0_l1_interior_isLocal P.ar hi _ _ _ _)
    (fun _ => layerForward_isLocal P ev_x ev_y hp)

theorem layer2_isLocal (hp : (P.layers_ 2).num_pos ≠ 1) :
    IsLocal (cells (neighbours ev_x ev_y (P.Hs_ 1) (P.Ws_ 1))) (P.layer2 ev_x ev_y) :=
  isLocal_ite (fun hi => s1_l0_interior_tiled_isLocal P.ar hi _ _ _ _ _)
    (fun _ => layerForward_isLocal P ev_x ev_y hp)

theorem layer3_isLocal (hp : (P.layers_ 3).num_pos ≠ 1) :
    IsLocal (cells (neighbours ev_x ev_y (P.Hs_ 1) (P.Ws_ 1))) (P.layer3 ev_x ev_y) :=
  isLocal_ite (fun hi => s1_l1_interior_tiled_isLocal P.ar hi _ _ _ _)
    (fun _ => layerForward_isLocal P ev_x ev_y hp)

end Layers

end SslaRt
