import SslaRt.LayerForward
import SslaRt.Neon

/-! The fused layers for events in the interior of the grid. A group of
registers `x0, x1, ..` is a function of the register number; the macros of the
patch functions are definitions with the macro's parameters. -/

namespace SslaRt

open Neon

variable {R : Type*} [CommRing R]

abbrev Regs (R : Type*) := Nat → float32x4 R

def loadRegs (p : Nat → R) : Regs R := fun k => vld1q_f32 p (4 * k)

/-- `vst1q_f32` of consecutive registers into an array of `n` floats. -/
def storeRegs (n : Nat) (v : Regs R) : Fin n → R := fun o => lanes v o

def fusedSigmoid (ar : Arith R) (x : float32x4 R) : float32x4 R := fun l => ar.sigmoid (x l)

/-- `MQV`, `MV4OUT` and `RES`: four rows of `W` from row `r0`, with `IN` columns. -/
def mqv (IN : Nat) (x : Regs R) (W : Nat → R) (r0 : Nat) : float32x4 R :=
  fourRows x (IN / 4 - 1) IN (fun i => W (r0 * IN + i))

def mqv2 (x0_bcast x1_bcast : float32x4 R) (W : Nat → R) (r0 : Nat) : float32x4 R :=
  let W2 := vld2q_f32 W (r0 * 2)
  let a := vmulq_f32 W2.1 x0_bcast
  vfmaq_f32 a W2.2 x1_bcast

def lruHidden (ar : Arith R) (v g : Regs R) (h_ptr : Nat → R) : Regs R :=
  fun b => vfmaq_f32 (v b) (fusedSigmoid ar (g b)) (vld1q_f32 h_ptr (4 * b))

/-- `MAC` for all output registers. -/
def mac (OUT : Nat) (goW : Nat → R) (qh out : Regs R) : Regs R :=
  fun og => vaddq_f32 (out og) (mqv OUT qh goW (og * 4))

def patchRows (ar : Arith R) (OUT : Nat) (qvg : Regs R) (goW : Nat → R) (h : Fin OUT → R)
    (out : Regs R) : (Fin OUT → R) × Regs R :=
  let hc := lruHidden ar (fun b => qvg (OUT / 4 + b)) (fun b => qvg (2 * (OUT / 4) + b)) (featBuf h)
  let qh := fun b => vmulq_f32 (qvg b) (hc b)
  (storeRegs OUT hc, mac OUT goW qh out)

def patchRowsStateOnly (ar : Arith R) (OUT : Nat) (qvg : Regs R) (h : Fin OUT → R) : Fin OUT → R :=
  storeRegs OUT
    (lruHidden ar (fun b => qvg (OUT / 4 + b)) (fun b => qvg (2 * (OUT / 4) + b)) (featBuf h))

/-- `ACCUM_TILE`: the four channels of a tile times their rows of `goW_T`. -/
def accumTile (OUT : Nat) (goW_T : Nat → R) (tile : Nat) (qh_tile : float32x4 R) (out : Regs R) :
    Regs R :=
  fun j =>
    let gT := fun r => vld1q_f32 goW_T ((tile * 4 + r) * OUT + 4 * j)
    let qhb := fun r => vdupq_n_f32 (vgetq_lane_f32 qh_tile r)
    vfmaq_f32 (vfmaq_f32 (vfmaq_f32 (vfmaq_f32 (out j) (gT 0) (qhb 0)) (gT 1) (qhb 1))
      (gT 2) (qhb 2)) (gT 3) (qhb 3)

def patchTiled (ar : Arith R) (IN OUT : Nat) (x : Regs R) (qvgW goW_T : Nat → R) (h : Fin OUT → R)
    (out : Regs R) : (Fin OUT → R) × Regs R :=
  let q_tile := fun tile => mqv IN x qvgW (tile * 4)
  let v_tile := fun tile => mqv IN x qvgW (OUT + tile * 4)
  let g_tile := fun tile => mqv IN x qvgW (2 * OUT + tile * 4)
  let hc := lruHidden ar v_tile g_tile (featBuf h)
  (storeRegs OUT hc, (List.range (OUT / 4)).foldl
    (fun out tile => accumTile OUT goW_T tile (vmulq_f32 (q_tile tile) (hc tile)) out) out)

def patchTiledStateOnly (ar : Arith R) (IN OUT : Nat) (x : Regs R) (qvgW : Nat → R)
    (h : Fin OUT → R) : Fin OUT → R :=
  storeRegs OUT (lruHidden ar (fun tile => mqv IN x qvgW (OUT + tile * 4))
    (fun tile => mqv IN x qvgW (2 * OUT + tile * 4)) (featBuf h))

def patch_2_12 (ar : Arith R) (x0_bcast x1_bcast : float32x4 R) (qvgW goW : Nat → R) :
    (Fin kC0 → R) → Regs R → (Fin kC0 → R) × Regs R :=
  patchRows ar 12 (fun og => mqv2 x0_bcast x1_bcast qvgW (og * 4)) goW

def patch_12_12 (ar : Arith R) (x : Regs R) (qvgW goW : Nat → R) :
    (Fin kC0 → R) → Regs R → (Fin kC0 → R) × Regs R :=
  patchRows ar 12 (fun og => mqv 12 x qvgW (og * 4)) goW

def patch_12_12_state_only (ar : Arith R) (x : Regs R) (qvgW : Nat → R) :
    (Fin kC0 → R) → Fin kC0 → R :=
  patchRowsStateOnly ar 12 (fun og => mqv 12 x qvgW (og * 4))

def patch_12_24_tiled (ar : Arith R) (x : Regs R) (qvgW goW_T : Nat → R) :
    (Fin kC1 → R) → Regs R → (Fin kC1 → R) × Regs R :=
  patchTiled ar 12 24 x qvgW goW_T

def patch_24_24_tiled (ar : Arith R) (x : Regs R) (qvgW goW_T : Nat → R) :
    (Fin kC1 → R) → Regs R → (Fin kC1 → R) × Regs R :=
  patchTiled ar 24 24 x qvgW goW_T

def patch_24_24_tiled_state_only (ar : Arith R) (x : Regs R) (qvgW : Nat → R) :
    (Fin kC1 → R) → Fin kC1 → R :=
  patchTiledStateOnly ar 24 24 x qvgW

def dxArr : List Int := [-1, 0, 1, -1, 0, 1, -1, 0, 1]
def dyArr : List Int := [-1, -1, -1, 0, 0, 0, 1, 1, 1]
def deltaArr : List Nat := [8, 7, 6, 5, 4, 3, 2, 1, 0]

def interiorCells (ev_x ev_y Wl : Nat) : List (Nat × Nat) :=
  let base : Int := ev_y * Wl + ev_x
  (List.range 9).map fun k =>
    ((base + dyArr.getD k 0 * Wl + dxArr.getD k 0).toNat, deltaArr.getD k 0)

def interiorLoop {OUT : Nat} (patch : Nat → (Fin OUT → R) → Regs R → (Fin OUT → R) × Regs R)
    (cells : List (Nat × Nat)) (H_all : Nat → Fin OUT → R) (out : Regs R) :
    (Nat → Fin OUT → R) × Regs R :=
  cells.foldl (fun st c =>
    let r := patch c.2 (st.1 c.1) st.2
    (Function.update st.1 c.1 r.1, r.2)) (H_all, out)

def interiorLoopStateOnly {OUT : Nat} (patch : Nat → (Fin OUT → R) → Fin OUT → R)
    (cells : List (Nat × Nat)) (H_all : Nat → Fin OUT → R) : Nat → Fin OUT → R :=
  cells.foldl (fun H c => Function.update H c.1 (patch c.2 (H c.1))) H_all

def s0_l0_interior (ar : Arith R) (ev_x ev_y Wl : Nat) (feat_in : Fin kInDim → R)
    (input_proj qvgIn0 goW0 ln_gamma ln_beta : Nat → R) (H_all : Nat → Fin kC0 → R) :
    (Nat → Fin kC0 → R) × (Fin kC0 → R) :=
  let x0b := vdupq_n_f32 (feat_in 0)
  let x1b := vdupq_n_f32 (feat_in 1)
  let out : Regs R := fun og => mqv2 x0b x1b input_proj (og * 4)
  let patch_idx := ev_y * Wl + ev_x
  let r := patch_2_12 ar x0b x1b qvgIn0 goW0 (H_all patch_idx) out
  (Function.update H_all patch_idx r.1, layernorm ar (storeRegs 12 r.2) ln_gamma ln_beta)

def s0_l1_interior (ar : Arith R) (ev_x ev_y Wl : Nat) (feat_in : Fin kC0 → R)
    (qvgIn_arr goW_arr : Nat → Nat → R) (ln_gamma ln_beta : Nat → R) (H_all : Nat → Fin kC0 → R) :
    (Nat → Fin kC0 → R) × (Fin kC0 → R) :=
  let x := loadRegs (featBuf feat_in)
  let r := interiorLoop (fun pos => patch_12_12 ar x (qvgIn_arr pos) (goW_arr pos))
    (interiorCells ev_x ev_y Wl) H_all (fun _ => vdupq_n_f32 0)
  (r.1, layernorm ar (storeRegs 12 fun og => vaddq_f32 (r.2 og) (x og)) ln_gamma ln_beta)

def s0_l1_interior_state_only (ar : Arith R) (ev_x ev_y Wl : Nat) (feat_in : Fin kC0 → R)
    (qvgIn_arr : Nat → Nat → R) (H_all : Nat → Fin kC0 → R) : Nat → Fin kC0 → R :=
  let x := loadRegs (featBuf feat_in)
  interiorLoopStateOnly (fun pos => patch_12_12_state_only ar x (qvgIn_arr pos))
    (interiorCells ev_x ev_y Wl) H_all

def s1_l0_interior_tiled (ar : Arith R) (ev_x ev_y Wl : Nat) (feat_in : Fin kC0 → R)
    (input_proj : Nat → R) (qvgIn_arr goW_T_arr : Nat → Nat → R) (ln_gamma ln_beta : Nat → R)
    (H_all : Nat → Fin kC1 → R) : (Nat → Fin kC1 → R) × (Fin kC1 → R) :=
  let x := loadRegs (featBuf feat_in)
  let out : Regs R := fun og => mqv 12 x input_proj (og * 4)
  let r := interiorLoop (fun pos => patch_12_24_tiled ar x (qvgIn_arr pos) (goW_T_arr pos))
    (interiorCells ev_x ev_y Wl) H_all out
  (r.1, layernorm ar (storeRegs 24 r.2) ln_gamma ln_beta)

def s1_l1_interior_tiled (ar : Arith R) (ev_x ev_y Wl : Nat) (feat_in : Fin kC1 → R)
    (qvgIn_arr goW_T_arr : Nat → Nat → R) (ln_gamma ln_beta : Nat → R)
    (H_all : Nat → Fin kC1 → R) : (Nat → Fin kC1 → R) × (Fin kC1 → R) :=
  let x := loadRegs (featBuf feat_in)
  let r := interiorLoop (fun pos => patch_24_24_tiled ar x (qvgIn_arr pos) (goW_T_arr pos))
    (interiorCells ev_x ev_y Wl) H_all (fun _ => vdupq_n_f32 0)
  (r.1, layernorm ar (storeRegs 24 fun og => vaddq_f32 (r.2 og) (x og)) ln_gamma ln_beta)

def s1_l1_interior_tiled_state_only (ar : Arith R) (ev_x ev_y Wl : Nat) (feat_in : Fin kC1 → R)
    (qvgIn_arr : Nat → Nat → R) (H_all : Nat → Fin kC1 → R) : Nat → Fin kC1 → R :=
  let x := loadRegs (featBuf feat_in)
  interiorLoopStateOnly (fun pos => patch_24_24_tiled_state_only ar x (qvgIn_arr pos))
    (interiorCells ev_x ev_y Wl) H_all

theorem patchRows_state (ar : Arith R) (OUT : Nat) (qvg : Regs R) (goW : Nat → R) (h : Fin OUT → R)
    (out : Regs R) : (patchRows ar OUT qvg goW h out).1 = patchRowsStateOnly ar OUT qvg h := rfl

theorem patchTiled_state (ar : Arith R) (IN OUT : Nat) (x : Regs R) (qvgW goW_T : Nat → R)
    (h : Fin OUT → R) (out : Regs R) :
    (patchTiled ar IN OUT x qvgW goW_T h out).1 = patchTiledStateOnly ar IN OUT x qvgW h := rfl

theorem interiorCells_eq {ev_x ev_y Hl Wl : Nat} (h : Interior ev_x ev_y Hl Wl) :
    interiorCells ev_x ev_y Wl = neighbours ev_x ev_y Hl Wl := by
  obtain ⟨hx, -, hy, -⟩ := id h
  have hbase : Wl ≤ ev_y * Wl := Nat.le_mul_of_pos_left Wl hy
  rw [← interiorPatch_eq h]
  simp only [interiorCells, interiorPatch, show List.range 9 = [0, 1, 2, 3, 4, 5, 6, 7, 8] from rfl,
    List.map_cons, List.map_nil, dyArr, dxArr, deltaArr, List.getD_cons_zero, List.getD_cons_succ,
    ← Int.natCast_mul]
  generalize ev_y * Wl = row at hbase
  simp only [List.cons.injEq, Prod.mk.injEq, and_true]
  omega

omit [CommRing R] in
theorem interiorLoop_state {OUT : Nat}
    {patch : Nat → (Fin OUT → R) → Regs R → (Fin OUT → R) × Regs R}
    {patchState : Nat → (Fin OUT → R) → Fin OUT → R}
    (h : ∀ pos cell out, (patch pos cell out).1 = patchState pos cell) (cells : List (Nat × Nat))
    (H_all : Nat → Fin OUT → R) (out : Regs R) :
    (interiorLoop patch cells H_all out).1 = interiorLoopStateOnly patchState cells H_all := by
  induction cells generalizing H_all out with
  | nil => rfl
  | cons c cells ih =>
    simp only [interiorLoop, interiorLoopStateOnly, List.foldl_cons] at ih ⊢
    rw [h]
    exact ih _ _

theorem s0_l1_interior_state (ar : Arith R) (ev_x ev_y Wl : Nat) (feat_in : Fin kC0 → R)
    (qvgIn_arr goW_arr : Nat → Nat → R) (ln_gamma ln_beta : Nat → R) (H_all : Nat → Fin kC0 → R) :
    (s0_l1_interior ar ev_x ev_y Wl feat_in qvgIn_arr goW_arr ln_gamma ln_beta H_all).1 =
      s0_l1_interior_state_only ar ev_x ev_y Wl feat_in qvgIn_arr H_all :=
  @interiorLoop_state R kC0
    (fun pos => patch_12_12 ar (loadRegs (featBuf feat_in)) (qvgIn_arr pos) (goW_arr pos))
    (fun pos => patch_12_12_state_only ar (loadRegs (featBuf feat_in)) (qvgIn_arr pos))
    (fun _ _ _ => patchRows_state ar 12 _ _ _ _) _ _ _

theorem s1_l1_interior_tiled_state (ar : Arith R) (ev_x ev_y Wl : Nat) (feat_in : Fin kC1 → R)
    (qvgIn_arr goW_T_arr : Nat → Nat → R) (ln_gamma ln_beta : Nat → R)
    (H_all : Nat → Fin kC1 → R) :
    (s1_l1_interior_tiled ar ev_x ev_y Wl feat_in qvgIn_arr goW_T_arr ln_gamma ln_beta H_all).1 =
      s1_l1_interior_tiled_state_only ar ev_x ev_y Wl feat_in qvgIn_arr H_all :=
  @interiorLoop_state R kC1
    (fun pos => patch_24_24_tiled ar (loadRegs (featBuf feat_in)) (qvgIn_arr pos)
      (goW_T_arr pos))
    (fun pos => patch_24_24_tiled_state_only ar (loadRegs (featBuf feat_in)) (qvgIn_arr pos))
    (fun _ _ _ => patchTiled_state ar 24 24 _ _ _ _ _) _ _ _

end SslaRt
