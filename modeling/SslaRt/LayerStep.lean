import SslaRt.Patch
import SslaRt.Primitives

/-! The reference step of one layer for one event: every cell of the patch is
updated by the gated recurrence, the gated outputs are summed, the residual is
added and the sum is normalised. -/

namespace SslaRt

open CellMemory

variable {R : Type*} [CommRing R]

/-- One layer of the reference. Without a projection the residual is the
input itself, so the two dimensions agree. -/
structure LayerRef (R : Type*) (IN OUT : Nat) where
  qvgIn : Nat → Nat → Nat → R
  goW : Nat → Nat → Nat → R
  input_proj : Option (Nat → Nat → R)
  ln_gamma : Nat → R
  ln_beta : Nat → R
  K : Nat
  passthrough : input_proj = none → IN = OUT

def LayerRef.residual {IN OUT : Nat} (L : LayerRef R IN OUT) (in_feat : Fin IN → R) : Fin OUT → R :=
  match h : L.input_proj with
  | some W => fun o => ∑ i : Fin IN, W o i * in_feat i
  | none => fun o => in_feat (Fin.cast (L.passthrough h).symm o)

theorem LayerRef.residual_some {IN OUT : Nat} {L : LayerRef R IN OUT} {W : Nat → Nat → R}
    (h : L.input_proj = some W) (in_feat : Fin IN → R) :
    L.residual in_feat = fun o : Fin OUT => ∑ i : Fin IN, W o i * in_feat i := by
  unfold LayerRef.residual
  split
  · next hW =>
    cases h.symm.trans hW
    rfl
  · next hnone => exact absurd (h.symm.trans hnone) (Option.some_ne_none W)

theorem LayerRef.residual_none {IN OUT : Nat} {L : LayerRef R IN OUT} (h : L.input_proj = none)
    (in_feat : Fin IN → R) :
    L.residual in_feat = fun o => in_feat (Fin.cast (L.passthrough h).symm o) := by
  unfold LayerRef.residual
  split
  · next hW => exact absurd (hW.symm.trans h) (Option.some_ne_none _)
  · rfl

def LayerRef.process (ar : Arith R) {IN OUT : Nat} (L : LayerRef R IN OUT) (in_feat : Fin IN → R)
    (delta : Nat) (h_old : Fin OUT → R) : (Fin OUT → R) × (Fin OUT → R) :=
  let qvg := fun r => ∑ i : Fin IN, L.qvgIn delta r i * in_feat i
  let q := fun o : Fin OUT => qvg o
  let v := fun o : Fin OUT => qvg (OUT + o)
  let g := fun o : Fin OUT => qvg (2 * OUT + o)
  let r := lruStep ar g v q h_old
  (r.1, fun o => ∑ i : Fin OUT, L.goW delta o i * r.2 i)

def layerStep (ar : Arith R) {IN OUT : Nat} (L : LayerRef R IN OUT) (in_feat : Fin IN → R)
    (H_all : Nat → Fin OUT → R) (ev_x ev_y Hl Wl : Nat) : (Nat → Fin OUT → R) × (Fin OUT → R) :=
  let st := sweep (L.process ar in_feat) (patchOrder (L.K * L.K) ev_x ev_y Hl Wl) H_all 0
  (st.1, layernorm ar (st.2 + L.residual in_feat) L.ln_gamma L.ln_beta)

section ThreeByThree

variable (ar : Arith R) {IN OUT : Nat} (L : LayerRef R IN OUT) (hK : L.K = 3)

include hK

theorem layerStep_state (in_feat : Fin IN → R) (H_all : Nat → Fin OUT → R) (ev_x ev_y Hl Wl : Nat) :
    (layerStep ar L in_feat H_all ev_x ev_y Hl Wl).1 =
      (sweep (L.process ar in_feat) (neighbours ev_x ev_y Hl Wl) H_all 0).1 := by
  simp only [layerStep, hK, patchOrder_eq (show 3 * 3 ≠ 1 by decide)]

theorem layerStep_out (in_feat : Fin IN → R) (H_all : Nat → Fin OUT → R) (ev_x ev_y Hl Wl : Nat) :
    (layerStep ar L in_feat H_all ev_x ev_y Hl Wl).2 =
      layernorm ar ((sweep (L.process ar in_feat) (neighbours ev_x ev_y Hl Wl) H_all 0).2 +
        L.residual in_feat) L.ln_gamma L.ln_beta := by
  simp only [layerStep, hK, patchOrder_eq (show 3 * 3 ≠ 1 by decide)]

end ThreeByThree

end SslaRt
