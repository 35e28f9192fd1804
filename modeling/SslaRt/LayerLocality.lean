import SslaRt.LayerStep

/-! What a layer reads and writes: its output depends on the input and on the
cells of the patch, a cell of the patch on the input and its own old value, and
no other cell changes. -/

namespace SslaRt

open CellMemory

variable {R : Type*} [CommRing R] (ar : Arith R) {IN OUT : Nat} (L : LayerRef R IN OUT)
  {in_feat in_feat' : Fin IN → R} {H H' : Nat → Fin OUT → R} {ev_x ev_y Hl Wl : Nat}

def LayerRef.patch (ev_x ev_y Hl Wl : Nat) : List Nat :=
  cells (patchOrder (L.K * L.K) ev_x ev_y Hl Wl)

theorem layerStep_frame {c : Nat} (hc : c ∉ L.patch ev_x ev_y Hl Wl) :
    (layerStep ar L in_feat H ev_x ev_y Hl Wl).1 c = H c :=
  sweep_frame _ _ _ _ hc

theorem layerStep_cell_congr {c : Nat} (hc : H c = H' c)
    (hf : c ∈ L.patch ev_x ev_y Hl Wl → in_feat = in_feat') :
    (layerStep ar L in_feat H ev_x ev_y Hl Wl).1 c =
      (layerStep ar L in_feat' H' ev_x ev_y Hl Wl).1 c := by
  by_cases hmem : c ∈ L.patch ev_x ev_y Hl Wl
  · rw [hf hmem]
    exact sweep_local _ _ _ _ hc
  · rw [layerStep_frame ar L hmem, layerStep_frame ar L hmem, hc]

theorem layerStep_out_congr (hf : in_feat = in_feat')
    (hH : ∀ c ∈ L.patch ev_x ev_y Hl Wl, H c = H' c) :
    (layerStep ar L in_feat H ev_x ev_y Hl Wl).2 =
      (layerStep ar L in_feat' H' ev_x ev_y Hl Wl).2 := by
  subst hf
  simp only [layerStep, sweep_sum_local _ _ _ hH]

omit [CommRing R] in
theorem LayerRef.patch_eq (hK : L.K = 3) :
    L.patch ev_x ev_y Hl Wl = cells (neighbours ev_x ev_y Hl Wl) := by
  rw [LayerRef.patch, hK, patchOrder_eq (show 3 * 3 ≠ 1 by decide)]

end SslaRt
