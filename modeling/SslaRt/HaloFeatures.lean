import SslaRt.Contamination
import SslaRt.HaloDrops
import SslaRt.LayerLocality

/-! The features of a block with its halo. An event outside the processed
rectangle is missing in the hidden state of the block; the difference spreads
over the events that share a cell with it, once in each of the four layers. -/

namespace SslaRt

open CellMemory Contamination Scan

section Patches

variable {g : S2Grid} (t : BlockTopo) (X : Set (S2Cell g))

def patch2 (a : S2Cell g) : List Nat := cells (neighbours a.1 a.2 g.H2 g.W2)

def patch3 (a : S2Cell g) : List Nat := cells (neighbours (a.1 / 2) (a.2 / 2) g.H3 g.W3)

def unseen : Set (S2Cell g) := {a | a ∈ X ∧ ¬ t.InProc a.1.val a.2.val}

/-- The events whose output of L4, L5, L6 and L7 may depend on unseen events. -/
def reachL4 : Set (S2Cell g) := reach patch2 X (unseen t X)
def reachL5 : Set (S2Cell g) := reach patch2 X (reachL4 t X)
def reachL6 : Set (S2Cell g) := reach patch3 X (reachL5 t X)
def reachL7 : Set (S2Cell g) := reach patch3 X (reachL6 t X)

end Patches

section Step

variable {R : Type*} [CommRing R] {g : S2Grid} {t : BlockTopo} {X : Set (S2Cell g)}

structure LayersAgree (t : BlockTopo) (X : Set (S2Cell g)) (s s' : S2S3State R) : Prop where
  H4 : Clean patch2 (unseen t X) s.H4 s'.H4
  H5 : Clean patch2 (reachL4 t X) s.H5 s'.H5
  H6 : Clean patch3 (reachL5 t X) s.H6 s'.H6
  H7 : Clean patch3 (reachL6 t X) s.H7 s'.H7
  tdrop_s2 : Drops2Agree t g s s'

variable (ar : Arith R) (layers : S2S3Layers R) {window : Int} {s s' : S2S3State R}
  {rec : S2Record R g}

omit [CommRing R] in
theorem patch_L4 : layers.L4.patch rec.x rec.y g.H2 g.W2 = patch2 rec.cell :=
  layers.L4.patch_eq layers.L4_K

omit [CommRing R] in
theorem patch_L5 : layers.L5.patch rec.x rec.y g.H2 g.W2 = patch2 rec.cell :=
  layers.L5.patch_eq layers.L5_K

omit [CommRing R] in
theorem patch_L6 : layers.L6.patch (rec.x / 2) (rec.y / 2) g.H3 g.W3 = patch3 rec.cell :=
  layers.L6.patch_eq layers.L6_K

omit [CommRing R] in
theorem patch_L7 : layers.L7.patch (rec.x / 2) (rec.y / 2) g.H3 g.W3 = patch3 rec.cell :=
  layers.L7.patch_eq layers.L7_K

section Outputs

variable (h : LayersAgree t X s s') (hX : rec.cell ∈ X)

include h hX

theorem s2Buf_out_eq (ha : rec.cell ∉ reachL4 t X) :
    (s2Buf ar layers s rec).2 = (s2Buf ar layers s' rec).2 :=
  layerStep_out_congr ar layers.L4 rfl (patch_L4 layers ▸ h.H4.on_patch hX ha)

theorem s2Out_out_eq (ha : rec.cell ∉ reachL5 t X) :
    (s2Out ar layers s rec).2 = (s2Out ar layers s' rec).2 :=
  layerStep_out_congr ar layers.L5
    (s2Buf_out_eq ar layers h hX fun h4 => ha (subset_reach hX h4))
    (patch_L5 layers ▸ h.H5.on_patch hX ha)

theorem s3Buf_out_eq (ha : rec.cell ∉ reachL6 t X) :
    (s3Buf ar layers s rec).2 = (s3Buf ar layers s' rec).2 :=
  layerStep_out_congr ar layers.L6
    (s2Out_out_eq ar layers h hX fun h5 => ha (subset_reach hX h5))
    (patch_L6 layers ▸ h.H6.on_patch hX ha)

theorem s3Out_out_eq (ha : rec.cell ∉ reachL7 t X) :
    (s3Out ar layers s rec).2 = (s3Out ar layers s' rec).2 :=
  layerStep_out_congr ar layers.L7
    (s3Buf_out_eq ar layers h hX fun h6 => ha (subset_reach hX h6))
    (patch_L7 layers ▸ h.H7.on_patch hX ha)

end Outputs

theorem layersAgree_seen (h : LayersAgree t X s s') (hX : rec.cell ∈ X)
    (hin : t.InProc rec.x rec.y) :
    LayersAgree t X (oracleStep ar layers window s rec).1 (oracleStep ar layers window s' rec).1 := by
  have hpass := h.tdrop_s2.pass2 window rec hin
  refine ⟨?_, ?_, ?_, ?_, drops2Agree_seen window rec h.tdrop_s2 ar layers⟩
  · rw [oracleStep_H4, oracleStep_H4]
    exact h.H4.seen (a := rec.cell) fun c hc _ => layerStep_cell_congr ar layers.L4 hc fun _ => rfl
  · rw [oracleStep_H5, oracleStep_H5]
    refine h.H5.seen (a := rec.cell) fun c hc hbad => layerStep_cell_congr ar layers.L5 hc fun hp => ?_
    exact s2Buf_out_eq ar layers h hX (hbad (patch_L5 layers ▸ hp))
  · rw [oracleStep_H6, oracleStep_H6, hpass]
    split
    · refine h.H6.seen (a := rec.cell) fun c hc hbad =>
        layerStep_cell_congr ar layers.L6 hc fun hp => ?_
      exact s2Out_out_eq ar layers h hX (hbad (patch_L6 layers ▸ hp))
    · exact h.H6
  · rw [oracleStep_H7, oracleStep_H7, hpass]
    split
    · refine h.H7.seen (a := rec.cell) fun c hc hbad =>
        layerStep_cell_congr ar layers.L7 hc fun hp => ?_
      exact s3Buf_out_eq ar layers h hX (hbad (patch_L7 layers ▸ hp))
    · exact h.H7

theorem layersAgree_unseen (h : LayersAgree t X s s') (hX : rec.cell ∈ X)
    (hout : ¬ t.InProc rec.x rec.y) : LayersAgree t X (oracleStep ar layers window s rec).1 s' := by
  have h4 : rec.cell ∈ unseen t X := ⟨hX, hout⟩
  have h5 : rec.cell ∈ reachL4 t X := subset_reach hX h4
  have h6 : rec.cell ∈ reachL5 t X := subset_reach hX h5
  have h7 : rec.cell ∈ reachL6 t X := subset_reach hX h6
  refine ⟨?_, ?_, ?_, ?_, drops2Agree_unseen window rec h.tdrop_s2 ar layers hout⟩
  · rw [oracleStep_H4]
    exact h.H4.unseen h4 fun c hc => layerStep_frame ar layers.L4 (patch_L4 layers ▸ hc)
  · rw [oracleStep_H5]
    exact h.H5.unseen h5 fun c hc => layerStep_frame ar layers.L5 (patch_L5 layers ▸ hc)
  · rw [oracleStep_H6]
    split
    · exact h.H6.unseen h6 fun c hc => layerStep_frame ar layers.L6 (patch_L6 layers ▸ hc)
    · exact h.H6
  · rw [oracleStep_H7]
    split
    · exact h.H7.unseen h7 fun c hc => layerStep_frame ar layers.L7 (patch_L7 layers ▸ hc)
    · exact h.H7

theorem layers_partialView (t : BlockTopo) (X : Set (S2Cell g)) (window : Int) :
    PartialView (oracleStep ar layers window) (oracleStep ar layers window) (procRoute t)
      (fun rec : S2Record R g => rec.cell ∈ X) (LayersAgree t X) where
  seen := by
    intro s s' rec rec' hX hr h
    obtain ⟨rfl, hin⟩ := procRoute_eq_some.mp hr
    exact layersAgree_seen ar layers h hX hin
  unseen := by
    intro s s' rec hX hr h
    exact layersAgree_unseen ar layers h hX (procRoute_eq_none.mp hr)

end Step

end SslaRt
