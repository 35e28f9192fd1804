import SslaRt.FusedSpec
import SslaRt.StageLayers

/-! With weights of the SSLA-S schema every layer of the pipeline is the generic
one, in the interior and at the boundary. -/

namespace SslaRt

variable {R : Type*}

structure SslaSPipeline.Schema (P : SslaSPipeline R) : Prop where
  layer0 : (P.layers_ 0).Schema kInDim kC0 1
  layer1 : (P.layers_ 1).Schema kC0 kC0 9
  layer2 : (P.layers_ 2).Schema kC0 kC1 9
  layer3 : (P.layers_ 3).Schema kC1 kC1 9

variable [CommRing R] {P : SslaSPipeline R} (hP : P.Schema) (ev_x ev_y : Nat)

include hP

theorem layer0_eq (feat_in : Fin kInDim → R) (H_all : Nat → Fin kC0 → R) :
    P.layer0 ev_x ev_y feat_in H_all = P.layerForward 0 ev_x ev_y feat_in H_all := by
  unfold SslaSPipeline.layer0
  split
  · exact s0_l0_interior_eq P.ar hP.layer0 feat_in H_all
  · rfl

theorem layer1_eq (feat_in : Fin kC0 → R) (H_all : Nat → Fin kC0 → R) :
    P.layer1 ev_x ev_y feat_in H_all = P.layerForward 1 ev_x ev_y feat_in H_all := by
  unfold SslaSPipeline.layer1
  split
  · next hi => exact s0_l1_interior_eq P.ar hi hP.layer1 feat_in H_all
  · rfl

theorem layer2_eq (feat_in : Fin kC0 → R) (H_all : Nat → Fin kC1 → R) :
    P.layer2 ev_x ev_y feat_in H_all = P.layerForward 2 ev_x ev_y feat_in H_all := by
  unfold SslaSPipeline.layer2
  split
  · next hi => exact s1_l0_interior_tiled_eq P.ar hi hP.layer2 feat_in H_all
  · rfl

theorem layer3_eq (feat_in : Fin kC1 → R) (H_all : Nat → Fin kC1 → R) :
    P.layer3 ev_x ev_y feat_in H_all = P.layerForward 3 ev_x ev_y feat_in H_all := by
  unfold SslaSPipeline.layer3
  split
  · next hi => exact s1_l1_interior_tiled_eq P.ar hi hP.layer3 feat_in H_all
  · rfl

end SslaRt
