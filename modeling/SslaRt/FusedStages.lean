import SslaRt.DetectorRefinement
import SslaRt.ProbePipeline

/-! A stage of the pipeline, fused or not, with output or without, is its two
generic layers one after the other, and it changes the cells of their patches only. -/

namespace SslaRt

open CellMemory

variable {R : Type*}

/-- The cells of layer `layer_idx` that an event at `(ev_x, ev_y)` visits. -/
def SslaSPipeline.layerCells (P : SslaSPipeline R) (layer_idx ev_x ev_y : Nat) : List Nat :=
  cells (patchOrder (P.layers_ layer_idx).num_pos ev_x ev_y (P.Hs_ (layer_idx / 2))
    (P.Ws_ (layer_idx / 2)))

variable [CommRing R] (P : SslaSDetector R)

/-- `layer_forward_ct` of both layers, with the buffer of the stage between them. -/
def SslaSDetector.genericStage (s : DetectorState R) (ev_x ev_y stage : Nat)
    (feat_in feat_out : Nat → R) : DetectorState R × (Nat → R) :=
  let t := P.firstLayer s ev_x ev_y stage feat_in
  P.layerForwardCt t ev_x ev_y (2 * stage + 1) (t.stage_out_ stage) feat_out

variable {s : DetectorState R} {ev_x ev_y : Nat} {feat_in feat_out : Nat → R}

theorem layerForwardCt_frame {layer_idx l c : Nat}
    (hc : (P.layerForwardCt s ev_x ev_y layer_idx feat_in feat_out).1.hidden_ l c ≠ s.hidden_ l c) :
    l = layer_idx ∧ c ∈ P.layerCells layer_idx ev_x ev_y := by
  rw [layerForwardCt_hidden] at hc
  by_cases hl : l = layer_idx
  · subst hl
    rw [Function.update_self] at hc
    by_contra hcell
    exact hc (sweep_frame _ _ _ _ fun hmem => hcell ⟨rfl, hmem⟩)
  · exact absurd (congrFun (Function.update_of_ne hl _ s.hidden_) c) hc

theorem genericStage_frame {stage l c : Nat}
    (hc : (P.genericStage s ev_x ev_y stage feat_in feat_out).1.hidden_ l c ≠ s.hidden_ l c) :
    l / 2 = stage ∧ c ∈ P.layerCells l ev_x ev_y := by
  by_cases hfirst : (P.firstLayer s ev_x ev_y stage feat_in).hidden_ l c = s.hidden_ l c
  · rw [← hfirst] at hc
    obtain ⟨rfl, hcell⟩ := layerForwardCt_frame P hc
    exact ⟨by omega, hcell⟩
  · obtain ⟨rfl, hcell⟩ := layerForwardCt_frame P hfirst
    exact ⟨by omega, hcell⟩

variable (hP : P.toSslaSPipeline.Schema)

include hP

theorem stageForward0_generic :
    let g := P.genericStage s ev_x ev_y 0 feat_in feat_out
    let r := P.stageForward s ev_x ev_y 0 feat_in feat_out
    r.2 = g.2 ∧ r.1.hidden_ = g.1.hidden_ := by
  intro g r
  obtain ⟨hhidden, hout, -⟩ := stageForward0_hidden P (s := s) ev_x ev_y feat_in hP feat_out
  obtain ⟨hghidden, hgout⟩ := bothLayers P (s := s) ev_x ev_y feat_in 0 hP.layer0.passthrough
    hP.layer1.passthrough feat_out
  rw [layer0_eq hP, layer1_eq hP] at hhidden hout
  exact ⟨hout.trans hgout.symm, hhidden.trans hghidden.symm⟩

theorem stageForward1_generic :
    let g := P.genericStage s ev_x ev_y 1 feat_in feat_out
    let r := P.stageForward s ev_x ev_y 1 feat_in feat_out
    r.2 = g.2 ∧ r.1.hidden_ = g.1.hidden_ := by
  intro g r
  obtain ⟨hhidden, hout, -⟩ := stageForward1_hidden P (s := s) ev_x ev_y feat_in hP feat_out
  obtain ⟨hghidden, hgout⟩ := bothLayers P (s := s) ev_x ev_y feat_in 1 hP.layer2.passthrough
    hP.layer3.passthrough feat_out
  rw [layer2_eq hP, layer3_eq hP] at hhidden hout
  exact ⟨hout.trans hgout.symm, hhidden.trans hghidden.symm⟩

theorem stateOnly_hidden (stage : Fin 4) :
    (P.stageForwardStateOnly s ev_x ev_y stage feat_in).hidden_ =
      (P.stageForward s ev_x ev_y stage feat_in feat_out).1.hidden_ := by
  match stage with
  | 0 => exact (stageForward0_hidden P ev_x ev_y feat_in hP feat_out).2.2
  | 1 => exact (stageForward1_hidden P ev_x ev_y feat_in hP feat_out).2.2
  | 2 =>
    have hh := fun out => layerForwardCt_hidden P (s := P.firstLayer s ev_x ev_y 2 feat_in) ev_x ev_y 5
      ((P.firstLayer s ev_x ev_y 2 feat_in).stage_out_ 2) out
    exact (hh s.stack).trans (hh feat_out).symm
  | 3 =>
    have hh := fun out => layerForwardCt_hidden P (s := P.firstLayer s ev_x ev_y 3 feat_in) ev_x ev_y 7
      ((P.firstLayer s ev_x ev_y 3 feat_in).stage_out_ 3) out
    exact (hh s.stack).trans (hh feat_out).symm

theorem stageForward_generic (s : DetectorState R) (ev_x ev_y : Nat) (stage : Fin 4)
    (feat_in feat_out : Nat → R) :
    (P.stageForward s ev_x ev_y stage feat_in feat_out).2 =
        (P.genericStage s ev_x ev_y stage feat_in feat_out).2 ∧
      (P.stageForward s ev_x ev_y stage feat_in feat_out).1.hidden_ =
        (P.genericStage s ev_x ev_y stage feat_in feat_out).1.hidden_ ∧
      (P.stageForwardStateOnly s ev_x ev_y stage feat_in).hidden_ =
        (P.genericStage s ev_x ev_y stage feat_in feat_out).1.hidden_ ∧
      ∀ l c, (P.stageForward s ev_x ev_y stage feat_in feat_out).1.hidden_ l c ≠ s.hidden_ l c →
        l / 2 = stage ∧ c ∈ P.layerCells l ev_x ev_y := by
  have hsame : (P.stageForward s ev_x ev_y stage feat_in feat_out).2 =
        (P.genericStage s ev_x ev_y stage feat_in feat_out).2 ∧
      (P.stageForward s ev_x ev_y stage feat_in feat_out).1.hidden_ =
        (P.genericStage s ev_x ev_y stage feat_in feat_out).1.hidden_ := by
    match stage with
    | 0 => exact stageForward0_generic P hP
    | 1 => exact stageForward1_generic P hP
    | 2 => exact ⟨rfl, rfl⟩
    | 3 => exact ⟨rfl, rfl⟩
  refine ⟨hsame.1, hsame.2, (stateOnly_hidden P hP stage).trans hsame.2, fun l c hc => ?_⟩
  rw [hsame.2] at hc
  exact genericStage_frame P hc

omit hP

theorem one_le_four : 1 ≤ 4 := by decide

/-- The probe pipeline with a head of one level and two classes. -/
def probeDetector (W H : Nat) (window : Int) : SslaSDetector ℤ where
  toSslaSPipeline := probePipeline W H window
  hm := ⟨id, id⟩
  num_classes_ := 2
  num_head_levels_ := 1
  levels_pos := Nat.one_pos
  levels_le := one_le_four
  head_weights := fun _ => ⟨fun _ => 0, fun _ => 0, fun _ => 0, fun _ => 0, fun _ => 0, fun _ => 0,
    fun _ => 0, fun _ => 0, fun _ => 0, fun _ => 0⟩

theorem stageForward_generic_probe :
    let P := probeDetector 8 8 1
    let s := P.load fun _ => 0
    let feat : Nat → ℤ := fun _ => 1
    (P.stageForward s 2 1 1 feat feat).2 = (P.genericStage s 2 1 1 feat feat).2 ∧
      (P.stageForward s 2 1 1 feat feat).1.hidden_ = (P.genericStage s 2 1 1 feat feat).1.hidden_ ∧
      (P.stageForwardStateOnly s 2 1 1 feat).hidden_ = (P.genericStage s 2 1 1 feat feat).1.hidden_ ∧
      ∀ l c, (P.stageForward s 2 1 1 feat feat).1.hidden_ l c ≠ s.hidden_ l c →
        l / 2 = 1 ∧ c ∈ P.layerCells l 2 1 :=
  stageForward_generic (probeDetector 8 8 1) (probe_schema 8 8 1) ((probeDetector 8 8 1).load fun _ => 0) 2 1 1
    (fun _ => 1) fun _ => 1

end SslaRt
