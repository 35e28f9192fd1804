import SslaRt.ProbePipeline
import SslaRt.RealArith
import SslaRt.StageSpec

/-! A pipeline over the real numbers that carries marks: in stage 0 an event has its own
mark only, and layer 2 mixes the marks of its neighbourhood. -/

namespace SslaRt

/-- The polarity of an event is its mark in stage 0, and layer 2 mixes the marks. -/
noncomputable def signalLayers : Nat → LayerWeights ℝ
  | 0 => signalWeights kInDim kC0 1 0 0 (some (unitRow 1))
  | 1 => signalWeights kC0 kC0 9 0 0 none
  | 2 => signalWeights kC0 kC1 9 (unitRow 1) markRow (some markRow)
  | _ => signalWeights kC1 kC1 9 0 0 none

noncomputable def signalPipeline (W H : Nat) (window : Int) : SslaSPipeline ℝ where
  ar := realArith
  castFloat := fun v => v
  H_ := H
  W_ := W
  tdrop_window_ := window
  layers_ := signalLayers

section SignalPipeline

variable {W H : Nat} {window : Int}

theorem signal_schema (W H : Nat) (window : Int) : (signalPipeline W H window).Schema where
  layer0 := signalWeights_schema rfl
  layer1 := signalWeights_schema rfl
  layer2 := signalWeights_schema rfl
  layer3 := signalWeights_schema rfl

theorem signal_projected : (signalLayers 2).input_proj = none → kC0 = kC1 := nofun

theorem signal_ref2 (hpass : (signalLayers 2).input_proj = none → kC0 = kC1) :
    Mixes ((signalLayers 2).ref hpass) := signalWeights_projected (by decide) _ hpass

variable (s : PipeState ℝ)

theorem signal_evLayer0 {e : Event ℝ} (he : ¬ e.Skipped (signalPipeline W H window)) :
    ∃ t, 0 < t ∧ signal (evLayer0 (signalPipeline W H window) s e).2 = t * e.p := by
  have hpass : (signalLayers 0).input_proj = none → kInDim = kC0 := nofun
  have hlayer : SignalLayer ((signalLayers 0).ref hpass) 0 0 (unitRow 1) :=
    signalWeights_projected (by decide) _ hpass
  have hp : featBuf (evFeatIn (signalPipeline W H window) s e) 1 = e.p := by
    have hin : ¬ (signalPipeline W H window).OutOfBounds (castInt e.x) (castInt e.y) := he
    unfold evFeatIn SslaSPipeline.preprocess
    dsimp only
    rw [if_neg hin]
    rfl
  obtain ⟨-, t, ht, hout⟩ := hlayer.out realArith_spreads (evFeatIn (signalPipeline W H window) s e)
    s.hidden_0 e.px e.py ((signalPipeline W H window).Hs_ 0) ((signalPipeline W H window).Ws_ 0)
  refine ⟨t, ht, ?_⟩
  rw [evLayer0, layer0_eq (signal_schema W H window)]
  refine (congrArg (fun r => signal r.2) (layerForwardCt_eq (signalLayers 0) hpass realArith _ _ _ _ _ _)).trans ?_
  rw [hout, dot_unitRow, hp]
  simp [dot_zero]

theorem signal_evLayer1 {e : Event ℝ} (he : ¬ e.Skipped (signalPipeline W H window)) :
    featBuf (evLayer1 (signalPipeline W H window) s e).2 1 = 1 ∧
      ∃ t, 0 < t ∧ signal (evLayer1 (signalPipeline W H window) s e).2 = t * e.p := by
  have hpass : (signalLayers 1).input_proj = none → kC0 = kC0 := fun _ => rfl
  have hlayer : HandsOn ((signalLayers 1).ref hpass) := by
    unfold HandsOn
    exact signalWeights_plain (by decide) hpass
  obtain ⟨t, ht, hin⟩ := signal_evLayer0 s he
  obtain ⟨hone, u, hu, hout⟩ := HandsOn.out hlayer realArith_spreads s.hidden_1 e.px e.py
    ((signalPipeline W H window).Hs_ 0) ((signalPipeline W H window).Ws_ 0)
    (f := (evLayer0 (signalPipeline W H window) s e).2)
  rw [evLayer1, layer1_eq (signal_schema W H window)]
  have hstep := layerForwardCt_eq (signalLayers 1) hpass realArith e.px e.py
    ((signalPipeline W H window).Hs_ 0) ((signalPipeline W H window).Ws_ 0)
    (evLayer0 (signalPipeline W H window) s e).2 s.hidden_1
  refine ⟨(congrArg (fun r => featBuf r.2 1) hstep).trans hone, u * t, mul_pos hu ht,
    (congrArg (fun r => signal r.2) hstep).trans ?_⟩
  rw [hout, hin, mul_assoc]

theorem signal_evLayer2 (e : Event ℝ) : evLayer2 (signalPipeline W H window) s e =
    layerStep realArith ((signalLayers 2).ref signal_projected) (evLayer1 (signalPipeline W H window) s e).2 s.hidden_2
      (e.px / 2) (e.py / 2) ((signalPipeline W H window).Hs_ 1) ((signalPipeline W H window).Ws_ 1) := by
  rw [evLayer2, layer2_eq (signal_schema W H window)]
  exact layerForwardCt_eq (signalLayers 2) signal_projected _ _ _ _ _ _ _

variable (W H window) in
theorem signal_evLayer3 (e : Event ℝ) : ∃ t, 0 < t ∧
    signal (evLayer3 (signalPipeline W H window) s e).2 =
      t * signal (evLayer2 (signalPipeline W H window) s e).2 := by
  have hpass : (signalLayers 3).input_proj = none → kC1 = kC1 := fun _ => rfl
  have hlayer : HandsOn ((signalLayers 3).ref hpass) := by
    unfold HandsOn
    exact signalWeights_plain (by decide) hpass
  obtain ⟨-, t, ht, hout⟩ := HandsOn.out hlayer realArith_spreads s.hidden_3 (e.px / 2) (e.py / 2)
    ((signalPipeline W H window).Hs_ 1) ((signalPipeline W H window).Ws_ 1)
    (f := (evLayer2 (signalPipeline W H window) s e).2)
  refine ⟨t, ht, ?_⟩
  rw [evLayer3, layer3_eq (signal_schema W H window)]
  exact (congrArg (fun r => signal r.2) (layerForwardCt_eq (signalLayers 3) hpass realArith _ _ _ _ _ _)).trans hout

end SignalPipeline

end SslaRt
