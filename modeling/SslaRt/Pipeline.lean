import SslaRt.FusedLayers
import SslaRt.Tdrop
import Mathlib.Data.Rat.Defs

/-! Stages 0 and 1 of the CPU pipeline. Timestamps and coordinates are exact
rationals; the conversion of a normalised time to a feature is not interpreted. -/

namespace SslaRt

structure Event (R : Type*) where
  t : ℚ
  x : ℚ
  y : ℚ
  p : R

/-- `static_cast<int>` rounds towards zero. -/
def castInt (x : ℚ) : Int := x.num.tdiv x.den

/-- What is loaded once and does not change. -/
structure SslaSPipeline (R : Type*) where
  ar : Arith R
  castFloat : ℚ → R
  H_ : Nat
  W_ : Nat
  tdrop_window_ : Int
  layers_ : Nat → LayerWeights R

structure PipeState (R : Type*) where
  hidden_0 : Nat → Fin kC0 → R
  hidden_1 : Nat → Fin kC0 → R
  hidden_2 : Nat → Fin kC1 → R
  hidden_3 : Nat → Fin kC1 → R
  tdrop_counter_ : Nat → Nat → UInt8
  last_t_us_ : Nat → ℚ

namespace SslaSPipeline

variable {R : Type*} (P : SslaSPipeline R)

def Hs_ (stage : Nat) : Nat := P.H_ / 2 ^ stage
def Ws_ (stage : Nat) : Nat := P.W_ / 2 ^ stage

def OutOfBounds (ex ey : Int) : Prop := ex < 0 ∨ ex ≥ P.W_ ∨ ey < 0 ∨ ey ≥ P.H_

instance (ex ey : Int) : Decidable (P.OutOfBounds ex ey) := inferInstanceAs (Decidable (_ ∨ _))

/-- Counts at coordinates that are already pooled. -/
def tdropCheckAt (s : PipeState R) (stage pooled_ev_x pooled_ev_y : Nat) : PipeState R × Bool :=
  if stage > 2 then (s, true)
  else
    let Wp := P.Ws_ (stage + 1)
    let idx := pooled_ev_y * Wp + pooled_ev_x
    let d := tdrop (s.tdrop_counter_ stage) P.tdrop_window_ idx
    ({ s with tdrop_counter_ := Function.update s.tdrop_counter_ stage d.1 }, d.2)

structure Pooled (R : Type*) where
  state : PipeState R
  ev_x : Nat
  ev_y : Nat
  pass : Bool

def tdropAndPool (s : PipeState R) (stage ev_x ev_y : Nat) : Pooled R :=
  if stage > 2 then ⟨s, ev_x, ev_y, true⟩
  else
    let ev_x := ev_x / 2
    let ev_y := ev_y / 2
    let d := P.tdropCheckAt s stage ev_x ev_y
    ⟨d.1, ev_x, ev_y, d.2⟩

variable [CommRing R]

def reset : PipeState R where
  hidden_0 := fun _ => 0
  hidden_1 := fun _ => 0
  hidden_2 := fun _ => 0
  hidden_3 := fun _ => 0
  tdrop_counter_ := fun _ _ => 0
  last_t_us_ := fun _ => -1

def preprocess (s : PipeState R) (e : Event R) : PipeState R × (Fin kInDim → R) :=
  let ex := castInt e.x
  let ey := castInt e.y
  if P.OutOfBounds ex ey then (s, fun _ => 0)
  else
    let pidx := ey.toNat * P.W_ + ex.toNat
    let prev := s.last_t_us_ pidx
    let dt_norm := if prev < 0 then 1 else
      let v := (e.t - prev) / 100000
      let v := if v < 0 then 0 else v
      let v := if v > 1 then 1 else v
      P.castFloat v
    ({ s with last_t_us_ := Function.update s.last_t_us_ pidx e.t }, ![dt_norm, e.p])

/-- `layer_forward_ct` of a layer with its own hidden state. -/
def layerForward {IN OUT : Nat} (layer_idx : Nat) (ev_x ev_y : Nat) (feat_in : Fin IN → R)
    (H_all : Nat → Fin OUT → R) : (Nat → Fin OUT → R) × (Fin OUT → R) :=
  let stage := layer_idx / 2
  layerForwardCt P.ar IN OUT (P.layers_ layer_idx) ev_x ev_y (P.Hs_ stage) (P.Ws_ stage) feat_in H_all

/-- The pointer that the fused layers get; it is null without a projection. -/
def inputProj (layer_idx : Nat) : Nat → R := (P.layers_ layer_idx).input_proj.getD fun _ => 0

def stageForward0 (s : PipeState R) (ev_x ev_y : Nat) (feat_in : Fin kInDim → R) :
    PipeState R × (Fin kC0 → R) :=
  if Interior ev_x ev_y (P.Hs_ 0) (P.Ws_ 0) then
    let L0 := P.layers_ 0
    let tmp := s0_l0_interior P.ar ev_x ev_y (P.Ws_ 0) feat_in (P.inputProj 0) (L0.qvgIn 0)
      (L0.goW 0) L0.ln_gamma L0.ln_beta s.hidden_0
    let L1 := P.layers_ 1
    let feat_out := s0_l1_interior P.ar ev_x ev_y (P.Ws_ 0) tmp.2 L1.qvgIn L1.goW L1.ln_gamma
      L1.ln_beta s.hidden_1
    ({ s with hidden_0 := tmp.1, hidden_1 := feat_out.1 }, feat_out.2)
  else
    let tmp := P.layerForward 0 ev_x ev_y feat_in s.hidden_0
    let feat_out := P.layerForward 1 ev_x ev_y tmp.2 s.hidden_1
    ({ s with hidden_0 := tmp.1, hidden_1 := feat_out.1 }, feat_out.2)

def stageForward1 (s : PipeState R) (ev_x ev_y : Nat) (feat_in : Fin kC0 → R) :
    PipeState R × (Fin kC1 → R) :=
  let tmp :=
    if Interior ev_x ev_y (P.Hs_ 1) (P.Ws_ 1) then
      let L0 := P.layers_ 2
      s1_l0_interior_tiled P.ar ev_x ev_y (P.Ws_ 1) feat_in (P.inputProj 2) L0.qvgIn L0.goW_T
        L0.ln_gamma L0.ln_beta s.hidden_2
    else P.layerForward 2 ev_x ev_y feat_in s.hidden_2
  let feat_out :=
    if Interior ev_x ev_y (P.Hs_ 1) (P.Ws_ 1) then
      let L1 := P.layers_ 3
      s1_l1_interior_tiled P.ar ev_x ev_y (P.Ws_ 1) tmp.2 L1.qvgIn L1.goW_T L1.ln_gamma L1.ln_beta
        s.hidden_3
    else P.layerForward 3 ev_x ev_y tmp.2 s.hidden_3
  ({ s with hidden_2 := tmp.1, hidden_3 := feat_out.1 }, feat_out.2)

def stageForwardStateOnly0 (s : PipeState R) (ev_x ev_y : Nat) (feat_in : Fin kInDim → R) :
    PipeState R :=
  if Interior ev_x ev_y (P.Hs_ 0) (P.Ws_ 0) then
    let L0 := P.layers_ 0
    let tmp := s0_l0_interior P.ar ev_x ev_y (P.Ws_ 0) feat_in (P.inputProj 0) (L0.qvgIn 0)
      (L0.goW 0) L0.ln_gamma L0.ln_beta s.hidden_0
    let L1 := P.layers_ 1
    { s with
      hidden_0 := tmp.1
      hidden_1 := s0_l1_interior_state_only P.ar ev_x ev_y (P.Ws_ 0) tmp.2 L1.qvgIn s.hidden_1 }
  else
    let tmp := P.layerForward 0 ev_x ev_y feat_in s.hidden_0
    let scratch := P.layerForward 1 ev_x ev_y tmp.2 s.hidden_1
    { s with hidden_0 := tmp.1, hidden_1 := scratch.1 }

def stageForwardStateOnly1 (s : PipeState R) (ev_x ev_y : Nat) (feat_in : Fin kC0 → R) :
    PipeState R :=
  if Interior ev_x ev_y (P.Hs_ 1) (P.Ws_ 1) then
    let L0 := P.layers_ 2
    let tmp := s1_l0_interior_tiled P.ar ev_x ev_y (P.Ws_ 1) feat_in (P.inputProj 2) L0.qvgIn
      L0.goW_T L0.ln_gamma L0.ln_beta s.hidden_2
    let L1 := P.layers_ 3
    { s with
      hidden_2 := tmp.1
      hidden_3 := s1_l1_interior_tiled_state_only P.ar ev_x ev_y (P.Ws_ 1) tmp.2 L1.qvgIn s.hidden_3 }
  else
    let tmp := P.layerForward 2 ev_x ev_y feat_in s.hidden_2
    let scratch := P.layerForward 3 ev_x ev_y tmp.2 s.hidden_3
    { s with hidden_2 := tmp.1, hidden_3 := scratch.1 }

theorem stageForwardStateOnly0_eq (s : PipeState R) (ev_x ev_y : Nat) (feat_in : Fin kInDim → R) :
    P.stageForwardStateOnly0 s ev_x ev_y feat_in = (P.stageForward0 s ev_x ev_y feat_in).1 := by
  rw [stageForwardStateOnly0, stageForward0]
  split
  · simp only [s0_l1_interior_state]
  · rfl

theorem stageForwardStateOnly1_eq (s : PipeState R) (ev_x ev_y : Nat) (feat_in : Fin kC0 → R) :
    P.stageForwardStateOnly1 s ev_x ev_y feat_in = (P.stageForward1 s ev_x ev_y feat_in).1 := by
  rw [stageForwardStateOnly1, stageForward1]
  split
  · simp only [s1_l1_interior_tiled_state]
  · rfl

section Counters

variable (s : PipeState R) (counters : Nat → Nat → UInt8) (ev_x ev_y : Nat)

theorem stageForward0_counters (feat_in : Fin kInDim → R) :
    P.stageForward0 { s with tdrop_counter_ := counters } ev_x ev_y feat_in =
      ({ (P.stageForward0 s ev_x ev_y feat_in).1 with tdrop_counter_ := counters },
        (P.stageForward0 s ev_x ev_y feat_in).2) := by
  unfold stageForward0
  split <;> rfl

theorem stageForward1_counters (feat_in : Fin kC0 → R) :
    P.stageForward1 { s with tdrop_counter_ := counters } ev_x ev_y feat_in =
      ({ (P.stageForward1 s ev_x ev_y feat_in).1 with tdrop_counter_ := counters },
        (P.stageForward1 s ev_x ev_y feat_in).2) := rfl

end Counters

/-- Checking the dropout before stage 0 instead of after it. -/
theorem tdropCheckAt_stageForward0 (s : PipeState R) (ev_x ev_y : Nat) (feat_in : Fin kInDim → R)
    (stage px py : Nat) :
    P.stageForward0 (P.tdropCheckAt s stage px py).1 ev_x ev_y feat_in =
        ((P.tdropCheckAt (P.stageForward0 s ev_x ev_y feat_in).1 stage px py).1,
          (P.stageForward0 s ev_x ev_y feat_in).2) ∧
      (P.tdropCheckAt (P.stageForward0 s ev_x ev_y feat_in).1 stage px py).2 =
        (P.tdropCheckAt s stage px py).2 := by
  have hc : (P.stageForward0 s ev_x ev_y feat_in).1.tdrop_counter_ = s.tdrop_counter_ := by
    unfold stageForward0
    split <;> rfl
  simp only [tdropCheckAt, hc]
  split
  · exact ⟨rfl, rfl⟩
  · exact ⟨P.stageForward0_counters s _ ev_x ev_y feat_in, rfl⟩

theorem tdropCheckAt_stageForward1 (s : PipeState R) (ev_x ev_y : Nat) (feat_in : Fin kC0 → R)
    (stage px py : Nat) :
    P.stageForward1 (P.tdropCheckAt s stage px py).1 ev_x ev_y feat_in =
        ((P.tdropCheckAt (P.stageForward1 s ev_x ev_y feat_in).1 stage px py).1,
          (P.stageForward1 s ev_x ev_y feat_in).2) ∧
      (P.tdropCheckAt (P.stageForward1 s ev_x ev_y feat_in).1 stage px py).2 =
        (P.tdropCheckAt s stage px py).2 := by
  have hc : (P.stageForward1 s ev_x ev_y feat_in).1.tdrop_counter_ = s.tdrop_counter_ := rfl
  simp only [tdropCheckAt, hc]
  split
  · exact ⟨rfl, rfl⟩
  · exact ⟨P.stageForward1_counters s _ ev_x ev_y feat_in, rfl⟩

end SslaSPipeline

end SslaRt
