import SslaRt.ShardStage0
import SslaRt.StageSpec
import Mathlib.Algebra.Order.Ring.Int
import Mathlib.Data.Rat.Cast.Order

/-! A small pipeline over the integers, with weights that do not depend on the
channel, and events by their pixel. -/

namespace SslaRt

/-- Trivial gates and normaliser. -/
def onesArith : Arith ℤ where
  sigmoid := fun _ => 1
  normalise := fun x => x

def probeWeights (num_pos : Nat) (input_proj : Option (Nat → ℤ)) (goW ln_gamma ln_beta : ℤ) :
    LayerWeights ℤ where
  num_pos := num_pos
  qvgIn := fun _ _ => 1
  goW := fun _ _ => goW
  goW_T := fun _ _ => goW
  input_proj := input_proj
  ln_gamma := fun _ => ln_gamma
  ln_beta := fun _ => ln_beta

def probeLayers : Nat → LayerWeights ℤ
  | 0 => probeWeights 1 (some fun _ => 1) 1 0 1
  | 1 => probeWeights 9 none 1 0 1
  | 2 => probeWeights 9 (some fun _ => 1) 1 1 0
  | _ => probeWeights 9 none 0 1 0

def probePipeline (W H : Nat) (window : Int) : SslaSPipeline ℤ where
  ar := onesArith
  castFloat := fun _ => 0
  H_ := H
  W_ := W
  tdrop_window_ := window
  layers_ := probeLayers

theorem probe_schema (W H : Nat) (window : Int) : (probePipeline W H window).Schema where
  layer0 := ⟨rfl, rfl, fun _ _ _ _ _ _ => rfl⟩
  layer1 := ⟨rfl, rfl, fun _ _ _ _ _ _ => rfl⟩
  layer2 := ⟨rfl, rfl, fun _ _ _ _ _ _ => rfl⟩
  layer3 := ⟨rfl, rfl, fun _ _ _ _ _ _ => rfl⟩

def polarEvent {R : Type*} (p : R) (a : Pixel) : Event R := ⟨0, a.1, a.2, p⟩

abbrev pixelEvent (a : Pixel) : Event ℤ := polarEvent 1 a

def zeroWorker {R : Type*} [CommRing R] : WorkerState R := ⟨SslaSPipeline.reset, 0, 0⟩

theorem castInt_natCast (n : Nat) : castInt n = n := by
  simp [castInt]

section PolarEvent

variable {R : Type*} (p : R) (a : Pixel)

@[simp] theorem polarEvent_px : (polarEvent p a).px = a.1 := by
  rw [Event.px, polarEvent, castInt_natCast, Int.toNat_natCast]

@[simp] theorem polarEvent_py : (polarEvent p a).py = a.2 := by
  rw [Event.py, polarEvent, castInt_natCast, Int.toNat_natCast]

@[simp] theorem polarEvent_at : (polarEvent p a).at = a := by
  rw [Event.at, polarEvent_px, polarEvent_py]

end PolarEvent

end SslaRt
