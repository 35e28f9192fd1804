import SslaRt.CelledBatch
import SslaRt.ProbePipeline
import Mathlib.Data.UInt

/-! The kernel with all weights one, fed one record at a time. -/

namespace SslaRt

open Interleave

def onesLayer (IN OUT : Nat) : LayerRef ℤ IN OUT where
  qvgIn := fun _ _ _ => 1
  goW := fun _ _ _ => 1
  input_proj := some fun _ _ => 1
  ln_gamma := fun _ => 1
  ln_beta := fun _ => 0
  K := 3
  passthrough := fun h => by simp at h

def onesLayers : S2S3Layers ℤ where
  L4 := onesLayer C1 C2
  L5 := onesLayer C2 C2
  L6 := onesLayer C2 C3
  L7 := onesLayer C3 C3
  L4_K := rfl
  L5_K := rfl
  L6_K := rfl
  L7_K := rfl

section Zero

variable {R : Type*} [CommRing R]

def zeroState : S2S3State R where
  H4 := 0
  H5 := 0
  H6 := 0
  H7 := 0
  tdrop_s2 := 0
  tdrop_s3 := 0

def zeroSmem : Smem R where
  event_slots := fun _ => ⟨0, 0, 0, 0, false⟩
  pass2 := fun _ => false
  pass3 := fun _ => false

end Zero

abbrev S2Cell (g : S2Grid) : Type := Fin g.W2 × Fin g.H2

def S2Record.cell {R : Type*} {g : S2Grid} (rec : S2Record R g) : S2Cell g :=
  (⟨rec.x, rec.x_lt⟩, ⟨rec.y, rec.y_lt⟩)

variable {g : S2Grid}

def recordAt {R : Type*} (a : S2Cell g) (feat1 : Fin C1 → R) : S2Record R g where
  x := a.1
  y := a.2
  feat1 := feat1
  x_lt := a.1.isLt
  y_lt := a.2.isLt

def onesRecord (a : S2Cell g) : S2Record ℤ g := recordAt a fun _ => 1

def BatchSchedule.roundRobin (n : Nat) : BatchSchedule n where
  tdrop_s2 := Schedule.roundRobin N_WARPS n
  L4 := Schedule.roundRobin N_WARPS n
  L5 := Schedule.roundRobin N_WARPS n
  tdrop_s3 := Schedule.roundRobin N_WARPS n
  L6 := Schedule.roundRobin N_WARPS n
  L7 := Schedule.roundRobin N_WARPS n

def serialBatches {R : Type*} (recs : List (S2Record R g)) : List (Batch R g) :=
  recs.map fun rec => ⟨[rec], le_rfl, by simp, BatchSchedule.roundRobin _⟩

@[simp] theorem serialBatches_recs {R : Type*} (recs : List (S2Record R g)) :
    (serialBatches recs).flatMap Batch.recs = recs := by
  induction recs with
  | nil => rfl
  | cons rec recs ih =>
    rw [serialBatches, List.map_cons, List.flatMap_cons]
    exact congrArg (rec :: ·) ih

end SslaRt
