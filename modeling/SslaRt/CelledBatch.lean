import SslaRt.CpuOracle
import SslaRt.ParallelTdrop

/-! The batch flow of the celled kernel: dropout decisions first, then the
layers over the whole batch, all in the shared event slots. -/

namespace SslaRt

open Interleave

abbrev BATCH : Nat := 8

variable {R : Type*} [CommRing R]

structure Smem (R : Type*) where
  event_slots : Nat → EventSlot R
  pass2 : Nat → Bool
  pass3 : Nat → Bool

/-- The pace of the warps in each phase of a batch of `n` events. -/
structure BatchSchedule (n : Nat) where
  tdrop_s2 : Schedule N_WARPS n
  L4 : Schedule N_WARPS n
  L5 : Schedule N_WARPS n
  tdrop_s3 : Schedule N_WARPS n
  L6 : Schedule N_WARPS n
  L7 : Schedule N_WARPS n

structure Batch (R : Type*) (g : S2Grid) where
  recs : List (S2Record R g)
  size_pos : 1 ≤ recs.length
  size_le : recs.length ≤ BATCH
  sched : BatchSchedule recs.length

structure CelledConfig (R : Type*) (g : S2Grid) where
  tdrop_window : Int
  strip : HybridStrip
  weights : S2S3Weights R

def loadSlot {g : S2Grid} (strip : HybridStrip) (rec : S2Record R g) (s : EventSlot R) :
    EventSlot R where
  in_feat := fun i => if h : i < C1 then rec.feat1 ⟨i, h⟩ else 0
  residual := s.residual
  evx := rec.x
  evy := rec.y
  is_owner := decide (strip.Owns rec.x rec.y)

def loadBatch {g : S2Grid} (strip : HybridStrip) (recs : List (S2Record R g))
    (event_slots : Nat → EventSlot R) : Nat → EventSlot R :=
  fun e => match recs[e]? with
    | some rec => loadSlot strip rec (event_slots e)
    | none => event_slots e

def poolSlots (batch_size : Nat) (event_slots : Nat → EventSlot R) : Nat → EventSlot R :=
  fun e => if e < batch_size then
    { event_slots e with evx := (event_slots e).evx / 2, evy := (event_slots e).evy / 2 }
  else event_slots e

structure Stage2Result (R : Type*) where
  slots : Nat → EventSlot R
  pass2 : Nat → Bool
  H4 : Nat → Fin C2 → R
  H5 : Nat → Fin C2 → R
  tdrop_s2 : Nat → UInt8

/-- The dropout is decided before the layers, so that L5 computes the output
of the passing events only. -/
def celledStage2 (ar : Arith R) {g : S2Grid} (cfg : CelledConfig R g) (st : S2S3State R) {n : Nat}
    (sched : BatchSchedule n) (slots : Nat → EventSlot R) (pass2 : Nat → Bool) : Stage2Result R :=
  let td := parallelTdrop sched.tdrop_s2 cfg.tdrop_window st.tdrop_s2 slots g.W2 none pass2
  let L4 := runLayerCelledImplicit ar C1 C2 sched.L4 g.H2 g.W2 slots none cfg.weights.L4 st.H4
  let L5 := runLayerCelledImplicitSplit ar C2 C2 sched.L5 g.H2 g.W2 L4.1 none (some td.2)
    cfg.weights.L5 st.H5
  ⟨L5.1, td.2, L4.2, L5.2, td.1⟩

structure Stage3Result (R : Type*) where
  slots : Nat → EventSlot R
  pass3 : Nat → Bool
  H6 : Nat → Fin C3 → R
  H7 : Nat → Fin C3 → R
  tdrop_s3 : Nat → UInt8

def celledStage3 (ar : Arith R) {g : S2Grid} (cfg : CelledConfig R g) (st : S2S3State R) {n : Nat}
    (sched : BatchSchedule n) (slots : Nat → EventSlot R) (pass2 pass3 : Nat → Bool) :
    Stage3Result R :=
  let td := parallelTdrop sched.tdrop_s3 cfg.tdrop_window st.tdrop_s3 slots g.W3 (some pass2) pass3
  let L6 := runLayerCelledImplicit ar C2 C3 sched.L6 g.H3 g.W3 slots (some pass2) cfg.weights.L6
    st.H6
  let L7 := runLayerCelledImplicitSplit ar C3 C3 sched.L7 g.H3 g.W3 L6.1 (some pass2) (some td.2)
    cfg.weights.L7 st.H7
  ⟨L7.1, td.2, L6.2, L7.2, td.1⟩

def celledBatch (ar : Arith R) {g : S2Grid} (cfg : CelledConfig R g) (st : S2S3State R)
    (sm : Smem R) (b : Batch R g) : S2S3State R × Smem R :=
  let slots := loadBatch cfg.strip b.recs sm.event_slots
  let s2 := celledStage2 ar cfg st b.sched slots sm.pass2
  let slots3 := poolSlots b.recs.length s2.slots
  let s3 := celledStage3 ar cfg st b.sched slots3 s2.pass2 sm.pass3
  (⟨s2.H4, s2.H5, s3.H6, s3.H7, s2.tdrop_s2, s3.tdrop_s3⟩, ⟨s3.slots, s2.pass2, s3.pass3⟩)

structure EventResult (R : Type*) where
  is_owner : Bool
  pass2 : Bool
  pass3 : Bool
  s3_feat : Fin C3 → R

def batchResults (n : Nat) (sm : Smem R) : List (EventResult R) :=
  (List.range n).map fun e =>
    ⟨(sm.event_slots e).is_owner, sm.pass2 e, sm.pass3 e, readFeat C3 (sm.event_slots e).in_feat⟩

def celledStep (ar : Arith R) {g : S2Grid} (cfg : CelledConfig R g) (t : S2S3State R × Smem R)
    (b : Batch R g) : (S2S3State R × Smem R) × List (EventResult R) :=
  let r := celledBatch ar cfg t.1 t.2 b
  (r, batchResults b.recs.length r.2)

def celledRun (ar : Arith R) {g : S2Grid} (cfg : CelledConfig R g) (st : S2S3State R)
    (sm : Smem R) (batches : List (Batch R g)) : S2S3State R × List (EventResult R) :=
  ((Scan.final (celledStep ar cfg) (st, sm) batches).1,
    (Scan.outs (celledStep ar cfg) (st, sm) batches).flatten)

end SslaRt
