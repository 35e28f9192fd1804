import SslaRt.Pipeline
import SslaRt.Scan
import Mathlib.Data.List.Forall2

/-! The loop of a CPU shard over the messages of its queue, once as it runs
the layers first and the dropout afterwards, and once with the dropout first and
the second layer of a stage reduced to its state where the output is not used.
Timestamps of arrival and the timing of the segments are left out. -/

namespace SslaRt

variable {R : Type*}

structure ShardMsg (R : Type*) where
  ev : Event R
  is_owner : Bool
  eof : Bool

structure WorkerState (R : Type*) where
  pipe : PipeState R
  feat0 : Fin kC0 → R
  feat1 : Fin kC1 → R

/-- What the loop decides for a message, and the buffers after it. -/
structure MsgOutcome (R : Type*) where
  pass0 : Bool
  pass1 : Bool
  feat0 : Fin kC0 → R
  feat1 : Fin kC1 → R

def WorkerState.outcome (w : WorkerState R) (pass0 pass1 : Bool) : MsgOutcome R :=
  ⟨pass0, pass1, w.feat0, w.feat1⟩

/-- The record of a GPU ring, without its tag and timestamps. -/
structure HybridInputRec (R : Type*) where
  t : ℚ
  x : UInt16
  y : UInt16
  feat1 : Fin 24 → R

/-- The processed rectangle of a GPU block. -/
structure GpuBlockCfg where
  proc_x_lo : Int
  proc_x_hi : Int
  proc_y_lo : Int
  proc_y_hi : Int

structure GpuRings where
  gpu_attached : Bool
  gpu_block : List GpuBlockCfg
  gpu_W2 : Int
  gpu_H2 : Int

def GpuRings.push (h : GpuRings) (ev : Event R) (s2x s2y : Int) (feat1 : Fin kC1 → R) :
    List (Nat × HybridInputRec R) :=
  if h.gpu_attached ∧ 0 ≤ s2x ∧ s2x < h.gpu_W2 ∧ 0 ≤ s2y ∧ s2y < h.gpu_H2 then
    h.gpu_block.zipIdx.filterMap fun gb =>
      if s2x < gb.1.proc_x_lo ∨ s2x ≥ gb.1.proc_x_hi then none
      else if s2y < gb.1.proc_y_lo ∨ s2y ≥ gb.1.proc_y_hi then none
      else some (gb.2, ⟨ev.t, UInt16.ofInt s2x, UInt16.ofInt s2y, feat1⟩)
  else []

variable [CommRing R] (P : SslaSPipeline R)

/-- A loop over the messages up to the end of the stream. -/
def runWorker {β : Type*} (step : WorkerState R → ShardMsg R → WorkerState R × β)
    (w : WorkerState R) (msgs : List (ShardMsg R)) : WorkerState R × List β :=
  let seen := msgs.takeWhile fun m => !m.eof
  (Scan.final step w seen, Scan.outs step w seen)

namespace Stage01Capi

def shardStep (w : WorkerState R) (m : ShardMsg R) : WorkerState R × MsgOutcome R :=
  let ex0 := castInt m.ev.x
  let ey0 := castInt m.ev.y
  if P.OutOfBounds ex0 ey0 then (w, w.outcome false false)
  else
    let feat_in := P.preprocess w.pipe m.ev
    let x := ex0.toNat
    let y := ey0.toNat
    let s0 := P.stageForward0 feat_in.1 x y feat_in.2
    let w0 : WorkerState R := { w with pipe := s0.1, feat0 := s0.2 }
    if m.is_owner then
      let d0 := P.tdropAndPool w0.pipe 0 x y
      if d0.pass then
        let s1 := P.stageForward1 d0.state d0.ev_x d0.ev_y w0.feat0
        let d1 := P.tdropAndPool s1.1 1 d0.ev_x d0.ev_y
        let w1 : WorkerState R := { w0 with pipe := d1.state, feat1 := s1.2 }
        (w1, w1.outcome true d1.pass)
      else
        let w1 : WorkerState R := { w0 with pipe := d0.state }
        (w1, w1.outcome false false)
    else (w0, w0.outcome false false)

def shardWorker : WorkerState R → List (ShardMsg R) → WorkerState R × List (MsgOutcome R) :=
  runWorker (shardStep P)

end Stage01Capi

namespace Stage01ToGpu

def shardStep (h : GpuRings) (w : WorkerState R) (m : ShardMsg R) :
    WorkerState R × MsgOutcome R × List (Nat × HybridInputRec R) :=
  let ex0 := castInt m.ev.x
  let ey0 := castInt m.ev.y
  if P.OutOfBounds ex0 ey0 then (w, w.outcome false false, [])
  else
    let feat_in := P.preprocess w.pipe m.ev
    let x := ex0.toNat
    let y := ey0.toNat
    let x1 := x / 2
    let y1 := y / 2
    let d0 := if m.is_owner then P.tdropCheckAt feat_in.1 0 x1 y1 else (feat_in.1, false)
    let pass0 := d0.2
    let w0 : WorkerState R :=
      if m.is_owner && pass0 then
        let s0 := P.stageForward0 d0.1 x y feat_in.2
        { w with pipe := s0.1, feat0 := s0.2 }
      else { w with pipe := P.stageForwardStateOnly0 d0.1 x y feat_in.2 }
    if m.is_owner then
      if pass0 then
        let x2 := x1 / 2
        let y2 := y1 / 2
        let d1 := P.tdropCheckAt w0.pipe 1 x2 y2
        let pass1 := d1.2
        let w1 : WorkerState R :=
          if pass1 then
            let s1 := P.stageForward1 d1.1 x1 y1 w0.feat0
            { w0 with pipe := s1.1, feat1 := s1.2 }
          else { w0 with pipe := P.stageForwardStateOnly1 d1.1 x1 y1 w0.feat0 }
        (w1, w1.outcome true pass1, if pass1 then h.push m.ev x2 y2 w1.feat1 else [])
      else (w0, w0.outcome false false, [])
    else (w0, w0.outcome false false, [])

def shardWorker (h : GpuRings) : WorkerState R → List (ShardMsg R) →
    WorkerState R × List (MsgOutcome R × List (Nat × HybridInputRec R)) :=
  runWorker (shardStep P h)

end Stage01ToGpu

end SslaRt
