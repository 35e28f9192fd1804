import SslaRt.ShardLayer
import SslaRt.Pipeline
import Mathlib.Logic.Relation

/-! Scheme 3: the shards compute partial sums for the two layers of stage 0. The sum
thread matches them with the events, finalises these in order and sends the work
of layer 1 back to the shards. Times are left out, and so is what the stage
thread computes. -/

namespace SslaRt

structure SumScheme (R : Type*) extends SslaSPipeline R where
  num_shards : Nat
  shards_pos : 0 < num_shards
  shards_le : num_shards ≤ 16
  capacity : Nat

namespace SumScheme

inductive Layer
  | l0
  | l1
  deriving DecidableEq

section Messages

variable (R : Type*)

structure ShardWork where
  owned_mask : BitVec 16
  seq : Nat
  x : Nat
  y : Nat
  feat_in : Nat → R

/-- No marker is sent to a shard. -/
inductive ShardMsg
  | event (w : ShardWork R)
  | eof

structure EventMeta where
  expected_count : Nat
  seq : Nat
  x : Nat
  y : Nat
  feat_in : Fin kInDim → R

inductive MetaMsg
  | event (m : EventMeta R)
  | marker (seq : Nat)
  | eof

structure PartialMsg where
  seq : Nat
  partial_feat : Fin kC0 → R

inductive StageInMsg
  | event (seq x y : Nat) (feat : Fin kC0 → R)
  | marker (seq : Nat)
  | eof

structure Pending where
  is_marker : Bool
  seq : Nat
  x : Nat
  y : Nat
  expected : Nat
  received : Nat
  feat_in_residual : Nat → R
  partial_sum : Fin kC0 → R

structure L1Dispatch where
  seq : Nat
  x : Nat
  y : Nat
  shard_mask : BitVec 16
  feat_in : Nat → R
  delivered_mask : BitVec 16

inductive ProducerOp
  | push_meta (m : MetaMsg R)
  | push_l0 (k : Nat) (m : ShardMsg R)
  | wait_marker (seq : Nat)
  | set_done

/-- Where a shard is in its loop; `holding` is before the push of a partial. -/
inductive ShardPc
  | polling (l : Layer)
  | holding (l : Layer) (pm : PartialMsg R)
  | deciding
  | stopped

structure Shard where
  pc : ShardPc R
  did_work : Bool

end Messages

/-- The phases of an iteration of the sum thread. -/
inductive SumPc
  | metas
  | deferred (l : Layer) (i : Nat)
  | draining (k : Nat) (l : Layer)
  | cascade0
  | dispatch (k : Nat)
  | cascade1
  | emitting
  | checking
  | ending (k : Nat)
  | stopped

inductive StagesPc
  | polling
  | missed
  | storing (seq : Nat)
  | stopped

/-- What a layer gets for an event. -/
structure Job (R : Type*) where
  seq : Nat
  x : Nat
  y : Nat
  feat : Nat → R

/-- The last four fields record the run: the jobs of layer 1, what the shards
computed, the partials that found their event, and what was sent to the stages. -/
structure State (R : Type*) where
  ops : List (ProducerOp R)
  q_meta_l0 : List (MetaMsg R)
  q_in : Layer → Nat → List (ShardMsg R)
  q_partials : Layer → Nat → List (PartialMsg R)
  q_to_stages : List (StageInMsg R)
  marker_done_stages : Nat
  done : Bool
  hidden : Layer → Nat → Fin kC0 → R
  shard : Nat → Shard R
  sum : SumPc
  did_work : Bool
  pending : Layer → List (Pending R)
  dispatch_l1_pending : List (L1Dispatch R)
  stage_dispatch_pending : List (StageInMsg R)
  deferred_partials : Layer → List (PartialMsg R)
  stages : StagesPc
  dispatched : List (Job R)
  log : Layer → Nat → List (ShardWork R × PartialMsg R)
  matched : Layer → List (PartialMsg R)
  sent : List (StageInMsg R)

/-- An entry of a family with two indices. -/
def set2 {β : Type*} (q : Layer → Nat → β) (l : Layer) (k : Nat) (v : β) : Layer → Nat → β :=
  Function.update q l (Function.update (q l) k v)

section Compute

variable {R : Type*} [CommRing R] (p : SumScheme R)

/-- `shard_layer_forward` of one of the two layers, with the zeroed partial of the thread. -/
def shardLayerForward (l : Layer) (hidden : Layer → Nat → Fin kC0 → R) (w : ShardWork R) :
    (Layer → Nat → Fin kC0 → R) × (Fin kC0 → R) :=
  let r := match l with
    | .l0 => shardLayerForwardCt p.ar kInDim kC0 (p.layers_ 0) w.x w.y (p.Hs_ 0) (p.Ws_ 0)
      (readFeat kInDim w.feat_in) w.owned_mask (hidden .l0)
    | .l1 => shardLayerForwardCt p.ar kC0 kC0 (p.layers_ 1) w.x w.y (p.Hs_ 0) (p.Ws_ 0)
      (readFeat kC0 w.feat_in) w.owned_mask (hidden .l1)
  (Function.update hidden l r.1, r.2)

def layerFinalize (l : Layer) (feat_in : Nat → R) (partial_sum : Fin kC0 → R) : Fin kC0 → R :=
  match l with
  | .l0 => SslaRt.layerFinalize p.ar kInDim kC0 (p.layers_ 0) (readFeat kInDim feat_in) partial_sum
  | .l1 => SslaRt.layerFinalize p.ar kC0 kC0 (p.layers_ 1) (readFeat kC0 feat_in) partial_sum

end Compute

section Producer

variable {R : Type*} (p : SumScheme R)

def shardMask (x : Nat) : BitVec 16 := affectedShardMask x p.W_ p.num_shards

/-- The loop that counts the bits of the mask. -/
def expectedCount (x : Nat) : Nat :=
  (List.range p.num_shards).countP fun k => (p.shardMask x).getLsbD k

def Job.work (j : Job R) (k : Nat) : ShardWork R :=
  ⟨shardPatchMask k j.x p.W_ p.num_shards, j.seq, j.x, j.y, j.feat⟩

/-- The work of shard `k` for a job. -/
def workAt (k : Nat) (j : Job R) : Option (ShardWork R) :=
  if k < p.num_shards ∧ (p.shardMask j.x).getLsbD k then some (j.work p k) else none

variable [CommRing R]

def EventMeta.job (m : EventMeta R) : Job R := ⟨m.seq, m.x, m.y, featBuf m.feat_in⟩

/-- `push_one`: the meta record first, then the work of the affected shards. -/
def pushOne (s : PipeState R) (seq : Nat) (e : Event R) : PipeState R × List (ProducerOp R) :=
  let ex := castInt e.x
  let ey := castInt e.y
  if p.OutOfBounds ex ey then (s, [])
  else
    let r := p.preprocess s e
    let m : EventMeta R := ⟨p.expectedCount ex.toNat, seq, ex.toNat, ey.toNat, r.2⟩
    (r.1, .push_meta (.event m) :: (List.range p.num_shards).filterMap fun k =>
      (p.workAt k m.job).map fun w => .push_l0 k (.event w))

def markAndWait (seq : Nat) : List (ProducerOp R) := [.push_meta (.marker seq), .wait_marker seq]

/-- A run of events from number `seq` on, with what follows each of them. -/
def pushEvents (checkpoint : Nat → List (ProducerOp R)) :
    PipeState R → Nat → List (Event R) → PipeState R × List (ProducerOp R)
  | s, _, [] => (s, [])
  | s, seq, e :: es =>
    let r := p.pushOne s seq e
    let t := pushEvents checkpoint r.1 (seq + 1) es
    (t.1, r.2 ++ (checkpoint seq ++ t.2))

/-- With `--oracle-dump` a marker follows every `oracle_every`-th event after the warmup. -/
def checkpoint (warmup : Nat) (oracle_every : Option Nat) (i : Nat) : List (ProducerOp R) :=
  match oracle_every with
  | some every => if (i - warmup) % every = 0 then markAndWait (i + 1) else []
  | none => []

def closing : List (ProducerOp R) :=
  .push_meta .eof :: ((List.range p.num_shards).map fun k => .push_l0 k .eof) ++ [.set_done]

/-- What `main` does. -/
def program (events : List (Event R)) (warmup : Nat) (oracle_every : Option Nat) :
    List (ProducerOp R) :=
  let total := events.length
  let warmup := min warmup total
  let r := p.pushEvents (fun _ => []) SslaSPipeline.reset 0 (events.take warmup)
  let t := p.pushEvents (checkpoint warmup oracle_every) r.1 warmup (events.drop warmup)
  r.2 ++ markAndWait warmup ++ t.2 ++ markAndWait total ++ p.closing

def init (ops : List (ProducerOp R)) : State R where
  ops := ops
  q_meta_l0 := []
  q_in := fun _ _ => []
  q_partials := fun _ _ => []
  q_to_stages := []
  marker_done_stages := 0
  done := false
  hidden := fun _ _ => 0
  shard := fun _ => ⟨.polling .l0, false⟩
  sum := .metas
  did_work := false
  pending := fun _ => []
  dispatch_l1_pending := []
  stage_dispatch_pending := []
  deferred_partials := fun _ => []
  stages := .polling
  dispatched := []
  log := fun _ _ => []
  matched := fun _ => []
  sent := []

end Producer

section Sum

variable {R : Type*}

/-- `idx_l0` and `idx_l1` hold the events of the two lists by their numbers. -/
def Pending.Indexed (seq : Nat) (pe : Pending R) : Prop := pe.is_marker = false ∧ pe.seq = seq

instance (seq : Nat) : DecidablePred (Pending.Indexed (R := R) seq) :=
  fun _ => inferInstanceAs (Decidable (_ ∧ _))

def L1Dispatch.Needs (d : L1Dispatch R) (k : Nat) : Prop :=
  d.shard_mask.getLsbD k = true ∧ d.delivered_mask.getLsbD k = false

instance (d : L1Dispatch R) (k : Nat) : Decidable (d.Needs k) := inferInstanceAs (Decidable (_ ∧ _))

def L1Dispatch.job (d : L1Dispatch R) : Job R := ⟨d.seq, d.x, d.y, d.feat_in⟩

variable [CommRing R] (p : SumScheme R)

def Pending.add (pm : PartialMsg R) (pe : Pending R) : Pending R :=
  { pe with partial_sum := pe.partial_sum + pm.partial_feat, received := pe.received + 1 }

/-- `try_match_partial`. -/
def tryMatch (pending : List (Pending R)) (pm : PartialMsg R) : Option (List (Pending R)) :=
  if ∃ pe ∈ pending, pe.Indexed pm.seq then
    some (pending.map fun pe => if pe.Indexed pm.seq then pe.add pm else pe)
  else none

def Pending.ofMeta (m : EventMeta R) : Pending R where
  is_marker := false
  seq := m.seq
  x := m.x
  y := m.y
  expected := m.expected_count
  received := 0
  feat_in_residual := featBuf m.feat_in
  partial_sum := 0

def Pending.ofMarker (seq : Nat) : Pending R where
  is_marker := true
  seq := seq
  x := 0
  y := 0
  expected := 0
  received := 0
  feat_in_residual := fun _ => 0
  partial_sum := 0

/-- The job of layer 1 for an event whose layer 0 is complete. -/
def Pending.finalised (pe : Pending R) : Job R :=
  ⟨pe.seq, pe.x, pe.y, featBuf (p.layerFinalize .l0 pe.feat_in_residual pe.partial_sum)⟩

def Pending.ofJob (j : Job R) : Pending R where
  is_marker := false
  seq := j.seq
  x := j.x
  y := j.y
  expected := p.expectedCount j.x
  received := 0
  feat_in_residual := j.feat
  partial_sum := 0

def L1Dispatch.ofJob (j : Job R) : L1Dispatch R := ⟨j.seq, j.x, j.y, p.shardMask j.x, j.feat, 0⟩

def Pending.toStages (pe : Pending R) : StageInMsg R :=
  .event pe.seq pe.x pe.y (p.layerFinalize .l1 pe.feat_in_residual pe.partial_sum)

/-- What the cascade over a list leaves for later. -/
def Waits (pending : List (Pending R)) : Prop :=
  ∀ pe rest, pending = pe :: rest → pe.is_marker = false ∧ pe.received < pe.expected

end Sum

section Steps

variable {R : Type*} [CommRing R] (p : SumScheme R) (s : State R)

inductive ProducerStep (s : State R) : State R → Prop
  | push_meta (m : MetaMsg R) (ops : List (ProducerOp R)) (hops : s.ops = .push_meta m :: ops)
      (hroom : s.q_meta_l0.length < p.capacity) :
      ProducerStep s { s with ops := ops, q_meta_l0 := s.q_meta_l0 ++ [m] }
  | push_l0 (k : Nat) (m : ShardMsg R) (ops : List (ProducerOp R)) (hops : s.ops = .push_l0 k m :: ops)
      (hroom : (s.q_in .l0 k).length < p.capacity) :
      ProducerStep s { s with ops := ops, q_in := set2 s.q_in .l0 k (s.q_in .l0 k ++ [m]) }
  | wait_marker (seq : Nat) (ops : List (ProducerOp R)) (hops : s.ops = .wait_marker seq :: ops)
      (hdone : seq ≤ s.marker_done_stages) : ProducerStep s { s with ops := ops }
  | set_done (ops : List (ProducerOp R)) (hops : s.ops = .set_done :: ops) :
      ProducerStep s { s with ops := ops, done := true }

def ShardPc.after : Layer → ShardPc R
  | .l0 => .polling .l1
  | .l1 => .deciding

def setShard (k : Nat) (pc : ShardPc R) (did_work : Bool) : State R :=
  { s with shard := Function.update s.shard k ⟨pc, did_work⟩ }

inductive ShardStep (k : Nat) (s : State R) : State R → Prop
  | take (l : Layer) (w : ShardWork R) (q : List (ShardMsg R)) (hpc : (s.shard k).pc = .polling l)
      (hq : s.q_in l k = .event w :: q) : ShardStep k s
        { setShard s k (.holding l ⟨w.seq, (p.shardLayerForward l s.hidden w).2⟩) true with
          q_in := set2 s.q_in l k q
          hidden := (p.shardLayerForward l s.hidden w).1
          log := set2 s.log l k
            (s.log l k ++ [(w, ⟨w.seq, (p.shardLayerForward l s.hidden w).2⟩)]) }
  -- the end of the queue of layer 0 ends the loop, that of layer 1 is a `continue`
  | takeEof (l : Layer) (q : List (ShardMsg R)) (hpc : (s.shard k).pc = .polling l)
      (hq : s.q_in l k = .eof :: q) : ShardStep k s
        { setShard s k (if l = .l0 then .stopped else .polling .l0) false with
          q_in := set2 s.q_in l k q }
  | miss (l : Layer) (hpc : (s.shard k).pc = .polling l) (hq : s.q_in l k = []) :
      ShardStep k s (setShard s k (.after l) (s.shard k).did_work)
  | push (l : Layer) (pm : PartialMsg R) (hpc : (s.shard k).pc = .holding l pm)
      (hroom : (s.q_partials l k).length < p.capacity) : ShardStep k s
        { setShard s k (.after l) (s.shard k).did_work with
          q_partials := set2 s.q_partials l k (s.q_partials l k ++ [pm]) }
  | decide (hpc : (s.shard k).pc = .deciding) : ShardStep k s
      (setShard s k (if (s.shard k).did_work = false ∧ s.done then .stopped else .polling .l0) false)

def SumPc.afterDeferred (s : State R) : Layer → SumPc
  | .l0 => .deferred .l1 (s.deferred_partials .l1).length
  | .l1 => .draining 0 .l0

def SumPc.afterDraining (k : Nat) : Layer → SumPc
  | .l0 => .draining k .l1
  | .l1 => .draining (k + 1) .l0

/-- A partial is added to its event. -/
def setMatched (l : Layer) (pm : PartialMsg R) (pending : List (Pending R)) : State R :=
  { s with
    pending := Function.update s.pending l pending
    matched := Function.update s.matched l (s.matched l ++ [pm])
    did_work := true }

inductive SumStep (s : State R) : State R → Prop
  | popEvent (m : EventMeta R) (q : List (MetaMsg R)) (hpc : s.sum = .metas)
      (hq : s.q_meta_l0 = .event m :: q) : SumStep s
        { s with
          q_meta_l0 := q
          pending := Function.update s.pending .l0 (s.pending .l0 ++ [.ofMeta m])
          did_work := true }
  | popMarker (seq : Nat) (q : List (MetaMsg R)) (hpc : s.sum = .metas)
      (hq : s.q_meta_l0 = .marker seq :: q) : SumStep s
        { s with
          q_meta_l0 := q
          pending := Function.update s.pending .l0 (s.pending .l0 ++ [.ofMarker seq])
          did_work := true }
  | popEof (q : List (MetaMsg R)) (hpc : s.sum = .metas) (hq : s.q_meta_l0 = .eof :: q) :
      SumStep s { s with q_meta_l0 := q, sum := .ending 0 }
  | popNone (hpc : s.sum = .metas) (hq : s.q_meta_l0 = []) :
      SumStep s { s with sum := .deferred .l0 (s.deferred_partials .l0).length }
  | pushEof (k : Nat) (hpc : s.sum = .ending k) (hk : k < p.num_shards)
      (hroom : (s.q_in .l1 k).length < p.capacity) : SumStep s
        { s with q_in := set2 s.q_in .l1 k (s.q_in .l1 k ++ [.eof]), sum := .ending (k + 1) }
  | pushLastEof (hpc : s.sum = .ending p.num_shards) (hroom : s.q_to_stages.length < p.capacity) :
      SumStep s
        { s with q_to_stages := s.q_to_stages ++ [.eof], sent := s.sent ++ [.eof], sum := .stopped }
  | retryHit (l : Layer) (i : Nat) (pm : PartialMsg R) (ds : List (PartialMsg R))
      (pending : List (Pending R)) (hpc : s.sum = .deferred l (i + 1))
      (hd : s.deferred_partials l = pm :: ds) (hm : tryMatch (s.pending l) pm = some pending) :
      SumStep s
        { setMatched s l pm pending with
          deferred_partials := Function.update s.deferred_partials l ds
          sum := .deferred l i }
  -- the loop runs over the deque once, with the size it had before
  | retryMiss (l : Layer) (i : Nat) (pm : PartialMsg R) (ds : List (PartialMsg R))
      (hpc : s.sum = .deferred l (i + 1)) (hd : s.deferred_partials l = pm :: ds)
      (hm : tryMatch (s.pending l) pm = none) : SumStep s
        { s with
          deferred_partials := Function.update s.deferred_partials l (ds ++ [pm])
          sum := .deferred l i }
  | retryEnd (l : Layer) (hpc : s.sum = .deferred l 0) :
      SumStep s { s with sum := .afterDeferred s l }
  | drainHit (k : Nat) (l : Layer) (pm : PartialMsg R) (q : List (PartialMsg R))
      (pending : List (Pending R)) (hpc : s.sum = .draining k l) (hk : k < p.num_shards)
      (hq : s.q_partials l k = pm :: q) (hm : tryMatch (s.pending l) pm = some pending) : SumStep s
        { setMatched s l pm pending with q_partials := set2 s.q_partials l k q }
  | drainMiss (k : Nat) (l : Layer) (pm : PartialMsg R) (q : List (PartialMsg R))
      (hpc : s.sum = .draining k l) (hk : k < p.num_shards) (hq : s.q_partials l k = pm :: q)
      (hm : tryMatch (s.pending l) pm = none) : SumStep s
        { s with
          q_partials := set2 s.q_partials l k q
          deferred_partials := Function.update s.deferred_partials l (s.deferred_partials l ++ [pm])
          did_work := true }
  | drainNone (k : Nat) (l : Layer) (hpc : s.sum = .draining k l) (hk : k < p.num_shards)
      (hq : s.q_partials l k = []) : SumStep s { s with sum := .afterDraining k l }
  | drainEnd (hpc : s.sum = .draining p.num_shards .l0) : SumStep s { s with sum := .cascade0 }
  | cascadeMarker0 (pe : Pending R) (rest : List (Pending R)) (hpc : s.sum = .cascade0)
      (hp : s.pending .l0 = pe :: rest) (hm : pe.is_marker = true) : SumStep s
        { s with
          pending := Function.update (Function.update s.pending .l0 rest) .l1
            (s.pending .l1 ++ [.ofMarker pe.seq])
          did_work := true }
  | cascadeEvent0 (pe : Pending R) (rest : List (Pending R)) (hpc : s.sum = .cascade0)
      (hp : s.pending .l0 = pe :: rest) (hm : pe.is_marker = false) (hall : pe.expected ≤ pe.received) :
      SumStep s
        { s with
          pending := Function.update (Function.update s.pending .l0 rest) .l1
            (s.pending .l1 ++ [.ofJob p (pe.finalised p)])
          dispatch_l1_pending := s.dispatch_l1_pending ++ [.ofJob p (pe.finalised p)]
          dispatched := s.dispatched ++ [pe.finalised p]
          did_work := true }
  | cascadeEnd0 (hpc : s.sum = .cascade0) (hwait : Waits (s.pending .l0)) :
      SumStep s { s with sum := .dispatch 0 }
  | dispatchSkip (k : Nat) (d : L1Dispatch R) (ds : List (L1Dispatch R)) (hpc : s.sum = .dispatch k)
      (hk : k < p.num_shards) (hd : s.dispatch_l1_pending = d :: ds) (hneed : ¬ d.Needs k) :
      SumStep s { s with sum := .dispatch (k + 1) }
  | dispatchPush (k : Nat) (d : L1Dispatch R) (ds : List (L1Dispatch R)) (hpc : s.sum = .dispatch k)
      (hk : k < p.num_shards) (hd : s.dispatch_l1_pending = d :: ds) (hneed : d.Needs k)
      (hroom : (s.q_in .l1 k).length < p.capacity) : SumStep s
        { s with
          q_in := set2 s.q_in .l1 k (s.q_in .l1 k ++ [.event (d.job.work p k)])
          dispatch_l1_pending :=
            { d with delivered_mask := d.delivered_mask ||| 1#16 <<< k } :: ds
          sum := .dispatch (k + 1)
          did_work := true }
  -- `any_blocked`: the next iteration begins again, without the shards that got it
  | dispatchFull (k : Nat) (d : L1Dispatch R) (ds : List (L1Dispatch R)) (hpc : s.sum = .dispatch k)
      (hk : k < p.num_shards) (hd : s.dispatch_l1_pending = d :: ds) (hneed : d.Needs k)
      (hfull : p.capacity ≤ (s.q_in .l1 k).length) : SumStep s { s with sum := .cascade1 }
  | dispatchPop (d : L1Dispatch R) (ds : List (L1Dispatch R)) (hpc : s.sum = .dispatch p.num_shards)
      (hd : s.dispatch_l1_pending = d :: ds) :
      SumStep s { s with dispatch_l1_pending := ds, sum := .dispatch 0 }
  | dispatchEnd (hpc : s.sum = .dispatch 0) (hd : s.dispatch_l1_pending = []) :
      SumStep s { s with sum := .cascade1 }
  | cascadeMarker1 (pe : Pending R) (rest : List (Pending R)) (hpc : s.sum = .cascade1)
      (hp : s.pending .l1 = pe :: rest) (hm : pe.is_marker = true) : SumStep s
        { s with
          pending := Function.update s.pending .l1 rest
          stage_dispatch_pending := s.stage_dispatch_pending ++ [.marker pe.seq]
          did_work := true }
  | cascadeEvent1 (pe : Pending R) (rest : List (Pending R)) (hpc : s.sum = .cascade1)
      (hp : s.pending .l1 = pe :: rest) (hm : pe.is_marker = false) (hall : pe.expected ≤ pe.received) :
      SumStep s
        { s with
          pending := Function.update s.pending .l1 rest
          stage_dispatch_pending := s.stage_dispatch_pending ++ [pe.toStages p]
          did_work := true }
  | cascadeEnd1 (hpc : s.sum = .cascade1) (hwait : Waits (s.pending .l1)) :
      SumStep s { s with sum := .emitting }
  | emit (m : StageInMsg R) (ms : List (StageInMsg R)) (hpc : s.sum = .emitting)
      (hm : s.stage_dispatch_pending = m :: ms) (hroom : s.q_to_stages.length < p.capacity) : SumStep s
        { s with
          stage_dispatch_pending := ms
          q_to_stages := s.q_to_stages ++ [m]
          sent := s.sent ++ [m]
          did_work := true }
  | emitEnd (hpc : s.sum = .emitting)
      (h : s.stage_dispatch_pending = [] ∨ p.capacity ≤ s.q_to_stages.length) :
      SumStep s { s with sum := .checking }
  -- `done` alone ends nothing while something is pending
  | again (hpc : s.sum = .checking) (h : s.did_work = true ∨ s.done = false ∨ s.pending .l0 ≠ [] ∨
      s.pending .l1 ≠ [] ∨ s.dispatch_l1_pending ≠ [] ∨ s.stage_dispatch_pending ≠ [] ∨
      s.deferred_partials .l0 ≠ [] ∨ s.deferred_partials .l1 ≠ []) :
      SumStep s { s with sum := .metas, did_work := false }
  | giveUp (hpc : s.sum = .checking) (hwork : s.did_work = false) (hdone : s.done = true)
      (hp0 : s.pending .l0 = []) (hp1 : s.pending .l1 = []) (hd : s.dispatch_l1_pending = [])
      (hs : s.stage_dispatch_pending = []) (hd0 : s.deferred_partials .l0 = [])
      (hd1 : s.deferred_partials .l1 = []) : SumStep s { s with sum := .stopped }

inductive StagesStep (s : State R) : State R → Prop
  | popEvent (seq x y : Nat) (feat : Fin kC0 → R) (q : List (StageInMsg R)) (hpc : s.stages = .polling)
      (hq : s.q_to_stages = .event seq x y feat :: q) : StagesStep s { s with q_to_stages := q }
  | popMarker (seq : Nat) (q : List (StageInMsg R)) (hpc : s.stages = .polling)
      (hq : s.q_to_stages = .marker seq :: q) :
      StagesStep s { s with q_to_stages := q, stages := .storing seq }
  | popEof (q : List (StageInMsg R)) (hpc : s.stages = .polling) (hq : s.q_to_stages = .eof :: q) :
      StagesStep s { s with q_to_stages := q, stages := .stopped }
  | miss (hpc : s.stages = .polling) (hq : s.q_to_stages = []) :
      StagesStep s { s with stages := .missed }
  | retry (hpc : s.stages = .missed) :
      StagesStep s { s with stages := if s.done then .stopped else .polling }
  | store (seq : Nat) (hpc : s.stages = .storing seq) :
      StagesStep s { s with marker_done_stages := seq, stages := .polling }

inductive Step (s : State R) : State R → Prop
  | producer {s' : State R} (h : p.ProducerStep s s') : Step s s'
  | shard {s' : State R} (k : Nat) (hk : k < p.num_shards) (h : p.ShardStep k s s') : Step s s'
  | sum {s' : State R} (h : p.SumStep s s') : Step s s'
  | stages {s' : State R} (h : StagesStep s s') : Step s s'

def Reachable (ops : List (ProducerOp R)) (s : State R) : Prop :=
  Relation.ReflTransGen p.Step (init ops) s

end Steps

end SumScheme

end SslaRt
