import SslaRt.ShardRouting
import Mathlib.Logic.Relation

/-! The CPU stage as a whole. One producer distributes the events to the bounded
queues of the shards. A shard pops a message, runs the layers on its private
state and then changes the shared rings and counters one atomic step at a time.
The steps of all threads interleave freely. -/

namespace SslaRt

/-- The capacity of the queues is rounded up to a power of two that is at least
four; the grid of the handle is the grid of the pipelines. -/
structure StageConfig (R : Type*) where
  P : SslaSPipeline R
  n_shards : Int
  halo : Int
  rings : GpuRings
  shard_ring_cap : Nat
  cap_ge : 4 ≤ shard_ring_cap

/-- The default capacity is large enough. -/
theorem default_cap_ge : 4 ≤ 65536 := by decide

namespace StageConfig

variable {R : Type*} (cfg : StageConfig R)

def handle : S01gHandle := S01gHandle.init cfg.n_shards cfg.halo cfg.P.W_ cfg.P.H_

end StageConfig

/-- A step of a shard on shared memory. The claim is the `fetch_add` on
`ring_head[b]`, which fixes the place of the record in the ring. -/
inductive StageOp (R : Type*)
  | claim (b : Nat) (index : Nat) (record : HybridInputRec R)
  | n_pushed (b : Nat)
  | total_owner
  | total_halo
  | pass_stage0
  | pass_stage1

/-- A record of a ring, with the shard that claimed its slot and the index of
its event. -/
structure RingEntry (R : Type*) where
  shard : Nat
  index : Nat
  record : HybridInputRec R

/-- `submitting` holds the messages of the current event that are not pushed
yet. The messages carry the index of their event. The last two components are
the history: the submitted events, and what each shard decided. -/
structure StageState (R : Type*) where
  submitting : Option (List (Nat × Nat × ShardMsg R))
  q_in : Nat → List (Nat × ShardMsg R)
  workers : Nat → WorkerState R
  todo : Nat → List (StageOp R)
  ended : Nat → Bool
  ring_head : Nat → Nat
  ring : Nat → List (RingEntry R)
  n_pushed : Nat → Nat
  n_oob : Nat
  accepted : Nat
  total_owner : Nat → Nat
  total_halo : Nat → Nat
  pass_stage0 : Nat → Nat
  pass_stage1 : Nat → Nat
  submitted : List (Event R)
  log : Nat → List (ShardMsg R × MsgOutcome R)

section Steps

variable {R : Type*}

def fetchAdd (f : Nat → Nat) (i : Nat) : Nat → Nat := Function.update f i (f i + 1)

def messageOps (P : SslaSPipeline R) (index : Nat) (m : ShardMsg R) (o : MsgOutcome R)
    (recs : List (Nat × HybridInputRec R)) : List (StageOp R) :=
  if P.OutOfBounds (castInt m.ev.x) (castInt m.ev.y) then []
  else if m.is_owner then
    recs.flatMap (fun r => [.claim r.1 index r.2, .n_pushed r.1]) ++
      (.total_owner :: ((if o.pass0 then [.pass_stage0] else []) ++
        (if o.pass1 then [.pass_stage1] else [])))
  else [.total_halo]

def StageOp.apply (k : Nat) (s : StageState R) : StageOp R → StageState R
  | .claim b index record => { s with
      ring_head := fetchAdd s.ring_head b
      ring := Function.update s.ring b (s.ring b ++ [⟨k, index, record⟩]) }
  | .n_pushed b => { s with n_pushed := fetchAdd s.n_pushed b }
  | .total_owner => { s with total_owner := fetchAdd s.total_owner k }
  | .total_halo => { s with total_halo := fetchAdd s.total_halo k }
  | .pass_stage0 => { s with pass_stage0 := fetchAdd s.pass_stage0 k }
  | .pass_stage1 => { s with pass_stage1 := fetchAdd s.pass_stage1 k }

variable [CommRing R] (cfg : StageConfig R)

/-- One step of one thread. A push waits for room in the queue. -/
inductive StageStep (s : StageState R) : StageState R → Prop
  | reject (e : Event R) (hidle : s.submitting = none)
      (hb : cfg.handle.OutOfBounds (castInt e.x) (castInt e.y)) :
      StageStep s { s with n_oob := s.n_oob + 1, submitted := s.submitted ++ [e] }
  | submit (e : Event R) (hidle : s.submitting = none)
      (hb : ¬ cfg.handle.OutOfBounds (castInt e.x) (castInt e.y)) :
      StageStep s { s with
        submitting := some ((cfg.handle.covering e).map fun m => (m.1, s.submitted.length, m.2))
        submitted := s.submitted ++ [e] }
  | push (k : Nat) (m : Nat × ShardMsg R) (rest : List (Nat × Nat × ShardMsg R))
      (hs : s.submitting = some ((k, m) :: rest))
      (hroom : (s.q_in k).length < cfg.shard_ring_cap) :
      StageStep s { s with
        submitting := some rest
        q_in := Function.update s.q_in k (s.q_in k ++ [m]) }
  | accept (hs : s.submitting = some []) :
      StageStep s { s with submitting := none, accepted := s.accepted + 1 }
  | eof (k : Nat) (m : Nat × ShardMsg R) (rest : List (Nat × ShardMsg R))
      (hrun : s.ended k = false) (hidle : s.todo k = []) (hq : s.q_in k = m :: rest)
      (heof : m.2.eof = true) :
      StageStep s { s with
        q_in := Function.update s.q_in k rest
        ended := Function.update s.ended k true }
  | pop (k : Nat) (m : Nat × ShardMsg R) (rest : List (Nat × ShardMsg R))
      (r : WorkerState R × MsgOutcome R × List (Nat × HybridInputRec R))
      (hrun : s.ended k = false) (hidle : s.todo k = []) (hq : s.q_in k = m :: rest)
      (heof : m.2.eof = false)
      (hr : r = Stage01ToGpu.shardStep cfg.P cfg.rings (s.workers k) m.2) :
      StageStep s { s with
        q_in := Function.update s.q_in k rest
        workers := Function.update s.workers k r.1
        todo := Function.update s.todo k (messageOps cfg.P m.1 m.2 r.2.1 r.2.2)
        log := Function.update s.log k (s.log k ++ [(m.2, r.2.1)]) }
  | exec (k : Nat) (op : StageOp R) (rest : List (StageOp R)) (ht : s.todo k = op :: rest) :
      StageStep s (op.apply k { s with todo := Function.update s.todo k rest })

abbrev StageReachable := Relation.ReflTransGen (StageStep cfg)

/-- After `s01g_init_full` and the attachment of the rings. -/
def stageInit (buf : WorkerState R) (ring_head : Nat → Nat) : StageState R where
  submitting := none
  q_in := fun _ => []
  workers := fun _ => { buf with pipe := SslaSPipeline.reset }
  todo := fun _ => []
  ended := fun _ => false
  ring_head := ring_head
  ring := fun _ => []
  n_pushed := fun _ => 0
  n_oob := 0
  accepted := 0
  total_owner := fun _ => 0
  total_halo := fun _ => 0
  pass_stage0 := fun _ => 0
  pass_stage1 := fun _ => 0
  submitted := []
  log := fun _ => []

end Steps

end SslaRt
