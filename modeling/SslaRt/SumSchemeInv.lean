import SslaRt.Bag
import SslaRt.ShardLayerSpec
import SslaRt.SumScheme

/-! What every reachable state of scheme 3 keeps: the events and markers stand in one
line, every shard has its work of a layer in order, and every partial is either
matched or on its way. -/

namespace SslaRt

namespace SumScheme

open Bag

inductive Item
  | event (seq : Nat)
  | marker (seq : Nat)

def eventSeqs (items : List Item) : List Nat :=
  items.filterMap fun
    | .event seq => some seq
    | .marker _ => none

section Views

variable {R : Type*}

def MetaMsg.item : MetaMsg R → Option Item
  | .event m => some (.event m.seq)
  | .marker seq => some (.marker seq)
  | .eof => none

def ProducerOp.item : ProducerOp R → Option Item
  | .push_meta m => m.item
  | _ => none

def StageInMsg.item : StageInMsg R → Option Item
  | .event seq _ _ _ => some (.event seq)
  | .marker seq => some (.marker seq)
  | .eof => none

def Pending.item (pe : Pending R) : Item := if pe.is_marker then .marker pe.seq else .event pe.seq

def ProducerOp.event : ProducerOp R → Option (EventMeta R)
  | .push_meta (.event m) => some m
  | _ => none

/-- The events that a program pushes, and its work for shard `k`. -/
def eventMetas (ops : List (ProducerOp R)) : List (EventMeta R) := ops.filterMap ProducerOp.event

def ProducerOp.workOf (k : Nat) : ProducerOp R → Option (ShardWork R)
  | .push_l0 j (.event w) => if j = k then some w else none
  | _ => none

def ShardMsg.work : ShardMsg R → Option (ShardWork R)
  | .event w => some w
  | .eof => none

def ShardPc.held (l : Layer) : ShardPc R → List (PartialMsg R)
  | .holding l' pm => if l' = l then [pm] else []
  | _ => []

variable (p : SumScheme R) (s : State R)

def L1Dispatch.workFor (k : Nat) (d : L1Dispatch R) : Option (ShardWork R) :=
  if k < p.num_shards ∧ d.Needs k then some (d.job.work p k) else none

namespace State

/-- The items that the sum thread has sent on. -/
def received : List Item := s.sent.filterMap StageInMsg.item

/-- The items whose layer 0 is complete. -/
def forwarded : List Item :=
  s.received ++ (s.stage_dispatch_pending.filterMap StageInMsg.item ++ (s.pending .l1).map Pending.item)

def unread : List Item := s.q_meta_l0.filterMap MetaMsg.item ++ s.ops.filterMap ProducerOp.item

def line : List Item := s.forwarded ++ ((s.pending .l0).map Pending.item ++ s.unread)

/-- The work of shard `k` that has not reached it yet. -/
def upstream (l : Layer) (k : Nat) : List (ShardWork R) :=
  match l with
  | .l0 => s.ops.filterMap (ProducerOp.workOf k)
  | .l1 => s.dispatch_l1_pending.filterMap (L1Dispatch.workFor p k)

def toShard (l : Layer) (k : Nat) : List (ShardWork R) :=
  (s.q_in l k).filterMap ShardMsg.work ++ s.upstream p l k

def inFlight (l : Layer) (k : Nat) : List (PartialMsg R) := s.q_partials l k ++ (s.shard k).pc.held l

def computed (l : Layer) (k : Nat) : List (PartialMsg R) := (s.log l k).map Prod.snd

end State

end Views

section Invariants

variable {R : Type*} [CommRing R] (p : SumScheme R) (ops : List (ProducerOp R)) (s : State R)

/-- The jobs of a layer in their order. -/
def issued (l : Layer) : List (Job R) :=
  match l with
  | .l0 => (eventMetas ops).map EventMeta.job
  | .l1 => s.dispatched

/-- The events whose entry of a layer exists or existed. -/
def known (l : Layer) : List Nat :=
  match l with
  | .l0 => eventSeqs (s.forwarded ++ (s.pending .l0).map Pending.item)
  | .l1 => s.dispatched.map Job.seq

def InLine : Prop := s.line = ops.filterMap ProducerOp.item

def Dispatched : Prop := s.dispatched.map Job.seq = eventSeqs s.forwarded

def Metas : Prop :=
  (∀ m, .event m ∈ s.q_meta_l0 → m ∈ eventMetas ops) ∧ ∀ m ∈ eventMetas s.ops, m ∈ eventMetas ops

def Working : Prop :=
  ∀ l k, (s.log l k).map Prod.fst ++ s.toShard p l k = (issued ops s l).filterMap (p.workAt k)

def Dispatching : Prop :=
  ∀ n d ds, s.sum = .dispatch n → s.dispatch_l1_pending = d :: ds → ∀ k < n, ¬ d.Needs k

/-- A partial bears the number of its work. -/
def Numbered : Prop := ∀ l k, ∀ e ∈ s.log l k, e.2.seq = e.1.seq

def Partials : Prop :=
  ∀ l, (s.matched l : Multiset (PartialMsg R)) + s.deferred_partials l +
    bag (Finset.range p.num_shards) (s.inFlight l) = bag (Finset.range p.num_shards) (s.computed l)

/-- An entry of one of the jobs holds what was matched for its event. -/
structure Entry (jobs : List (Job R)) (matched : List (PartialMsg R)) (pe : Pending R) : Prop where
  job : ⟨pe.seq, pe.x, pe.y, pe.feat_in_residual⟩ ∈ jobs
  expected : pe.expected = p.expectedCount pe.x
  received : pe.received = matched.countP fun pm => pm.seq = pe.seq
  partial_sum : pe.partial_sum =
    ((matched.filter fun pm => pm.seq = pe.seq).map PartialMsg.partial_feat).sum

def Entries : Prop :=
  ∀ l, ∀ pe ∈ s.pending l, pe.is_marker = false → Entry p (issued ops s l) (s.matched l) pe

def MatchedKnown : Prop := ∀ l, ∀ pm ∈ s.matched l, pm.seq ∈ known s l

/-- Every affected shard has computed one partial for the job, and these add up to `v`. -/
def Collected (log : Nat → List (ShardWork R × PartialMsg R)) (j : Job R) (v : Fin kC0 → R) : Prop :=
  ∃ f : Nat → Fin kC0 → R, v = ∑ k ∈ Finset.range p.num_shards,
      (if (p.shardMask j.x).getLsbD k then f k else 0) ∧
    ∀ k < p.num_shards, ((log k).filter fun e => e.1.seq = j.seq) =
      if (p.shardMask j.x).getLsbD k then [(j.work p k, ⟨j.seq, f k⟩)] else []

/-- The jobs of layer 1 come from the events, finalised in layer 0. -/
def Jobs : Prop := ∀ j ∈ s.dispatched, ∃ m ∈ eventMetas ops, ∃ v, Collected p (s.log .l0) m.job v ∧
  j = ⟨m.seq, m.x, m.y, featBuf (p.layerFinalize .l0 (featBuf m.feat_in) v)⟩

def Results : Prop := ∀ seq x y feat, .event seq x y feat ∈ s.sent ++ s.stage_dispatch_pending →
  ∃ j ∈ s.dispatched, ∃ v, Collected p (s.log .l1) j v ∧ j.seq = seq ∧ j.x = x ∧ j.y = y ∧
    feat = p.layerFinalize .l1 j.feat v

/-- A program whose events bear different numbers, with the right work for them. -/
structure Driven : Prop where
  nodup : ((eventMetas ops).map EventMeta.seq).Nodup
  expected : ∀ m ∈ eventMetas ops, m.expected_count = p.expectedCount m.x
  work : ∀ k, ops.filterMap (ProducerOp.workOf k) =
    ((eventMetas ops).map EventMeta.job).filterMap (p.workAt k)

structure Inv : Prop where
  line : InLine ops s
  dispatched : Dispatched s
  metas : Metas ops s
  working : Working p ops s
  dispatching : Dispatching s
  numbered : Numbered s
  partials : Partials p s
  entries : Entries p ops s
  matched : MatchedKnown s
  jobs : Jobs p ops s
  results : Results p s

end Invariants

end SumScheme

end SslaRt
