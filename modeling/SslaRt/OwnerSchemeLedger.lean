import SslaRt.OwnerSchemeOrder
import Mathlib.Algebra.BigOperators.Group.Finset.Basic
import Mathlib.Data.Multiset.Replicate

/-! The contribution requests and partials of scheme 4 that are under way, and what
the shards still expect of them. -/

namespace SslaRt

namespace OwnerScheme

open Finset

section Apart

inductive RingId
  | contrib (k : Nat)
  | partialIn (k : Nat)

/-- The shared queue of the push that a shard is in or about to begin. -/
def Shard.target (sh : Shard) : Option RingId :=
  match sh.pc with
  | .answering _ owner _ => some (.partialIn owner)
  | .partialBacklog ok _ => if (sh.outgoing_partials ok).isEmpty then none else some (.partialIn ok)
  | .contribBacklog ok _ => if (sh.outgoing_contribs ok).isEmpty then none else some (.contrib ok)
  | .requesting ((t, _) :: _) => some (.contrib t)
  | _ => none

def ProducerPc.target : ProducerPc → Option RingId
  | .requesting ((t, _) :: _) => some (.contrib t)
  | _ => none

/-- A push that has not begun finds no other thread in a push into the queue. -/
def State.Free (s : State) (i : Thread) : RingId → Prop
  | .contrib k => (s.q_contrib k).pusher i = .idle → (s.q_contrib k).Alone i
  | .partialIn k => (s.q_partial_in k).pusher i = .idle → (s.q_partial_in k).Alone i

/-- No push into a shared queue begins while another one is under way there. -/
def Apart (s : State) : Mover → Prop
  | .producer => ∀ r, s.producer.target = some r → s.Free .producer r
  | .shard k => ∀ r, (s.shard k).target = some r → s.Free (.shard k) r
  | _ => True

def ApartStep (p : OwnerScheme) (R : Type*) (s s' : State) : Prop := ∃ a, p.Step R s a s' ∧ Apart s a

variable {s : State} {k : Nat} {r : RingId}

theorem Apart.quiet (h : (s.shard k).target = none) : Apart s (.shard k) := by
  intro r hr
  rw [h] at hr
  exact nomatch hr

theorem Apart.push (h : (s.shard k).target = some r) (hfree : s.Free (.shard k) r) :
    Apart s (.shard k) := by
  intro r' hr
  rw [h] at hr
  injection hr with hr
  exact hr ▸ hfree

theorem Apart.send (h : s.producer.target = some r) (hfree : s.Free .producer r) :
    Apart s .producer := by
  intro r' hr
  rw [h] at hr
  injection hr with hr
  exact hr ▸ hfree

end Apart

/-- The layer, the owner and the number of an event. -/
abbrev Key := Nat × Nat × Nat

def ContribMsg.key (cm : ContribMsg) : Key := (cm.layer, cm.owner_shard.toNat, cm.seq)

def PartialMsg.key (owner : Nat) (pm : PartialMsg) : Key := (pm.layer, owner, pm.seq)

/-- The requests that a shard has still to push. -/
def ShardPc.todo : ShardPc → List (Nat × ContribMsg)
  | .requesting todo => todo
  | _ => []

/-- The partial that a shard has still to push. -/
def ShardPc.answer : ShardPc → List (Nat × PartialMsg)
  | .answering _ owner pm => [(owner, pm)]
  | _ => []

def ProducerPc.todo : ProducerPc → List (Nat × ContribMsg)
  | .requesting todo => todo
  | _ => []

/-- The messages of a backlog with the shard they are for. -/
def backlogItems {M : Type*} (ok : Nat) (l : List M) : Multiset (Nat × M) :=
  (l.map (Prod.mk ok) : List (Nat × M))

namespace Shard

variable (num_shards k : Nat) (sh : Shard)

def contribs : Multiset (Nat × ContribMsg) :=
  sh.pc.todo + ∑ ok ∈ range num_shards, backlogItems ok (sh.outgoing_contribs ok)

def partials : Multiset (Nat × PartialMsg) :=
  sh.pc.answer + ∑ ok ∈ range num_shards, backlogItems ok (sh.outgoing_partials ok)

def deferred : Multiset Key := sh.deferred_partials.map (·.key k)

end Shard

/-- What an event still expects of the neighbours of its owner `k`. -/
def OwnMsg.owed (k : Nat) : OwnMsg → Multiset Key
  | .event seq _ need_left need_right =>
    Multiset.replicate (need_left.toNat + need_right.toNat) (0, k, seq)
  | _ => 0

def PendingEvent.owed (k : Nat) (pe : PendingEvent) : Multiset Key :=
  if pe.is_marker then 0
  else Multiset.replicate (pe.expected_l0 - pe.received_l0) (0, k, pe.seq) +
    Multiset.replicate (pe.expected_l1 - pe.received_l1) (1, k, pe.seq)

def Shard.owed (k : Nat) (q_own : List OwnMsg) (sh : Shard) : Multiset Key :=
  (sh.pending.map (·.owed k)).sum + (q_own.map (·.owed k)).sum

/-- The elements of queue `k`, with its number. -/
def ringItems {M : Type*} (p : OwnerScheme) (k : Nat) (r : SharedRing Thread Unit M) : Multiset (Nat × M) :=
  ((r.waiting p.ring).map fun m => (k, m ()) : List (Nat × M))

def ringBag {M : Type*} (p : OwnerScheme) (q : Nat → SharedRing Thread Unit M) : Multiset (Nat × M) :=
  ∑ k ∈ range p.num_shards, p.ringItems k (q k)

/-- All queues hold what lies between their counters. -/
def Held {M : Type*} (p : OwnerScheme) (q : Nat → SharedRing Thread Unit M) : Prop :=
  ∀ k, (q k).Keeps p.ring ((q k).waiting p.ring)

namespace State

variable (p : OwnerScheme) (s : State)

/-- The requests that have been sent and not been taken, with their shards. -/
def contribs : Multiset (Nat × ContribMsg) :=
  s.producer.todo + p.ringBag s.q_contrib +
    ∑ k ∈ range p.num_shards, (s.shard k).contribs p.num_shards

/-- The partials that have been sent and not been taken, with their owners. -/
def partials : Multiset (Nat × PartialMsg) :=
  p.ringBag s.q_partial_in + ∑ k ∈ range p.num_shards, (s.shard k).partials p.num_shards

def deferred : Multiset Key := ∑ k ∈ range p.num_shards, (s.shard k).deferred k

def owed : Multiset Key := ∑ k ∈ range p.num_shards, (s.shard k).owed k (s.q_own k)

/-- The partials to come, by layer, owner and number. -/
def flight : Multiset Key :=
  (s.contribs p).map (·.2.key) + (s.partials p).map (fun m => m.2.key m.1) + s.deferred p

end State

/-- The last shard that has columns has a number that fits a byte. -/
def OwnersFit (p : OwnerScheme) : Prop := ∀ x < p.W, p.owner x < 256

def OwnMsg.Home (p : OwnerScheme) (k : Nat) : OwnMsg → Prop
  | .event _ x _ _ => x < p.W ∧ p.owner x = k
  | _ => True

/-- The counters of a pending event of shard `k`. -/
structure PendingEvent.Counted (p : OwnerScheme) (k : Nat) (pe : PendingEvent) : Prop where
  column : pe.x < p.W
  owner : p.owner pe.x = k
  l0 : pe.received_l0 ≤ pe.expected_l0
  l1 : pe.received_l1 ≤ pe.expected_l1
  l0_done : pe.l0_done = true → pe.received_l0 = pe.expected_l0
  l0_open : pe.l0_done = false → pe.expected_l1 = 0 ∧ pe.received_l1 = 0

/-- Every request and every partial is on its way once, and on their way are as many
as the pending events expect. -/
structure Ledger (p : OwnerScheme) (s : State) : Prop where
  q_contrib : p.Held s.q_contrib
  q_partial_in : p.Held s.q_partial_in
  target : ∀ m ∈ s.contribs p, m.1 < p.num_shards ∧ m.2.owner_shard.toNat < p.num_shards
  owner : ∀ m ∈ s.partials p, m.1 < p.num_shards
  requested : (s.requested : Multiset (Nat × ContribMsg)) = s.worked + s.contribs p
  answered : (s.answered : Multiset (Nat × PartialMsg)) = s.received + s.partials p
  replied : s.answered = s.worked.map fun m => Shard.answerOf m.2
  flight : s.flight p = s.owed p
  own : ∀ k, ∀ m ∈ s.q_own k, m.Home p k
  pending : ∀ k, ∀ pe ∈ (s.shard k).pending, pe.is_marker = false → pe.Counted p k
  forwarded : ∀ k, ∀ pe ∈ s.forwarded k,
    pe.received_l0 = pe.expected_l0 ∧ pe.received_l1 = pe.expected_l1

end OwnerScheme

end SslaRt
