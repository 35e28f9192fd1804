import SslaRt.SharedRing
import SslaRt.ShardLayer
import SslaRt.Pipeline
import Mathlib.Order.Lattice.Nat
import Mathlib.Order.WithBot

/-! The messages of scheme 4: the producer, the shard threads that finalise the
events of their own strip with the partials of their neighbours, and the stage
thread that merges the queues of the shards by number. The features, the partial
sums and the patch masks of a message are left out. -/

namespace SslaRt

structure OwnerScheme where
  num_shards : Nat
  shards_pos : 0 < num_shards
  W : Nat
  H : Nat
  /-- All queues have one capacity. -/
  ring : SpscConfig

namespace OwnerScheme

inductive Thread
  | producer
  | shard (k : Nat)
  deriving DecidableEq

instance : Nonempty Thread := ⟨.producer⟩

inductive OwnMsg
  | event (seq x : Nat) (need_left need_right : Bool)
  | marker (seq : Nat)
  | eof

structure ContribMsg where
  layer : Nat
  owner_shard : UInt8
  seq : Nat
  x : Nat

structure PartialMsg where
  layer : Nat
  seq : Nat

inductive Msg
  | event (seq : Nat)
  | marker (seq : Nat)
  deriving DecidableEq

def Msg.seq : Msg → Nat
  | .event seq => seq
  | .marker seq => seq

structure PendingEvent where
  is_marker : Bool
  seq : Nat
  x : Nat
  expected_l0 : Nat
  received_l0 : Nat
  expected_l1 : Nat
  received_l1 : Nat
  l0_done : Bool

inductive ProducerPc
  | idle
  /-- The contribution requests of an event that are still to be pushed. -/
  | requesting (todo : List (Nat × ContribMsg))
  | marking (seq : Nat) (last : Bool) (k : Nat)
  | waiting (seq : Nat) (last : Bool)
  | ending (k : Nat)
  | ended

/-- Where a shard is in its loop, with the local variables of that place. -/
inductive ShardPc
  | own (n : Nat) (did_work : Bool)
  | contrib (n : Nat) (did_work : Bool)
  | answering (n owner : Nat) (pm : PartialMsg)
  | partials (n : Nat) (did_work : Bool)
  | deferred (did_work : Bool)
  | partialBacklog (ok : Nat) (did_work : Bool)
  | contribBacklog (ok : Nat) (did_work : Bool)
  | cascade (did_work : Bool)
  | requesting (todo : List (Nat × ContribMsg))
  | publishing (did_work : Bool)
  | exiting
  | exited

structure Shard where
  pc : ShardPc
  pending : List PendingEvent
  deferred_partials : List PartialMsg
  outgoing_partials : Nat → List PartialMsg
  outgoing_contribs : Nat → List ContribMsg
  got_eof : Bool

inductive StagePc
  | filling (k : Nat)
  /-- `min_k` is the shard whose cache holds the smallest candidate, if a cache does. -/
  | scanning (k : Nat) (min_cand : WithTop Nat) (min_k : Option Nat)
  | stopped

/-- `⊤` is `UINT64_MAX`. The last six fields record the run. -/
structure State where
  producer : ProducerPc
  /-- The number of the next event. -/
  next : Nat
  q_own : Nat → List OwnMsg
  q_contrib : Nat → SharedRing Thread Unit ContribMsg
  q_partial_in : Nat → SharedRing Thread Unit PartialMsg
  q_to_stage : Nat → List Msg
  next_emit_seq : Nat → WithTop Nat
  shard : Nat → Shard
  cache : Nat → Option Msg
  stage : StagePc
  marker_done_stages : Nat
  emitted : List Msg
  /-- The contribution requests with their shards, when they are sent. -/
  requested : List (Nat × ContribMsg)
  /-- The same when they are taken from the queue. -/
  worked : List (Nat × ContribMsg)
  answered : List (Nat × PartialMsg)
  received : List (Nat × PartialMsg)
  forwarded : Nat → List PendingEvent

def init : State where
  producer := .idle
  next := 0
  q_own := fun _ => []
  q_contrib := fun _ => .init fun _ _ => ⟨0, 0, 0, 0⟩
  q_partial_in := fun _ => .init fun _ _ => ⟨0, 0⟩
  q_to_stage := fun _ => []
  next_emit_seq := fun _ => 0
  shard := fun _ => ⟨.own 0 false, [], [], fun _ => [], fun _ => [], false⟩
  cache := fun _ => none
  stage := .filling 0
  marker_done_stages := 0
  emitted := []
  requested := []
  worked := []
  answered := []
  received := []
  forwarded := fun _ => []

section Routing

variable (p : OwnerScheme) {R : Type*}

/-- The column of an event in the frame. -/
def column (e : Event R) : Option Nat :=
  let ex := castInt e.x
  let ey := castInt e.y
  if ex < 0 ∨ ex ≥ p.W ∨ ey < 0 ∨ ey ≥ p.H then none else some ex.toNat

def owner (x : Nat) : Nat := shardOfCol p.W p.num_shards x

def needLeft (k x : Nat) : Bool :=
  decide (k > 0) && shardOfCol p.W p.num_shards ((x : Int) - 1) == k - 1

def needRight (k x : Nat) : Bool :=
  decide (k < p.num_shards - 1) && shardOfCol p.W p.num_shards ((x : Int) + 1) == k + 1

/-- The requests of shard `k` to its neighbours, the left one first. -/
def contribs (k layer seq x : Nat) : List (Nat × ContribMsg) :=
  (if p.needLeft k x then [(k - 1, ⟨layer, UInt8.ofNat k, seq, x⟩)] else []) ++
    if p.needRight k x then [(k + 1, ⟨layer, UInt8.ofNat k, seq, x⟩)] else []

end Routing

section Local

/-- The event of a partial; the numbers of the pending events are distinct. -/
def PendingEvent.hit (pe : PendingEvent) (pm : PartialMsg) : Bool :=
  !pe.is_marker && pe.seq == pm.seq

def PendingEvent.receive (pe : PendingEvent) (pm : PartialMsg) : PendingEvent :=
  if pm.layer = 0 then { pe with received_l0 := pe.received_l0 + 1 }
  else { pe with received_l1 := pe.received_l1 + 1 }

namespace Shard

variable (sh : Shard)

def matchPartial (pm : PartialMsg) : Shard :=
  if sh.pending.any (·.hit pm) then
    { sh with pending := sh.pending.map fun pe => if pe.hit pm then pe.receive pm else pe }
  else { sh with deferred_partials := sh.deferred_partials ++ [pm] }

/-- Every deferred partial once, from the front; what is not matched goes to the back. -/
def retryDeferred : Shard :=
  sh.deferred_partials.foldl matchPartial { sh with deferred_partials := [] }

/-- One message of `q_own`. -/
def takeOwn (n : Nat) : OwnMsg → Shard
  | .eof => { sh with pc := .own (n + 1) true, got_eof := true }
  | .marker seq =>
    { sh with pc := .own (n + 1) true, pending := sh.pending ++ [⟨true, seq, 0, 0, 0, 0, 0, false⟩] }
  | .event seq x need_left need_right =>
    { sh with
      pc := .own (n + 1) true
      pending := sh.pending ++
        [⟨false, seq, x, 1 + need_left.toNat + need_right.toNat, 1, 0, 0, false⟩] }

def answerOf (cm : ContribMsg) : Nat × PartialMsg := (cm.owner_shard.toNat, ⟨cm.layer, cm.seq⟩)

/-- After a step of the pop from `q_contrib`. -/
def afterContrib (n : Nat) (did_work : Bool) : Option (Option (Unit → ContribMsg)) → Shard
  | none => sh
  | some none => { sh with pc := .partials 0 did_work }
  | some (some cm) => { sh with pc := .answering (n + 1) (answerOf (cm ())).1 (answerOf (cm ())).2 }

/-- After a step of `send_partial_to_owner`. -/
def afterAnswer (n owner : Nat) (pm : PartialMsg) : Option Bool → Shard
  | none => sh
  | some true => { sh with pc := .contrib n true }
  | some false =>
    { sh with
      pc := .contrib n true
      outgoing_partials :=
        Function.update sh.outgoing_partials owner (sh.outgoing_partials owner ++ [pm]) }

def afterPartial (n : Nat) (did_work : Bool) : Option (Option (Unit → PartialMsg)) → Shard
  | none => sh
  | some none => { sh with pc := .deferred did_work }
  | some (some pm) => { sh.matchPartial (pm ()) with pc := .partials (n + 1) true }

/-- After a step of the push from the backlog of partials, whose rest is `todo`. -/
def afterPartialBacklog (ok : Nat) (did_work : Bool) (todo : List PartialMsg) : Option Bool → Shard
  | none => sh
  | some true =>
    { sh with
      pc := .partialBacklog ok true
      outgoing_partials := Function.update sh.outgoing_partials ok todo }
  | some false => { sh with pc := .contribBacklog ok did_work }

def afterContribBacklog (ok : Nat) (did_work : Bool) (todo : List ContribMsg) : Option Bool → Shard
  | none => sh
  | some true =>
    { sh with
      pc := .contribBacklog ok true
      outgoing_contribs := Function.update sh.outgoing_contribs ok todo }
  | some false => { sh with pc := .partialBacklog (ok + 1) did_work }

/-- After a step of `send_contrib`. -/
def afterRequest (t : Nat) (cm : ContribMsg) (todo : List (Nat × ContribMsg)) : Option Bool → Shard
  | none => sh
  | some true => { sh with pc := .requesting todo }
  | some false =>
    { sh with
      pc := .requesting todo
      outgoing_contribs := Function.update sh.outgoing_contribs t (sh.outgoing_contribs t ++ [cm]) }

/-- Why the cascade stops: `room` is whether `q_to_stage` takes a message. -/
def stalled (room : Prop) : Prop :=
  match sh.pending with
  | [] => True
  | pe :: _ =>
    if pe.is_marker then ¬ room
    else if pe.l0_done then pe.received_l1 < pe.expected_l1 ∨ ¬ room
    else pe.received_l0 < pe.expected_l0

def outgoingEmpty (num_shards : Nat) : Bool :=
  (List.range num_shards).all fun ok =>
    (sh.outgoing_partials ok).isEmpty && (sh.outgoing_contribs ok).isEmpty

/-- The end of a round of the loop. -/
def afterPublish (num_shards : Nat) (did_work : Bool) : Shard :=
  if !did_work && (sh.got_eof && sh.pending.isEmpty && sh.deferred_partials.isEmpty &&
      sh.outgoingEmpty num_shards) then { sh with pc := .exiting }
  else { sh with pc := .own 0 false }

/-- What is published of `next_emit_seq`, if anything. -/
def publish (old : WithTop Nat) : WithTop Nat :=
  match sh.pending with
  | pe :: _ => pe.seq
  | [] => if sh.got_eof then ⊤ else old

end Shard

end Local

section Steps

variable (s : State)

def setShard (k : Nat) (sh : Shard) : State :=
  { s with shard := Function.update s.shard k sh }

def setContrib (k : Nat) (r : SharedRing Thread Unit ContribMsg) : State :=
  { s with q_contrib := Function.update s.q_contrib k r }

def setPartial (k : Nat) (r : SharedRing Thread Unit PartialMsg) : State :=
  { s with q_partial_in := Function.update s.q_partial_in k r }

def pushOwn (k : Nat) (m : OwnMsg) : State :=
  { s with q_own := Function.update s.q_own k (s.q_own k ++ [m]) }

def pushStage (k : Nat) (m : Msg) : State :=
  { s with q_to_stage := Function.update s.q_to_stage k (s.q_to_stage k ++ [m]) }

/-- What the merger compares of shard `k`. -/
def candidate (k : Nat) : WithTop Nat :=
  match s.cache k with
  | some m => m.seq
  | none => s.next_emit_seq k

/-- `marker_done_stages` after a message. -/
def markerDone (done : Nat) : Msg → Nat
  | .marker seq => seq
  | .event _ => done

end Steps

def kPerIterCap : Nat := 32

variable (p : OwnerScheme) {R : Type*}

/-- A queue with one producing and one consuming thread takes a message. -/
def Room {α : Type*} (q : List α) : Prop := q.length < p.ring.capacity

instance {α : Type*} (q : List α) : Decidable (p.Room q) :=
  inferInstanceAs (Decidable (q.length < p.ring.capacity))

/-- The rest of `main` outside `push_one`: a marker is pushed to all shards and waited
for; the queues are closed after the last one. -/
inductive ProducerStep (s : State) : State → Prop
  | send (t : Nat) (cm : ContribMsg) (todo : List (Nat × ContribMsg)) (res : Option Bool)
      (r : SharedRing Thread Unit ContribMsg) (hpc : s.producer = .requesting ((t, cm) :: todo))
      (hst : SharedRing.TryPush p.ring .producer (fun _ => cm) (s.q_contrib t) res r) :
      ProducerStep s
        { setContrib s t r with
          producer := if res = some true then .requesting todo else s.producer }
  | sent (hpc : s.producer = .requesting []) : ProducerStep s { s with producer := .idle }
  | beginMarker (last : Bool) (hpc : s.producer = .idle) :
      ProducerStep s { s with producer := .marking s.next last 0 }
  | pushMarker (seq : Nat) (last : Bool) (k : Nat) (hpc : s.producer = .marking seq last k)
      (hk : k < p.num_shards) (hroom : p.Room (s.q_own k)) :
      ProducerStep s { pushOwn s k (.marker seq) with producer := .marking seq last (k + 1) }
  | endMarker (seq : Nat) (last : Bool) (hpc : s.producer = .marking seq last p.num_shards) :
      ProducerStep s { s with producer := .waiting seq last }
  | wait (seq : Nat) (last : Bool) (hpc : s.producer = .waiting seq last)
      (hdone : seq ≤ s.marker_done_stages) :
      ProducerStep s { s with producer := if last then .ending 0 else .idle }
  | pushEof (k : Nat) (hpc : s.producer = .ending k) (hk : k < p.num_shards)
      (hroom : p.Room (s.q_own k)) :
      ProducerStep s { pushOwn s k .eof with producer := .ending (k + 1) }
  | endEof (hpc : s.producer = .ending p.num_shards) : ProducerStep s { s with producer := .ended }

/-- `push_one` up to the push into `q_own`. -/
inductive EventStep (s : State) : State → Prop
  | outOfBounds (e : Event R) (hpc : s.producer = .idle) (he : p.column e = none) :
      EventStep s { s with next := s.next + 1 }
  | inBounds (e : Event R) (x : Nat) (hpc : s.producer = .idle) (he : p.column e = some x)
      (hroom : p.Room (s.q_own (p.owner x))) : EventStep s
        { pushOwn s (p.owner x)
            (.event s.next x (p.needLeft (p.owner x) x) (p.needRight (p.owner x) x)) with
          producer := .requesting (p.contribs (p.owner x) 0 s.next x)
          next := s.next + 1
          requested := s.requested ++ p.contribs (p.owner x) 0 s.next x }

inductive ShardStep (k : Nat) (s : State) : State → Prop
  | popOwn (n : Nat) (d : Bool) (m : OwnMsg) (q : List OwnMsg) (hpc : (s.shard k).pc = .own n d)
      (hn : n < kPerIterCap) (hq : s.q_own k = m :: q) : ShardStep k s
        { setShard s k ((s.shard k).takeOwn n m) with q_own := Function.update s.q_own k q }
  | endOwn (n : Nat) (d : Bool) (hpc : (s.shard k).pc = .own n d)
      (hend : n < kPerIterCap → s.q_own k = []) :
      ShardStep k s (setShard s k { s.shard k with pc := .contrib 0 d })
  | popContrib (n : Nat) (d : Bool) (res : Option (Option (Unit → ContribMsg)))
      (r : SharedRing Thread Unit ContribMsg) (hpc : (s.shard k).pc = .contrib n d)
      (hn : n < kPerIterCap) (hst : SharedRing.TryPop p.ring (s.q_contrib k) res r) :
      ShardStep k s
        { setContrib (setShard s k ((s.shard k).afterContrib n d res)) k r with
          worked := s.worked ++ (res.bind id).toList.map fun cm => (k, cm ())
          answered := s.answered ++ (res.bind id).toList.map fun cm => Shard.answerOf (cm ()) }
  | endContrib (n : Nat) (d : Bool) (hpc : (s.shard k).pc = .contrib n d) (hn : ¬ n < kPerIterCap) :
      ShardStep k s (setShard s k { s.shard k with pc := .partials 0 d })
  | answer (n owner : Nat) (pm : PartialMsg) (res : Option Bool)
      (r : SharedRing Thread Unit PartialMsg) (hpc : (s.shard k).pc = .answering n owner pm)
      (hst : SharedRing.TryPush p.ring (.shard k) (fun _ => pm) (s.q_partial_in owner) res r) :
      ShardStep k s (setPartial (setShard s k ((s.shard k).afterAnswer n owner pm res)) owner r)
  | popPartial (n : Nat) (d : Bool) (res : Option (Option (Unit → PartialMsg)))
      (r : SharedRing Thread Unit PartialMsg) (hpc : (s.shard k).pc = .partials n d)
      (hn : n < kPerIterCap) (hst : SharedRing.TryPop p.ring (s.q_partial_in k) res r) :
      ShardStep k s
        { setPartial (setShard s k ((s.shard k).afterPartial n d res)) k r with
          received := s.received ++ (res.bind id).toList.map fun pm => (k, pm ()) }
  | endPartials (n : Nat) (d : Bool) (hpc : (s.shard k).pc = .partials n d)
      (hn : ¬ n < kPerIterCap) :
      ShardStep k s (setShard s k { s.shard k with pc := .deferred d })
  | retryDeferred (d : Bool) (hpc : (s.shard k).pc = .deferred d) : ShardStep k s
      (setShard s k
        { (s.shard k).retryDeferred with
          pc := .partialBacklog 0 (d || decide ((s.shard k).retryDeferred.deferred_partials.length <
            (s.shard k).deferred_partials.length)) })
  | partialBacklogEmpty (ok : Nat) (d : Bool) (hpc : (s.shard k).pc = .partialBacklog ok d)
      (hok : ok < p.num_shards) (he : (s.shard k).outgoing_partials ok = []) :
      ShardStep k s (setShard s k { s.shard k with pc := .contribBacklog ok d })
  | partialBacklog (ok : Nat) (d : Bool) (pm : PartialMsg) (todo : List PartialMsg)
      (res : Option Bool) (r : SharedRing Thread Unit PartialMsg)
      (hpc : (s.shard k).pc = .partialBacklog ok d) (hok : ok < p.num_shards)
      (he : (s.shard k).outgoing_partials ok = pm :: todo)
      (hst : SharedRing.TryPush p.ring (.shard k) (fun _ => pm) (s.q_partial_in ok) res r) :
      ShardStep k s (setPartial (setShard s k ((s.shard k).afterPartialBacklog ok d todo res)) ok r)
  | contribBacklogEmpty (ok : Nat) (d : Bool) (hpc : (s.shard k).pc = .contribBacklog ok d)
      (hok : ok < p.num_shards) (he : (s.shard k).outgoing_contribs ok = []) :
      ShardStep k s (setShard s k { s.shard k with pc := .partialBacklog (ok + 1) d })
  | contribBacklog (ok : Nat) (d : Bool) (cm : ContribMsg) (todo : List ContribMsg)
      (res : Option Bool) (r : SharedRing Thread Unit ContribMsg)
      (hpc : (s.shard k).pc = .contribBacklog ok d) (hok : ok < p.num_shards)
      (he : (s.shard k).outgoing_contribs ok = cm :: todo)
      (hst : SharedRing.TryPush p.ring (.shard k) (fun _ => cm) (s.q_contrib ok) res r) :
      ShardStep k s (setContrib (setShard s k ((s.shard k).afterContribBacklog ok d todo res)) ok r)
  | endBacklog (d : Bool) (hpc : (s.shard k).pc = .partialBacklog p.num_shards d) :
      ShardStep k s (setShard s k { s.shard k with pc := .cascade d })
  | forwardMarker (d : Bool) (pe : PendingEvent) (rest : List PendingEvent)
      (hpc : (s.shard k).pc = .cascade d) (hp : (s.shard k).pending = pe :: rest)
      (hm : pe.is_marker = true) (hroom : p.Room (s.q_to_stage k)) : ShardStep k s
        (pushStage (setShard s k { s.shard k with pc := .cascade true, pending := rest }) k
          (.marker pe.seq))
  | finalizeL0 (d : Bool) (pe : PendingEvent) (rest : List PendingEvent)
      (hpc : (s.shard k).pc = .cascade d) (hp : (s.shard k).pending = pe :: rest)
      (hm : pe.is_marker = false) (hl : pe.l0_done = false)
      (hr : ¬ pe.received_l0 < pe.expected_l0) : ShardStep k s
        { setShard s k
            { s.shard k with
              pc := .requesting (p.contribs k 1 pe.seq pe.x)
              pending :=
                { pe with
                  l0_done := true
                  received_l1 := pe.received_l1 + 1
                  expected_l1 := 1 + (p.needLeft k pe.x).toNat + (p.needRight k pe.x).toNat } ::
                    rest } with
          requested := s.requested ++ p.contribs k 1 pe.seq pe.x }
  | request (t : Nat) (cm : ContribMsg) (todo : List (Nat × ContribMsg)) (res : Option Bool)
      (r : SharedRing Thread Unit ContribMsg)
      (hpc : (s.shard k).pc = .requesting ((t, cm) :: todo))
      (hst : SharedRing.TryPush p.ring (.shard k) (fun _ => cm) (s.q_contrib t) res r) :
      ShardStep k s (setContrib (setShard s k ((s.shard k).afterRequest t cm todo res)) t r)
  | endRequest (hpc : (s.shard k).pc = .requesting []) :
      ShardStep k s (setShard s k { s.shard k with pc := .cascade true })
  | forward (d : Bool) (pe : PendingEvent) (rest : List PendingEvent)
      (hpc : (s.shard k).pc = .cascade d) (hp : (s.shard k).pending = pe :: rest)
      (hm : pe.is_marker = false) (hl : pe.l0_done = true)
      (hr : ¬ pe.received_l1 < pe.expected_l1) (hroom : p.Room (s.q_to_stage k)) : ShardStep k s
        { pushStage (setShard s k { s.shard k with pc := .cascade true, pending := rest }) k
            (.event pe.seq) with
          forwarded := Function.update s.forwarded k (s.forwarded k ++ [pe]) }
  | stall (d : Bool) (hpc : (s.shard k).pc = .cascade d)
      (hs : (s.shard k).stalled (p.Room (s.q_to_stage k))) :
      ShardStep k s (setShard s k { s.shard k with pc := .publishing d })
  | publish (d : Bool) (hpc : (s.shard k).pc = .publishing d) : ShardStep k s
      { setShard s k ((s.shard k).afterPublish p.num_shards d) with
        next_emit_seq :=
          Function.update s.next_emit_seq k ((s.shard k).publish (s.next_emit_seq k)) }
  | exit (hpc : (s.shard k).pc = .exiting) : ShardStep k s
      { setShard s k { s.shard k with pc := .exited } with
        next_emit_seq := Function.update s.next_emit_seq k ⊤ }

inductive StageStep (s : State) : State → Prop
  | fill (k : Nat) (m : Msg) (q : List Msg) (hpc : s.stage = .filling k) (hk : k < p.num_shards)
      (hc : s.cache k = none) (hq : s.q_to_stage k = m :: q) : StageStep s
        { s with
          cache := Function.update s.cache k (some m)
          q_to_stage := Function.update s.q_to_stage k q
          stage := .filling (k + 1) }
  | skip (k : Nat) (hpc : s.stage = .filling k) (hk : k < p.num_shards)
      (hc : s.cache k = none → s.q_to_stage k = []) :
      StageStep s { s with stage := .filling (k + 1) }
  | beginScan (hpc : s.stage = .filling p.num_shards) :
      StageStep s { s with stage := .scanning 0 ⊤ none }
  | scan (k : Nat) (c : WithTop Nat) (min_k : Option Nat) (hpc : s.stage = .scanning k c min_k)
      (hk : k < p.num_shards) : StageStep s
        { s with
          stage := if candidate s k < c then
              .scanning (k + 1) (candidate s k) (if (s.cache k).isSome then some k else none)
            else .scanning (k + 1) c min_k }
  | stop (min_k : Option Nat) (hpc : s.stage = .scanning p.num_shards ⊤ min_k) :
      StageStep s { s with stage := .stopped }
  | wait (c : WithTop Nat) (hpc : s.stage = .scanning p.num_shards c none) (hc : c ≠ ⊤) :
      StageStep s { s with stage := .filling 0 }
  | emit (c : WithTop Nat) (k : Nat) (m : Msg) (hpc : s.stage = .scanning p.num_shards c (some k))
      (hc : c ≠ ⊤) (hm : s.cache k = some m) : StageStep s
        { s with
          cache := Function.update s.cache k none
          stage := .filling 0
          marker_done_stages := markerDone s.marker_done_stages m
          emitted := s.emitted ++ [m] }

/-- Who moves. An event is told from the other moves of the producer. -/
inductive Mover
  | event
  | producer
  | shard (k : Nat)
  | stages

inductive Step (R : Type*) (s : State) : Mover → State → Prop
  | event {s' : State} (h : p.EventStep (R := R) s s') : Step R s .event s'
  | producer {s' : State} (h : p.ProducerStep s s') : Step R s .producer s'
  | shard {s' : State} (k : Nat) (hk : k < p.num_shards) (h : p.ShardStep k s s') :
      Step R s (.shard k) s'
  | stages {s' : State} (h : p.StageStep s s') : Step R s .stages s'

def AnyStep (R : Type*) (s s' : State) : Prop := ∃ a, p.Step R s a s'

end OwnerScheme

end SslaRt
