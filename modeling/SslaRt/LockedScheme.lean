import SslaRt.ShardLayer
import SslaRt.Pipeline
import Mathlib.Order.Lattice.Nat
import Mathlib.Order.WithBot

/-! The messages of scheme 5: the producer, the shard threads with their commit
watermarks and the stage thread that merges the queues of the shards. The
features of an event are left out. -/

namespace SslaRt

structure LockedScheme where
  num_shards : Nat
  shards_pos : 0 < num_shards
  W : Nat
  H : Nat
  capacity : Nat

namespace LockedScheme

inductive Msg
  | event (seq : Nat)
  | marker (seq : Nat)
  | eof

def Msg.seq : Msg → Nat
  | .event seq => seq
  | .marker seq => seq
  | .eof => 0

inductive ProducerPc
  | idle
  | marking (seq k : Nat)
  | storing (value : Nat)
  | ending (k : Nat)
  | ended

inductive ShardPc
  | polling (did_work : Bool)
  | pushing (m : Msg)
  | committing (seq : Nat)
  | loading
  | jumping (seq : Nat)
  | exiting
  | exited

structure Shard where
  pc : ShardPc
  last_seq : Nat
  got_eof : Bool

inductive StagePc
  | filling (k : Nat)
  | polling (k : Nat) (min_committed : WithTop Nat)
  | checking (k min_k : Nat) (msg : Msg)
  | stopped

/-- `⊤` is `UINT64_MAX`. The last four fields record the run. -/
structure State where
  producer : ProducerPc
  pushed_seq_max : Nat
  q_own : Nat → List Msg
  shard : Nat → Shard
  committed_seq : Nat → WithTop Nat
  q_to_stage : Nat → List Msg
  cache : Nat → Option Msg
  stage : StagePc
  marker_done_stages : Nat
  /-- The shard of every event so far, in the order of their numbers. -/
  routes : List (Option Nat)
  marked : Bool
  /-- The events that each shard has pushed to the stage thread. -/
  pushed : Nat → List Nat
  processed : List Nat

def init : State where
  producer := .idle
  pushed_seq_max := 0
  q_own := fun _ => []
  shard := fun _ => ⟨.polling false, 0, false⟩
  committed_seq := fun _ => 0
  q_to_stage := fun _ => []
  cache := fun _ => none
  stage := .filling 0
  marker_done_stages := 0
  routes := []
  marked := false
  pushed := fun _ => []
  processed := []

variable (p : LockedScheme) {R : Type*}

/-- The shard of an event in the frame. -/
def route (e : Event R) : Option Nat :=
  let ex := castInt e.x
  let ey := castInt e.y
  if ex < 0 ∨ ex ≥ p.W ∨ ey < 0 ∨ ey ≥ p.H then none
  else some (shardOfCol p.W p.num_shards ex)

/-- The first shard with the smallest cached number. -/
def pick (cache : Nat → Option Msg) : Option (Nat × Msg) :=
  (List.range p.num_shards).foldl (fun best k => match cache k, best with
    | none, best => best
    | some m, none => some (k, m)
    | some m, some b => if m.seq < b.2.seq then some (k, m) else some b) none

def eventSeq : Msg → List Nat
  | .event seq => [seq]
  | _ => []

/-- Who moves. An event is told from the other moves of the producer. -/
inductive Mover
  | event
  | producer
  | shard (k : Nat)
  | stages

section Steps

variable (s : State)

def setShard (k : Nat) (sh : Shard) : State :=
  { s with shard := Function.update s.shard k sh }

def pushOwn (k : Nat) (m : Msg) : State :=
  { s with q_own := Function.update s.q_own k (s.q_own k ++ [m]) }

/-- `committed_seq[k]->store`, with the local variable of the shard. -/
def commit (k seq : Nat) (pc : ShardPc) : State :=
  { s with
    shard := Function.update s.shard k ⟨pc, seq, (s.shard k).got_eof⟩
    committed_seq := Function.update s.committed_seq k seq }

/-- What an idle shard does after it has loaded `pushed_seq_max`. -/
def afterLoad (sh : Shard) (prod_max : Nat) : ShardPc :=
  if prod_max > 0 ∧ sh.last_seq + 1 < prod_max then .jumping (prod_max - 1)
  else if sh.got_eof then .exiting else .polling false

end Steps

inductive ProducerStep (s : State) : State → Prop
  | beginMarker (hpc : s.producer = .idle) : ProducerStep s
      { s with producer := .marking s.routes.length 0, marked := true }
  | pushMarker (seq k : Nat) (hpc : s.producer = .marking seq k) (hk : k < p.num_shards)
      (hroom : (s.q_own k).length < p.capacity) :
      ProducerStep s { pushOwn s k (.marker seq) with producer := .marking seq (k + 1) }
  | endMarker (seq : Nat) (hpc : s.producer = .marking seq p.num_shards) :
      ProducerStep s { s with producer := .storing (seq + 1) }
  | store (value : Nat) (hpc : s.producer = .storing value) :
      ProducerStep s { s with pushed_seq_max := value, producer := .idle }
  | beginEof (hpc : s.producer = .idle) : ProducerStep s { s with producer := .ending 0 }
  | pushEof (k : Nat) (hpc : s.producer = .ending k) (hk : k < p.num_shards)
      (hroom : (s.q_own k).length < p.capacity) :
      ProducerStep s { pushOwn s k .eof with producer := .ending (k + 1) }
  | endEof (hpc : s.producer = .ending p.num_shards) : ProducerStep s { s with producer := .ended }

/-- `push_one`; `pushed_seq_max` is stored in a step of its own. -/
inductive EventStep (s : State) : State → Prop
  | outOfBounds (e : Event R) (hpc : s.producer = .idle) (he : p.route e = none) :
      EventStep s
        { s with producer := .storing (s.routes.length + 1), routes := s.routes ++ [none] }
  | inBounds (e : Event R) (k : Nat) (hpc : s.producer = .idle) (he : p.route e = some k)
      (hroom : (s.q_own k).length < p.capacity) : EventStep s
        { pushOwn s k (.event s.routes.length) with
          producer := .storing (s.routes.length + 1), routes := s.routes ++ [some k] }

inductive ShardStep (k : Nat) (s : State) : State → Prop
  | pop (d : Bool) (m : Msg) (q : List Msg) (hpc : (s.shard k).pc = .polling d)
      (hq : s.q_own k = m :: q) (hm : m ≠ .eof) : ShardStep k s
        { setShard s k { s.shard k with pc := .pushing m } with
          q_own := Function.update s.q_own k q }
  | popEof (d : Bool) (q : List Msg) (hpc : (s.shard k).pc = .polling d)
      (hq : s.q_own k = .eof :: q) : ShardStep k s
        { setShard s k { s.shard k with pc := .polling true, got_eof := true } with
          q_own := Function.update s.q_own k q }
  | popEmpty (d : Bool) (hpc : (s.shard k).pc = .polling d) (hq : s.q_own k = []) :
      ShardStep k s (setShard s k { s.shard k with pc := if d then .polling false else .loading })
  | push (m : Msg) (hpc : (s.shard k).pc = .pushing m)
      (hroom : (s.q_to_stage k).length < p.capacity) : ShardStep k s
        { setShard s k { s.shard k with pc := .committing m.seq } with
          q_to_stage := Function.update s.q_to_stage k (s.q_to_stage k ++ [m])
          pushed := Function.update s.pushed k (s.pushed k ++ eventSeq m) }
  | commit (seq : Nat) (hpc : (s.shard k).pc = .committing seq) :
      ShardStep k s (commit s k seq (.polling true))
  | load (hpc : (s.shard k).pc = .loading) : ShardStep k s
      (setShard s k { s.shard k with pc := afterLoad (s.shard k) s.pushed_seq_max })
  | jump (seq : Nat) (hpc : (s.shard k).pc = .jumping seq) :
      ShardStep k s (commit s k seq (.polling false))
  | exit (hpc : (s.shard k).pc = .exiting) : ShardStep k s
      { setShard s k { s.shard k with pc := .exited } with
        committed_seq := Function.update s.committed_seq k ⊤ }

inductive StageStep (s : State) : State → Prop
  | fill (k : Nat) (m : Msg) (q : List Msg) (hpc : s.stage = .filling k) (hk : k < p.num_shards)
      (hc : s.cache k = none) (hq : s.q_to_stage k = m :: q) : StageStep s
        { s with
          cache := Function.update s.cache k (some m)
          q_to_stage := Function.update s.q_to_stage k q
          stage := .filling (k + 1) }
  | skip (k : Nat) (hpc : s.stage = .filling k) (hk : k < p.num_shards)
      (hc : s.cache k = none → s.q_to_stage k = []) :
      StageStep s { s with stage := .filling (k + 1) }
  | pickNone (hpc : s.stage = .filling p.num_shards) (hmin : p.pick s.cache = none) :
      StageStep s { s with stage := .polling 0 ⊤ }
  | pickSome (min_k : Nat) (m : Msg) (hpc : s.stage = .filling p.num_shards)
      (hmin : p.pick s.cache = some (min_k, m)) :
      StageStep s { s with stage := .checking 0 min_k m }
  | poll (k : Nat) (c : WithTop Nat) (hpc : s.stage = .polling k c) (hk : k < p.num_shards) :
      StageStep s { s with stage := .polling (k + 1) (min c (s.committed_seq k)) }
  | pollEnd (c : WithTop Nat) (hpc : s.stage = .polling p.num_shards c) :
      StageStep s { s with stage := if c = ⊤ then .stopped else .filling 0 }
  | check (k min_k : Nat) (m : Msg) (hpc : s.stage = .checking k min_k m) (hk : k < p.num_shards) :
      StageStep s
        { s with
          stage := if k ≠ min_k ∧ s.committed_seq k < m.seq then .filling 0
            else .checking (k + 1) min_k m }
  | emit (min_k : Nat) (m : Msg) (hpc : s.stage = .checking p.num_shards min_k m) : StageStep s
      { s with
        cache := Function.update s.cache min_k none
        stage := .filling 0
        marker_done_stages := match m with
          | .marker seq => seq
          | _ => s.marker_done_stages
        processed := s.processed ++ eventSeq m }

inductive Step (R : Type*) (s : State) : Mover → State → Prop
  | event {s' : State} (h : p.EventStep (R := R) s s') : Step R s .event s'
  | producer {s' : State} (h : p.ProducerStep s s') : Step R s .producer s'
  | shard {s' : State} (k : Nat) (hk : k < p.num_shards) (h : p.ShardStep k s s') :
      Step R s (.shard k) s'
  | stages {s' : State} (h : p.StageStep s s') : Step R s .stages s'

/-- When the two reads of a thread agree although they are not atomic together. -/
def Timely (s : State) : Mover → Prop
  | .event => s.marked = false
  | .producer => True
  | .shard k => (s.shard k).pc = .loading → (s.shard k).last_seq + 1 < s.pushed_seq_max →
      ∀ seq, .event seq ∈ s.q_own k → s.pushed_seq_max ≤ seq
  | .stages => ∀ k min_k m, s.stage = .checking k min_k m → k ≠ min_k → s.cache k = none →
      m.seq ≤ s.committed_seq k → ∀ seq, .event seq ∈ s.q_to_stage k → m.seq ≤ seq

def TimelyStep (R : Type*) (s s' : State) : Prop := ∃ a, p.Step R s a s' ∧ Timely s a

end LockedScheme

end SslaRt
