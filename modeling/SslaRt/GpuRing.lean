import SslaRt.SmallIndex
import SslaRt.Transition
import Mathlib.Algebra.Group.Nat.Defs
import Mathlib.Logic.Function.Basic
import Mathlib.Data.List.FinRange

/-! The ring from the CPU shards to one GPU block. Any number of producers
claim indices of a shared counter and write their records field by field; the
consumer tests the tags of consecutive slots, copies the ready records and
then advances. No producer looks at the consumer. -/

namespace SslaRt

/-- The separately written words of a record, without its tag. -/
inductive Field
  | t
  | x
  | y
  | feat1 (i : Fin 24)
  | t_push_ns
  | t_emit_ns
  deriving DecidableEq, Repr

def Field.pushed : List Field :=
  [.t, .x, .y] ++ (List.finRange 24).map .feat1 ++ [.t_push_ns, .t_emit_ns]

/-- The fields that the kernel copies; it does not read `t`. -/
def Field.loaded : List Field :=
  [.x, .y] ++ (List.finRange 24).map .feat1 ++ [.t_push_ns, .t_emit_ns]

structure RingSlot (W : Type*) where
  seq_done : UInt64
  fields : Field → W

/-- `index` is the unbounded value of the machine index `slot`. -/
inductive Producer (W : Type*)
  | idle
  | writing (slot : UInt64) (index : Nat) (payload : Field → W) (todo : List Field)

inductive Consumer (W : Type*)
  | idle
  | probing (n_ready : Nat)
  | copying (batch_size : Nat) (todo : List (Nat × Field)) (event_slots : Nat → Field → Option W)
  | processing (batch_size : Nat)

/-- The capacity is the power of two `ring_mask + 1`. -/
structure RingConfig where
  log2_capacity : Nat
  log2_lt : log2_capacity < 64

def RingConfig.capacity (cfg : RingConfig) : Nat := 2 ^ cfg.log2_capacity

def RingConfig.ring_mask (cfg : RingConfig) : UInt64 := UInt64.ofNat (cfg.capacity - 1)

def RingConfig.position (cfg : RingConfig) (index : UInt64) : Nat := (index &&& cfg.ring_mask).toNat

/-- The last three components are the history: who claimed which payload, what
the consumer copied, and how many records the tail has passed. -/
structure GpuRing (P W : Type*) where
  ring_head : UInt64
  ring_buf : Nat → RingSlot W
  tail : UInt64
  producers : P → Producer W
  consumer : Consumer W
  claims : List (P × (Field → W))
  accepted : List (UInt64 × (Field → Option W))
  consumed : Nat

def GpuRing.init {P W : Type*} (zero : W) : GpuRing P W where
  ring_head := 0
  ring_buf := fun _ => ⟨0, fun _ => zero⟩
  tail := 0
  producers := fun _ => .idle
  consumer := .idle
  claims := []
  accepted := []
  consumed := 0

inductive RingAction (P W : Type*)
  | claim (p : P) (payload : Field → W)
  | write (p : P) (f : Field)
  | publish (p : P)
  | probe
  | copy (e : Nat) (f : Field)
  | load
  | advance

variable {P W : Type*} [DecidableEq P]

def ringBatch : Nat := 8

def GpuRing.setField (s : GpuRing P W) (pos : Nat) (f : Field) (v : W) : Nat → RingSlot W :=
  Function.update s.ring_buf pos
    { s.ring_buf pos with fields := Function.update (s.ring_buf pos).fields f v }

def GpuRing.setTag (s : GpuRing P W) (pos : Nat) (tag : UInt64) : Nat → RingSlot W :=
  Function.update s.ring_buf pos { s.ring_buf pos with seq_done := tag }

/-- One step of one party. The fields of a record are written and copied in any
order; the tag is written last and tested first. -/
def ringStep (cfg : RingConfig) (s : GpuRing P W) : RingAction P W → Option (GpuRing P W)
  | .claim p payload =>
    match s.producers p with
    | .idle => some { s with
        ring_head := s.ring_head + 1
        producers := Function.update s.producers p
          (.writing s.ring_head s.claims.length payload Field.pushed)
        claims := s.claims ++ [(p, payload)] }
    | .writing .. => none
  | .write p f =>
    match s.producers p with
    | .idle => none
    | .writing slot index payload todo =>
      if f ∈ todo then some { s with
        ring_buf := s.setField (cfg.position slot) f (payload f)
        producers := Function.update s.producers p (.writing slot index payload (todo.erase f)) }
      else none
  | .publish p =>
    match s.producers p with
    | .writing slot _ _ [] => some { s with
        ring_buf := s.setTag (cfg.position slot) (slot + 1)
        producers := Function.update s.producers p .idle }
    | _ => none
  | .probe =>
    match s.consumer with
    | .idle =>
      if (s.ring_buf (cfg.position s.tail)).seq_done = s.tail + 1 then
        some { s with consumer := .probing 1 }
      else some s
    | .probing n_ready =>
      let i := s.tail + UInt64.ofNat n_ready
      if n_ready < ringBatch ∧ (s.ring_buf (cfg.position i)).seq_done = i + 1 then
        some { s with consumer := .probing (n_ready + 1) }
      else
        let todo := (List.range n_ready).flatMap (fun e => Field.loaded.map (fun f => (e, f)))
        some { s with consumer := .copying n_ready todo (fun _ _ => none) }
    | _ => none
  | .copy e f =>
    match s.consumer with
    | .copying batch_size todo event_slots =>
      if (e, f) ∈ todo then
        let src := (s.ring_buf (cfg.position (s.tail + UInt64.ofNat e))).fields
        let slot := Function.update (event_slots e) f (some (src f))
        some { s with
          consumer := .copying batch_size (todo.erase (e, f)) (Function.update event_slots e slot) }
      else none
    | _ => none
  | .load =>
    match s.consumer with
    | .copying batch_size [] event_slots => some { s with
        consumer := .processing batch_size
        accepted := s.accepted ++
          (List.range batch_size).map (fun e => (s.tail + UInt64.ofNat e, event_slots e)) }
    | _ => none
  | .advance =>
    match s.consumer with
    | .processing batch_size => some { s with
        tail := s.tail + UInt64.ofNat batch_size
        consumer := .idle
        consumed := s.consumed + batch_size }
    | _ => none

end SslaRt
