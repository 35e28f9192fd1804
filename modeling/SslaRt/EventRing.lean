import SslaRt.CircularBuffer

/-! The Python ring of camera events. Arrays are lists; the two counters are
`uint64` cells, into which a larger integer cannot be stored. -/

namespace SslaRt

open CircularBuffer

inductive PyError
  | valueError
  | overflowError
  deriving DecidableEq

variable {α : Type}

/-- `a[i:j] = b`, which broadcasts a single element. -/
def setSlice (a : List α) (i j : Nat) (b : List α) : Except PyError (List α) :=
  let n := (slice a i j).length
  if b.length = n then .ok (overwrite a b i)
  else match b with
    | [x] => .ok (overwrite a (List.replicate n x) i)
    | _ => .error .valueError

def storeU64 (v : Nat) : Except PyError Nat :=
  if v < 2 ^ 64 then .ok v else .error .overflowError

def isPow2 (n : Nat) : Prop := n ≥ 2 ∧ n &&& (n - 1) = 0

instance (n : Nat) : Decidable (isPow2 n) := inferInstanceAs (Decidable (_ ∧ _))

/-- The class `Ring`. -/
structure EventRing (α : Type) where
  cap : Nat
  mask : Nat
  buf : List α
  head : Nat
  tail : Nat

namespace EventRing

def create (capacity_pow2 : Nat) (zero : α) : Except PyError (EventRing α) :=
  if isPow2 capacity_pow2 then
    .ok ⟨capacity_pow2, capacity_pow2 - 1, List.replicate capacity_pow2 zero, 0, 0⟩
  else .error .valueError

def occupancy (r : EventRing α) : Int := r.head - r.tail

def freeSpace (r : EventRing α) : Int := r.cap - r.occupancy

/-- What a call leaves, also when it raises. -/
abbrev RingM (α : Type) := ExceptT PyError (StateM (EventRing α))

def setBuf (i j : Nat) (b : List α) : RingM α Unit := do
  let r ← get
  let buf ← liftM (setSlice r.buf i j b)
  set { r with buf := buf }

def setHead (v : Nat) : RingM α Unit := do
  let v ← liftM (storeU64 v)
  modify fun r => { r with head := v }

def setTail (v : Nat) : RingM α Unit := do
  let v ← liftM (storeU64 v)
  modify fun r => { r with tail := v }

def tryPushBatch (arr : List α) : RingM α Nat := do
  let r ← get
  let n := arr.length
  if n = 0 then return 0
  let h := r.head
  let t := r.tail
  let free : Int := r.cap - (h - t)
  if free ≤ 0 then return 0
  let m := min n free.toNat
  let start := h &&& r.mask
  let stop := start + m
  if stop ≤ r.cap then
    setBuf start stop (arr.take m)
  else
    let first := r.cap - start
    setBuf start r.cap (arr.take first)
    setBuf 0 (m - first) (slice arr first m)
  setHead (h + m)
  return m

/-- Returns the count and what `out` holds. -/
def tryPopBatch (out : List α) : RingM α (Nat × List α) := do
  let r ← get
  let n := out.length
  if n = 0 then return (0, out)
  let h := r.head
  let t := r.tail
  let avail : Int := h - t
  if avail ≤ 0 then return (0, out)
  let m := min n avail.toNat
  let start := t &&& r.mask
  let stop := start + m
  let out ← if stop ≤ r.cap then
      liftM (setSlice out 0 m (slice r.buf start stop))
    else do
      let first := r.cap - start
      let out ← liftM (setSlice out 0 first (r.buf.drop start))
      liftM (setSlice out first m (r.buf.take (m - first)))
  setTail (t + m)
  return (m, out)

inductive Call (α : Type)
  | push (arr : List α)
  | pop (out : List α)

/-- One call; the caller goes on after an exception. -/
def Call.exec (r : EventRing α) : Call α → EventRing α
  | .push arr => (tryPushBatch arr r).2
  | .pop out => (tryPopBatch out r).2

end EventRing

end SslaRt
