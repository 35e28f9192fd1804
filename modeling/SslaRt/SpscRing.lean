import SslaRt.BoundedFifo
import Mathlib.Data.Fintype.Basic
import Mathlib.Data.Nat.ModEq

/-! The single-producer single-consumer ring, one atomic step of one thread at a
time. An element consists of words that are copied one by one in any order, so
that a half-written element would be seen. -/

namespace SslaRt

/-- A capacity that the constructor accepts. -/
structure SpscConfig where
  cap_ : UInt64
  accepted : ¬ (cap_ < 2 ∨ cap_ &&& (cap_ - 1) ≠ 0)

def SpscConfig.mask_ (cfg : SpscConfig) : UInt64 := cfg.cap_ - 1

variable {ι W : Type*}

/-- Where the pushing thread is in `try_push(v)`. -/
inductive Pusher (ι W : Type*)
  | idle
  | loadedHead (v : ι → W) (h : UInt64)
  | writing (v : ι → W) (h : UInt64) (todo : Finset ι)

/-- Where the popping thread is in `try_pop(out)`. -/
inductive Popper (ι W : Type*)
  | idle
  | loadedTail (out : ι → W) (t : UInt64)
  | reading (out : ι → W) (t : UInt64) (todo : Finset ι)

structure SpscRing (ι W : Type*) where
  buf_ : Nat → ι → W
  head_ : UInt64
  tail_ : UInt64
  pusher : Pusher ι W
  popper : Popper ι W

def SpscRing.init (buf : Nat → ι → W) : SpscRing ι W := ⟨buf, 0, 0, .idle, .idle⟩

variable [DecidableEq ι] [Fintype ι]

def writeWord (buf : Nat → ι → W) (slot : Nat) (i : ι) (w : W) : Nat → ι → W :=
  Function.update buf slot (Function.update (buf slot) i w)

open BoundedFifo (Event)

/-- The steps of both threads. The label of a step is the call that returns with
it: a failing call returns at the load of the other index. -/
inductive SpscStep (cfg : SpscConfig) (s : SpscRing ι W) :
    Option (Event (ι → W)) → SpscRing ι W → Prop
  | loadHead (v : ι → W) (hp : s.pusher = .idle) :
      SpscStep cfg s none { s with pusher := .loadedHead v s.head_ }
  | pushFull (v : ι → W) (h : UInt64) (hp : s.pusher = .loadedHead v h)
      (hfull : h - s.tail_ ≥ cfg.cap_) :
      SpscStep cfg s (some .pushFull) { s with pusher := .idle }
  | loadTail (v : ι → W) (h : UInt64) (hp : s.pusher = .loadedHead v h)
      (hroom : ¬ h - s.tail_ ≥ cfg.cap_) :
      SpscStep cfg s none { s with pusher := .writing v h Finset.univ }
  | write (v : ι → W) (h : UInt64) (todo : Finset ι) (i : ι) (hp : s.pusher = .writing v h todo)
      (hi : i ∈ todo) :
      SpscStep cfg s none { s with
        buf_ := writeWord s.buf_ (h &&& cfg.mask_).toNat i (v i)
        pusher := .writing v h (todo.erase i) }
  | storeHead (v : ι → W) (h : UInt64) (hp : s.pusher = .writing v h ∅) :
      SpscStep cfg s (some (.push v)) { s with head_ := h + 1, pusher := .idle }
  | loadOwnTail (out : ι → W) (hp : s.popper = .idle) :
      SpscStep cfg s none { s with popper := .loadedTail out s.tail_ }
  | popEmpty (out : ι → W) (t : UInt64) (hp : s.popper = .loadedTail out t)
      (hempty : s.head_ = t) :
      SpscStep cfg s (some .popEmpty) { s with popper := .idle }
  | loadOtherHead (out : ι → W) (t : UInt64) (hp : s.popper = .loadedTail out t)
      (hsome : s.head_ ≠ t) :
      SpscStep cfg s none { s with popper := .reading out t Finset.univ }
  | read (out : ι → W) (t : UInt64) (todo : Finset ι) (i : ι) (hp : s.popper = .reading out t todo)
      (hi : i ∈ todo) :
      SpscStep cfg s none { s with
        popper := .reading (Function.update out i (s.buf_ (t &&& cfg.mask_).toNat i)) t
          (todo.erase i) }
  | storeTail (out : ι → W) (t : UInt64) (hp : s.popper = .reading out t ∅) :
      SpscStep cfg s (some (.pop out)) { s with tail_ := t + 1, popper := .idle }

/-- The runs from a new ring, with the calls that have returned. -/
inductive SpscRun (cfg : SpscConfig) (buf : Nat → ι → W) :
    List (Event (ι → W)) → SpscRing ι W → Prop
  | nil : SpscRun cfg buf [] (.init buf)
  | snoc {es : List (Event (ι → W))} {s t : SpscRing ι W} {e : Option (Event (ι → W))}
      (h : SpscRun cfg buf es s) (hst : SpscStep cfg s e t) :
      SpscRun cfg buf (es ++ e.toList) t

section Capacity

variable (cfg : SpscConfig)

def SpscConfig.capacity : Nat := cfg.cap_.toNat

theorem SpscConfig.two_le : 2 ≤ cfg.capacity := by
  have h := (not_or.mp cfg.accepted).1
  rw [UInt64.lt_iff_toNat_lt] at h
  exact Nat.le_of_not_lt h

theorem SpscConfig.mask_toNat : cfg.mask_.toNat = cfg.capacity - 1 := by
  have h := cfg.two_le
  have hle : (1 : UInt64) ≤ cfg.cap_ := by
    rw [UInt64.le_iff_toNat_le]
    exact (Nat.le_succ 1).trans h
  exact UInt64.toNat_sub_of_le _ _ hle

theorem SpscConfig.isPowerOfTwo : cfg.capacity.isPowerOfTwo := by
  have hand := not_not.mp (not_or.mp cfg.accepted).2
  have htoNat := congrArg UInt64.toNat hand
  rw [UInt64.toNat_and] at htoNat
  have hmask : (cfg.cap_ - 1).toNat = cfg.cap_.toNat - 1 := cfg.mask_toNat
  rw [hmask] at htoNat
  have h := cfg.two_le
  exact (Nat.and_sub_one_eq_zero_iff_isPowerOfTwo (Nat.ne_of_gt (Nat.lt_of_lt_of_le Nat.two_pos h))).mp
    htoNat

theorem SpscConfig.capacity_dvd : cfg.capacity ∣ 2 ^ 64 := by
  obtain ⟨k, hk⟩ := cfg.isPowerOfTwo
  have hlt : cfg.capacity < 2 ^ 64 := UInt64.toNat_lt _
  rw [hk] at hlt ⊢
  exact Nat.pow_dvd_pow 2 (Nat.le_of_lt ((Nat.pow_lt_pow_iff_right (by decide)).mp hlt))

theorem SpscConfig.slot_eq (i : Nat) :
    (UInt64.ofNat i &&& cfg.mask_).toNat = i % cfg.capacity := by
  obtain ⟨k, hk⟩ := cfg.isPowerOfTwo
  rw [UInt64.toNat_and, cfg.mask_toNat, UInt64.toNat_ofNat', hk, Nat.and_two_pow_sub_one_eq_mod,
    ← hk]
  exact Nat.mod_mod_of_dvd _ cfg.capacity_dvd

end Capacity

end SslaRt
