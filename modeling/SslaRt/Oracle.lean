import SslaRt.LittleEndian
import SslaRt.FloatRounding
import Mathlib.Data.Rat.Defs
import Mathlib.Algebra.Order.Ring.Rat

/-! The dumps of the equivalence harness. A file is its bytes; a `float` is its
bit pattern. The subtraction of two doubles rounds by a function that is a
parameter; on the machine it is `Dbl.ofRat`. -/

namespace SslaRt

open LittleEndian

section Doubles

inductive Dbl
  | nan
  | inf (negative : Bool)
  | fin (q : ℚ)
  deriving DecidableEq

namespace Dbl

/-- `>` on doubles. -/
def gt : Dbl → Dbl → Bool
  | .nan, _ => false
  | _, .nan => false
  | .fin a, .fin b => decide (b < a)
  | .fin _, .inf s => s
  | .inf s, .fin _ => !s
  | .inf s, .inf t => !s && t

def abs : Dbl → Dbl
  | .nan => .nan
  | .inf _ => .inf false
  | .fin q => .fin (if q < 0 then -q else q)

/-- The nearest double, ties to even; a zero has no sign here. -/
def ofRat (q : ℚ) : Dbl :=
  let r := FloatRounding.nearest 52 (-1022) |q|
  if q = 0 then .fin 0
  else if 2 ^ 1024 ≤ r then .inf (decide (q < 0))
  else .fin (if q < 0 then -r else r)

def sub (round : ℚ → Dbl) : Dbl → Dbl → Dbl
  | .nan, _ => .nan
  | _, .nan => .nan
  | .inf s, .inf t => if s = t then .nan else .inf s
  | .inf s, .fin _ => .inf s
  | .fin _, .inf t => .inf (!t)
  | .fin a, .fin b => round (a - b)

end Dbl

/-- The conversion of a `float` to a `double`. -/
def toDouble (bits : UInt32) : Dbl :=
  let negative := bits.toNat / 2 ^ 31 = 1
  let e : Nat := bits.toNat / 2 ^ 23 % 2 ^ 8
  let m : Nat := bits.toNat % 2 ^ 23
  if e = 255 then (if m = 0 then .inf negative else .nan)
  else
    let magnitude : ℚ := if e = 0 then (m : ℚ) / 2 ^ 149 else (2 ^ 23 + m : ℚ) * 2 ^ e / 2 ^ 150
    .fin (if negative then -magnitude else magnitude)

end Doubles

structure Checkpoint where
  event_idx : UInt64
  preds : List UInt32
  deriving DecidableEq

section Recorder

structure OracleRecorder where
  num_anchors : Nat
  cols : Nat
  every : Nat
  shape_pos : 0 < num_anchors ∧ 0 < cols
  shape_int : num_anchors < 2 ^ 31 ∧ cols < 2 ^ 31
  checkpoints : List Checkpoint
  sized : ∀ cp ∈ checkpoints, cp.preds.length = num_anchors * cols

namespace OracleRecorder

def create (num_anchors cols : Int) (every_n_events : Nat) (hint : num_anchors < 2 ^ 31 ∧ cols < 2 ^ 31) :
    Except String OracleRecorder :=
  if h : num_anchors ≤ 0 ∨ cols ≤ 0 then .error "OracleRecorder: invalid shape"
  else .ok ⟨num_anchors.toNat, cols.toNat, every_n_events, by omega, by omega, [], nofun⟩

/-- `out` is the prediction tensor, if the output is one of detection. -/
def record (r : OracleRecorder) (event_idx : UInt64) (out : Option (List UInt32)) :
    OracleRecorder :=
  if r.every = 0 then r
  else if event_idx.toNat % r.every ≠ 0 ∧ event_idx ≠ 0 then r
  else match out with
    | none => r
    | some d =>
      if h : d.length ≠ r.num_anchors * r.cols then r
      else { r with
        checkpoints := r.checkpoints ++ [⟨event_idx, d⟩]
        sized := by
          intro cp hcp
          rcases List.mem_append.mp hcp with hcp | hcp
          · exact r.sized cp hcp
          · rw [List.mem_singleton.mp hcp]
            exact not_not.mp h }

def saveCheckpoint (cp : Checkpoint) : List UInt8 :=
  encode 8 cp.event_idx.toNat ++ cp.preds.flatMap fun x => encode 4 x.toNat

def magic : Nat := 0x4F455641

def save (r : OracleRecorder) : List UInt8 :=
  encode 4 magic ++ encode 4 1 ++ encode 4 r.num_anchors ++ encode 4 r.cols ++
    encode 4 r.checkpoints.length ++ r.checkpoints.flatMap saveCheckpoint

end OracleRecorder

end Recorder

section Load

/-- What `fread` copies, how many whole elements that are, and the rest of the file. -/
def fread (size count : Nat) (f : List UInt8) : List UInt8 × Nat × List UInt8 :=
  (f.take (size * count), (f.take (size * count)).length / size, f.drop (size * count))

def readU32 (f : List UInt8) : Option (Nat × List UInt8) :=
  let (got, n, rest) := fread 4 1 f
  if n ≠ 1 then none else some (decode got, rest)

structure Header where
  magic : Nat
  version : Nat
  na : Nat
  co : Nat
  nc : Nat
  deriving DecidableEq

def readHeader (f : List UInt8) : Option (Header × List UInt8) := do
  let (magic, f) ← readU32 f
  let (version, f) ← readU32 f
  let (na, f) ← readU32 f
  let (co, f) ← readU32 f
  let (nc, f) ← readU32 f
  return (⟨magic, version, na, co, nc⟩, f)

/-- A zero-filled buffer of floats after `got` has been copied into it. -/
def floatBuffer (per_cp : Nat) (got : List UInt8) : List UInt32 :=
  (List.range per_cp).map fun j => UInt32.ofNat (field got (4 * j) 4)

def zeroCheckpoint (per_cp : Nat) : Checkpoint := ⟨0, floatBuffer per_cp []⟩

/-- The loop over the `n` checkpoints that are left; it breaks at a short read. -/
def readCheckpoints (per_cp : Nat) : Nat → List UInt8 → List Checkpoint
  | 0, _ => []
  | n + 1, f =>
    let (got, k, f) := fread 8 1 f
    let idx := UInt64.ofNat (decode got)
    if k ≠ 1 then ⟨idx, floatBuffer per_cp []⟩ :: List.replicate n (zeroCheckpoint per_cp)
    else
      let (got, k, f) := fread 4 per_cp f
      let cp : Checkpoint := ⟨idx, floatBuffer per_cp got⟩
      if k ≠ per_cp then cp :: List.replicate n (zeroCheckpoint per_cp)
      else cp :: readCheckpoints per_cp n f

structure Dump where
  na : Nat
  co : Nat
  nc : Nat
  checkpoints : List Checkpoint
  deriving DecidableEq

/-- `alloc` tells whether the vectors for a number of checkpoints of a size can be made. -/
def load (alloc : Nat → Nat → Bool) (p : String) (f : List UInt8) : Except String Dump :=
  match readHeader f with
  | none => .error ("oracle: header read failed: " ++ p)
  | some (h, f) =>
    if h.magic ≠ 0x4F455641 ∨ h.version ≠ 1 then .error ("oracle: bad magic/version: " ++ p)
    else
      let per_cp := h.na * h.co
      if alloc h.nc per_cp = false then .error "std::bad_alloc"
      else .ok ⟨h.na, h.co, h.nc, readCheckpoints per_cp h.nc f⟩

end Load

section Diff

variable (round : ℚ → Dbl)

def absDelta (x y : UInt32) : Dbl := Dbl.abs (Dbl.sub round (toDouble x) (toDouble y))

structure DiffReport where
  ok : Bool
  n_cp : Nat
  max_abs_delta : Dbl
  n_mismatched_cp : Nat

def cpMax (a b : List UInt32) : Dbl :=
  (List.range a.length).foldl (fun cp_max j =>
    let d := absDelta round (a.getD j 0) (b.getD j 0)
    if Dbl.gt d cp_max then d else cp_max) (.fin 0)

def diffLoop (tol_abs : Dbl) : List Checkpoint → List Checkpoint → DiffReport → DiffReport
  | a :: as, b :: bs, r =>
    if a.event_idx ≠ b.event_idx then { r with ok := false }
    else
      let cp_max := cpMax round a.preds b.preds
      diffLoop tol_abs as bs { r with
        max_abs_delta := if Dbl.gt cp_max r.max_abs_delta then cp_max else r.max_abs_delta
        n_mismatched_cp :=
          if Dbl.gt cp_max tol_abs then r.n_mismatched_cp + 1 else r.n_mismatched_cp }
  | _, _, r => r

/-- `diff_dumps` on two files with their paths. -/
def diffDumps (alloc : Nat → Nat → Bool) (path_a path_b : String) (a b : List UInt8) (tol_abs : Dbl) :
    Except String DiffReport := do
  let a ← load alloc path_a a
  let b ← load alloc path_b b
  let r : DiffReport := ⟨a.na = b.na ∧ a.co = b.co ∧ a.nc = b.nc, a.nc, .fin 0, 0⟩
  if r.ok = false then return r
  return diffLoop round tol_abs a.checkpoints b.checkpoints r

/-- The exit code of the tool; an exception ends it by `abort`. -/
def diffExit : Except String DiffReport → Nat
  | .ok r => if r.ok ∧ r.n_mismatched_cp = 0 then 0 else 1
  | .error _ => 134

end Diff

end SslaRt
