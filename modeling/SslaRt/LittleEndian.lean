import Mathlib.Data.List.Basic
import Mathlib.Data.UInt
import Mathlib.Algebra.Order.Ring.Nat

/-! Numbers as little-endian bytes. A byte that is missing at the end counts as
zero. -/

namespace LittleEndian

def encode : Nat → Nat → List UInt8
  | 0, _ => []
  | n + 1, v => UInt8.ofNat v :: encode n (v / 256)

def decode (bytes : List UInt8) : Nat := bytes.foldr (fun b v => b.toNat + 256 * v) 0

/-- The number stored in `size` bytes from `off` on. -/
def field (bytes : List UInt8) (off size : Nat) : Nat := decode ((bytes.drop off).take size)

@[simp] theorem length_encode (n v : Nat) : (encode n v).length = n := by
  induction n generalizing v with
  | zero => rfl
  | succ n ih => rw [encode, List.length_cons, ih]

theorem decode_encode (n v : Nat) : decode (encode n v) = v % 256 ^ n := by
  induction n generalizing v with
  | zero => rw [Nat.pow_zero, Nat.mod_one]; rfl
  | succ n ih =>
    have hbyte : (UInt8.ofNat v).toNat = v % 256 := UInt8.toNat_ofNat'
    change (UInt8.ofNat v).toNat + 256 * decode (encode n (v / 256)) = _
    rw [ih, hbyte, Nat.pow_succ', Nat.mod_mul]

theorem field_drop (bytes : List UInt8) (a off size : Nat) :
    field (bytes.drop a) off size = field bytes (a + off) size := by
  rw [field, field, List.drop_drop]

theorem field_take {bytes : List UInt8} {n off size : Nat} (h : off + size ≤ n) :
    field (bytes.take n) off size = field bytes off size := by
  rw [field, field, List.drop_take, List.take_take, min_eq_left (by omega)]

theorem field_append_right (a b : List UInt8) (off size : Nat) :
    field (a ++ b) (a.length + off) size = field b off size := by
  rw [← field_drop, List.drop_left]

theorem field_encode (n v : Nat) (rest : List UInt8) :
    field (encode n v ++ rest) 0 n = v % 256 ^ n := by
  rw [field, List.drop_zero, List.take_left' (length_encode n v), decode_encode]

theorem field_of_le {bytes : List UInt8} {off size : Nat} (h : bytes.length ≤ off) :
    field bytes off size = 0 := by
  rw [field, List.drop_of_length_le h, List.take_nil]
  rfl

end LittleEndian
