import Mathlib.Data.Int.Basic
import Mathlib.Logic.Function.Basic

/-! Temporal dropout: a byte counter per pooled cell lets one event in
`window` pass. -/

namespace SslaRt

def tdrop (counter : Nat → UInt8) (window : Int) (idx : Nat) : (Nat → UInt8) × Bool :=
  let pre := counter idx
  (Function.update counter idx (pre + 1),
    if window ≤ 1 then true else decide ((pre.toNat : Int) % window = 0))

theorem tdrop_snd (counter : Nat → UInt8) (window : Int) (idx : Nat) :
    (tdrop counter window idx).2 =
      if window ≤ 1 then true else decide (((counter idx).toNat : Int) % window = 0) := rfl

theorem tdrop_pass_iff (counter : Nat → UInt8) {window : Int} (hw : 1 ≤ window) (idx : Nat) :
    (tdrop counter window idx).2 = true ↔ (counter idx).toNat % window.toNat = 0 := by
  obtain ⟨w, rfl⟩ := Int.eq_ofNat_of_zero_le (Int.le_trans (by decide) hw)
  rw [tdrop_snd, Int.toNat_natCast]
  split
  · next h1 =>
    obtain rfl : w = 1 := by omega
    simp [Nat.mod_one]
  · rw [decide_eq_true_iff, ← Int.natCast_emod, Int.natCast_eq_zero]

theorem tdrop_of_zero {counter : Nat → UInt8} {window : Int} {idx : Nat} (h : counter idx = 0) :
    (tdrop counter window idx).2 = true := by
  simp [tdrop, h]

@[simp] theorem tdrop_self (counter : Nat → UInt8) (window : Int) (idx : Nat) :
    (tdrop counter window idx).1 idx = counter idx + 1 := Function.update_self _ _ _

theorem tdrop_of_ne (counter : Nat → UInt8) (window : Int) {idx i : Nat} (h : i ≠ idx) :
    (tdrop counter window idx).1 i = counter i := Function.update_of_ne h _ _

theorem tdrop_local {counter counter' : Nat → UInt8} (window : Int) {idx : Nat}
    (h : counter idx = counter' idx) :
    (tdrop counter window idx).2 = (tdrop counter' window idx).2 := by
  simp only [tdrop, h]

theorem tdrop_congr {counter counter' : Nat → UInt8} (window : Int) (idx : Nat) {i : Nat}
    (h : counter i = counter' i) :
    (tdrop counter window idx).1 i = (tdrop counter' window idx).1 i := by
  by_cases hi : i = idx
  · subst hi
    rw [tdrop_self, tdrop_self, h]
  · rw [tdrop_of_ne _ _ hi, tdrop_of_ne _ _ hi, h]

end SslaRt
