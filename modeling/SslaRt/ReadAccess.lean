import Mathlib.Data.List.Basic

/-! Reads of arrays that nothing checks: the indices that a matrix times a vector
and a bias read, and when all of them are inside. -/

namespace SslaRt

variable {R : Type*}

/-- A read of an array of `size` entries, which nothing checks. -/
structure ReadAccess where
  size : Nat
  index : Nat

def ReadAccess.Ok (a : ReadAccess) : Prop := a.index < a.size

instance (a : ReadAccess) : Decidable a.Ok := inferInstanceAs (Decidable (_ < _))

def AllOk (accesses : List ReadAccess) : Prop := ∀ a ∈ accesses, a.Ok

instance (accesses : List ReadAccess) : Decidable (AllOk accesses) :=
  inferInstanceAs (Decidable (∀ a ∈ accesses, a.Ok))

/-- The rows `lo, .., hi - 1` of a row-major matrix. -/
def rowReads (cols lo hi : Nat) (W : List R) : List ReadAccess :=
  (List.range' lo (hi - lo)).flatMap fun o => (List.range cols).map fun i => ⟨W.length, o * cols + i⟩

def matvecReads (IN OUT : Nat) (W : List R) : List ReadAccess := rowReads IN 0 OUT W

/-- `bias ? bias[o] : 0`. Whether `data()` of an empty vector is null is left open by the
standard; `data_null` says which. -/
def biasReads (data_null : Bool) (OUT : Nat) (bias : List R) : List ReadAccess :=
  if data_null ∧ bias = [] then [] else (List.range OUT).map fun o => ⟨bias.length, o⟩

def BiasFits (data_null : Bool) (OUT : Nat) (bias : List R) : Prop :=
  OUT ≤ bias.length ∨ data_null ∧ bias = []

theorem AllOk.nil : AllOk [] := fun _ h => absurd h List.not_mem_nil

theorem allOk_append {as bs : List ReadAccess} : AllOk (as ++ bs) ↔ AllOk as ∧ AllOk bs :=
  List.forall_mem_append

theorem AllOk.append {as bs : List ReadAccess} (ha : AllOk as) (hb : AllOk bs) : AllOk (as ++ bs) :=
  allOk_append.mpr ⟨ha, hb⟩

theorem AllOk.cons {a : ReadAccess} {as : List ReadAccess} (ha : a.Ok) (has : AllOk as) :
    AllOk (a :: as) := List.forall_mem_cons.mpr ⟨ha, has⟩

theorem allOk_flatMap {α : Type*} {l : List α} {f : α → List ReadAccess} (h : ∀ x ∈ l, AllOk (f x)) :
    AllOk (l.flatMap f) := by
  intro a ha
  obtain ⟨x, hx, hax⟩ := List.mem_flatMap.mp ha
  exact h x hx a hax

theorem rowReads_ok {cols lo hi : Nat} {W : List R} (hW : hi * cols ≤ W.length) :
    AllOk (rowReads cols lo hi W) := by
  refine allOk_flatMap fun o ho => ?_
  intro a ha
  obtain ⟨i, hi', rfl⟩ := List.mem_map.mp ha
  have hrow : o + 1 ≤ hi := by
    obtain ⟨hlo, hlt⟩ := List.mem_range'_1.mp ho
    omega
  have hcol := List.mem_range.mp hi'
  calc o * cols + i < (o + 1) * cols := by rw [Nat.succ_mul]; omega
    _ ≤ hi * cols := Nat.mul_le_mul_right _ hrow
    _ ≤ W.length := hW

/-- The last entry is read too. -/
theorem matvecReads_iff {IN OUT : Nat} {W : List R} : AllOk (matvecReads IN OUT W) ↔ OUT * IN ≤ W.length := by
  refine ⟨fun h => ?_, rowReads_ok⟩
  cases OUT with
  | zero => simp
  | succ rows =>
    cases IN with
    | zero => simp
    | succ cols =>
      have hlast : (⟨W.length, rows * (cols + 1) + cols⟩ : ReadAccess) ∈ matvecReads (cols + 1) (rows + 1) W := by
        refine List.mem_flatMap.mpr ⟨rows, List.mem_range'_1.mpr (by omega), ?_⟩
        exact List.mem_map.mpr ⟨cols, List.mem_range.mpr (by omega), rfl⟩
      have hlt : rows * (cols + 1) + cols < W.length := h _ hlast
      rw [Nat.succ_mul]
      omega

theorem biasReads_iff {data_null : Bool} {OUT : Nat} {bias : List R} :
    AllOk (biasReads data_null OUT bias) ↔ BiasFits data_null OUT bias := by
  unfold biasReads BiasFits
  by_cases hnull : data_null ∧ bias = []
  · rw [if_pos hnull]
    exact ⟨fun _ => .inr hnull, fun _ => .nil⟩
  rw [if_neg hnull, or_iff_left hnull]
  constructor
  · intro h
    cases OUT with
    | zero => exact Nat.zero_le _
    | succ n =>
      have hlast := h _ (List.mem_map_of_mem (List.mem_range.mpr (Nat.lt_succ_self n)))
      exact hlast
  · intro h a ha
    obtain ⟨o, ho, rfl⟩ := List.mem_map.mp ha
    exact Nat.lt_of_lt_of_le (List.mem_range.mp ho) h

end SslaRt
