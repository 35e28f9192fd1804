import Mathlib.Data.List.Basic

/-! A bounded first-in first-out queue as a transition system whose steps are
the completed operations of its users. -/

namespace BoundedFifo

inductive Event (α : Type*)
  | push (v : α)
  | pushFull
  | pop (v : α)
  | popEmpty

variable {α : Type*}

inductive Step (capacity : Nat) : List α → Event α → List α → Prop
  | push (q : List α) (v : α) (h : q.length < capacity) : Step capacity q (.push v) (q ++ [v])
  | pushFull (q : List α) (h : q.length = capacity) : Step capacity q .pushFull q
  | pop (v : α) (q : List α) : Step capacity (v :: q) (.pop v) q
  | popEmpty : Step capacity [] .popEmpty []

/-- A step that may be invisible to the users. -/
def Moves (capacity : Nat) (q : List α) : Option (Event α) → List α → Prop
  | none, q' => q' = q
  | some e, q' => Step capacity q e q'

inductive Run (capacity : Nat) : List (Event α) → List α → Prop
  | nil : Run capacity [] []
  | snoc {es : List (Event α)} {q q' : List α} {e : Event α} (h : Run capacity es q)
      (hst : Step capacity q e q') : Run capacity (es ++ [e]) q'

def pushed (es : List (Event α)) : List α :=
  es.filterMap fun
    | .push v => some v
    | _ => none

def popped (es : List (Event α)) : List α :=
  es.filterMap fun
    | .pop v => some v
    | _ => none

variable {capacity : Nat} {es : List (Event α)} {q : List α}

/-- Nothing is lost, duplicated or reordered. -/
theorem Run.conserves (h : Run capacity es q) : popped es ++ q = pushed es := by
  induction h with
  | nil => rfl
  | snoc _ hst ih =>
    unfold popped pushed at ih ⊢
    rw [List.filterMap_append, List.filterMap_append, ← ih]
    cases hst with
    | push q v h => simp
    | pushFull q h => simp
    | pop v q => simp
    | popEmpty => simp

theorem Run.length_le (h : Run capacity es q) : q.length ≤ capacity := by
  induction h with
  | nil => exact Nat.zero_le _
  | snoc _ hst ih =>
    cases hst with
    | push q v h =>
      rw [List.length_append]
      exact h
    | pushFull q h => exact ih
    | pop v q => exact Nat.le_trans (Nat.le_succ _) ih
    | popEmpty => exact ih

end BoundedFifo
