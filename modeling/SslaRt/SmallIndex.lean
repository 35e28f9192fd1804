import Mathlib.Algebra.GroupWithZero.Nat

/-! The literals of the small index types. Each size has its own instance, so that
a literal in a definition carries no proof of its own. -/

instance oneNeZero : NeZero 1 := ⟨by decide⟩

instance twoNeZero : NeZero 2 := ⟨by decide⟩

instance fourNeZero : NeZero 4 := ⟨by decide⟩
