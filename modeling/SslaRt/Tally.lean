import Mathlib.Algebra.BigOperators.Group.Finset.Basic
import Mathlib.Algebra.BigOperators.Ring.Finset

/-! How many elements of a family of lists satisfy a predicate, when the lists
grow and shrink one at a time. -/

namespace Tally

variable {ι α : Type*}

theorem countP_cons_toNat (p : α → Bool) (a : α) (l : List α) :
    (a :: l).countP p = l.countP p + (p a).toNat := by
  rw [List.countP_cons]
  cases p a <;> rfl

def tally (p : ι → α → Bool) (s : Finset ι) (f : ι → List α) : Nat := ∑ k ∈ s, (f k).countP (p k)

variable {p : ι → α → Bool} {s : Finset ι} {f : ι → List α} {k : ι}

theorem tally_nil (hf : ∀ k, f k = []) : tally p s f = 0 :=
  Finset.sum_eq_zero fun k _ => by rw [hf, List.countP_nil]

variable [DecidableEq ι]

theorem tally_update (hk : k ∈ s) (l : List α) :
    tally p s (Function.update f k l) + (f k).countP (p k) = tally p s f + l.countP (p k) := by
  unfold tally
  have hrest : ∀ j ∈ s.erase k, (Function.update f k l j).countP (p j) = (f j).countP (p j) := by
    intro j hj
    rw [Function.update_of_ne (Finset.ne_of_mem_erase hj)]
  rw [← Finset.sum_erase_add s _ hk, ← Finset.sum_erase_add s (fun j => (f j).countP (p j)) hk,
    Finset.sum_congr rfl hrest, Function.update_self]
  omega

theorem tally_tail (hk : k ∈ s) {a : α} {l : List α} (hf : f k = a :: l) :
    tally p s (Function.update f k l) + (p k a).toNat = tally p s f := by
  have h := tally_update (p := p) (f := f) hk l
  rw [hf, countP_cons_toNat] at h
  omega

theorem tally_fill (hk : k ∈ s) (hf : f k = []) (l : List α) :
    tally p s (Function.update f k l) = tally p s f + l.countP (p k) := by
  have h := tally_update (p := p) (f := f) hk l
  rwa [hf, List.countP_nil, Nat.add_zero] at h

theorem tally_snoc (hk : k ∈ s) (a : α) :
    tally p s (Function.update f k (f k ++ [a])) = tally p s f + (p k a).toNat := by
  have h := tally_update (p := p) (f := f) hk (f k ++ [a])
  rw [List.countP_append, countP_cons_toNat, List.countP_nil] at h
  omega

theorem tally_single (hk : k ∈ s) (q : α → Bool) :
    tally (fun j a => decide (j = k) && q a) s f = (f k).countP q := by
  unfold tally
  rw [Finset.sum_eq_single_of_mem k hk]
  · simp
  · intro j _ hj
    simp [hj]

theorem sum_countP_filter {l : List α} {key : α → ι} (hl : ∀ a ∈ l, key a ∈ s) (q : α → Bool) :
    ∑ k ∈ s, (l.filter fun a => key a = k).countP q = l.countP q := by
  induction l with
  | nil => simp
  | cons a l ih =>
    have hrest := ih (fun a' ha' => hl a' (List.mem_cons_of_mem a ha'))
    have hhead : ∀ k, ((a :: l).filter fun a => key a = k).countP q =
        (l.filter fun a => key a = k).countP q + if key a = k then (q a).toNat else 0 := by
      intro k
      by_cases hk : key a = k
      · simp [hk, countP_cons_toNat]
      · simp [hk]
    rw [Finset.sum_congr rfl (fun k _ => hhead k), Finset.sum_add_distrib, hrest,
      Finset.sum_ite_eq s, if_pos (hl a List.mem_cons_self), countP_cons_toNat]

end Tally
