import Mathlib.Algebra.BigOperators.Group.Finset.Basic
import Mathlib.Algebra.Order.BigOperators.Group.Multiset
import Mathlib.Data.Multiset.Filter

/-! The elements of a family of lists as a multiset, when the lists grow at the end
and shrink at the front. -/

namespace Bag

variable {ι α M : Type*}

def bag (s : Finset ι) (f : ι → List α) : Multiset α := ∑ k ∈ s, (f k : Multiset α)

variable {s : Finset ι} {f : ι → List α} {k : ι}

theorem bag_nil (hf : ∀ k, f k = []) : bag s f = 0 :=
  Finset.sum_eq_zero fun k _ => by rw [hf, Multiset.coe_nil]

theorem countP_bag (p : α → Prop) [DecidablePred p] :
    (bag s f).countP p = ∑ k ∈ s, (f k).countP fun a => decide (p a) := by
  unfold bag
  rw [← Multiset.coe_countPAddMonoidHom, map_sum]
  simp only [Multiset.coe_countPAddMonoidHom, Multiset.coe_countP]

theorem filter_bag (p : α → Prop) [DecidablePred p] :
    (bag s f).filter p = bag s fun k => (f k).filter fun a => decide (p a) := by
  classical
  unfold bag
  induction s using Finset.induction_on with
  | empty => rfl
  | insert k s hk ih => rw [Finset.sum_insert hk, Multiset.filter_add, ih, Finset.sum_insert hk, Multiset.filter_coe]

theorem sum_map_bag [AddCommMonoid M] (g : α → M) :
    ((bag s f).map g).sum = ∑ k ∈ s, ((f k).map g).sum := by
  classical
  unfold bag
  induction s using Finset.induction_on with
  | empty => simp
  | insert k s hk ih =>
    rw [Finset.sum_insert hk, Multiset.map_add, Multiset.sum_add, ih, Finset.sum_insert hk,
      Multiset.map_coe, Multiset.sum_coe]

variable [DecidableEq ι]

theorem bag_update (hk : k ∈ s) (l : List α) :
    bag s (Function.update f k l) + f k = bag s f + l := by
  unfold bag
  have hrest : ∀ j ∈ s.erase k, (Function.update f k l j : Multiset α) = f j := by
    intro j hj
    rw [Function.update_of_ne (Finset.ne_of_mem_erase hj)]
  rw [← Finset.sum_erase_add s _ hk, ← Finset.sum_erase_add s (fun j => (f j : Multiset α)) hk,
    Finset.sum_congr rfl hrest, Function.update_self]
  exact add_right_comm _ _ _

theorem bag_snoc (hk : k ∈ s) (a : α) :
    bag s (Function.update f k (f k ++ [a])) = bag s f + {a} := by
  have h := bag_update (f := f) hk (f k ++ [a])
  rw [← Multiset.coe_add, ← add_assoc, add_right_comm] at h
  exact add_right_cancel h

theorem bag_tail (hk : k ∈ s) {a : α} {l : List α} (hf : f k = a :: l) :
    bag s (Function.update f k l) + {a} = bag s f := by
  have h := bag_update (f := f) hk l
  rw [hf, ← Multiset.cons_coe, ← Multiset.singleton_add, ← add_assoc] at h
  exact add_right_cancel h

section Sum

variable {β : Type*}

theorem sum_update [AddCommMonoid M] (hk : k ∈ s) (F : ι → β → M) (g : ι → β) (b : β) :
    ∑ j ∈ s, F j (Function.update g k b j) + F k (g k) = ∑ j ∈ s, F j (g j) + F k b := by
  have hrest : ∀ j ∈ s.erase k, F j (Function.update g k b j) = F j (g j) := by
    intro j hj
    rw [Function.update_of_ne (Finset.ne_of_mem_erase hj)]
  rw [← Finset.sum_erase_add s _ hk, ← Finset.sum_erase_add s (fun j => F j (g j)) hk,
    Finset.sum_congr rfl hrest, Function.update_self]
  exact add_right_comm _ _ _

theorem sum_update_same [AddCommMonoid M] (F : ι → β → M) (g : ι → β) {b : β} (h : F k b = F k (g k)) :
    ∑ j ∈ s, F j (Function.update g k b j) = ∑ j ∈ s, F j (g j) := by
  refine Finset.sum_congr rfl fun j _ => ?_
  by_cases hj : j = k
  · rw [hj, Function.update_self, h]
  · rw [Function.update_of_ne hj]

variable [AddCancelCommMonoid M] {x : M}

theorem sum_update_gain (hk : k ∈ s) (F : ι → β → M) (g : ι → β) {b : β} (h : F k b = F k (g k) + x) :
    ∑ j ∈ s, F j (Function.update g k b j) = ∑ j ∈ s, F j (g j) + x := by
  have hsum := sum_update hk F g b
  rw [h, add_left_comm, add_comm (F k (g k))] at hsum
  exact add_right_cancel hsum

theorem sum_update_loss (hk : k ∈ s) (F : ι → β → M) (g : ι → β) {b : β} (h : F k (g k) = F k b + x) :
    ∑ j ∈ s, F j (Function.update g k b j) + x = ∑ j ∈ s, F j (g j) := by
  have hsum := sum_update hk F g b
  rw [h, add_left_comm, add_comm (F k b)] at hsum
  exact add_right_cancel hsum

end Sum

end Bag
