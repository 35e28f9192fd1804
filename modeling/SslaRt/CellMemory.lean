import Mathlib.Algebra.BigOperators.Group.List.Basic
import Mathlib.Data.List.Nodup

/-! A memory of independent cells and the sweep of a patch over it: the cells
of the patch are updated one after another and each update adds a
contribution. With distinct cells the order of the patch is immaterial. -/

namespace CellMemory

variable {ι δ S A B : Type*} [DecidableEq ι]

def cells (patch : List (ι × δ)) : List ι := patch.map Prod.fst

def sweep [Add A] (f : δ → S → S × A) (patch : List (ι × δ)) (m : ι → S) (a : A) : (ι → S) × A :=
  patch.foldl (fun st c =>
    (Function.update st.1 c.1 (f c.2 (st.1 c.1)).1, st.2 + (f c.2 (st.1 c.1)).2)) (m, a)

@[simp] theorem sweep_nil [Add A] (f : δ → S → S × A) (m : ι → S) (a : A) :
    sweep f [] m a = (m, a) := rfl

@[simp] theorem sweep_cons [Add A] (f : δ → S → S × A) (c : ι × δ) (patch : List (ι × δ))
    (m : ι → S) (a : A) :
    sweep f (c :: patch) m a =
      sweep f patch (Function.update m c.1 (f c.2 (m c.1)).1) (a + (f c.2 (m c.1)).2) := rfl

theorem sweep_frame [Add A] (f : δ → S → S × A) (patch : List (ι × δ)) (m : ι → S) (a : A)
    {i : ι} (h : i ∉ cells patch) : (sweep f patch m a).1 i = m i := by
  induction patch generalizing m a with
  | nil => rfl
  | cons c patch ih =>
    simp only [cells, List.map_cons, List.mem_cons, not_or] at h
    rw [sweep_cons, ih _ _ h.2, Function.update_of_ne h.1]

theorem sweep_local [Add A] (f : δ → S → S × A) (patch : List (ι × δ)) {m m' : ι → S} (a a' : A)
    {i : ι} (h : m i = m' i) : (sweep f patch m a).1 i = (sweep f patch m' a').1 i := by
  induction patch generalizing m m' a a' with
  | nil => exact h
  | cons c patch ih =>
    apply ih
    by_cases hc : i = c.1
    · subst hc; simp [h]
    · simp [Function.update_of_ne hc, h]

theorem sweep_sum_local [Add A] (f : δ → S → S × A) (patch : List (ι × δ)) {m m' : ι → S} (a : A)
    (h : ∀ i ∈ cells patch, m i = m' i) : (sweep f patch m a).2 = (sweep f patch m' a).2 := by
  induction patch generalizing m m' a with
  | nil => rfl
  | cons c patch ih =>
    have hc : m c.1 = m' c.1 := h c.1 (by simp [cells])
    rw [sweep_cons, sweep_cons, hc]
    apply ih
    intro i hi
    by_cases he : i = c.1
    · subst he; simp
    · simpa [Function.update_of_ne he] using h i (by simp [cells] at hi ⊢; exact Or.inr hi)

theorem sweep_congr [Add A] {f g : δ → S → S × A} {patch : List (ι × δ)}
    (h : ∀ c ∈ patch, f c.2 = g c.2) (m : ι → S) (a : A) : sweep f patch m a = sweep g patch m a := by
  induction patch generalizing m a with
  | nil => rfl
  | cons c patch ih =>
    rw [sweep_cons, sweep_cons, h c (by simp)]
    exact ih (fun d hd => h d (by simp [hd])) _ _

theorem sweep_congr_state [Add A] [Add B] {f : δ → S → S × A} {g : δ → S → S × B}
    (h : ∀ d s, (f d s).1 = (g d s).1) (patch : List (ι × δ)) (m : ι → S) (a : A) (b : B) :
    (sweep f patch m a).1 = (sweep g patch m b).1 := by
  induction patch generalizing m a b with
  | nil => rfl
  | cons c patch ih => rw [sweep_cons, sweep_cons, h, ih]

theorem sweep_of_mem [Add A] (f : δ → S → S × A) {patch : List (ι × δ)} (m : ι → S) (a : A)
    (hnd : (cells patch).Nodup) {i : ι} {d : δ} (h : (i, d) ∈ patch) :
    (sweep f patch m a).1 i = (f d (m i)).1 := by
  induction patch generalizing m a with
  | nil => simp at h
  | cons c patch ih =>
    have hc := List.nodup_cons.mp hnd
    rcases List.mem_cons.mp h with rfl | h
    · rw [sweep_cons, sweep_frame f patch _ _ hc.1, Function.update_self]
    · have hne : i ≠ c.1 := fun he => hc.1 (he ▸ List.mem_map_of_mem (f := Prod.fst) h)
      rw [sweep_cons, ih _ _ hc.2 h, Function.update_of_ne hne]

theorem sweep_sum [AddMonoid A] (f : δ → S → S × A) {patch : List (ι × δ)} (m : ι → S) (a : A)
    (hnd : (cells patch).Nodup) :
    (sweep f patch m a).2 = a + (patch.map (fun c => (f c.2 (m c.1)).2)).sum := by
  induction patch generalizing m a with
  | nil => simp
  | cons c patch ih =>
    have hc := List.nodup_cons.mp hnd
    have hmap : patch.map (fun e => (f e.2 (Function.update m c.1 (f c.2 (m c.1)).1 e.1)).2) =
        patch.map (fun e => (f e.2 (m e.1)).2) := by
      apply List.map_congr_left
      intro e he
      have hne : e.1 ≠ c.1 := fun h => hc.1 (h ▸ List.mem_map_of_mem (f := Prod.fst) he)
      rw [Function.update_of_ne hne]
    rw [sweep_cons, ih _ _ hc.2, hmap, List.map_cons, List.sum_cons, add_assoc]

theorem sweep_sum_from [AddMonoid A] (f : δ → S → S × A) {patch : List (ι × δ)} (m : ι → S) (a : A)
    (hnd : (cells patch).Nodup) : (sweep f patch m a).2 = a + (sweep f patch m 0).2 := by
  rw [sweep_sum f m a hnd, sweep_sum f m 0 hnd, zero_add]

theorem sweep_append [Add A] (f : δ → S → S × A) (p q : List (ι × δ)) (m : ι → S) (a : A) :
    sweep f (p ++ q) m a = sweep f q (sweep f p m a).1 (sweep f p m a).2 :=
  List.foldl_append

/-- Patches swept one after the other, each with a sum of its own: the sums add
up to the one of the whole sweep. -/
theorem sweep_partials {κ : Type*} [AddMonoid A] (f : δ → S → S × A) {patches : κ → List (ι × δ)}
    (hnd : ∀ k, (cells (patches k)).Nodup) (order : List κ) (m : ι → S) (a : A) :
    order.foldl (fun st k =>
        ((sweep f (patches k) st.1 0).1, st.2 + (sweep f (patches k) st.1 0).2)) (m, a) =
      sweep f (order.flatMap patches) m a := by
  induction order generalizing m a with
  | nil => rfl
  | cons k order ih =>
    have hstate := sweep_congr_state (f := f) (fun _ _ => rfl) (patches k) m 0 a
    have hsum := sweep_sum_from f m a (hnd k)
    rw [List.foldl_cons, ih, List.flatMap_cons, sweep_append, hstate, hsum]

/-- Sweeping the same distinct cells in another order has the same effect. -/
theorem sweep_perm [AddCommMonoid A] (f : δ → S → S × A) {p q : List (ι × δ)} (m : ι → S) (a : A)
    (hpq : p.Perm q) (hnd : (cells p).Nodup) : sweep f p m a = sweep f q m a := by
  have hcells : (cells p).Perm (cells q) := hpq.map Prod.fst
  have hnd' : (cells q).Nodup := hcells.nodup_iff.mp hnd
  refine Prod.ext (funext fun i => ?_) ?_
  · by_cases hi : i ∈ cells p
    · obtain ⟨⟨j, d⟩, hd, rfl⟩ := List.mem_map.mp hi
      rw [sweep_of_mem f m a hnd hd, sweep_of_mem f m a hnd' (hpq.mem_iff.mp hd)]
    · rw [sweep_frame f p m a hi, sweep_frame f q m a (fun h => hi (hcells.mem_iff.mpr h))]
  · rw [sweep_sum f m a hnd, sweep_sum f m a hnd', (hpq.map _).sum_eq]

end CellMemory
