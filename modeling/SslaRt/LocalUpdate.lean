import SslaRt.CellMemory

/-! Updates that read and write the cells of a patch only. Every such cell is
updated from the input and its own old value; the output depends on the input
and on the cells of the patch. -/

namespace CellMemory

variable {ι δ S A F O : Type*}

structure IsLocal (patch : List ι) (f : F → (ι → S) → (ι → S) × O) : Prop where
  frame : ∀ (x : F) (m : ι → S) {c : ι}, c ∉ patch → (f x m).1 c = m c
  cell : ∀ (x : F) {m m' : ι → S} {c : ι}, m c = m' c → (f x m).1 c = (f x m').1 c
  out : ∀ (x : F) {m m' : ι → S}, (∀ c ∈ patch, m c = m' c) → (f x m).2 = (f x m').2

theorem IsLocal.cell_congr {patch : List ι} {f : F → (ι → S) → (ι → S) × O}
    (h : IsLocal patch f) {x x' : F} {m m' : ι → S} {c : ι} (hc : m c = m' c)
    (hx : c ∈ patch → x = x') : (f x m).1 c = (f x' m').1 c := by
  by_cases hmem : c ∈ patch
  · rw [hx hmem]
    exact h.cell x' hc
  · rw [h.frame x m hmem, h.frame x' m' hmem, hc]

variable [DecidableEq ι]

/-- A sweep whose updates also see what was accumulated before them. -/
def visit (f : δ → S → A → S × A) (patch : List (ι × δ)) (m : ι → S) (a : A) : (ι → S) × A :=
  patch.foldl (fun st c =>
    (Function.update st.1 c.1 (f c.2 (st.1 c.1) st.2).1, (f c.2 (st.1 c.1) st.2).2)) (m, a)

theorem visit_cons (f : δ → S → A → S × A) (c : ι × δ) (patch : List (ι × δ)) (m : ι → S) (a : A) :
    visit f (c :: patch) m a =
      visit f patch (Function.update m c.1 (f c.2 (m c.1) a).1) (f c.2 (m c.1) a).2 := rfl

theorem visit_frame (f : δ → S → A → S × A) (patch : List (ι × δ)) (m : ι → S) (a : A) {i : ι}
    (h : i ∉ cells patch) : (visit f patch m a).1 i = m i := by
  induction patch generalizing m a with
  | nil => rfl
  | cons c patch ih =>
    simp only [cells, List.map_cons, List.mem_cons, not_or] at h
    rw [visit_cons, ih _ _ h.2, Function.update_of_ne h.1]

section Local

variable {f : δ → S → A → S × A} (hf : ∀ d s a a', (f d s a).1 = (f d s a').1)

include hf

theorem visit_local (patch : List (ι × δ)) {m m' : ι → S} (a a' : A) {i : ι} (h : m i = m' i) :
    (visit f patch m a).1 i = (visit f patch m' a').1 i := by
  induction patch generalizing m m' a a' with
  | nil => exact h
  | cons c patch ih =>
    rw [visit_cons, visit_cons]
    apply ih
    by_cases hc : i = c.1
    · subst hc
      rw [Function.update_self, Function.update_self, h]
      exact hf _ _ _ _
    · rw [Function.update_of_ne hc, Function.update_of_ne hc, h]

omit hf in
theorem visit_out_local (patch : List (ι × δ)) {m m' : ι → S} (a : A)
    (h : ∀ i ∈ cells patch, m i = m' i) : (visit f patch m a).2 = (visit f patch m' a).2 := by
  induction patch generalizing m m' a with
  | nil => rfl
  | cons c patch ih =>
    have hc : m c.1 = m' c.1 := h c.1 (by simp [cells])
    rw [visit_cons, visit_cons, hc]
    apply ih
    intro i hi
    by_cases he : i = c.1
    · subst he
      rw [Function.update_self, Function.update_self]
    · rw [Function.update_of_ne he, Function.update_of_ne he]
      exact h i (List.mem_cons_of_mem _ hi)

end Local

theorem visit_isLocal {step : F → δ → S → A → S × A}
    (hstep : ∀ x d s a a', (step x d s a).1 = (step x d s a').1) (patch : List (ι × δ))
    (start : F → A) (post : F → A → O) : IsLocal (cells patch) fun (x : F) (m : ι → S) =>
      ((visit (step x) patch m (start x)).1, post x (visit (step x) patch m (start x)).2) where
  frame := fun x m _ hc => visit_frame (step x) patch m (start x) hc
  cell := fun x _ _ _ h => visit_local (hstep x) patch (start x) (start x) h
  out := fun x _ _ h => congrArg (post x) (visit_out_local patch (start x) h)

end CellMemory
