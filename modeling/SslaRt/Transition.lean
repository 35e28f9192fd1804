import Mathlib.Data.List.Basic

/-! Runs of a partial step function: the states a list of actions visits, and
invariants of these states. -/

namespace Transition

variable {σ α : Type*} (step : σ → α → Option σ)

def run (s : σ) (as : List α) : Option σ := as.foldlM step s

def visited : σ → List α → List σ
  | s, [] => [s]
  | s, a :: as => s :: (match step s a with
    | some t => visited t as
    | none => [])

@[simp] theorem run_nil (s : σ) : run step s [] = some s := rfl

@[simp] theorem run_cons (s : σ) (a : α) (as : List α) :
    run step s (a :: as) = (step s a).bind (fun t => run step t as) := rfl

theorem mem_visited_self (s : σ) (as : List α) : s ∈ visited step s as := by
  cases as <;> simp [visited]

theorem mem_visited_cons {s t v : σ} {a : α} {as : List α} (hst : step s a = some t)
    (hv : v ∈ visited step t as) : v ∈ visited step s (a :: as) := by
  simp only [visited, hst, List.mem_cons]
  exact Or.inr hv

theorem mem_visited_of_run {s u : σ} {as : List α} (h : run step s as = some u) :
    u ∈ visited step s as := by
  induction as generalizing s with
  | nil =>
    obtain rfl := Option.some.inj h
    exact mem_visited_self step _ _
  | cons a as ih =>
    cases ht : step s a with
    | none => simp [ht] at h
    | some t =>
      rw [run_cons, ht, Option.bind_some] at h
      exact mem_visited_cons step ht (ih h)

theorem run_append (s : σ) (as bs : List α) :
    run step s (as ++ bs) = (run step s as).bind (fun t => run step t bs) := List.foldlM_append

theorem mem_visited_left {s v : σ} {as : List α} (bs : List α) (hv : v ∈ visited step s as) :
    v ∈ visited step s (as ++ bs) := by
  induction as generalizing s with
  | nil =>
    obtain rfl : v = s := by simpa [visited] using hv
    exact mem_visited_self step _ _
  | cons a as ih =>
    cases ht : step s a with
    | none => simpa [visited, ht] using hv
    | some t =>
      simp only [visited, ht, List.mem_cons] at hv
      rcases hv with rfl | hv
      · exact mem_visited_self step _ _
      · exact mem_visited_cons step ht (ih hv)

/-- Where a run has got to, its rest goes on. -/
theorem mem_visited_append {s t v : σ} {as bs : List α} (h : run step s as = some t)
    (hv : v ∈ visited step t bs) : v ∈ visited step s (as ++ bs) := by
  induction as generalizing s with
  | nil =>
    obtain rfl := Option.some.inj h
    exact hv
  | cons a as ih =>
    cases ht : step s a with
    | none => simp [ht] at h
    | some u =>
      rw [run_cons, ht, Option.bind_some] at h
      exact mem_visited_cons step ht (ih h)

/-- An invariant that every step between admissible states preserves holds in
all states of a run that visits admissible states only. -/
theorem visited_invariant {P ok : σ → Prop}
    (hstep : ∀ s a t, P s → ok s → ok t → step s a = some t → P t) {s : σ} (hs : P s)
    {as : List α} (hok : ∀ t ∈ visited step s as, ok t) : ∀ t ∈ visited step s as, P t := by
  induction as generalizing s with
  | nil => simpa [visited] using hs
  | cons a as ih =>
    intro t ht
    cases hu : step s a with
    | none =>
      simp only [visited, hu, List.mem_singleton] at ht
      exact ht ▸ hs
    | some u =>
      simp only [visited, hu, List.mem_cons] at ht hok
      have hoku : ok u := hok u (Or.inr (mem_visited_self step u as))
      have hPu : P u := hstep s a u hs (hok s (Or.inl rfl)) hoku hu
      rcases ht with rfl | ht
      · exact hs
      · exact ih hPu (fun v hv => hok v (Or.inr hv)) t ht

end Transition
