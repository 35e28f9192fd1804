import Mathlib.Data.List.Basic
import Mathlib.Data.List.FinRange

/-! Interleavings of sequential threads. Steps of different threads that
commute can be reordered freely, so every interleaving has the same effect. -/

namespace Interleave

variable {σ α κ : Type*}

theorem foldl_move_front (f : σ → α → σ) (p q : List α) (a : α) (s : σ)
    (comm : ∀ s, ∀ x ∈ p, f (f s x) a = f (f s a) x) :
    (p ++ a :: q).foldl f s = (p ++ q).foldl f (f s a) := by
  induction p generalizing s with
  | nil => rfl
  | cons x p ih =>
    have hh := ih (f s x) (fun t y hy => comm t y (by simp [hy]))
    simpa only [List.cons_append, List.foldl_cons, comm s x (by simp)] using hh

/-- Two orders of the same threads agree whenever steps of different threads
commute: only the order inside each thread matters. -/
theorem foldl_eq_of_filter_eq [DecidableEq κ] (key : α → κ) (f : σ → α → σ)
    (l l' : List α) (s : σ)
    (comm : ∀ s, ∀ a ∈ l, ∀ b ∈ l, key a ≠ key b → f (f s a) b = f (f s b) a)
    (h : ∀ k, l.filter (fun a => key a = k) = l'.filter (fun a => key a = k)) :
    l.foldl f s = l'.foldl f s := by
  induction l generalizing l' s with
  | nil =>
    cases l' with
    | nil => rfl
    | cons b l' => simpa using h (key b)
  | cons a l ih =>
    have ha := h (key a)
    simp only [List.filter_cons, decide_true, if_true] at ha
    obtain ⟨p, q, rfl, hp, -, hq⟩ := List.filter_eq_cons_iff.mp ha.symm
    have hp' : ∀ x ∈ p, key x ≠ key a := fun x hx => by simpa using hp x hx
    have hmem : ∀ x ∈ p, x ∈ a :: l := by
      intro x hx
      have hx' : x ∈ (p ++ a :: q).filter (fun y => key y = key x) := by simp [hx]
      rw [← h (key x)] at hx'
      exact List.mem_of_mem_filter hx'
    rw [foldl_move_front f p q a s
      (fun t x hx => comm t x (hmem x hx) a (by simp) (hp' x hx))]
    refine ih (p ++ q) (f s a) (fun t x hx y hy => comm t x (by simp [hx]) y (by simp [hy]))
      (fun k => ?_)
    have hk := h k
    by_cases he : key a = k
    · have hnil : p.filter (fun x => key x = k) = [] := by
        simpa [List.filter_eq_nil_iff, he] using hp'
      simpa [List.filter_append, hnil, he] using hk
    · simpa [List.filter_append, List.filter_cons, he] using hk

/-- What one thread sees of a run is the run of its own steps, if the steps of
the others leave it alone. -/
theorem foldl_proj_filter {τ : Type*} (π : σ → τ) (p : α → Bool) {f : σ → α → σ}
    {g : τ → α → τ} (h : ∀ s a, p a = true → π (f s a) = g (π s) a)
    (h' : ∀ s a, p a = false → π (f s a) = π s) (l : List α) (s : σ) :
    π (l.foldl f s) = (l.filter p).foldl g (π s) := by
  induction l generalizing s with
  | nil => rfl
  | cons a l ih =>
    cases hp : p a with
    | true => rw [List.foldl_cons, ih, List.filter_cons_of_pos hp, List.foldl_cons, h s a hp]
    | false => rw [List.foldl_cons, ih, List.filter_cons_of_neg (by simp [hp]), h' s a hp]

/-- An interleaving of `k` threads, each of which performs its steps
`0, 1, .., n - 1` in this order. -/
structure Schedule (k n : Nat) where
  order : List (Fin k × Nat)
  program_order : ∀ w, order.filter (fun t => t.1 = w) = (List.range n).map (fun e => (w, e))

/-- The same for threads with task lists: thread `w` performs its first `count w` tasks. -/
structure TaskSchedule {k : Nat} (count : Fin k → Nat) where
  order : List (Fin k × Nat)
  program_order : ∀ w, order.filter (fun t => t.1 = w) = (List.range (count w)).map (fun i => (w, i))

def rounds (k n : Nat) : List (Fin k × Nat) :=
  (List.range n).flatMap (fun e => (List.finRange k).map (fun w => (w, e)))

theorem rounds_succ (k n : Nat) :
    rounds k (n + 1) = rounds k n ++ (List.finRange k).map (fun w => (w, n)) := by
  simp [rounds, List.range_succ]

theorem filter_round (k n : Nat) (w : Fin k) :
    ((List.finRange k).map (fun v => (v, n))).filter (fun t => t.1 = w) = [(w, n)] := by
  have hw : (List.finRange k).filter (fun v => v = w) = [w] := by
    rw [List.filter_eq, List.count_eq_one_of_mem (List.nodup_finRange k) (List.mem_finRange w)]
    rfl
  rw [List.filter_map]
  change ((List.finRange k).filter (fun v => v = w)).map (fun v => (v, n)) = _
  rw [hw]
  rfl

theorem rounds_filter (k n : Nat) (w : Fin k) :
    (rounds k n).filter (fun t => t.1 = w) = (List.range n).map (fun e => (w, e)) := by
  induction n with
  | zero => rfl
  | succ n ih =>
    rw [rounds_succ, List.filter_append, ih, filter_round, List.range_succ, List.map_append]
    rfl

theorem flatMap_filter {β : Type*} (p : α → Prop) [DecidablePred p] (g : α → List β) (l : List α) :
    (l.filter p).flatMap g = l.flatMap fun a => if p a then g a else [] := by
  induction l with
  | nil => rfl
  | cons a l ih => by_cases ha : p a <;> simp [ha, ih]

/-- One thread after the other. -/
def TaskSchedule.sequential {k : Nat} (count : Fin k → Nat) : TaskSchedule count where
  order := (List.finRange k).flatMap fun w => (List.range (count w)).map fun i => (w, i)
  program_order := by
    intro w
    have hblock : ∀ v : Fin k, ((List.range (count v)).map fun i => (v, i)).filter
        (fun t => t.1 = w) = if v = w then (List.range (count v)).map fun i => (v, i) else [] := by
      intro v
      rw [List.filter_map]
      by_cases hv : v = w <;> simp [hv, Function.comp_def]
    have hw : (List.finRange k).filter (fun v => v = w) = [w] := by
      rw [List.filter_eq, List.count_eq_one_of_mem (List.nodup_finRange k) (List.mem_finRange w)]
      rfl
    rw [List.filter_flatMap]
    simp only [hblock]
    exact (flatMap_filter (fun v => v = w) _ _).symm.trans (by rw [hw, List.flatMap_singleton])

def Schedule.roundRobin (k n : Nat) : Schedule k n :=
  ⟨rounds k n, rounds_filter k n⟩

theorem Schedule.lt_of_mem {k n : Nat} (t : Schedule k n) {a : Fin k × Nat} (ha : a ∈ t.order) :
    a.2 < n := by
  have hmem : a ∈ t.order.filter (fun b => b.1 = a.1) := by simp [ha]
  rw [t.program_order a.1] at hmem
  obtain ⟨e, he, hea⟩ := List.mem_map.mp hmem
  rw [← congrArg Prod.snd hea]
  exact List.mem_range.mp he

/-- Every interleaving of threads whose steps commute has the effect of the
round robin. -/
theorem Schedule.foldl_eq {k n : Nat} (t : Schedule k n) (f : σ → Fin k × Nat → σ)
    (comm : ∀ s a b, a.2 < n → b.2 < n → a.1 ≠ b.1 → f (f s a) b = f (f s b) a) (s : σ) :
    t.order.foldl f s = (rounds k n).foldl f s :=
  foldl_eq_of_filter_eq Prod.fst f _ _ s
    (fun s a ha b hb => comm s a b (t.lt_of_mem ha) (t.lt_of_mem hb))
    (fun w => (t.program_order w).trans (rounds_filter k n w).symm)

end Interleave
