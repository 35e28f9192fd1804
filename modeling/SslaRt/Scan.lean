import Mathlib.Data.List.Basic

/-! Runs of a stateful step over a list of inputs: the final state, the list
of outputs, and both for an input that is cut into pieces. -/

namespace Scan

variable {σ α β : Type*}

@[grind =] def final (step : σ → α → σ × β) (s : σ) (as : List α) : σ :=
  as.foldl (fun t a => (step t a).1) s

@[grind =] def outs (step : σ → α → σ × β) : σ → List α → List β
  | _, [] => []
  | s, a :: as => (step s a).2 :: outs step (step s a).1 as

@[simp] theorem final_nil (step : σ → α → σ × β) (s : σ) : final step s [] = s := rfl

@[simp] theorem final_cons (step : σ → α → σ × β) (s : σ) (a : α) (as : List α) :
    final step s (a :: as) = final step (step s a).1 as := rfl

theorem final_append (step : σ → α → σ × β) (s : σ) (as bs : List α) :
    final step s (as ++ bs) = final step (final step s as) bs := by
  simp [final, List.foldl_append]

theorem outs_map (step : σ → α → σ × β) {γ : Type*} (f : γ → α) (s : σ) (cs : List γ) :
    outs step s (cs.map f) = outs (fun t c => step t (f c)) s cs := by
  induction cs generalizing s with
  | nil => rfl
  | cons c cs ih => simp [outs, ih]

theorem outs_append (step : σ → α → σ × β) (s : σ) (as bs : List α) :
    outs step s (as ++ bs) = outs step s as ++ outs step (final step s as) bs := by
  induction as generalizing s with
  | nil => rfl
  | cons a as ih => simp [outs, ih]

/-- Two steps that agree through a projection of the state. -/
theorem outs_proj {τ : Type*} {step : σ → α → σ × β} {step' : τ → α → τ × β} (π : σ → τ)
    (hstate : ∀ s a, π (step s a).1 = (step' (π s) a).1)
    (hout : ∀ s a, (step s a).2 = (step' (π s) a).2) (s : σ) (as : List α) :
    outs step s as = outs step' (π s) as := by
  induction as generalizing s with
  | nil => rfl
  | cons a as ih => rw [outs, outs, hout, ih, hstate]

/-- A step on pieces that runs a step on the elements of the piece. -/
theorem outs_pieces {γ : Type*} {step : σ → α → σ × β} {piece : γ → List α}
    {step' : σ → γ → σ × List β} {cs : List γ}
    (h : ∀ c ∈ cs, ∀ s, step' s c = (final step s (piece c), outs step s (piece c))) (s : σ) :
    (outs step' s cs).flatten = outs step s (cs.flatMap piece) := by
  induction cs generalizing s with
  | nil => rfl
  | cons c cs ih =>
    rw [outs, List.flatten_cons, ih (fun d hd => h d (List.mem_cons_of_mem c hd)),
      List.flatMap_cons, outs_append, h c List.mem_cons_self]

@[simp] theorem outs_length (step : σ → α → σ × β) (s : σ) (as : List α) :
    (outs step s as).length = as.length := by
  induction as generalizing s with
  | nil => rfl
  | cons a as ih => simp [outs, ih]

theorem final_take_succ (step : σ → α → σ × β) (s : σ) (as : List α) (k : Nat)
    (hk : k < as.length) :
    final step s (as.take (k + 1)) = (step (final step s (as.take k)) as[k]).1 := by
  rw [List.take_succ_eq_append_getElem hk, final_append]
  rfl

@[grind =] def visits (step : σ → α → σ × β) : σ → List α → List (σ × α)
  | _, [] => []
  | s, a :: as => (s, a) :: visits step (step s a).1 as

theorem outs_eq_map_visits (step : σ → α → σ × β) (s : σ) (as : List α) :
    outs step s as = (visits step s as).map (fun p => (step p.1 p.2).2) := by
  induction as generalizing s with
  | nil => rfl
  | cons a as ih => simp [outs, visits, ih]

theorem visits_append (step : σ → α → σ × β) (s : σ) (as bs : List α) :
    visits step s (as ++ bs) = visits step s as ++ visits step (final step s as) bs := by
  induction as generalizing s with
  | nil => rfl
  | cons a as ih => simp [visits, ih]

@[simp] theorem visits_length (step : σ → α → σ × β) (s : σ) (as : List α) :
    (visits step s as).length = as.length := by
  induction as generalizing s with
  | nil => rfl
  | cons a as ih => simp [visits, ih]

theorem visits_getElem (step : σ → α → σ × β) (s : σ) (as : List α) (k : Nat)
    (hk : k < as.length) (hk' : k < (visits step s as).length) :
    (visits step s as)[k] = (final step s (as.take k), as[k]) := by
  induction as generalizing s k with
  | nil => simp at hk
  | cons a as ih =>
    cases k with
    | zero => rfl
    | succ k => simpa [visits] using ih (step s a).1 k (by simpa using hk) (by simpa [visits] using hk')

theorem outs_getElem (step : σ → α → σ × β) (s : σ) (as : List α) (k : Nat)
    (hk : k < as.length) (hk' : k < (outs step s as).length) :
    (outs step s as)[k] = (step (final step s (as.take k)) as[k]).2 := by
  simp only [outs_eq_map_visits, List.getElem_map,
    visits_getElem step s as k hk (by simpa using hk)]

end Scan
