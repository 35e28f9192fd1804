import Mathlib.Data.List.Induction
import Mathlib.Logic.Function.Basic

/-! A memory whose cells belong to workers. A step of a worker reads and writes its own
cells only, so that what it does depends on its own earlier steps alone. -/

namespace OwnedCells

variable {κ W ι S A : Type*}

/-- The steps in `ok` stay within the cells of their worker. -/
structure Owned (step : κ → W → (ι → S) → (ι → S) × A) (owner : ι → κ) (ok : κ → W → Prop) : Prop where
  frame : ∀ {k w}, ok k w → ∀ (m : ι → S) {c : ι}, owner c ≠ k → (step k w m).1 c = m c
  cell : ∀ {k w}, ok k w → ∀ {m m' : ι → S}, (∀ c, owner c = k → m c = m' c) →
    ∀ c, owner c = k → (step k w m).1 c = (step k w m').1 c
  out : ∀ {k w}, ok k w → ∀ {m m' : ι → S}, (∀ c, owner c = k → m c = m' c) →
    (step k w m).2 = (step k w m').2

variable (step : κ → W → (ι → S) → (ι → S) × A) (owner : ι → κ) (m₀ : ι → S)

/-- One worker alone. -/
def replay (k : κ) (ws : List W) : ι → S := ws.foldl (fun m w => (step k w m).1) m₀

/-- Every cell is as its worker alone would leave it. -/
def Replayed (log : κ → List W) (m : ι → S) : Prop :=
  ∀ c, m c = replay step m₀ (owner c) (log (owner c)) c

variable {step owner m₀} {ok : κ → W → Prop} {log : κ → List W} {m : ι → S} {k : κ} {w : W}

theorem replay_append (ws : List W) :
    replay step m₀ k (ws ++ [w]) = (step k w (replay step m₀ k ws)).1 := by
  unfold replay
  rw [List.foldl_append]
  rfl

theorem replayed_nil : Replayed step owner m₀ (fun _ => []) m₀ := fun _ => rfl

theorem Replayed.own (h : Replayed step owner m₀ log m) (k : κ) (c : ι) (hc : owner c = k) :
    m c = replay step m₀ k (log k) c := hc ▸ h c

/-- A worker sees what it would see alone. -/
theorem Replayed.out (hstep : Owned step owner ok) (h : Replayed step owner m₀ log m) (hw : ok k w) :
    (step k w m).2 = (step k w (replay step m₀ k (log k))).2 := hstep.out hw (h.own k)

theorem Replayed.snoc (hstep : Owned step owner ok) (h : Replayed step owner m₀ log m) (hw : ok k w)
    {log' : κ → List W} (hself : log' k = log k ++ [w]) (hrest : ∀ j ≠ k, log' j = log j) :
    Replayed step owner m₀ log' (step k w m).1 := by
  intro c
  by_cases hc : owner c = k
  · rw [hc, hself, replay_append]
    exact hstep.cell hw (h.own k) c hc
  · rw [hrest _ hc, hstep.frame hw m hc]
    exact h c

variable [DecidableEq κ]

/-- The steps of worker `k` in a run. -/
def stepsOf (ts : List (κ × W)) (k : κ) : List W := (ts.filter fun t => t.1 = k).map Prod.snd

def finish (step : κ → W → (ι → S) → (ι → S) × A) (m₀ : ι → S) (ts : List (κ × W)) : ι → S :=
  ts.foldl (fun m t => (step t.1 t.2 m).1) m₀

/-- Any order of the workers leaves the memory that each of them leaves alone. -/
theorem replayed_run (hstep : Owned step owner ok) (ts : List (κ × W)) (hok : ∀ t ∈ ts, ok t.1 t.2) :
    Replayed step owner m₀ (stepsOf ts) (finish step m₀ ts) := by
  induction ts using List.reverseRecOn with
  | nil => exact replayed_nil
  | append_singleton ts t ih =>
    have hts := ih fun u hu => hok u (List.mem_append_left _ hu)
    have ht := hok t (List.mem_append_right _ List.mem_cons_self)
    unfold finish at hts ⊢
    rw [List.foldl_append]
    refine hts.snoc hstep ht ?_ fun j hj => ?_
    · simp [stepsOf, List.filter_append]
    · simp [stepsOf, List.filter_append, hj.symm]

/-- What a worker computes in a run. -/
theorem run_out (hstep : Owned step owner ok) (ts : List (κ × W)) (hok : ∀ t ∈ ts, ok t.1 t.2)
    (hw : ok k w) : (step k w (finish step m₀ ts)).2 = (step k w (replay step m₀ k (stepsOf ts k))).2 :=
  (replayed_run hstep ts hok).out hstep hw

end OwnedCells
