import SslaRt.StageChainSpec

/-! What the messages that a stage has handled determine: what it has passed on, the
state that it has reached, and the work that ended there. -/

namespace StageChain

variable {σ : Type*} {M B : Nat → Type*}

namespace Thread

variable {α β γ : Type*}

def held : Thread α β γ → List (Msg α)
  | .taken seq m => [.work seq m]
  | .halfway seq m _ => [.work seq m]
  | _ => []

def pending : Thread α β γ → List (Msg γ)
  | .pushing out => [out]
  | _ => []

/-- The marker that the thread works on. -/
def marks (t : Thread α β γ) (k : Nat) : Prop := t = .pushing (.marker k) ∨ t = .storing k

end Thread

namespace State

variable (s : State σ M B)

/-- What stage `i` has got and not handled. -/
def left (i : Nat) : List (Msg (M i)) := (s.thread i).held ++ s.queue i

def pending (i : Nat) : List (Msg (M (i + 1))) := (s.thread i).pending

end State

namespace Chain

variable (C : Chain σ M B) (s₀ : σ)

section Flow

/-- No message is lost or reordered between the stages. -/
structure Flow (sent : List (Msg (M 0))) (d left : (i : Nat) → List (Msg (M i)))
    (pending : (i : Nat) → List (Msg (M (i + 1)))) : Prop where
  first : d 0 ++ left 0 = sent
  link : ∀ i < C.last, d (i + 1) ++ left (i + 1) ++ pending i = C.emit i s₀ (d i)

variable {C s₀} {sent : List (Msg (M 0))} {d left left' : (i : Nat) → List (Msg (M i))}
  {pending pending' : (i : Nat) → List (Msg (M (i + 1)))}

theorem Flow.send (h : C.Flow s₀ sent d left pending) (m : Msg (M 0))
    (h0 : left' 0 = left 0 ++ [m]) (hl : ∀ j ≠ 0, left' j = left j) :
    C.Flow s₀ (sent ++ [m]) d left' pending := by
  refine ⟨?_, fun j hj => ?_⟩
  · rw [h0, ← List.append_assoc, h.first]
  · rw [hl (j + 1) j.succ_ne_zero]
    exact h.link j hj

theorem Flow.push (h : C.Flow s₀ sent d left pending) (i : Nat) (out : Msg (M (i + 1)))
    (hi : left' (i + 1) = left (i + 1) ++ pending i) (hl : ∀ j ≠ i + 1, left' j = left j)
    (hp : pending' i = []) (hp' : ∀ j ≠ i, pending' j = pending j) :
    C.Flow s₀ sent d left' pending' := by
  refine ⟨?_, fun j hj => ?_⟩
  · rw [hl 0 i.succ_ne_zero.symm]
    exact h.first
  · rcases eq_or_ne j i with rfl | hji
    · rw [hi, hp, List.append_nil, ← List.append_assoc]
      exact h.link j hj
    · rw [hl (j + 1) (by omega), hp' j hji]
      exact h.link j hj

theorem Flow.handle (h : C.Flow s₀ sent d left pending) (i : Nat) (m : Msg (M i))
    (hi : left i = m :: left' i) (hl : ∀ j ≠ i, left' j = left j) (hp0 : pending i = [])
    (hp : i < C.last → pending' i = C.emit i (C.after i s₀ (d i)) [m])
    (hp' : ∀ j ≠ i, pending' j = pending j) :
    C.Flow s₀ sent (Function.update d i (d i ++ [m])) left' pending' := by
  refine ⟨?_, fun j hj => ?_⟩
  · rcases eq_or_ne 0 i with rfl | h0
    · rw [Function.update_self, List.append_assoc, List.singleton_append, ← hi]
      exact h.first
    · rw [Function.update_of_ne h0, hl 0 h0]
      exact h.first
  · have hlink := h.link j hj
    rcases eq_or_ne j i with rfl | hji
    · rw [hp0, List.append_nil] at hlink
      rw [Function.update_self, Function.update_of_ne (by omega), hl (j + 1) (by omega), hlink,
        hp hj, C.emit_append]
    · rw [Function.update_of_ne hji, hp' j hji, ← hlink]
      rcases eq_or_ne (j + 1) i with rfl | hi'
      · rw [Function.update_self, List.append_assoc (d (j + 1)), List.singleton_append, ← hi]
      · rw [Function.update_of_ne hi', hl _ hi']

end Flow

section Stage

variable (Part : Nat → σ → σ → Prop)

/-- The state that a stage has reached in its own part. -/
def reached (i : Nat) (t : σ) : Thread (M i) (B i) (M (i + 1)) → σ
  | .halfway _ m _ => (C.forward i t m).1
  | _ => t

structure StageInv (i : Nat) (shared : σ) (thread : Thread (M i) (B i) (M (i + 1)))
    (ended : List Nat) (marker_done : Nat) (d : List (Msg (M i))) : Prop where
  part : Part i shared (C.reached i (C.after i s₀ d) thread)
  halfway : ∀ seq m b, thread = .halfway seq m b → b = (C.forward i (C.after i s₀ d) m).2
  ended : ended = C.ends i s₀ d
  marked : ∀ k, thread.marks k → .marker k ∈ d
  stored : marker_done = 0 ∨ .marker marker_done ∈ d

variable {C s₀ Part} {i : Nat} {shared shared' : σ} {thread thread' : Thread (M i) (B i) (M (i + 1))}
  {ended : List Nat} {marker_done : Nat} {d : List (Msg (M i))}

theorem StageInv.other (L : C.Local Part)
    (h : C.StageInv s₀ Part i shared thread ended marker_done d) (hp : Part i shared shared') :
    C.StageInv s₀ Part i shared' thread ended marker_done d :=
  { h with part := L.trans i _ _ _ (L.symm i _ _ hp) h.part }

/-- The thread moves on without a step of its stage. -/
theorem StageInv.move (h : C.StageInv s₀ Part i shared thread ended marker_done d)
    (hr : C.reached i (C.after i s₀ d) thread = C.after i s₀ d)
    (hr' : C.reached i (C.after i s₀ d) thread' = C.after i s₀ d)
    (hh : ∀ seq m b, thread' ≠ .halfway seq m b) (hm : ∀ k, thread'.marks k → .marker k ∈ d) :
    C.StageInv s₀ Part i shared thread' ended marker_done d :=
  ⟨by rw [hr', ← hr]; exact h.part, fun seq m b ht => absurd ht (hh seq m b), h.ended, hm, h.stored⟩

theorem StageInv.forward (L : C.Local Part) {seq : Nat} {m : M i}
    (h : C.StageInv s₀ Part i shared (.taken seq m) ended marker_done d) :
    C.StageInv s₀ Part i (C.forward i shared m).1 (.halfway seq m (C.forward i shared m).2) ended
      marker_done d := by
  obtain ⟨hout, hpart⟩ := L.forward_own i _ _ m h.part
  refine ⟨hpart, fun seq' m' b ht => ?_, h.ended, fun k hk => ?_, h.stored⟩
  · injection ht with _ hm hb
    rw [← hb, ← hm]
    exact hout
  · rcases hk with hk | hk <;> exact absurd hk (by simp)

theorem StageInv.finish (L : C.Local Part) {seq : Nat} {m : M i} {b : B i}
    (h : C.StageInv s₀ Part i shared (.halfway seq m b) ended marker_done d) :
    (C.finish i shared m b).2 = (C.work i (C.after i s₀ d) m).2 ∧
      Part i (C.finish i shared m b).1 (C.after i s₀ (d ++ [.work seq m])) := by
  have hb := h.halfway seq m b rfl
  obtain ⟨hout, hpart⟩ := L.finish_own i _ _ m b h.part
  rw [C.after_append]
  refine ⟨?_, ?_⟩
  · rw [hout, hb]
    rfl
  · rw [hb] at hpart ⊢
    exact hpart

theorem StageInv.finished (L : C.Local Part) {seq : Nat} {m : M i} {b : B i}
    (h : C.StageInv s₀ Part i shared (.halfway seq m b) ended marker_done d)
    (hr : C.reached i (C.after i s₀ (d ++ [.work seq m])) thread' = C.after i s₀ (d ++ [.work seq m]))
    (hh : ∀ seq m b, thread' ≠ .halfway seq m b) (hm : ∀ k, ¬ thread'.marks k)
    {ended' : List Nat} (he : ended' = C.ends i s₀ (d ++ [.work seq m])) :
    C.StageInv s₀ Part i (C.finish i shared m b).1 thread' ended' marker_done (d ++ [.work seq m]) := by
  refine ⟨?_, fun seq m b ht => absurd ht (hh seq m b), he, fun k hk => absurd hk (hm k), ?_⟩
  · rw [hr]
    exact (h.finish L).2
  · exact h.stored.imp id (List.mem_append_left _)

/-- A message without work changes nothing but what has been handled. -/
theorem StageInv.passed (h : C.StageInv s₀ Part i shared .idle ended marker_done d) {m : Msg (M i)}
    (hw : isWork m = false) (hr : ∀ t, C.reached i t thread' = t)
    (hh : ∀ seq m b, thread' ≠ .halfway seq m b) (hm : ∀ k, thread'.marks k → m = .marker k) :
    C.StageInv s₀ Part i shared thread' ended marker_done (d ++ [m]) := by
  have hno : NoWork [m] := by simpa [NoWork] using hw
  have hafter : C.after i s₀ (d ++ [m]) = C.after i s₀ d := by
    rw [C.after_append, C.after_noWork _ hno]
  refine ⟨?_, fun seq m b ht => absurd ht (hh seq m b), ?_, fun k hk => ?_,
    h.stored.imp id (List.mem_append_left _)⟩
  · rw [hafter, hr]
    exact h.part
  · rw [C.ends_append, C.ends_noWork _ hno, List.append_nil]
    exact h.ended
  · rw [← hm k hk]
    exact List.mem_append_right _ (List.mem_singleton.mpr rfl)

theorem StageInv.store {k : Nat} (h : C.StageInv s₀ Part i shared (.storing k) ended marker_done d) :
    C.StageInv s₀ Part i shared .idle ended k d := by
  refine ⟨h.part, fun seq m b ht => by simp at ht, h.ended, fun k hk => ?_, .inr (h.marked k (.inr rfl))⟩
  rcases hk with hk | hk <;> exact absurd hk (by simp)

end Stage

end Chain

end StageChain
