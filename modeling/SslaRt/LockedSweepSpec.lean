import SslaRt.LockedSweepInv
import Mathlib.Algebra.BigOperators.Group.Finset.Basic
import Mathlib.Algebra.Order.BigOperators.Group.Finset

/-! One thread alone computes what the calls compute without locks. Any number
of threads can always go on to the end, unless one of them only spins. -/

namespace LockedSweep

open CellMemory

variable {τ ι δ S A C O : Type*} [DecidableEq τ] [DecidableEq ι] [AddMonoid A]

/-! ### One thread -/

section Single

/-- The memory and the sum when the patch is done. -/
def Frame.rest (P : Program ι δ S A C O) (m : ι → S) : Frame ι δ S A C → (ι → S) × A
  | ⟨call, todo, acc, .written a⟩ => sweep (P.update call) todo.tail m (acc + a)
  | fr => sweep (P.update fr.call) fr.todo m fr.acc

/-- The memory and the outputs when all calls are done. -/
def Thread.rest (P : Program ι δ S A C O) (m : ι → S) : Thread ι δ S A C O → (ι → S) × List O
  | ⟨calls, none, outs⟩ =>
    let rest := runCalls P calls m
    (rest.1, outs ++ rest.2)
  | ⟨calls, some fr, outs⟩ =>
    let r := fr.rest P m
    let rest := runCalls P calls r.1
    (rest.1, outs ++ P.finish fr.call r.2 :: rest.2)

variable [Subsingleton τ] {P : Program ι δ S A C O} {calls₀ : τ → List C} {m : ι → S}
  {s s' : State τ ι δ S A C O}

theorem rest_update {t t' : τ} {th th' : Thread ι δ S A C O} {mem : ι → S}
    (h : s.threads t' = th) (hrest : th'.rest P mem = th.rest P s.mem) :
    (Function.update s.threads t' th' t).rest P mem = (s.threads t).rest P s.mem := by
  obtain rfl := Subsingleton.elim t t'
  rw [Function.update_self, h]
  exact hrest

theorem step_rest (hstep : Step P s s') (hs : Inv P calls₀ m s) (t : τ) :
    (s'.threads t).rest P s'.mem = (s.threads t).rest P s.mem := by
  cases hstep with
  | start h => exact rest_update h rfl
  | testAndSet h hfree => exact rest_update h rfl
  | spin h htaken => rfl
  | readCell h => exact rest_update h rfl
  | @writeCell t' _ _ _ c _ _ _ h₀ h =>
    have hreg : s.mem c = h₀ := hs.register t' c h₀ (by rw [h]; rfl)
    refine rest_update h ?_
    simp only [Thread.rest, Frame.rest, List.tail_cons, sweep_cons, hreg]
  | clear h => exact rest_update h rfl
  | return_ h =>
    refine rest_update h ?_
    simp only [Thread.rest, Frame.rest, sweep_nil, List.append_assoc, List.singleton_append,
      State.setThread]

theorem reaches_rest (h : Reaches P (initial m calls₀) s) (t : τ) :
    (s.threads t).rest P s.mem = runCalls P (calls₀ t) m := by
  induction h with
  | refl => rfl
  | tail hreach hstep ih => exact (step_rest hstep (reaches_inv hreach) t).trans ih

theorem single_thread (h : Reaches P (initial m calls₀) s) (hf : Finished s) (t : τ) :
    (s.mem, (s.threads t).outs) = runCalls P (calls₀ t) m := by
  rw [← reaches_rest h t]
  obtain ⟨hcalls, hframe⟩ := hf t
  cases hth : s.threads t with | mk calls frame outs
  rw [hth] at hcalls hframe
  obtain rfl : calls = [] := hcalls
  obtain rfl : frame = none := hframe
  simp only [Thread.rest, runCalls, List.append_nil]

end Single

/-! ### Progress -/

section Progress

def Frame.work : Frame ι δ S A C → Nat
  | ⟨_, todo, _, .idle⟩ => 4 * todo.length + 1
  | ⟨_, todo, _, .locked⟩ => 4 * todo.length
  | ⟨_, todo, _, .read _⟩ => 4 * todo.length - 1
  | ⟨_, todo, _, .written _⟩ => 4 * todo.length - 2

/-- The steps that are left, spinning apart. -/
def Thread.work (P : Program ι δ S A C O) (th : Thread ι δ S A C O) : Nat :=
  (th.calls.map fun call => 4 * (P.patch call).length + 2).sum + (th.frame.map Frame.work).getD 0

variable {P : Program ι δ S A C O} {s s' : State τ ι δ S A C O}

/-- Only a call with cells left is in its critical section. -/
def Busy (s : State τ ι δ S A C O) : Prop := ∀ t call todo acc phase,
  (s.threads t).frame = some ⟨call, todo, acc, phase⟩ → phase = .idle ∨ todo ≠ []

omit [DecidableEq ι] [AddMonoid A] in
theorem busy_update {t : τ} {th : Thread ι δ S A C O} (hs : Busy s)
    (h : ∀ call todo acc phase, th.frame = some ⟨call, todo, acc, phase⟩ →
      phase = .idle ∨ todo ≠ []) {lock : ι → Bool} {mem : ι → S} :
    Busy (⟨mem, lock, Function.update s.threads t th⟩ : State τ ι δ S A C O) :=
  (Function.forall_update_iff s.threads fun _ th => ∀ call todo acc phase,
    th.frame = some ⟨call, todo, acc, phase⟩ → phase = .idle ∨ todo ≠ []).mpr
      ⟨h, fun t' _ => hs t'⟩

theorem step_busy (hstep : Step P s s') (hs : Busy s) : Busy s' := by
  cases hstep with
  | spin h htaken => exact hs
  | start h => exact busy_update hs (by rintro _ _ _ _ ⟨⟩; exact .inl rfl)
  | testAndSet h hfree => exact busy_update hs (by rintro _ _ _ _ ⟨⟩; exact .inr (by simp))
  | readCell h => exact busy_update hs (by rintro _ _ _ _ ⟨⟩; exact .inr (by simp))
  | writeCell h => exact busy_update hs (by rintro _ _ _ _ ⟨⟩; exact .inr (by simp))
  | clear h => exact busy_update hs (by rintro _ _ _ _ ⟨⟩; exact .inl rfl)
  | return_ h => exact busy_update hs (by rintro _ _ _ _ ⟨⟩)

theorem reaches_busy {calls : τ → List C} {m : ι → S} (h : Reaches P (initial m calls) s) :
    Busy s := by
  induction h with
  | refl => exact fun t call todo acc phase hfr => by simp [initial] at hfr
  | tail _ hstep ih => exact step_busy hstep ih

/-- A step of `t` that is not a spin. -/
def Advances (P : Program ι δ S A C O) (s s' : State τ ι δ S A C O) (t : τ) : Prop :=
  Step P s s' ∧ (s'.threads t).work P < (s.threads t).work P ∧
    ∀ t', t' ≠ t → s'.threads t' = s.threads t'

theorem advances_of {t : τ} {th th' : Thread ι δ S A C O} {lock : ι → Bool} {mem : ι → S}
    (h : s.threads t = th) (hstep : Step P s ⟨mem, lock, Function.update s.threads t th'⟩)
    (hwork : th'.work P < th.work P) :
    Advances P s ⟨mem, lock, Function.update s.threads t th'⟩ t := by
  refine ⟨hstep, ?_, fun t' ht' => Function.update_of_ne ht' _ _⟩
  change (Function.update s.threads t th' t).work P < _
  rw [Function.update_self, h]
  exact hwork

/-- A thread inside a critical section can go on. -/
theorem advances_of_held {t : τ} {c : ι} (h : (s.threads t).held = some c) :
    ∃ s', Advances P s s' t := by
  cases hth : s.threads t with | mk calls frame outs
  rw [hth] at h
  obtain ⟨⟨call, todo, acc, phase⟩, rfl, hfr⟩ := Option.bind_eq_some_iff.mp h
  cases phase with
  | idle => exact absurd hfr (by simp [Frame.held])
  | locked =>
    cases todo with
    | nil => exact absurd hfr (by simp [Frame.held])
    | cons e todo =>
      refine ⟨_, advances_of hth (.readCell hth) ?_⟩
      simp only [Thread.work, Option.map_some, Option.getD_some, Frame.work, List.length_cons]
      omega
  | read h₀ =>
    cases todo with
    | nil => exact absurd hfr (by simp [Frame.held])
    | cons e todo =>
      refine ⟨_, advances_of hth (.writeCell hth) ?_⟩
      simp only [Thread.work, Option.map_some, Option.getD_some, Frame.work, List.length_cons]
      omega
  | written a =>
    cases todo with
    | nil => exact absurd hfr (by simp [Frame.held])
    | cons e todo =>
      refine ⟨_, advances_of hth (.clear hth) ?_⟩
      simp only [Thread.work, Option.map_some, Option.getD_some, Frame.work, List.length_cons]
      omega

/-- A thread that is not done can go on when no lock is taken. -/
theorem advances_of_free {t : τ} (hfree : ∀ c, s.lock c = false) (hbusy : Busy s)
    (hheld : (s.threads t).held = none)
    (h : ¬ ((s.threads t).calls = [] ∧ (s.threads t).frame = none)) : ∃ s', Advances P s s' t := by
  cases hth : s.threads t with | mk calls frame outs
  rw [hth] at hheld h
  cases frame with
  | none =>
    cases calls with
    | nil => exact absurd ⟨rfl, rfl⟩ h
    | cons call calls =>
      refine ⟨_, advances_of hth (.start hth) ?_⟩
      simp only [Thread.work, Option.map_some, Option.map_none, Option.getD_some, Option.getD_none,
        Frame.work, List.map_cons, List.sum_cons]
      omega
  | some fr =>
    obtain ⟨call, todo, acc, phase⟩ := fr
    have hphase : phase = .idle := by
      obtain hp | hne := hbusy t call todo acc phase (by rw [hth])
      · exact hp
      · cases todo with
        | nil => exact absurd rfl hne
        | cons e todo => cases phase <;> first | rfl | exact absurd hheld (by simp [Thread.held, Frame.held])
    subst hphase
    cases todo with
    | nil =>
      refine ⟨_, advances_of hth (.return_ hth) ?_⟩
      simp only [Thread.work, Option.map_some, Option.map_none, Option.getD_some, Option.getD_none,
        Frame.work]
      omega
    | cons e todo =>
      refine ⟨_, advances_of hth (.testAndSet hth (hfree e.1)) ?_⟩
      simp only [Thread.work, Option.map_some, Option.getD_some, Frame.work, List.length_cons]
      omega

/-- No deadlock: some thread that is not done can go on. -/
theorem exists_advances {calls : τ → List C} {m : ι → S} (h : Reaches P (initial m calls) s)
    (hf : ¬ Finished s) : ∃ t s', Advances P s s' t := by
  have hmutex := (reaches_inv h).mutex
  by_cases hheld : ∃ t c, (s.threads t).held = some c
  · obtain ⟨t, c, hc⟩ := hheld
    exact ⟨t, advances_of_held hc⟩
  · have hnone : ∀ t, (s.threads t).held = none := by
      intro t
      by_contra hne
      obtain ⟨c, hc⟩ := Option.ne_none_iff_exists'.mp hne
      exact hheld ⟨t, c, hc⟩
    have hfree : ∀ c, s.lock c = false := by
      intro c
      rw [← Bool.not_eq_true, hmutex.holder c]
      rintro ⟨t, ht⟩
      exact hheld ⟨t, c, ht⟩
    obtain ⟨t, ht⟩ := not_forall.mp hf
    exact ⟨t, advances_of_free hfree (reaches_busy h) (hnone t) ht⟩

/-- From every state that is reached all threads can get to their ends. -/
theorem can_finish [Fintype τ] {calls : τ → List C} {m : ι → S}
    (h : Reaches P (initial m calls) s) : ∃ s', Reaches P s s' ∧ Finished s' := by
  induction hn : ∑ t, (s.threads t).work P using Nat.strong_induction_on generalizing s with
  | _ n ih =>
    by_cases hf : Finished s
    · exact ⟨s, .refl, hf⟩
    · obtain ⟨t, s₁, hstep, hwork, hother⟩ := exists_advances h hf
      have hlt : ∑ t, (s₁.threads t).work P < n := by
        rw [← hn]
        refine Finset.sum_lt_sum (fun t' _ => ?_) ⟨t, Finset.mem_univ t, hwork⟩
        by_cases ht : t' = t
        · exact ht ▸ hwork.le
        · rw [hother t' ht]
      obtain ⟨s', hreach, hfin⟩ := ih _ hlt (h.tail hstep) rfl
      exact ⟨s', hreach.head hstep, hfin⟩

end Progress

end LockedSweep
