import SslaRt.LockedSweep

/-! What holds after every step: a lock is taken exactly while one thread is in
its critical section, a value that was read is still in the cell, and every
update is either in the cell or still to be made. -/

namespace LockedSweep

open CellMemory

variable {τ ι δ S A C O : Type*} [DecidableEq τ] [DecidableEq ι]

/-! ### The locks -/

structure Mutex (held : τ → Option ι) (lock : ι → Bool) : Prop where
  holder : ∀ c, lock c = true ↔ ∃ t, held t = some c
  excl : ∀ t t' c, held t = some c → held t' = some c → t = t'

theorem Mutex.acquire {held : τ → Option ι} {lock : ι → Bool} (h : Mutex held lock) {t : τ} {c : ι}
    (ht : held t = none) (hfree : lock c = false) :
    Mutex (Function.update held t (some c)) (Function.update lock c true) := by
  have hnone : ∀ t', held t' ≠ some c := by
    intro t' ht'
    exact Bool.false_ne_true (hfree.symm.trans ((h.holder c).mpr ⟨t', ht'⟩))
  have hold : ∀ t' c', Function.update held t (some c) t' = some c' →
      t' = t ∧ c' = c ∨ t' ≠ t ∧ c' ≠ c ∧ held t' = some c' := by
    intro t' c' ht'
    by_cases heq : t' = t
    · subst heq
      rw [Function.update_self] at ht'
      exact .inl ⟨rfl, (Option.some.inj ht').symm⟩
    · rw [Function.update_of_ne heq] at ht'
      exact .inr ⟨heq, fun hc => hnone t' (hc ▸ ht'), ht'⟩
  refine ⟨fun c' => ?_, fun t₁ t₂ c' h₁ h₂ => ?_⟩
  · by_cases hc : c' = c
    · subst hc
      exact ⟨fun _ => ⟨t, Function.update_self ..⟩, fun _ => Function.update_self ..⟩
    · rw [Function.update_of_ne hc, h.holder c']
      constructor
      · rintro ⟨t', ht'⟩
        have hne : t' ≠ t := fun heq => by simp [heq, ht] at ht'
        exact ⟨t', by rw [Function.update_of_ne hne, ht']⟩
      · rintro ⟨t', ht'⟩
        obtain ⟨-, hc'⟩ | ⟨-, -, ht'⟩ := hold t' c' ht'
        · exact absurd hc' hc
        · exact ⟨t', ht'⟩
  · obtain ⟨h₁, hc⟩ | ⟨-, hc, h₁⟩ := hold t₁ c' h₁ <;> obtain ⟨h₂, hc'⟩ | ⟨-, hc', h₂⟩ := hold t₂ c' h₂
    · rw [h₁, h₂]
    · exact absurd hc hc'
    · exact absurd hc' hc
    · exact h.excl _ _ _ h₁ h₂

theorem Mutex.release {held : τ → Option ι} {lock : ι → Bool} (h : Mutex held lock) {t : τ} {c : ι}
    (ht : held t = some c) : Mutex (Function.update held t none) (Function.update lock c false) := by
  have hold : ∀ t' c', Function.update held t none t' = some c' → c' ≠ c ∧ held t' = some c' := by
    intro t' c' ht'
    have hne : t' ≠ t := fun heq => by simp [heq] at ht'
    rw [Function.update_of_ne hne] at ht'
    exact ⟨fun hc => hne (h.excl _ _ _ ht' (hc ▸ ht)), ht'⟩
  refine ⟨fun c' => ?_, fun t₁ t₂ c' h₁ h₂ => h.excl _ _ _ (hold _ _ h₁).2 (hold _ _ h₂).2⟩
  by_cases hc : c' = c
  · subst hc
    rw [Function.update_self]
    refine ⟨fun h => absurd h Bool.false_ne_true, ?_⟩
    rintro ⟨t', ht'⟩
    exact absurd rfl (hold t' c' ht').1
  · rw [Function.update_of_ne hc, h.holder c']
    constructor
    · rintro ⟨t', ht'⟩
      have hne : t' ≠ t := fun heq => hc (Option.some.inj (ht'.symm.trans (heq ▸ ht)))
      exact ⟨t', by rw [Function.update_of_ne hne, ht']⟩
    · rintro ⟨t', ht'⟩
      exact ⟨t', (hold t' c' ht').2⟩

/-! ### What a thread holds, has read and has still to write -/

def Frame.held : Frame ι δ S A C → Option ι
  | ⟨_, _, _, .idle⟩ => none
  | fr => fr.todo.head?.map Prod.fst

def Frame.register : Frame ι δ S A C → Option (ι × S)
  | ⟨_, (c, _) :: _, _, .read h⟩ => some (c, h)
  | _ => none

def Frame.unwritten : Frame ι δ S A C → List (ι × δ)
  | ⟨_, todo, _, .written _⟩ => todo.tail
  | fr => fr.todo

def Thread.held (th : Thread ι δ S A C O) : Option ι := th.frame.bind Frame.held

def Thread.register (th : Thread ι δ S A C O) : Option (ι × S) := th.frame.bind Frame.register

def Thread.pending (P : Program ι δ S A C O) (c : ι) (th : Thread ι δ S A C O) : List C :=
  (match th.frame with
    | some fr => if c ∈ cells fr.unwritten then [fr.call] else []
    | none => []) ++
  th.calls.filter fun call => c ∈ cells (P.patch call)

theorem pending_congr (P : Program ι δ S A C O) {c : ι} {fr fr' : Frame ι δ S A C} (calls : List C)
    (outs : List O) (hcall : fr'.call = fr.call)
    (h : c ∈ cells fr'.unwritten ↔ c ∈ cells fr.unwritten) :
    Thread.pending P c ⟨calls, some fr', outs⟩ = Thread.pending P c ⟨calls, some fr, outs⟩ :=
  congrArg (· ++ _) (if_congr h (by rw [hcall]) rfl)

theorem pending_mem (P : Program ι δ S A C O) {c : ι} {fr : Frame ι δ S A C} (calls : List C)
    (outs : List O) (h : c ∈ cells fr.unwritten) : Thread.pending P c ⟨calls, some fr, outs⟩ =
      fr.call :: calls.filter fun call => c ∈ cells (P.patch call) :=
  congrArg (· ++ _) (if_pos h)

theorem pending_not_mem (P : Program ι δ S A C O) {c : ι} {fr : Frame ι δ S A C} (calls : List C)
    (outs : List O) (h : c ∉ cells fr.unwritten) : Thread.pending P c ⟨calls, some fr, outs⟩ =
      calls.filter fun call => c ∈ cells (P.patch call) :=
  congrArg (· ++ _) (if_neg h)

theorem pending_start (P : Program ι δ S A C O) (c : ι) (call : C) (calls : List C) (outs : List O)
    (acc : A) : Thread.pending P c ⟨calls, some ⟨call, P.patch call, acc, .idle⟩, outs⟩ =
      Thread.pending P c ⟨call :: calls, none, outs⟩ := by
  by_cases hc : c ∈ cells (P.patch call)
  · rw [pending_mem P calls outs hc]
    simp [Thread.pending, hc]
  · rw [pending_not_mem P calls outs hc]
    simp [Thread.pending, hc]

omit [DecidableEq ι] in
theorem held_of_register {th : Thread ι δ S A C O} {c : ι} {h : S}
    (hr : th.register = some (c, h)) : th.held = some c := by
  obtain ⟨fr, hfr, hfr'⟩ := Option.bind_eq_some_iff.mp hr
  obtain ⟨call, todo, acc, phase⟩ := fr
  cases phase with
  | read h' =>
    cases todo with
    | nil => simp [Frame.register] at hfr'
    | cons e todo =>
      obtain ⟨c', d⟩ := e
      simp only [Frame.register, Option.some.injEq, Prod.mk.injEq] at hfr'
      rw [Thread.held, hfr, ← hfr'.1]
      rfl
  | idle => simp [Frame.register] at hfr'
  | locked => simp [Frame.register] at hfr'
  | written a => simp [Frame.register] at hfr'

/-- The updates of `c` in the order of their writes. -/
structure Account (P : Program ι δ S A C O) (calls : τ → List C) (m : ι → S)
    (s : State τ ι δ S A C O) (c : ι) (l : List (τ × C)) : Prop where
  order : ∀ t, (l.filter fun e => e.1 = t).map Prod.snd ++ (s.threads t).pending P c =
    (calls t).filter fun call => c ∈ cells (P.patch call)
  value : s.mem c = l.foldl (fun h e => P.updateAt c e.2 h) (m c)

structure Inv (P : Program ι δ S A C O) (calls : τ → List C) (m : ι → S)
    (s : State τ ι δ S A C O) : Prop where
  mutex : Mutex (fun t => (s.threads t).held) s.lock
  register : ∀ t c h, (s.threads t).register = some (c, h) → s.mem c = h
  suffix : ∀ t fr, (s.threads t).frame = some fr → fr.todo <:+ P.patch fr.call
  account : ∀ c, ∃ l, Account P calls m s c l

theorem inv_initial (P : Program ι δ S A C O) (calls : τ → List C) (m : ι → S) :
    Inv P calls m (initial m calls) where
  mutex := ⟨fun c => by simp [initial, Thread.held], fun t t' c h => by simp [initial, Thread.held] at h⟩
  register := fun t c h hr => by simp [initial, Thread.register] at hr
  suffix := fun t fr hfr => by simp [initial] at hfr
  account := fun c => ⟨[], fun t => by simp [initial, Thread.pending], rfl⟩

section Steps

variable {P : Program ι δ S A C O} {calls₀ : τ → List C} {m : ι → S} {s : State τ ι δ S A C O}
  {t : τ} {th th' : Thread ι δ S A C O}

omit [DecidableEq ι] in
theorem held_update : (fun t' => (Function.update s.threads t th' t').held) =
    Function.update (fun t' => (s.threads t').held) t th'.held := by
  funext t'
  by_cases ht : t' = t
  · subst ht
    rw [Function.update_self, Function.update_self]
  · rw [Function.update_of_ne ht, Function.update_of_ne ht]

theorem Inv.suffix_of (hs : Inv P calls₀ m s) {calls : List C} {outs : List O}
    {fr : Frame ι δ S A C} (h : s.threads t = ⟨calls, some fr, outs⟩) :
    fr.todo <:+ P.patch fr.call :=
  hs.suffix t fr (by rw [h])

/-- A step of `t` that writes no cell. -/
theorem Inv.thread_step (hs : Inv P calls₀ m s) (th' : Thread ι δ S A C O) {lock' : ι → Bool}
    (hmutex : Mutex (Function.update (fun t' => (s.threads t').held) t th'.held) lock')
    (hreg : ∀ c h, th'.register = some (c, h) → s.mem c = h)
    (hsuffix : ∀ fr, th'.frame = some fr → fr.todo <:+ P.patch fr.call)
    (hpending : ∀ c, th'.pending P c = (s.threads t).pending P c) :
    Inv P calls₀ m { s.setThread t th' with lock := lock' } where
  mutex := (held_update (s := s)).symm ▸ hmutex
  register := (Function.forall_update_iff s.threads
    fun _ th => ∀ c h, th.register = some (c, h) → s.mem c = h).mpr
      ⟨hreg, fun t' _ => hs.register t'⟩
  suffix := (Function.forall_update_iff s.threads
    fun _ th => ∀ fr, th.frame = some fr → fr.todo <:+ P.patch fr.call).mpr
      ⟨hsuffix, fun t' _ => hs.suffix t'⟩
  account := by
    intro c
    obtain ⟨l, horder, hvalue⟩ := hs.account c
    refine ⟨l, (Function.forall_update_iff s.threads fun t' th =>
      (l.filter fun e => e.1 = t').map Prod.snd ++ th.pending P c =
        (calls₀ t').filter fun call => c ∈ cells (P.patch call)).mpr
      ⟨?_, fun t' _ => horder t'⟩, hvalue⟩
    rw [hpending c]
    exact horder t

theorem Inv.local_step (hs : Inv P calls₀ m s) (th' : Thread ι δ S A C O)
    (hheld : th'.held = (s.threads t).held)
    (hreg : ∀ c h, th'.register = some (c, h) → s.mem c = h)
    (hsuffix : ∀ fr, th'.frame = some fr → fr.todo <:+ P.patch fr.call)
    (hpending : ∀ c, th'.pending P c = (s.threads t).pending P c) :
    Inv P calls₀ m (s.setThread t th') := by
  have hmutex : Mutex (Function.update (fun t' => (s.threads t').held) t th'.held) s.lock := by
    rw [hheld, Function.update_eq_self]
    exact hs.mutex
  exact hs.thread_step th' hmutex hreg hsuffix hpending

section Write

variable {calls : List C} {outs : List O} {call : C} {c : ι} {d : δ} {todo : List (ι × δ)} {acc : A}
  {h₀ : S} (hs : Inv P calls₀ m s)
  (h : s.threads t = ⟨calls, some ⟨call, (c, d) :: todo, acc, .read h₀⟩, outs⟩)

include hs h

theorem Inv.todo_cells : (c, d) ∈ P.patch call ∧ c ∉ cells todo := by
  have hsuf : (c, d) :: todo <:+ P.patch call := hs.suffix_of h
  refine ⟨hsuf.subset (by simp), ?_⟩
  have hnd : (cells ((c, d) :: todo)).Nodup := (P.nodup call).sublist (hsuf.sublist.map _)
  exact (List.nodup_cons.mp hnd).1

/-- The write appends one update to the account of its cell. -/
theorem Inv.write_account (a : A) {l : List (τ × C)} (hl : Account P calls₀ m s c l) :
    Account P calls₀ m
      { s.setThread t ⟨calls, some ⟨call, (c, d) :: todo, acc, .written a⟩, outs⟩ with
        mem := Function.update s.mem c (P.update call d h₀).1 } c (l ++ [(t, call)]) where
  order := by
    obtain ⟨-, hnot⟩ := hs.todo_cells h
    refine (Function.forall_update_iff s.threads fun t' th =>
      ((l ++ [(t, call)]).filter fun e => e.1 = t').map Prod.snd ++ th.pending P c =
        (calls₀ t').filter fun call => c ∈ cells (P.patch call)).mpr ⟨?_, fun t' ht' => ?_⟩
    · have horder := hl.order t
      rw [h, pending_mem P calls outs (List.mem_cons_self : c ∈ cells ((c, d) :: todo))] at horder
      rw [pending_not_mem P calls outs hnot]
      simpa using horder
    · have hne : ¬ t = t' := fun heq => ht' heq.symm
      simpa [hne] using hl.order t'
  value := by
    have hreg : s.mem c = h₀ := hs.register t c h₀ (by rw [h]; rfl)
    change Function.update s.mem c (P.update call d h₀).1 c = _
    rw [Function.update_self, List.foldl_append, ← hl.value, List.foldl_cons, List.foldl_nil,
      P.updateAt_of_mem (hs.todo_cells h).1, hreg]

theorem Inv.write_step (a : A) : Inv P calls₀ m
    { s.setThread t ⟨calls, some ⟨call, (c, d) :: todo, acc, .written a⟩, outs⟩ with
      mem := Function.update s.mem c (P.update call d h₀).1 } where
  mutex := by
    have hheld : (s.threads t).held = some c := by rw [h]; rfl
    change Mutex (fun t' => (Function.update s.threads t _ t').held) s.lock
    have hsame : Function.update (fun t' => (s.threads t').held) t (some c) =
        fun t' => (s.threads t').held := by
      rw [← hheld]
      exact Function.update_eq_self t _
    rw [held_update]
    change Mutex (Function.update (fun t' => (s.threads t').held) t (some c)) s.lock
    rw [hsame]
    exact hs.mutex
  register := by
    refine (Function.forall_update_iff s.threads fun _ th => ∀ c' h', th.register = some (c', h') →
      Function.update s.mem c (P.update call d h₀).1 c' = h').mpr
        ⟨fun c' h' hr => by simp [Thread.register, Frame.register] at hr, fun t' ht' c' h' hr => ?_⟩
    have hheld : (s.threads t).held = some c := by rw [h]; rfl
    have hne : c' ≠ c := by
      rintro rfl
      exact ht' (hs.mutex.excl t' t c' (held_of_register hr) hheld)
    rw [Function.update_of_ne hne]
    exact hs.register t' c' h' hr
  suffix := by
    refine (Function.forall_update_iff s.threads fun _ th => ∀ fr, th.frame = some fr →
      fr.todo <:+ P.patch fr.call).mpr ⟨?_, fun t' _ => hs.suffix t'⟩
    intro fr hfr
    obtain rfl := Option.some.inj hfr
    have hsuf := hs.suffix_of h
    exact hsuf
  account := by
    intro c'
    obtain ⟨l, hl⟩ := hs.account c'
    by_cases hc : c' = c
    · subst hc
      exact ⟨_, hs.write_account h a hl⟩
    · refine ⟨l, (Function.forall_update_iff s.threads fun t' th =>
        (l.filter fun e => e.1 = t').map Prod.snd ++ th.pending P c' =
          (calls₀ t').filter fun call => c' ∈ cells (P.patch call)).mpr
        ⟨?_, fun t' _ => hl.order t'⟩, (Function.update_of_ne hc ..).trans hl.value⟩
      have hmem : c' ∈ cells todo ↔ c' ∈ cells ((c, d) :: todo) := by simp [cells, hc]
      have horder := hl.order t
      rw [h] at horder
      have hpending : Thread.pending P c' ⟨calls, some ⟨call, (c, d) :: todo, acc, .written a⟩, outs⟩ =
          Thread.pending P c' ⟨calls, some ⟨call, (c, d) :: todo, acc, .read h₀⟩, outs⟩ :=
        pending_congr P calls outs rfl hmem
      rw [hpending]
      exact horder

end Write

end Steps

theorem step_inv [AddMonoid A] {P : Program ι δ S A C O} {calls₀ : τ → List C} {m : ι → S}
    {s s' : State τ ι δ S A C O} (hstep : Step P s s') (hs : Inv P calls₀ m s) :
    Inv P calls₀ m s' := by
  cases hstep with
  | start h =>
    refine hs.local_step _ (by rw [h]; rfl) (fun c x hr => ?_) (fun fr hfr => ?_) fun c => ?_
    · simp [Thread.register, Frame.register] at hr
    · obtain rfl := Option.some.inj hfr
      exact List.suffix_rfl
    · rw [h]
      exact pending_start P _ _ _ _ _
  | testAndSet h hfree =>
    refine hs.thread_step _ (hs.mutex.acquire (by rw [h]; rfl) hfree) (fun c x hr => ?_)
      (fun fr hfr => ?_) fun c => ?_
    · simp [Thread.register, Frame.register] at hr
    · obtain rfl := Option.some.inj hfr
      have hsuf := hs.suffix_of h
      exact hsuf
    · rw [h]
      exact pending_congr P _ _ rfl Iff.rfl
  | spin h htaken => exact hs
  | readCell h =>
    refine hs.local_step _ (by rw [h]; rfl) (fun c x hr => ?_) (fun fr hfr => ?_) fun c => ?_
    · simp only [Thread.register, Option.bind_some, Frame.register, Option.some.injEq,
        Prod.mk.injEq] at hr
      exact hr.1 ▸ hr.2
    · obtain rfl := Option.some.inj hfr
      have hsuf := hs.suffix_of h
      exact hsuf
    · rw [h]
      exact pending_congr P _ _ rfl Iff.rfl
  | writeCell h => exact hs.write_step h _
  | clear h =>
    refine hs.thread_step _ (hs.mutex.release (by rw [h]; rfl)) (fun c x hr => ?_)
      (fun fr hfr => ?_) fun c => ?_
    · simp [Thread.register, Frame.register] at hr
    · obtain rfl := Option.some.inj hfr
      exact (List.suffix_cons _ _).trans (hs.suffix_of h)
    · rw [h]
      exact pending_congr P _ _ rfl Iff.rfl
  | return_ h =>
    refine hs.local_step _ (by rw [h]; rfl) (fun c x hr => ?_) (fun fr hfr => ?_) fun c => ?_
    · simp [Thread.register] at hr
    · exact absurd hfr (by simp)
    · rw [h, pending_not_mem P _ _ List.not_mem_nil]
      rfl

theorem reaches_inv [AddMonoid A] {P : Program ι δ S A C O} {calls : τ → List C} {m : ι → S}
    {s : State τ ι δ S A C O} (h : Reaches P (initial m calls) s) : Inv P calls m s := by
  induction h with
  | refl => exact inv_initial P calls m
  | tail _ hstep ih => exact step_inv hstep ih

theorem serialised_of_finished [AddMonoid A] {P : Program ι δ S A C O} {calls : τ → List C}
    {m : ι → S} {s : State τ ι δ S A C O} (h : Reaches P (initial m calls) s) (hf : Finished s) :
    Serialised P calls m s.mem := by
  intro c
  obtain ⟨l, horder, hvalue⟩ := (reaches_inv h).account c
  refine ⟨l, fun t => ?_, hvalue⟩
  have hnone : (s.threads t).pending P c = [] := by
    simp [Thread.pending, (hf t).1, (hf t).2]
  rw [← horder t, hnone, List.append_nil]

end LockedSweep
