import SslaRt.StageChainParts

/-! Every run of a chain keeps what the stages have handled in step with the input. -/

namespace StageChain

variable {σ : Type*} {M B : Nat → Type*}

namespace Chain

variable (C : Chain σ M B) (s₀ : σ)

variable (Part : Nat → σ → σ → Prop)

/-- The state of a chain whose stages have handled `d`. -/
structure Inv (s : State σ M B) (d : (i : Nat) → List (Msg (M i))) : Prop where
  flow : C.Flow s₀ s.sent d s.left s.pending
  stage : ∀ i, C.StageInv s₀ Part i s.shared (s.thread i) (s.ended i) (s.marker_done i) (d i)
  beyond : ∀ i, C.last < i → s.thread i = .idle
  numbered : Numbered 0 s.sent

variable {C s₀ Part} {s : State σ M B} {d : (i : Nat) → List (Msg (M i))}

theorem inv_init (L : C.Local Part) : C.Inv s₀ Part (.init s₀) fun _ => [] := by
  refine ⟨⟨rfl, fun _ _ => rfl⟩, fun i => ⟨L.refl i s₀, ?_, rfl, ?_, .inl rfl⟩, fun _ _ => rfl, trivial⟩
  · intro seq m b ht
    simp [State.init] at ht
  · rintro k (hk | hk) <;> simp [State.init] at hk

theorem Inv.le_last (h : C.Inv s₀ Part s d) {i : Nat} (hi : s.thread i ≠ .idle) : i ≤ C.last := by
  by_contra hlt
  exact hi (h.beyond i (by omega))

/-- A step of stage `i`. -/
theorem Inv.at_stage (L : C.Local Part) (h : C.Inv s₀ Part s d) {s' : State σ M B}
    {d' : (i : Nat) → List (Msg (M i))} {i : Nat} (hi : i ≤ C.last)
    (hflow : C.Flow s₀ s.sent d' s'.left s'.pending) (hsent : s'.sent = s.sent)
    (hstage : C.StageInv s₀ Part i s'.shared (s'.thread i) (s'.ended i) (s'.marker_done i) (d' i))
    (hpart : ∀ j ≠ i, Part j s.shared s'.shared) (hthread : ∀ j ≠ i, s'.thread j = s.thread j)
    (hended : ∀ j ≠ i, s'.ended j = s.ended j)
    (hdone : ∀ j ≠ i, s'.marker_done j = s.marker_done j) (hd : ∀ j ≠ i, d' j = d j) :
    C.Inv s₀ Part s' d' := by
  refine ⟨hsent ▸ hflow, fun j => ?_, fun j hj => ?_, hsent ▸ h.numbered⟩
  · rcases eq_or_ne j i with rfl | hj
    · exact hstage
    · rw [hthread j hj, hended j hj, hdone j hj, hd j hj]
      exact (h.stage j).other L (hpart j hj)
  · rw [hthread j (by omega)]
    exact h.beyond j hj

/-- The thread of stage `i` alone moves on. -/
theorem Inv.move (L : C.Local Part) (h : C.Inv s₀ Part s d) {i : Nat} (hi : i ≤ C.last)
    {t : Thread (M i) (B i) (M (i + 1))} (hheld : t.held = (s.thread i).held)
    (hpend : t.pending = (s.thread i).pending)
    (hstage : C.StageInv s₀ Part i s.shared t (s.ended i) (s.marker_done i) (d i)) :
    C.Inv s₀ Part { s with thread := Function.update s.thread i t } d := by
  refine h.at_stage L hi ?_ rfl ?_ (fun j _ => L.refl j _) (fun j hj => Function.update_of_ne hj ..)
    (fun _ _ => rfl) (fun _ _ => rfl) fun _ _ => rfl
  · convert h.flow using 1
    · funext j
      rcases eq_or_ne j i with rfl | hj
      · simp [State.left, hheld]
      · simp [State.left, Function.update_of_ne hj]
    · funext j
      rcases eq_or_ne j i with rfl | hj
      · simp [State.pending, hpend]
      · simp [State.pending, Function.update_of_ne hj]
  · simpa using hstage

theorem Inv.send (h : C.Inv s₀ Part s d) {m : Msg (M 0)} (hm : Sendable s.sent m) :
    C.Inv s₀ Part
      { s with queue := Function.update s.queue 0 (s.queue 0 ++ [m]), sent := s.sent ++ [m] } d := by
  refine ⟨h.flow.send m ?_ fun j hj => ?_, h.stage, h.beyond, numbered_append.mpr ⟨h.numbered, ?_⟩⟩
  · simp [State.left]
  · simp [State.left, Function.update_of_ne hj]
  · rw [Nat.zero_add]
    cases m with
    | work seq m => exact ⟨hm.2, trivial⟩
    | marker seq => exact ⟨hm.2, trivial⟩
    | eof => trivial

theorem not_marks_idle {α β γ : Type*} (k : Nat) : ¬ (Thread.idle : Thread α β γ).marks k := by
  rintro (hk | hk) <;> simp at hk

theorem Inv.pop_work (L : C.Local Part) (h : C.Inv s₀ Part s d) {i seq : Nat} (hi : i ≤ C.last)
    {m : M i} {q : List (Msg (M i))} (hidle : s.thread i = .idle) (hq : s.queue i = .work seq m :: q) :
    C.Inv s₀ Part
      { s with
        queue := Function.update s.queue i q
        thread := Function.update s.thread i (.taken seq m) } d := by
  refine h.at_stage L hi ?_ rfl ?_ (fun j _ => L.refl j _) (fun j hj => Function.update_of_ne hj ..)
    (fun _ _ => rfl) (fun _ _ => rfl) fun _ _ => rfl
  · convert h.flow using 1
    · funext j
      rcases eq_or_ne j i with rfl | hj
      · simp [State.left, hidle, hq, Thread.held]
      · simp [State.left, Function.update_of_ne hj]
    · funext j
      rcases eq_or_ne j i with rfl | hj
      · simp [State.pending, hidle, Thread.pending]
      · simp [State.pending, Function.update_of_ne hj]
  · have hstage := h.stage i
    rw [hidle] at hstage
    dsimp only
    rw [Function.update_self]
    refine hstage.move rfl rfl (fun _ _ _ => by simp) fun k hk => ?_
    rcases hk with hk | hk <;> simp at hk

/-- The thread has handled `m` and hands on `t.pending`. -/
theorem Inv.handle (L : C.Local Part) (h : C.Inv s₀ Part s d) {i : Nat} (hi : i ≤ C.last)
    {m : Msg (M i)} {q : List (Msg (M i))} {t : Thread (M i) (B i) (M (i + 1))} {shared : σ}
    {ended : List Nat} (hm : s.left i = m :: q) (hq : t.held = []) (hp0 : (s.thread i).pending = [])
    (hp : i < C.last → t.pending = C.emit i (C.after i s₀ (d i)) [m])
    (hstage : C.StageInv s₀ Part i shared t ended (s.marker_done i) (d i ++ [m]))
    (hpart : ∀ j ≠ i, Part j s.shared shared) :
    C.Inv s₀ Part
      { s with
        shared := shared
        queue := Function.update s.queue i q
        thread := Function.update s.thread i t
        ended := Function.update s.ended i ended }
      (Function.update d i (d i ++ [m])) := by
  refine h.at_stage L hi ?_ rfl ?_ hpart (fun j hj => Function.update_of_ne hj ..)
    (fun j hj => Function.update_of_ne hj ..) (fun _ _ => rfl) fun j hj => Function.update_of_ne hj ..
  · refine h.flow.handle i m ?_ (fun j hj => ?_) hp0 (fun hlt => ?_) fun j hj => ?_
    · rw [hm]
      simp [State.left, hq]
    · simp [State.left, Function.update_of_ne hj]
    · simpa [State.pending] using hp hlt
    · simp [State.pending, Function.update_of_ne hj]
  · simpa using hstage

theorem Inv.pop_mark (L : C.Local Part) (h : C.Inv s₀ Part s d) {i : Nat} (hi : i ≤ C.last)
    {m : Msg (M i)} {q : List (Msg (M i))} (hidle : s.thread i = .idle) (hq : s.queue i = m :: q)
    (hw : isWork m = false) :
    C.Inv s₀ Part
      { s with
        queue := Function.update s.queue i q
        thread := Function.update s.thread i (C.takes i m) } (Function.update d i (d i ++ [m])) := by
  have hstage := h.stage i
  rw [hidle] at hstage
  have hm : s.left i = m :: q := by simp [State.left, hidle, hq, Thread.held]
  have hp0 : (s.thread i).pending = [] := by rw [hidle]; rfl
  have key : (C.takes i m).held = [] ∧
      (i < C.last → (C.takes i m).pending = C.emit i (C.after i s₀ (d i)) [m]) ∧
      (∀ t, C.reached i t (C.takes i m) = t) ∧ (∀ seq m' b, C.takes i m ≠ .halfway seq m' b) ∧
      ∀ k, (C.takes i m).marks k → m = .marker k := by
    cases m with
    | work seq m => exact absurd hw (by simp [isWork])
    | marker seq =>
      by_cases hlast : i = C.last
      · simp [takes, hlast, Thread.held, reached, Thread.marks]
      · simp [takes, hlast, Thread.held, Thread.pending, reached, Thread.marks, emit]
    | eof =>
      by_cases hlast : i = C.last
      · simp [takes, hlast, Thread.held, reached, Thread.marks]
      · simp [takes, hlast, Thread.held, Thread.pending, reached, Thread.marks, emit]
  obtain ⟨hheld, hp, hr, hh, hmark⟩ := key
  have hinv := h.handle L hi hm hheld hp0 hp (hstage.passed hw hr hh hmark) fun j _ => L.refl j _
  rwa [Function.update_eq_self] at hinv

theorem Inv.forward (L : C.Local Part) (h : C.Inv s₀ Part s d) {i seq : Nat} {m : M i}
    (ht : s.thread i = .taken seq m) :
    C.Inv s₀ Part
      { s with
        shared := (C.forward i s.shared m).1
        thread := Function.update s.thread i (.halfway seq m (C.forward i s.shared m).2) } d := by
  have hi : i ≤ C.last := h.le_last (by simp [ht])
  refine h.at_stage L hi ?_ rfl ?_ (fun j hj => L.forward_other i j _ m hj)
    (fun j hj => Function.update_of_ne hj ..) (fun _ _ => rfl) (fun _ _ => rfl) fun _ _ => rfl
  · convert h.flow using 1
    · funext j
      rcases eq_or_ne j i with rfl | hj
      · simp [State.left, ht, Thread.held]
      · simp [State.left, Function.update_of_ne hj]
    · funext j
      rcases eq_or_ne j i with rfl | hj
      · simp [State.pending, ht, Thread.pending]
      · simp [State.pending, Function.update_of_ne hj]
  · have hstage := h.stage i
    rw [ht] at hstage
    simpa using hstage.forward L

/-- The work in hand is handled, and `t` hands on what comes out. -/
theorem Inv.finish (L : C.Local Part) (h : C.Inv s₀ Part s d) {i seq : Nat} {m : M i} {b : B i}
    (ht : s.thread i = .halfway seq m b) (t : Thread (M i) (B i) (M (i + 1))) (ended : List Nat)
    (hheld : t.held = []) (hr : ∀ u, C.reached i u t = u) (hh : ∀ seq m b, t ≠ .halfway seq m b)
    (hm : ∀ k, ¬ t.marks k)
    (hp : (C.finish i s.shared m b).2 = (C.work i (C.after i s₀ (d i)) m).2 → i < C.last →
      t.pending = C.emit i (C.after i s₀ (d i)) [.work seq m])
    (he : (C.finish i s.shared m b).2 = (C.work i (C.after i s₀ (d i)) m).2 →
      ended = s.ended i ++ C.ends i (C.after i s₀ (d i)) [.work seq m]) :
    C.Inv s₀ Part
      { s with
        shared := (C.finish i s.shared m b).1
        thread := Function.update s.thread i t
        ended := Function.update s.ended i ended }
      (Function.update d i (d i ++ [.work seq m])) := by
  have hi : i ≤ C.last := h.le_last (by simp [ht])
  have hstage := h.stage i
  rw [ht] at hstage
  have hout := (hstage.finish L).1
  have hleft : s.left i = .work seq m :: s.queue i := by simp [State.left, ht, Thread.held]
  have hended : ended = C.ends i s₀ (d i ++ [.work seq m]) := by
    rw [he hout, hstage.ended, C.ends_append]
  have hinv := h.handle L hi hleft hheld (by rw [ht]; rfl) (hp hout)
    (hstage.finished L (hr _) hh hm hended) fun j hj => L.finish_other i j _ m b hj
  rwa [Function.update_eq_self] at hinv

theorem Inv.finish_end (L : C.Local Part) (h : C.Inv s₀ Part s d) {i seq : Nat} {m : M i} {b : B i}
    (ht : s.thread i = .halfway seq m b) (hout : (C.finish i s.shared m b).2 = none) :
    C.Inv s₀ Part
      { s with
        shared := (C.finish i s.shared m b).1
        thread := Function.update s.thread i .idle
        ended := Function.update s.ended i (s.ended i ++ [seq]) }
      (Function.update d i (d i ++ [.work seq m])) := by
  refine h.finish L ht _ _ rfl (fun _ => rfl) (fun _ _ _ => by simp) (fun k => not_marks_idle k)
    (fun hw _ => ?_) fun hw => ?_
  · rw [hout] at hw
    simp [emit, ← hw, Thread.pending]
  · rw [hout] at hw
    simp [ends, ← hw]

theorem Inv.finish_on (L : C.Local Part) (h : C.Inv s₀ Part s d) {i seq : Nat} {m : M i} {b : B i}
    {out : M (i + 1)} (ht : s.thread i = .halfway seq m b)
    (hout : (C.finish i s.shared m b).2 = some out) :
    C.Inv s₀ Part
      { s with
        shared := (C.finish i s.shared m b).1
        thread := Function.update s.thread i (.pushing (.work seq out)) }
      (Function.update d i (d i ++ [.work seq m])) := by
  have hinv := h.finish L ht (.pushing (.work seq out)) (s.ended i) rfl (fun _ => rfl)
    (fun _ _ _ => by simp) (fun k => ?_) (fun hw _ => ?_) fun hw => ?_
  · rwa [Function.update_eq_self] at hinv
  · rintro (hk | hk) <;> simp at hk
  · rw [hout] at hw
    simp [emit, ← hw, Thread.pending]
  · rw [hout] at hw
    simp [ends, ← hw]

theorem Inv.push (L : C.Local Part) (h : C.Inv s₀ Part s d) {i : Nat} {out : Msg (M (i + 1))}
    (ht : s.thread i = .pushing out) :
    C.Inv s₀ Part
      { s with
        queue := Function.update s.queue (i + 1) (s.queue (i + 1) ++ [out])
        thread := Function.update s.thread i (handedOn out) } d := by
  have hi : i ≤ C.last := h.le_last (by simp [ht])
  have key : (handedOn out : Thread (M i) (B i) (M (i + 1))).held = [] ∧
      (handedOn out : Thread (M i) (B i) (M (i + 1))).pending = [] ∧
      (∀ t, C.reached i t (handedOn out) = t) ∧
      (∀ seq m b, (handedOn out : Thread (M i) (B i) (M (i + 1))) ≠ .halfway seq m b) ∧
      ∀ k, (handedOn out : Thread (M i) (B i) (M (i + 1))).marks k → out = .marker k := by
    cases out <;> simp [handedOn, Thread.held, Thread.pending, reached, Thread.marks]
  obtain ⟨hheld, hpend, hr, hh, hmark⟩ := key
  have hstage := h.stage i
  rw [ht] at hstage
  refine h.at_stage L hi ?_ rfl ?_ (fun j _ => L.refl j _) (fun j hj => Function.update_of_ne hj ..)
    (fun _ _ => rfl) (fun _ _ => rfl) fun _ _ => rfl
  · refine h.flow.push i out ?_ (fun j hj => ?_) ?_ fun j hj => ?_
    · simp [State.left, State.pending, ht, Thread.pending]
    · rcases eq_or_ne j i with rfl | hji
      · simp only [State.left, Function.update_self, Function.update_of_ne hj, hheld, ht]
        rfl
      · simp [State.left, Function.update_of_ne hj, Function.update_of_ne hji]
    · simpa [State.pending] using hpend
    · simp [State.pending, Function.update_of_ne hj]
  · dsimp only
    rw [Function.update_self]
    refine hstage.move rfl (hr _) hh fun k hk => hstage.marked k (.inl ?_)
    rw [hmark k hk]

theorem Inv.store (L : C.Local Part) (h : C.Inv s₀ Part s d) {i seq : Nat}
    (ht : s.thread i = .storing seq) :
    C.Inv s₀ Part
      { s with
        marker_done := Function.update s.marker_done i seq
        thread := Function.update s.thread i .idle } d := by
  have hi : i ≤ C.last := h.le_last (by simp [ht])
  have hstage := h.stage i
  rw [ht] at hstage
  refine h.at_stage L hi ?_ rfl ?_ (fun j _ => L.refl j _) (fun j hj => Function.update_of_ne hj ..)
    (fun _ _ => rfl) (fun j hj => Function.update_of_ne hj ..) fun _ _ => rfl
  · convert h.flow using 1
    · funext j
      rcases eq_or_ne j i with rfl | hj
      · simp [State.left, ht, Thread.held]
      · simp [State.left, Function.update_of_ne hj]
    · funext j
      rcases eq_or_ne j i with rfl | hj
      · simp [State.pending, ht, Thread.pending]
      · simp [State.pending, Function.update_of_ne hj]
  · simpa using hstage.store

theorem Inv.wait (L : C.Local Part) (h : C.Inv s₀ Part s d) {i : Nat} (hi : i ≤ C.last)
    {t : Thread (M i) (B i) (M (i + 1))}
    (ht : s.thread i = .idle ∨ s.thread i = .missed) (ht' : t = .idle ∨ t = .missed ∨ t = .stopped) :
    C.Inv s₀ Part { s with thread := Function.update s.thread i t } d := by
  have hstage := h.stage i
  have hnone : ∀ k, ¬ t.marks k := by
    rcases ht' with rfl | rfl | rfl <;> simp [Thread.marks]
  refine h.move L hi ?_ ?_ (hstage.move ?_ ?_ ?_ fun k hk => absurd hk (hnone k))
  · rcases ht with ht | ht <;> rcases ht' with rfl | rfl | rfl <;> rw [ht] <;> rfl
  · rcases ht with ht | ht <;> rcases ht' with rfl | rfl | rfl <;> rw [ht] <;> rfl
  · rcases ht with ht | ht <;> rw [ht] <;> rfl
  · rcases ht' with rfl | rfl | rfl <;> rfl
  · rcases ht' with rfl | rfl | rfl <;> simp

variable {capacity : Nat} {s' : State σ M B}

theorem mem_update_append (i : Nat) (m : Msg (M i)) {j : Nat} {x : Msg (M j)} (hx : x ∈ d j) :
    x ∈ Function.update d i (d i ++ [m]) j := by
  rcases eq_or_ne j i with rfl | hj
  · rw [Function.update_self]
    exact List.mem_append_left _ hx
  · rwa [Function.update_of_ne hj]

/-- What has been handled stays handled. -/
theorem Inv.step (L : C.Local Part) (h : C.Inv s₀ Part s d) (hs : C.Step capacity s s') :
    ∃ d', C.Inv s₀ Part s' d' ∧ ∀ i, ∀ x ∈ d i, x ∈ d' i := by
  have same : ∀ i, ∀ x ∈ d i, x ∈ d i := fun _ _ hx => hx
  cases hs with
  | send m hroom hm => exact ⟨d, h.send hm, same⟩
  | setDone hm => exact ⟨d, ⟨h.flow, h.stage, h.beyond, h.numbered⟩, same⟩
  | miss i hi hidle hq => exact ⟨d, h.wait L hi (.inl hidle) (.inr (.inl rfl)), same⟩
  | retry i ht hd => exact ⟨d, h.wait L (h.le_last (by simp [ht])) (.inr ht) (.inl rfl), same⟩
  | giveUp ht hd => exact ⟨d, h.wait L (Nat.zero_le _) (.inr ht) (.inr (.inr rfl)), same⟩
  | pop i hi m q hidle hq =>
    cases hw : isWork m with
    | false => exact ⟨_, h.pop_mark L hi hidle hq hw, fun j x hx => mem_update_append i _ hx⟩
    | true =>
      cases m with
      | work seq m => exact ⟨d, h.pop_work L hi hidle hq, same⟩
      | marker seq => simp [isWork] at hw
      | eof => simp [isWork] at hw
  | forward i seq m ht => exact ⟨d, h.forward L ht, same⟩
  | finishEnd i seq m b ht hout =>
    exact ⟨_, h.finish_end L ht hout, fun j x hx => mem_update_append i _ hx⟩
  | finishOn i seq m b out ht hout =>
    exact ⟨_, h.finish_on L ht hout, fun j x hx => mem_update_append i _ hx⟩
  | push i out ht hroom => exact ⟨d, h.push L ht, same⟩
  | store i seq ht => exact ⟨d, h.store L ht, same⟩

theorem Inv.run (L : C.Local Part) (h : C.Inv s₀ Part s d)
    (hs : Relation.ReflTransGen (C.Step capacity) s s') :
    ∃ d', C.Inv s₀ Part s' d' ∧ ∀ i, ∀ x ∈ d i, x ∈ d' i := by
  induction hs with
  | refl => exact ⟨d, h, fun _ _ hx => hx⟩
  | tail _ hs ih =>
    obtain ⟨d₁, hd₁, hsub₁⟩ := ih
    obtain ⟨d₂, hd₂, hsub₂⟩ := hd₁.step L hs
    exact ⟨d₂, hd₂, fun i x hx => hsub₂ i x (hsub₁ i x hx)⟩

theorem Reachable.inv (L : C.Local Part) (h : C.Reachable capacity s₀ s) :
    ∃ d, C.Inv s₀ Part s d := by
  obtain ⟨d, hd, -⟩ := (inv_init L).run L h
  exact ⟨d, hd⟩

end Chain

end StageChain
