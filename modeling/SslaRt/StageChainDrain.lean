import SslaRt.StageChain

/-! A chain that gets one message at a time comes to rest after each of them. -/

namespace StageChain

variable {σ : Type*} {M B : Nat → Type*}

/-- Nothing is under way but `l` in the queue of stage `i`. -/
structure Calm (i : Nat) (l : List (Msg (M i))) (s : State σ M B) : Prop where
  thread : ∀ j, s.thread j = .idle
  queue : s.queue i = l
  others : ∀ j ≠ i, s.queue j = []

variable {s : State σ M B}

theorem Calm.at_rest {i : Nat} (h : Calm i [] s) (j : Nat) : Calm j [] s := by
  refine ⟨h.thread, ?_, fun k _ => ?_⟩
  · rcases eq_or_ne j i with rfl | hj
    · exact h.queue
    · exact h.others j hj
  · rcases eq_or_ne k i with rfl | hk
    · exact h.queue
    · exact h.others k hk

namespace Chain

variable {C : Chain σ M B} {capacity : Nat}

theorem calm_send (hcap : 0 < capacity) (h : Calm 0 [] s) {m : Msg (M 0)} (hm : Sendable s.sent m) :
    ∃ t, C.Step capacity s t ∧ Calm 0 [m] t ∧ t.shared = s.shared ∧ t.sent = s.sent ++ [m] := by
  refine ⟨_, .send m (by rwa [h.queue]) hm, ⟨h.thread, ?_, fun j hj => ?_⟩, rfl, rfl⟩
  · simp [h.queue]
  · simp [Function.update_of_ne hj, h.others j hj]

variable (capacity) in
/-- The first half of the work of stage `i`. -/
theorem calm_forward {i seq : Nat} {x : M i} (h : Calm i [.work seq x] s) (hi : i ≤ C.last) :
    ∃ t, Relation.ReflTransGen (C.Step capacity) s t ∧
      t.thread i = .halfway seq x (C.forward i s.shared x).2 ∧ (∀ j ≠ i, t.thread j = .idle) ∧
      (∀ j, t.queue j = []) ∧ t.shared = (C.forward i s.shared x).1 ∧ t.sent = s.sent ∧
      t.marker_done = s.marker_done := by
  have hpop : C.Step capacity s _ := .pop i hi (.work seq x) [] (h.thread i) h.queue
  have hforward : C.Step capacity _ _ := .forward (s := { s with
    queue := Function.update s.queue i []
    thread := Function.update s.thread i (.taken seq x) }) i seq x (Function.update_self ..)
  refine ⟨_, (Relation.ReflTransGen.single hpop).tail hforward, Function.update_self ..,
    fun j hj => ?_, fun j => ?_, rfl, rfl, rfl⟩
  · dsimp only
    rw [Function.update_of_ne hj, Function.update_of_ne hj]
    exact h.thread j
  · dsimp only
    rcases eq_or_ne j i with rfl | hj
    · exact Function.update_self ..
    · rw [Function.update_of_ne hj]
      exact h.others j hj

theorem calm_work_end {i seq : Nat} {x : M i} {u : σ} (h : Calm i [.work seq x] s) (hi : i ≤ C.last)
    (hw : C.work i s.shared x = (u, none)) :
    ∃ t, Relation.ReflTransGen (C.Step capacity) s t ∧ Calm i [] t ∧ t.shared = u ∧
      t.sent = s.sent ∧ t.marker_done = s.marker_done := by
  obtain ⟨t, hrun, hthread, hothers, hqueue, hshared, hsent, hdone⟩ :=
    calm_forward (C := C) capacity h hi
  have hfin : C.finish i t.shared x (C.forward i s.shared x).2 = (u, none) := by
    rw [hshared]
    exact hw
  have hstep : C.Step capacity t _ := .finishEnd i seq x _ hthread (by rw [hfin])
  refine ⟨_, hrun.tail hstep, ⟨fun j => ?_, hqueue i, fun j _ => hqueue j⟩, ?_, hsent, hdone⟩
  · rcases eq_or_ne j i with rfl | hj
    · exact Function.update_self ..
    · dsimp only
      rw [Function.update_of_ne hj]
      exact hothers j hj
  · dsimp only
    rw [hfin]

theorem calm_work_on {i seq : Nat} {x : M i} {u : σ} {out : M (i + 1)} (hcap : 0 < capacity)
    (h : Calm i [.work seq x] s) (hi : i ≤ C.last) (hw : C.work i s.shared x = (u, some out)) :
    ∃ t, Relation.ReflTransGen (C.Step capacity) s t ∧ Calm (i + 1) [.work seq out] t ∧
      t.shared = u ∧ t.sent = s.sent ∧ t.marker_done = s.marker_done := by
  obtain ⟨t, hrun, hthread, hothers, hqueue, hshared, hsent, hdone⟩ :=
    calm_forward (C := C) capacity h hi
  have hfin : C.finish i t.shared x (C.forward i s.shared x).2 = (u, some out) := by
    rw [hshared]
    exact hw
  have hfinish : C.Step capacity t _ := .finishOn i seq x _ out hthread (by rw [hfin])
  have hpush : C.Step capacity _ _ := .push (s := { t with
    shared := (C.finish i t.shared x (C.forward i s.shared x).2).1
    thread := Function.update t.thread i (.pushing (.work seq out)) }) i (.work seq out)
    (Function.update_self ..) (by rwa [hqueue])
  refine ⟨_, (hrun.tail hfinish).tail hpush, ⟨fun j => ?_, ?_, fun j hj => ?_⟩, ?_, hsent, hdone⟩
  · rcases eq_or_ne j i with rfl | hj
    · exact Function.update_self ..
    · dsimp only
      rw [Function.update_of_ne hj, Function.update_of_ne hj]
      exact hothers j hj
  · dsimp only
    rw [Function.update_self, hqueue]
    rfl
  · dsimp only
    rw [Function.update_of_ne hj]
    exact hqueue j
  · dsimp only
    rw [hfin]

/-- One piece of work alone leaves what it leaves when it goes through the stages. -/
theorem calm_work (hcap : 0 < capacity) (k i seq : Nat) (x : M i) (hk : i + k = C.last)
    (h : Calm i [.work seq x] s) :
    ∃ t, Relation.ReflTransGen (C.Step capacity) s t ∧ Calm 0 [] t ∧
      t.shared = C.through (k + 1) i s.shared x ∧ t.sent = s.sent ∧ t.marker_done = s.marker_done := by
  induction k generalizing i s with
  | zero =>
    obtain rfl : i = C.last := hk
    have hw : C.work C.last s.shared x = ((C.work C.last s.shared x).1, none) :=
      Prod.ext rfl (C.finish_last _ _ _)
    obtain ⟨t, hrun, hcalm, hshared, hsame⟩ := calm_work_end h C.last.le_refl hw
    exact ⟨t, hrun, hcalm.at_rest 0, by rw [through_ended hw, hshared], hsame⟩
  | succ k ih =>
    cases hout : (C.work i s.shared x).2 with
    | none =>
      have hw : C.work i s.shared x = ((C.work i s.shared x).1, none) := Prod.ext rfl hout
      obtain ⟨t, hrun, hcalm, hshared, hsame⟩ := calm_work_end h (by omega) hw
      exact ⟨t, hrun, hcalm.at_rest 0, by rw [through_ended hw, hshared], hsame⟩
    | some out =>
      have hw : C.work i s.shared x = ((C.work i s.shared x).1, some out) := Prod.ext rfl hout
      obtain ⟨t, hrun, hcalm, hshared, hsent, hdone⟩ := calm_work_on hcap h (by omega) hw
      obtain ⟨t', hrun', hcalm', hshared', hsent', hdone'⟩ := ih (i + 1) out (by omega) hcalm
      refine ⟨t', hrun.trans hrun', hcalm', ?_, hsent'.trans hsent, hdone'.trans hdone⟩
      rw [through_handed hw, hshared', hshared]

theorem calm_marker (hcap : 0 < capacity) (k i seq : Nat) (hk : i + k = C.last)
    (h : Calm i [.marker seq] s) :
    ∃ t, Relation.ReflTransGen (C.Step capacity) s t ∧ t.shared = s.shared ∧ t.sent = s.sent ∧
      t.marker_done C.last = seq := by
  induction k generalizing i s with
  | zero =>
    obtain rfl : i = C.last := hk
    have hpop : C.Step capacity s _ := .pop C.last C.last.le_refl (.marker seq) [] (h.thread _) h.queue
    have hstore : C.Step capacity _ _ := .store (s := { s with
      queue := Function.update s.queue C.last []
      thread := Function.update s.thread C.last (C.takes C.last (.marker seq)) }) C.last seq
      (by simp [takes])
    exact ⟨_, (Relation.ReflTransGen.single hpop).tail hstore, rfl, rfl, Function.update_self ..⟩
  | succ k ih =>
    have hpop : C.Step capacity s _ := .pop i (by omega) (.marker seq) [] (h.thread _) h.queue
    have hpush : C.Step capacity _ _ := .push (s := { s with
      queue := Function.update s.queue i []
      thread := Function.update s.thread i (C.takes i (.marker seq)) }) i (.marker seq)
      (by simp [takes, show i ≠ C.last by omega]) (by simpa [h.others (i + 1) (by omega)] using hcap)
    have hstore : C.Step capacity _ _ := .store (s := { s with
      queue := Function.update (Function.update s.queue i []) (i + 1)
        (Function.update s.queue i [] (i + 1) ++ [.marker seq])
      thread := Function.update (Function.update s.thread i (C.takes i (.marker seq))) i
        (handedOn (.marker seq)) }) i seq (Function.update_self ..)
    have hrun := ((Relation.ReflTransGen.single hpop).tail hpush).tail hstore
    have hcalm : Calm (i + 1) [.marker seq] { s with
        queue := Function.update (Function.update s.queue i []) (i + 1)
          (Function.update s.queue i [] (i + 1) ++ [.marker seq])
        thread := Function.update (Function.update (Function.update s.thread i
          (C.takes i (.marker seq))) i (handedOn (.marker seq))) i .idle
        marker_done := Function.update s.marker_done i seq } := by
      refine ⟨fun j => ?_, ?_, fun j hj => ?_⟩
      · dsimp only
        rcases eq_or_ne j i with rfl | hj
        · exact Function.update_self ..
        · rw [Function.update_of_ne hj, Function.update_of_ne hj, Function.update_of_ne hj]
          exact h.thread j
      · simp [h.others (i + 1) (by omega)]
      · dsimp only
        rw [Function.update_of_ne hj]
        rcases eq_or_ne j i with rfl | hji
        · exact Function.update_self ..
        · rw [Function.update_of_ne hji]
          exact h.others j hji
    obtain ⟨t, hrun', hshared, hsent, hdone⟩ := ih (i + 1) (by omega) hcalm
    exact ⟨t, hrun.trans hrun', hshared, hsent, hdone⟩

/-- A run with one piece of work and the marker behind it. -/
theorem reachable_one (C : Chain σ M B) (capacity : Nat) (hcap : 0 < capacity) (s₀ : σ) (x : M 0) :
    ∃ t, C.Reachable capacity s₀ t ∧ t.sent = [.work 0 x, .marker 1] ∧ t.marker_done C.last = 1 ∧
      t.shared = C.through (C.last + 1) 0 s₀ x := by
  have hcalm : Calm 0 [] (.init s₀ : State σ M B) := ⟨fun _ => rfl, rfl, fun _ _ => rfl⟩
  obtain ⟨s₁, hstep₁, hcalm₁, hshared₁, hsent₁⟩ := calm_send (C := C) hcap hcalm
    (m := .work 0 x) ⟨List.not_mem_nil, rfl⟩
  obtain ⟨s₂, hrun₂, hcalm₂, hshared₂, hsent₂, -⟩ := calm_work hcap C.last 0 0 x (Nat.zero_add _) hcalm₁
  have hsent : s₂.sent = [.work 0 x] := hsent₂.trans hsent₁
  obtain ⟨s₃, hstep₃, hcalm₃, hshared₃, hsent₃⟩ := calm_send (C := C) hcap hcalm₂ (m := .marker 1)
    (by rw [hsent]; exact ⟨by simp, rfl⟩)
  obtain ⟨s₄, hrun₄, hshared₄, hsent₄, hdone₄⟩ := calm_marker hcap C.last 0 1 (Nat.zero_add _) hcalm₃
  refine ⟨s₄, ((Relation.ReflTransGen.head hstep₁ hrun₂).tail hstep₃).trans hrun₄, ?_, hdone₄, ?_⟩
  · rw [hsent₄, hsent₃, hsent]
    rfl
  · rw [hshared₄, hshared₃, hshared₂, hshared₁]
    rfl

end Chain

end StageChain
