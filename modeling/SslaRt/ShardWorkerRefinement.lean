import SslaRt.ShardWorker

/-! The two loops of a CPU shard agree on the hidden state, the counters and
timestamps, on every decision, and on the features that a decision lets through:
both compute what the reference step of a message says. -/

namespace SslaRt

variable {R : Type*}

section Reference

variable [CommRing R] (P : SslaSPipeline R) (s : PipeState R) (e : Event R) (m : ShardMsg R)

def Event.px (e : Event R) : Nat := (castInt e.x).toNat
def Event.py (e : Event R) : Nat := (castInt e.y).toNat

def Event.Skipped (P : SslaSPipeline R) (e : Event R) : Prop :=
  P.OutOfBounds (castInt e.x) (castInt e.y)

instance : Decidable (e.Skipped P) := inferInstanceAs (Decidable (P.OutOfBounds _ _))

/-- The phases of an event that survives everything, one after another. -/
def evStage0 : PipeState R × (Fin kC0 → R) :=
  let pre := P.preprocess s e
  P.stageForward0 pre.1 e.px e.py pre.2

def evDrop0 : PipeState R × Bool := P.tdropCheckAt (evStage0 P s e).1 0 (e.px / 2) (e.py / 2)

def evStage1 : PipeState R × (Fin kC1 → R) :=
  P.stageForward1 (evDrop0 P s e).1 (e.px / 2) (e.py / 2) (evStage0 P s e).2

def evDrop1 : PipeState R × Bool :=
  P.tdropCheckAt (evStage1 P s e).1 1 (e.px / 2 / 2) (e.py / 2 / 2)

def msgPass0 : Bool := !decide (m.ev.Skipped P) && (m.is_owner && (evDrop0 P s m.ev).2)

def msgPass1 : Bool := msgPass0 P s m && (evDrop1 P s m.ev).2

def msgPipe : PipeState R :=
  if m.ev.Skipped P then s
  else if m.is_owner then
    if (evDrop0 P s m.ev).2 then (evDrop1 P s m.ev).1 else (evDrop0 P s m.ev).1
  else (evStage0 P s m.ev).1

end Reference

section Spec

variable [CommRing R] (P : SslaSPipeline R)

structure StepSpec (m : ShardMsg R) (w w' : WorkerState R) (o : MsgOutcome R) : Prop where
  pipe : w'.pipe = msgPipe P w.pipe m
  pass0 : o.pass0 = msgPass0 P w.pipe m
  pass1 : o.pass1 = msgPass1 P w.pipe m
  feat0 : o.pass0 = true → o.feat0 = (evStage0 P w.pipe m.ev).2
  feat1 : o.pass1 = true → o.feat1 = (evStage1 P w.pipe m.ev).2

variable {P} {w w' : WorkerState R} {m : ShardMsg R} {pass1 : Bool}

theorem StepSpec.skipped (hs : m.ev.Skipped P) : StepSpec P m w w (w.outcome false false) where
  pipe := by rw [msgPipe, if_pos hs]
  pass0 := by simp [WorkerState.outcome, msgPass0, hs]
  pass1 := by simp [WorkerState.outcome, msgPass1, msgPass0, hs]
  feat0 := nofun
  feat1 := nofun

theorem StepSpec.halo (hs : ¬ m.ev.Skipped P) (ho : m.is_owner = false)
    (hw : w'.pipe = (evStage0 P w.pipe m.ev).1) : StepSpec P m w w' (w'.outcome false false) where
  pipe := by simp [msgPipe, hs, ho, hw]
  pass0 := by simp [WorkerState.outcome, msgPass0, ho]
  pass1 := by simp [WorkerState.outcome, msgPass1, msgPass0, ho]
  feat0 := nofun
  feat1 := nofun

theorem StepSpec.dropped (hs : ¬ m.ev.Skipped P) (ho : m.is_owner = true)
    (hd : (evDrop0 P w.pipe m.ev).2 = false) (hw : w'.pipe = (evDrop0 P w.pipe m.ev).1) :
    StepSpec P m w w' (w'.outcome false false) where
  pipe := by simp [msgPipe, hs, ho, hd, hw]
  pass0 := by simp [WorkerState.outcome, msgPass0, hd]
  pass1 := by simp [WorkerState.outcome, msgPass1, msgPass0, hd]
  feat0 := nofun
  feat1 := nofun

theorem StepSpec.passed (hs : ¬ m.ev.Skipped P) (ho : m.is_owner = true)
    (hd : (evDrop0 P w.pipe m.ev).2 = true) (hw : w'.pipe = (evDrop1 P w.pipe m.ev).1)
    (hpass1 : pass1 = (evDrop1 P w.pipe m.ev).2) (hf0 : w'.feat0 = (evStage0 P w.pipe m.ev).2)
    (hf1 : pass1 = true → w'.feat1 = (evStage1 P w.pipe m.ev).2) :
    StepSpec P m w w' (w'.outcome true pass1) where
  pipe := by simp [msgPipe, hs, ho, hd, hw]
  pass0 := by simp [WorkerState.outcome, msgPass0, hs, ho, hd]
  pass1 := by simp [WorkerState.outcome, msgPass1, msgPass0, hs, ho, hd, hpass1]
  feat0 := fun _ => hf0
  feat1 := hf1

end Spec

section Plain

variable [CommRing R] (P : SslaSPipeline R) (w : WorkerState R) (m : ShardMsg R)

theorem Stage01Capi.shardStep_spec : StepSpec P m w (Stage01Capi.shardStep P w m).1
    (Stage01Capi.shardStep P w m).2 := by
  by_cases hs : m.ev.Skipped P
  · have hstep : Stage01Capi.shardStep P w m = (w, w.outcome false false) := if_pos hs
    rw [hstep]
    exact .skipped hs
  cases ho : m.is_owner with
  | false =>
    have ho' : ¬ m.is_owner = true := by simp [ho]
    have hstep : Stage01Capi.shardStep P w m = _ := (if_neg hs).trans (if_neg ho')
    rw [hstep]
    exact .halo hs ho rfl
  | true =>
    cases hd : (evDrop0 P w.pipe m.ev).2 with
    | false =>
      have hd' : ¬ (evDrop0 P w.pipe m.ev).2 = true := by simp [hd]
      have hstep : Stage01Capi.shardStep P w m = _ :=
        (if_neg hs).trans ((if_pos ho).trans (if_neg hd'))
      rw [hstep]
      exact .dropped hs ho hd rfl
    | true =>
      have hstep : Stage01Capi.shardStep P w m = _ :=
        (if_neg hs).trans ((if_pos ho).trans (if_pos hd))
      rw [hstep]
      exact .passed hs ho hd rfl rfl rfl fun _ => rfl

theorem Stage01Capi.shardStep_feat0 (hs : ¬ m.ev.Skipped P) :
    (Stage01Capi.shardStep P w m).2.feat0 = (evStage0 P w.pipe m.ev).2 := by
  have hstep : Stage01Capi.shardStep P w m = _ := if_neg hs
  rw [hstep]
  dsimp only
  split
  · split <;> rfl
  · rfl

end Plain

section Reordered

variable [CommRing R] (P : SslaSPipeline R) (h : GpuRings) (w : WorkerState R) (m : ShardMsg R)

theorem Stage01ToGpu.shardStep_spec : StepSpec P m w (Stage01ToGpu.shardStep P h w m).1
    (Stage01ToGpu.shardStep P h w m).2.1 := by
  by_cases hs : m.ev.Skipped P
  · have hstep : Stage01ToGpu.shardStep P h w m = (w, w.outcome false false, []) := if_pos hs
    rw [hstep]
    exact .skipped hs
  cases ho : m.is_owner with
  | false =>
    have hstep : Stage01ToGpu.shardStep P h w m = _ := if_neg hs
    simp only [ho, Bool.false_and, Bool.false_eq_true, if_false] at hstep
    rw [hstep]
    exact .halo hs ho (P.stageForwardStateOnly0_eq _ _ _ _)
  | true =>
    obtain ⟨hsf0, hd0⟩ := P.tdropCheckAt_stageForward0 (P.preprocess w.pipe m.ev).1 m.ev.px m.ev.py
      (P.preprocess w.pipe m.ev).2 0 (m.ev.px / 2) (m.ev.py / 2)
    have hstep : Stage01ToGpu.shardStep P h w m = _ := if_neg hs
    simp only [ho, Bool.true_and, if_true] at hstep
    cases hd : (evDrop0 P w.pipe m.ev).2 with
    | false =>
      have hd' := hd0.symm.trans hd
      simp only [Event.px, Event.py] at hd'
      simp only [hd', Bool.false_eq_true, if_false] at hstep
      rw [hstep]
      exact .dropped hs ho hd ((P.stageForwardStateOnly0_eq _ _ _ _).trans (congrArg Prod.fst hsf0))
    | true =>
      have hd' := hd0.symm.trans hd
      obtain ⟨hsf1, hd1⟩ := P.tdropCheckAt_stageForward1 (evDrop0 P w.pipe m.ev).1 (m.ev.px / 2) (m.ev.py / 2)
        (evStage0 P w.pipe m.ev).2 1 (m.ev.px / 2 / 2) (m.ev.py / 2 / 2)
      have hfold : (P.tdropCheckAt (P.stageForward0 (P.preprocess w.pipe m.ev).1 m.ev.px m.ev.py
          (P.preprocess w.pipe m.ev).2).1 0 (m.ev.px / 2) (m.ev.py / 2)).1 = (evDrop0 P w.pipe m.ev).1 := rfl
      rw [hfold] at hsf0
      simp only [Event.px, Event.py] at hd' hsf0
      simp only [hd', if_true, hsf0] at hstep
      cases hp : (evDrop1 P w.pipe m.ev).2 with
      | false =>
        have hp' := hd1.symm.trans hp
        simp only [Event.px, Event.py] at hp'
        simp only [hp', Bool.false_eq_true, if_false] at hstep
        rw [hstep]
        exact .passed hs ho hd ((P.stageForwardStateOnly1_eq _ _ _ _).trans (congrArg Prod.fst hsf1))
          hp.symm rfl nofun
      | true =>
        have hp' := hd1.symm.trans hp
        simp only [Event.px, Event.py] at hp'
        simp only [hp', if_true] at hstep
        rw [hstep]
        have hf1 := congrArg Prod.snd hsf1
        exact .passed hs ho hd (congrArg Prod.fst hsf1) hp.symm rfl fun _ => hf1

theorem Stage01ToGpu.shardStep_push : (Stage01ToGpu.shardStep P h w m).2.2 =
    if (Stage01ToGpu.shardStep P h w m).2.1.pass1 then
      h.push m.ev (m.ev.px / 2 / 2 : Nat) (m.ev.py / 2 / 2 : Nat) (Stage01ToGpu.shardStep P h w m).2.1.feat1
    else [] := by
  by_cases hs : m.ev.Skipped P
  · have hstep : Stage01ToGpu.shardStep P h w m = (w, w.outcome false false, []) := if_pos hs
    rw [hstep]
    rfl
  have hstep : Stage01ToGpu.shardStep P h w m = _ := if_neg hs
  rw [hstep]
  dsimp only
  split
  · split
    · rfl
    · rfl
  · rfl

end Reordered

section Runs

variable [CommRing R] (P : SslaSPipeline R) (h : GpuRings)

/-- The same decisions, and the same features where they are used. -/
structure MsgOutcome.Agrees (o o' : MsgOutcome R) : Prop where
  pass0 : o.pass0 = o'.pass0
  pass1 : o.pass1 = o'.pass1
  feat0 : o.pass0 = true → o.feat0 = o'.feat0
  feat1 : o.pass1 = true → o.feat1 = o'.feat1

theorem StepSpec.agrees {P : SslaSPipeline R} {m : ShardMsg R} {w v w' v' : WorkerState R}
    {o o' : MsgOutcome R} (hw : StepSpec P m w w' o) (hv : StepSpec P m v v' o')
    (hp : w.pipe = v.pipe) : w'.pipe = v'.pipe ∧ o.Agrees o' := by
  have h0 : o.pass0 = o'.pass0 := by rw [hw.pass0, hv.pass0, hp]
  have h1 : o.pass1 = o'.pass1 := by rw [hw.pass1, hv.pass1, hp]
  refine ⟨by rw [hw.pipe, hv.pipe, hp], h0, h1, fun ht => ?_, fun ht => ?_⟩
  · rw [hw.feat0 ht, hv.feat0 (h0 ▸ ht), hp]
  · rw [hw.feat1 ht, hv.feat1 (h1 ▸ ht), hp]

theorem shardSteps_agree (msgs : List (ShardMsg R)) {w v : WorkerState R} (hp : w.pipe = v.pipe) :
    (Scan.final (Stage01ToGpu.shardStep P h) w msgs).pipe =
        (Scan.final (Stage01Capi.shardStep P) v msgs).pipe ∧
      List.Forall₂ (fun o o' => o.1.Agrees o') (Scan.outs (Stage01ToGpu.shardStep P h) w msgs)
        (Scan.outs (Stage01Capi.shardStep P) v msgs) := by
  induction msgs generalizing w v with
  | nil => exact ⟨hp, .nil⟩
  | cons m msgs ih =>
    obtain ⟨hp', ho⟩ := (Stage01ToGpu.shardStep_spec P h w m).agrees
      (Stage01Capi.shardStep_spec P v m) hp
    obtain ⟨hfin, houts⟩ := ih hp'
    exact ⟨hfin, .cons ho houts⟩

/-- Both loops, started from the same pipeline with any buffers, end in the
same pipeline and agree on every message. -/
theorem shardWorker_refines (s : PipeState R) (feat0 feat0' : Fin kC0 → R)
    (feat1 feat1' : Fin kC1 → R) (msgs : List (ShardMsg R)) :
    (Stage01ToGpu.shardWorker P h ⟨s, feat0, feat1⟩ msgs).1.pipe =
        (Stage01Capi.shardWorker P ⟨s, feat0', feat1'⟩ msgs).1.pipe ∧
      List.Forall₂ (fun o o' => o.1.Agrees o')
        (Stage01ToGpu.shardWorker P h ⟨s, feat0, feat1⟩ msgs).2
        (Stage01Capi.shardWorker P ⟨s, feat0', feat1'⟩ msgs).2 :=
  shardSteps_agree P h _ rfl

end Runs

end SslaRt
