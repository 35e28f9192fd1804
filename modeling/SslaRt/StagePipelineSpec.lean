import SslaRt.StagePipelineParts
import SslaRt.StageChainQuiet
import SslaRt.StageChainDrain
import SslaRt.FusedStages

/-! At a quiescent point scheme 2 has the state of the events processed one by one. -/

namespace SslaRt

open StageChain

variable {R : Type*} [CommRing R] (P : SslaSDetector R) (s : DetectorState R)

section OneEvent

theorem featBuf_stageForward (x y : Nat) (stage : Fin 4) (feat : Nat → R) :
    featBuf (readFeat (chans stage) (P.stageForward s x y stage feat fun _ => 0).2) =
      (P.stageForward s x y stage feat fun _ => 0).2 := by
  have hforward : SameForward (fun _ => 0) (fun _ => 0) stage (chans stage)
      (P.stageForward s x y stage feat fun _ => 0) (P.stageForward s x y stage feat fun _ => 0) :=
    SameStage.stageForward fun _ _ => rfl
  obtain ⟨-, v, hv, -⟩ := hforward
  rw [hv, readFeat_writeFeat]
  rfl

variable {P s}

section Stages

variable {x y : Nat} {feat : Nat → R} {f : DetectorState R × (Nat → R)}

/-- An event goes through one of the first three stages. -/
theorem through_msg (k i : Nat) (hi : i < 3) {m : Payload R i} {r : DetectorState R}
    {p : DetectorState R × Nat × Nat × Bool} (hm : P.threadForward i s m = P.forwardMsg r i x y feat)
    (hf : P.stageForward r x y ⟨i, by omega⟩ feat (fun _ => 0) = f)
    (hp : P.tdropAndPool f.1 i x y = p) :
    P.stageThreads.through (k + 1) i s m =
      if !p.2.2.2 then p.1
      else P.stageThreads.through k (i + 1) p.1
        (StageMsg.toPayload ⟨p.2.1, p.2.2.1, readFeat (chans i) f.2⟩) := by
  have hfwd : P.threadForward i s m = (f.1, some ⟨x, y, readFeat (chans i) f.2⟩) := by
    rw [hm, ← hf]
    exact dif_pos (by omega)
  have hwork : P.stageThreads.work i s m = (p.1,
      if p.2.2.2 then some (StageMsg.toPayload ⟨p.2.1, p.2.2.1, readFeat (chans i) f.2⟩) else none) := by
    unfold Chain.work
    change P.threadFinish i (P.threadForward i s m).1 (P.threadForward i s m).2 = _
    rw [hfwd, ← hp]
    exact if_pos hi
  cases hpass : p.2.2.2 with
  | false =>
    rw [hpass] at hwork
    exact Chain.through_ended hwork
  | true =>
    rw [hpass] at hwork
    exact Chain.through_handed hwork

theorem through_last {m : Payload R 3} (hm : P.threadForward 3 s m = P.forwardMsg s 3 x y feat)
    (hf : P.stageForward s x y 3 feat (fun _ => 0) = f) :
    P.stageThreads.through 1 3 s m = P.headDecodeCell f.1 3 x y f.2 := by
  have hfwd : P.threadForward 3 s m = (f.1, some ⟨x, y, readFeat (chans 3) f.2⟩) := by
    rw [hm, ← hf]
    exact dif_pos (by omega)
  have hfeat : featBuf (readFeat (chans 3) f.2) = f.2 := hf ▸ featBuf_stageForward P s x y 3 feat
  have hfinish : P.threadFinish 3 f.1 (some ⟨x, y, readFeat (chans 3) f.2⟩) =
      (P.headDecodeCell f.1 3 x y (featBuf (readFeat (chans 3) f.2)), none) := rfl
  have hwork : P.stageThreads.work 3 s m = (P.headDecodeCell f.1 3 x y f.2, none) := by
    unfold Chain.work
    change P.threadFinish 3 (P.threadForward 3 s m).1 (P.threadForward 3 s m).2 = _
    rw [hfwd, hfinish, hfeat]
  exact Chain.through_ended hwork

end Stages

section Decoding

omit [CommRing R] in
theorem StagePart.ite {c : Prop} [Decidable c] {i : Nat} {t u u' : DetectorState R}
    (h : StagePart P i u u') : StagePart P i (if c then t else u) (if c then t else u') := by
  split
  · exact .refl t
  · exact h

theorem threadForward_toPayload {i x y : Nat} {feat : Nat → R}
    (hfeat : featBuf (readFeat (chans i) feat) = feat) :
    P.threadForward (i + 1) s (StageMsg.toPayload ⟨x, y, readFeat (chans i) feat⟩) =
      P.forwardMsg s (i + 1) x y feat := by
  have h : P.threadForward (i + 1) s (StageMsg.toPayload ⟨x, y, readFeat (chans i) feat⟩) =
    P.forwardMsg s (i + 1) x y (featBuf (readFeat (chans i) feat)) := rfl
  rw [h, hfeat]

variable {i x y : Nat} {feat : Nat → R} (decode : DetectorState R → DetectorState R)
  {f1 f2 f3 : DetectorState R × (Nat → R)} {p1 p2 : DetectorState R × Nat × Nat × Bool}

/-- `decode` stands for the cells of earlier stages. -/
theorem through_stage3 (hfeat : featBuf (readFeat (chans 2) feat) = feat)
    (hd : ∀ u, StagePart P i u (decode u))
    (hf3 : P.stageForward s x y 3 feat (fun _ => 0) = f3) :
    StagePart P i
      (P.stageThreads.through 1 3 s (StageMsg.toPayload ⟨x, y, readFeat (chans 2) feat⟩))
      (P.headDecodeCell (decode f3.1) 3 x y f3.2) := by
  rw [through_last (threadForward_toPayload hfeat) hf3]
  exact headDecodeCell_own 3 i x y f3.2 (hd f3.1)

theorem through_stage2 (hfeat : featBuf (readFeat (chans 1) feat) = feat)
    (hd : ∀ u, StagePart P i u (decode u))
    (hf2 : P.stageForward s x y 2 feat (fun _ => 0) = f2) (hp2 : P.tdropAndPool f2.1 2 x y = p2)
    (hf3 : P.stageForward p2.1 p2.2.1 p2.2.2.1 3 f2.2 (fun _ => 0) = f3) :
    StagePart P i
      (P.stageThreads.through 2 2 s (StageMsg.toPayload ⟨x, y, readFeat (chans 1) feat⟩))
      (if !p2.2.2.2 then p2.1
      else P.headDecodeCell (P.headDecodeCell (decode f3.1) 2 x y f2.2) 3 p2.2.1 p2.2.2.1 f3.2) := by
  have hfeat2 : featBuf (readFeat (chans 2) f2.2) = f2.2 := hf2 ▸ featBuf_stageForward P s x y 2 feat
  rw [through_msg 1 2 (by omega) (threadForward_toPayload hfeat) hf2 hp2]
  refine .ite (through_stage3 (fun u => P.headDecodeCell (decode u) 2 x y f2.2) hfeat2 (fun u => ?_) hf3)
  exact (hd u).trans (headDecodeCell_early 2 i x y f2.2 (by omega))

theorem through_stage1 (hfeat : featBuf (readFeat (chans 0) feat) = feat)
    (hd : ∀ u, StagePart P i u (decode u))
    (hf1 : P.stageForward s x y 1 feat (fun _ => 0) = f1) (hp1 : P.tdropAndPool f1.1 1 x y = p1)
    (hf2 : P.stageForward p1.1 p1.2.1 p1.2.2.1 2 f1.2 (fun _ => 0) = f2)
    (hp2 : P.tdropAndPool f2.1 2 p1.2.1 p1.2.2.1 = p2)
    (hf3 : P.stageForward p2.1 p2.2.1 p2.2.2.1 3 f2.2 (fun _ => 0) = f3) :
    StagePart P i
      (P.stageThreads.through 3 1 s (StageMsg.toPayload ⟨x, y, readFeat (chans 0) feat⟩))
      (if !p1.2.2.2 then p1.1
      else if !p2.2.2.2 then p2.1
      else P.headDecodeCell (P.headDecodeCell (P.headDecodeCell (decode f3.1) 1 x y f1.2)
        2 p1.2.1 p1.2.2.1 f2.2) 3 p2.2.1 p2.2.2.1 f3.2) := by
  have hfeat1 : featBuf (readFeat (chans 1) f1.2) = f1.2 := hf1 ▸ featBuf_stageForward P s x y 1 feat
  rw [through_msg 2 1 (by omega) (threadForward_toPayload hfeat) hf1 hp1]
  refine .ite (through_stage2 (fun u => P.headDecodeCell (decode u) 1 x y f1.2) hfeat1 (fun u => ?_)
    hf2 hp2 hf3)
  exact (hd u).trans (headDecodeCell_early 1 i x y f1.2 (by omega))

end Decoding

variable (P s) in
/-- The loop without threads decodes at every stage, the threads at stage 3. -/
theorem through_processOne (e : Event R) (i : Nat) :
    StagePart P i (P.stageThreads.through 4 0 s e) (P.processOne s e) := by
  unfold SslaSDetector.processOne
  dsimp only
  split
  · rename_i hout
    have hnone : P.threadForward 0 s e = (s, none) := if_pos hout
    have hwork : P.stageThreads.work 0 s e = (s, none) := by
      unfold Chain.work
      change P.threadFinish 0 (P.threadForward 0 s e).1 (P.threadForward 0 s e).2 = _
      rw [hnone]
      rfl
    rw [Chain.through_ended hwork]
    exact .refl s
  · rename_i hin
    rw [through_msg 3 0 (by omega) (if_neg hin) rfl rfl]
    have hfeat := featBuf_stageForward P (P.preprocess s e).1 (castInt e.x).toNat (castInt e.y).toNat 0
      (featBuf (P.preprocess s e).2)
    exact .ite (through_stage1 (fun u => P.headDecodeCell u 0 _ _ _) hfeat
      (fun u => headDecodeCell_early 0 i _ _ _ (by omega)) rfl rfl rfl rfl rfl)

end OneEvent

theorem sequential_processOne (l : List (Msg (Event R))) {s t : DetectorState R}
    (h : ∀ i ≤ 3, StagePart P i s t) :
    ∀ i ≤ 3, StagePart P i (P.stageThreads.sequential s l) ((eventsOf l).foldl P.processOne t) := by
  induction l generalizing s t with
  | nil => exact h
  | cons m l ih =>
    cases m with
    | work seq e =>
      have hthrough := Chain.through_congr (stageThreads_local P) 4 0 h e rfl
      exact ih fun i hi => (hthrough i hi).trans (through_processOne P t e i)
    | marker seq => exact ih h
    | eof => exact ih h

/-- Every reachable state in which the marker behind `N` events has been seen. -/
theorem pipeline_quiescent (capacity N : Nat) (s₀ : DetectorState R) (s t : S2State R)
    (h : P.stageThreads.Reachable capacity s₀ s) (hdone : N ≤ s.marker_done 3)
    (hrun : Relation.ReflTransGen (P.stageThreads.Step capacity) s t)
    (hN : t.sent.countP isWork = N) :
    let sequential := (eventsOf t.sent).foldl P.processOne s₀
    ((List.range 4).flatMap t.ended).Perm (List.range N) ∧
      (∀ l < 8, t.shared.hidden_ l = sequential.hidden_ l) ∧
      (∀ stage < 3, t.shared.tdrop_counter_ stage = sequential.tdrop_counter_ stage) ∧
      t.shared.last_t_us_ = sequential.last_t_us_ ∧
      (∀ j, P.lastLevelOff ≤ j → t.shared.last_predictions_ j = sequential.last_predictions_ j) ∧
      (P.num_head_levels_ = 1 → t.shared.last_predictions_ = sequential.last_predictions_) := by
  intro sequential
  obtain ⟨hfinished, hparts⟩ := h.marker_seen (stageThreads_local P) hdone hrun hN
  have hseq := sequential_processOne P t.sent (s := s₀) fun i _ => .refl s₀
  have hpart : ∀ i ≤ 3, StagePart P i t.shared sequential :=
    fun i hi => (hparts i hi).trans (hseq i hi)
  have hrows := (hpart 3 (by omega)).last_predictions_ rfl
  refine ⟨hfinished, fun l hl => (hpart (l / 2) (by omega)).hidden_ l rfl,
    fun stage hs => (hpart stage (by omega)).tdrop_counter_, (hpart 0 (by omega)).last_t_us_ rfl,
    hrows, fun hone => funext fun j => hrows j ?_⟩
  have hoff : P.lastLevelOff = 0 := by
    unfold SslaSDetector.lastLevelOff
    rw [hone]
    exact Nat.zero_mul _
  omega

theorem pipeline_quiescent_one : ∃ t : S2State ℤ,
    (probeDetector 8 8 1).stageThreads.Reachable 1 ((probeDetector 8 8 1).load fun _ => 0) t ∧
      eventsOf t.sent = [pixelEvent (3, 2)] ∧ ((List.range 4).flatMap t.ended).Perm [0] ∧
      t.shared.last_predictions_ = ((eventsOf t.sent).foldl (probeDetector 8 8 1).processOne
        ((probeDetector 8 8 1).load fun _ => 0)).last_predictions_ := by
  obtain ⟨t, hreach, hsent, hdone, -⟩ := Chain.reachable_one
    (probeDetector 8 8 1).stageThreads 1 Nat.one_pos ((probeDetector 8 8 1).load fun _ => 0)
    (pixelEvent (3, 2))
  have hspec := pipeline_quiescent (probeDetector 8 8 1) 1 1 _ t t hreach hdone.ge .refl
    (by rw [hsent]; rfl)
  exact ⟨t, hreach, by rw [hsent]; rfl, hspec.1, hspec.2.2.2.2.2 rfl⟩

end SslaRt
