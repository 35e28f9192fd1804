import SslaRt.ColdStart

/-! The stages share no state: a stage reads and writes its own two hidden grids
and its own counters, and the head writes the rows of its own level. -/

namespace SslaRt

variable {R : Type*}

/-- The states agree on the hidden grids of a stage. -/
def SameStage (stage : Nat) (s t : DetectorState R) : Prop :=
  ∀ l, l / 2 = stage → s.hidden_ l = t.hidden_ l

structure SameHanded (stage : Nat) (s t : DetectorState R) : Prop where
  same : SameStage stage s t
  tmp : Agree (chans stage) (s.stage_out_ stage) (t.stage_out_ stage)

/-- Nothing changes but the hidden grids of a stage and buffers. -/
structure OnlyStage (stage : Nat) (s s' : DetectorState R) : Prop where
  hidden_ : ∀ l, l / 2 ≠ stage → s'.hidden_ l = s.hidden_ l
  tdrop_counter_ : s'.tdrop_counter_ = s.tdrop_counter_
  last_t_us_ : s'.last_t_us_ = s.last_t_us_
  last_predictions_ : s'.last_predictions_ = s.last_predictions_

variable {s t u : DetectorState R} {stage : Nat}

theorem OnlyStage.trans (h : OnlyStage stage s t) (h' : OnlyStage stage t u) : OnlyStage stage s u :=
  ⟨fun l hl => (h'.hidden_ l hl).trans (h.hidden_ l hl), h'.tdrop_counter_.trans h.tdrop_counter_,
    h'.last_t_us_.trans h.last_t_us_, h'.last_predictions_.trans h.last_predictions_⟩

theorem SameStage.setHidden (h : SameStage stage s t) (l : Nat) {H H' : Nat → Fin (outDim l) → R}
    (hH : H = H') : SameStage stage (s.setHidden l H) (t.setHidden l H') := by
  intro k hk
  unfold DetectorState.setHidden
  dsimp only
  rcases eq_or_ne k l with rfl | hne
  · rw [Function.update_self, Function.update_self, hH]
  · rw [Function.update_of_ne hne, Function.update_of_ne hne, h k hk]

theorem SameStage.setStageOut (h : SameStage stage s t) {tmp tmp' : Nat → R}
    (ht : Agree (chans stage) tmp tmp') :
    SameHanded stage (s.setStageOut stage tmp) (t.setStageOut stage tmp') := by
  refine ⟨h, ?_⟩
  unfold DetectorState.setStageOut
  simp only [Function.update_self]
  exact ht

theorem onlyStage_setHidden (l : Nat) (hl : l / 2 = stage) (H : Nat → Fin (outDim l) → R) :
    OnlyStage stage s (s.setHidden l H) := by
  refine ⟨fun k hk => Function.update_of_ne ?_ .., rfl, rfl, rfl⟩
  rintro rfl
  exact hk hl

theorem onlyStage_setStageOut (k : Nat) (tmp : Nat → R) : OnlyStage stage s (s.setStageOut k tmp) :=
  ⟨fun _ _ => rfl, rfl, rfl, rfl⟩

section Forward

variable [CommRing R] (P : SslaSDetector R) (ev_x ev_y : Nat) (feat_in feat_out feat_out' : Nat → R)

theorem onlyStage_layerForwardCt {l : Nat} (hl : l / 2 = stage) :
    OnlyStage stage s (P.layerForwardCt s ev_x ev_y l feat_in feat_out).1 := by
  refine ⟨fun k hk => Function.update_of_ne ?_ .., rfl, rfl, rfl⟩
  rintro rfl
  exact hk hl

theorem onlyStage_firstLayer : OnlyStage stage s (P.firstLayer s ev_x ev_y stage feat_in) :=
  (onlyStage_layerForwardCt P ev_x ev_y feat_in _ (by omega)).trans (onlyStage_setStageOut stage _)

theorem onlyStage_firstFused0 : OnlyStage 0 s (P.firstFused0 s ev_x ev_y feat_in) :=
  (onlyStage_setHidden 0 rfl _).trans (onlyStage_setStageOut 0 _)

theorem onlyStage_firstFused1 : OnlyStage 1 s (P.firstFused1 s ev_x ev_y feat_in) :=
  (onlyStage_setHidden 2 rfl _).trans (onlyStage_setStageOut 1 _)

theorem onlyStage_stageForward (stage : Fin 4) :
    OnlyStage stage s (P.stageForward s ev_x ev_y stage feat_in feat_out).1 := by
  unfold SslaSDetector.stageForward
  match stage with
  | 0 =>
    dsimp only
    split
    · exact (onlyStage_firstFused0 P ev_x ev_y feat_in).trans (onlyStage_setHidden 1 rfl _)
    · exact (onlyStage_firstLayer P ev_x ev_y feat_in).trans
        (onlyStage_layerForwardCt P ev_x ev_y _ _ rfl)
  | 1 =>
    dsimp only
    split
    · exact (onlyStage_firstFused1 P ev_x ev_y feat_in).trans (onlyStage_setHidden 3 rfl _)
    · exact (onlyStage_firstLayer P ev_x ev_y feat_in).trans
        (onlyStage_layerForwardCt P ev_x ev_y _ _ rfl)
  | 2 =>
    exact (onlyStage_firstLayer P ev_x ev_y feat_in).trans
      (onlyStage_layerForwardCt P ev_x ev_y _ _ rfl)
  | 3 =>
    exact (onlyStage_firstLayer P ev_x ev_y feat_in).trans
      (onlyStage_layerForwardCt P ev_x ev_y _ _ rfl)

/-- The stage stays the same and puts out the same vector. -/
structure SameForward (stage n : Nat) (r r' : DetectorState R × (Nat → R)) : Prop where
  same : SameStage stage r.1 r'.1
  feat_out : ∃ x : Fin n → R, r.2 = writeFeat feat_out x ∧ r'.2 = writeFeat feat_out' x

variable {P ev_x ev_y feat_in feat_out feat_out'}

theorem SameStage.layerForwardCt (h : SameStage stage s t) {l : Nat} (hl : l / 2 = stage)
    {feat_in feat_in' : Nat → R} (hin : Agree (inDim l) feat_in feat_in')
    (hout : Agree (outDim l) feat_in feat_in') :
    SameForward feat_out feat_out' stage (outDim l) (P.layerForwardCt s ev_x ev_y l feat_in feat_out)
      (P.layerForwardCt t ev_x ev_y l feat_in' feat_out') := by
  have hresult : P.layerResult ev_x ev_y l feat_in s = P.layerResult ev_x ev_y l feat_in' t := by
    unfold SslaSDetector.layerResult
    rw [h l hl]
    exact layerResult_congr _ _ _ _ _ _ _ _ hin hout _
  refine ⟨fun k hk => ?_, (P.layerResult ev_x ev_y l feat_in s).2, ?_, ?_⟩
  · rw [layerForwardCt_hidden, layerForwardCt_hidden]
    exact h.setHidden l (congrArg Prod.fst hresult) k hk
  · exact layerForwardCt_feat_out P ev_x ev_y l feat_in feat_out
  · rw [hresult]
    exact layerForwardCt_feat_out P ev_x ev_y l feat_in' feat_out'

theorem SameStage.firstLayer (h : SameStage stage s t) :
    SameHanded stage (P.firstLayer s ev_x ev_y stage feat_in) (P.firstLayer t ev_x ev_y stage feat_in) := by
  have hlayer : SameForward (s.stage_out_ stage) (t.stage_out_ stage) stage (outDim (2 * stage))
      (P.layerForwardCt s ev_x ev_y (2 * stage) feat_in (s.stage_out_ stage))
      (P.layerForwardCt t ev_x ev_y (2 * stage) feat_in (t.stage_out_ stage)) :=
    h.layerForwardCt (by omega) (Agree.refl feat_in) (Agree.refl feat_in)
  obtain ⟨hsame, x, hx, hx'⟩ := hlayer
  refine hsame.setStageOut ?_
  rw [hx, hx', ← outDim_first]
  exact agree_writeFeat _ _ _

theorem SameStage.firstFused0 (h : SameStage 0 s t) :
    SameHanded 0 (P.firstFused0 s ev_x ev_y feat_in) (P.firstFused0 t ev_x ev_y feat_in) := by
  have h0 := h 0 rfl
  unfold SslaSDetector.firstFused0
  rw [h0]
  exact (h.setHidden 0 rfl).setStageOut (agree_writeFeat _ _ _)

theorem SameStage.firstFused1 (h : SameStage 1 s t) :
    SameHanded 1 (P.firstFused1 s ev_x ev_y feat_in) (P.firstFused1 t ev_x ev_y feat_in) := by
  have h2 := h 2 rfl
  unfold SslaSDetector.firstFused1
  rw [h2]
  exact (h.setHidden 2 rfl).setStageOut (agree_writeFeat _ _ _)

theorem SameHanded.secondLayer (h : SameHanded stage s t) :
    SameForward feat_out feat_out' stage (outDim (2 * stage + 1))
      (P.layerForwardCt s ev_x ev_y (2 * stage + 1) (s.stage_out_ stage) feat_out)
      (P.layerForwardCt t ev_x ev_y (2 * stage + 1) (t.stage_out_ stage) feat_out') := by
  refine h.same.layerForwardCt (by omega) ?_ ?_
  · have hdim : inDim (2 * stage + 1) = chans stage := outDim_first stage
    rw [hdim]
    exact h.tmp
  · rw [outDim_second]
    exact h.tmp

theorem SameHanded.secondFused0 (h : SameHanded 0 s t) :
    SameForward feat_out feat_out' 0 kC0 (P.secondFused0 s ev_x ev_y feat_out)
      (P.secondFused0 t ev_x ev_y feat_out') := by
  have hx : readFeat kC0 (s.stage_out_ 0) = readFeat kC0 (t.stage_out_ 0) := h.tmp.readFeat
  have h1 := h.same 1 rfl
  unfold SslaSDetector.secondFused0
  rw [hx, h1]
  exact ⟨h.same.setHidden 1 rfl, _, rfl, rfl⟩

theorem SameHanded.secondFused1 (h : SameHanded 1 s t) :
    SameForward feat_out feat_out' 1 kC1 (P.secondFused1 s ev_x ev_y feat_out)
      (P.secondFused1 t ev_x ev_y feat_out') := by
  have hx : readFeat kC1 (s.stage_out_ 1) = readFeat kC1 (t.stage_out_ 1) := h.tmp.readFeat
  have h3 := h.same 3 rfl
  unfold SslaSDetector.secondFused1
  rw [hx, h3]
  exact ⟨h.same.setHidden 3 rfl, _, rfl, rfl⟩

/-- What a stage computes depends on its own grids only, whatever the output
vector held. -/
theorem SameStage.stageForward {stage : Fin 4} (h : SameStage stage s t) :
    SameForward feat_out feat_out' stage (chans stage)
      (P.stageForward s ev_x ev_y stage feat_in feat_out)
      (P.stageForward t ev_x ev_y stage feat_in feat_out') := by
  unfold SslaSDetector.stageForward
  match stage with
  | 0 =>
    dsimp only
    split
    · exact h.firstFused0.secondFused0
    · exact h.firstLayer.secondLayer
  | 1 =>
    dsimp only
    split
    · exact h.firstFused1.secondFused1
    · exact h.firstLayer.secondLayer
  | 2 => exact h.firstLayer.secondLayer
  | 3 => exact h.firstLayer.secondLayer

end Forward

end SslaRt
