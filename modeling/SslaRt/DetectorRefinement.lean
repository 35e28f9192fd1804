import SslaRt.ColdStart
import SslaRt.StageSpec

/-! On the part of the state that the CPU shards use, the pipeline with its
buffers does what the pipeline without buffers does. -/

namespace SslaRt

variable {R : Type*} [CommRing R] (P : SslaSDetector R) {s : DetectorState R}

section Projection

variable {t : DetectorState R}

omit [CommRing R] in
theorem pipe_stage0 {H0 : Nat → Fin (outDim 0) → R} {H1 : Nat → Fin (outDim 1) → R}
    (hh : t.hidden_ = Function.update (Function.update s.hidden_ 0 H0) 1 H1)
    (hd : t.tdrop_counter_ = s.tdrop_counter_) (hl : t.last_t_us_ = s.last_t_us_) :
    t.pipe = { s.pipe with hidden_0 := H0, hidden_1 := H1 } := by
  unfold DetectorState.pipe
  rw [hh, hd, hl]
  rfl

omit [CommRing R] in
theorem pipe_stage1 {H2 : Nat → Fin (outDim 2) → R} {H3 : Nat → Fin (outDim 3) → R}
    (hh : t.hidden_ = Function.update (Function.update s.hidden_ 2 H2) 3 H3)
    (hd : t.tdrop_counter_ = s.tdrop_counter_) (hl : t.last_t_us_ = s.last_t_us_) :
    t.pipe = { s.pipe with hidden_2 := H2, hidden_3 := H3 } := by
  unfold DetectorState.pipe
  rw [hh, hd, hl]
  rfl

end Projection

section Operations

theorem pipe_preprocess (e : Event R) :
    (P.preprocess s e).1.pipe = (P.toSslaSPipeline.preprocess s.pipe e).1 := by
  unfold SslaSDetector.preprocess SslaSPipeline.preprocess
  dsimp only
  split <;> rfl

omit [CommRing R] in
theorem pipe_tdropCheckAt (stage pooled_ev_x pooled_ev_y : Nat) :
    (P.tdropCheckAt s stage pooled_ev_x pooled_ev_y).1.pipe =
      (P.toSslaSPipeline.tdropCheckAt s.pipe stage pooled_ev_x pooled_ev_y).1 := by
  unfold SslaSDetector.tdropCheckAt SslaSPipeline.tdropCheckAt
  dsimp only
  split <;> rfl

theorem pipe_prepopulateHeadZero : (P.prepopulateHeadZero s).pipe = s.pipe := by
  unfold SslaSDetector.prepopulateHeadZero
  split
  · rfl
  · exact List.foldlRecOn (motive := fun t : DetectorState R => t.pipe = s.pipe) P.headCells _ rfl
      fun _ ht _ _ => ht

theorem pipe_reset : (P.reset s).pipe = SslaSPipeline.reset :=
  pipe_prepopulateHeadZero P

end Operations

section Layers

variable (ev_x ev_y : Nat) (feat_in : Nat → R)

theorem firstLayer_stage_out (stage : Nat) :
    readFeat (outDim (2 * stage)) ((P.firstLayer s ev_x ev_y stage feat_in).stage_out_ stage) =
      (P.layerResult ev_x ev_y (2 * stage) feat_in s).2 := by
  unfold SslaSDetector.firstLayer DetectorState.setStageOut
  simp only [Function.update_self]
  rw [layerForwardCt_feat_out, readFeat_writeFeat]

theorem firstLayer_hidden (stage : Nat) : (P.firstLayer s ev_x ev_y stage feat_in).hidden_ =
    Function.update s.hidden_ (2 * stage) (P.layerResult ev_x ev_y (2 * stage) feat_in s).1 :=
  layerForwardCt_hidden P ev_x ev_y (2 * stage) feat_in _

theorem layerResult_layerForward {l : Nat}
    (hpass : (P.layers_ l).input_proj = none → inDim l = outDim l) :
    P.layerResult ev_x ev_y l feat_in s =
      P.layerForward l ev_x ev_y (readFeat (inDim l) feat_in) (s.hidden_ l) :=
  layerResult_eq P.ar (inDim l) (outDim l) (P.layers_ l) hpass ev_x ev_y _ _ feat_in _

/-- The boundary path of a stage: the generic layers with the buffer between them. -/
theorem bothLayers (stage : Nat)
    (hfirst : (P.layers_ (2 * stage)).input_proj = none → inDim (2 * stage) = outDim (2 * stage))
    (hsecond : (P.layers_ (2 * stage + 1)).input_proj = none →
      inDim (2 * stage + 1) = outDim (2 * stage + 1)) (feat_out : Nat → R) :
    let t := P.firstLayer s ev_x ev_y stage feat_in
    let r := P.layerForwardCt t ev_x ev_y (2 * stage + 1) (t.stage_out_ stage) feat_out
    let tmp := P.layerForward (2 * stage) ev_x ev_y (readFeat (inDim (2 * stage)) feat_in)
      (s.hidden_ (2 * stage))
    let out := P.layerForward (2 * stage + 1) ev_x ev_y tmp.2 (s.hidden_ (2 * stage + 1))
    r.1.hidden_ = Function.update (Function.update s.hidden_ (2 * stage) tmp.1) (2 * stage + 1) out.1 ∧
      r.2 = writeFeat feat_out out.2 := by
  intro t r tmp out
  have htmp : P.layerResult ev_x ev_y (2 * stage) feat_in s = tmp :=
    layerResult_layerForward P ev_x ev_y feat_in hfirst
  have hin : readFeat (outDim (2 * stage)) (t.stage_out_ stage) = tmp.2 := by
    rw [firstLayer_stage_out, htmp]
  have hhidden : t.hidden_ = Function.update s.hidden_ (2 * stage) tmp.1 := by
    rw [firstLayer_hidden, htmp]
  have hH : t.hidden_ (2 * stage + 1) = s.hidden_ (2 * stage + 1) := by
    rw [hhidden]
    exact Function.update_of_ne (Nat.succ_ne_self _) _ _
  have hout : P.layerResult ev_x ev_y (2 * stage + 1) (t.stage_out_ stage) t = out := by
    have heq := layerResult_layerForward P (s := t) ev_x ev_y (t.stage_out_ stage) hsecond
    rw [hH] at heq
    exact heq.trans (congrArg (fun x => P.layerForward (2 * stage + 1) ev_x ev_y x _) hin)
  exact ⟨by rw [layerForwardCt_hidden, hout, hhidden], by rw [layerForwardCt_feat_out, hout]⟩

end Layers

section Stages

variable (ev_x ev_y : Nat) (feat_in : Nat → R)

theorem firstFused0_handed :
    let t := P.firstFused0 s ev_x ev_y feat_in
    let tmp := s0_l0_interior P.ar ev_x ev_y (P.Ws_ 0) (readFeat kInDim feat_in) (P.inputProj 0)
      ((P.layers_ 0).qvgIn 0) ((P.layers_ 0).goW 0) (P.layers_ 0).ln_gamma (P.layers_ 0).ln_beta
      (s.hidden_ 0)
    readFeat kC0 (t.stage_out_ 0) = tmp.2 ∧ t.hidden_ 1 = s.hidden_ 1 := by
  intro t tmp
  constructor
  · simp only [t, SslaSDetector.firstFused0, DetectorState.setStageOut, Function.update_self]
    exact readFeat_writeFeat _ _
  · exact Function.update_of_ne (show 1 ≠ 0 by decide) tmp.1 s.hidden_

theorem firstFused1_handed :
    let t := P.firstFused1 s ev_x ev_y feat_in
    let tmp := s1_l0_interior_tiled P.ar ev_x ev_y (P.Ws_ 1) (readFeat kC0 feat_in) (P.inputProj 2)
      (P.layers_ 2).qvgIn (P.layers_ 2).goW_T (P.layers_ 2).ln_gamma (P.layers_ 2).ln_beta
      (s.hidden_ 2)
    readFeat kC1 (t.stage_out_ 1) = tmp.2 ∧ t.hidden_ 3 = s.hidden_ 3 := by
  intro t tmp
  constructor
  · simp only [t, SslaSDetector.firstFused1, DetectorState.setStageOut, Function.update_self]
    exact readFeat_writeFeat _ _
  · exact Function.update_of_ne (show 3 ≠ 2 by decide) tmp.1 s.hidden_

section Interior

variable {ev_x ev_y} (feat_out : Nat → R)

theorem interior0 (hin : Interior ev_x ev_y (P.Hs_ 0) (P.Ws_ 0)) :
    let r := P.secondFused0 (P.firstFused0 s ev_x ev_y feat_in) ev_x ev_y feat_out
    let l0 := P.layer0 ev_x ev_y (readFeat kInDim feat_in) s.pipe.hidden_0
    let l1 := P.layer1 ev_x ev_y l0.2 s.pipe.hidden_1
    r.1.hidden_ = Function.update (Function.update s.hidden_ 0 l0.1) 1 l1.1 ∧
      r.2 = writeFeat feat_out l1.2 ∧
      (P.secondStateOnly0 (P.firstFused0 s ev_x ev_y feat_in) ev_x ev_y).hidden_ = r.1.hidden_ := by
  intro r l0 l1
  obtain ⟨htmp, hH⟩ := firstFused0_handed P (s := s) ev_x ev_y feat_in
  have h1 : l1 = s0_l1_interior P.ar ev_x ev_y (P.Ws_ 0)
      (readFeat kC0 ((P.firstFused0 s ev_x ev_y feat_in).stage_out_ 0)) (P.layers_ 1).qvgIn
      (P.layers_ 1).goW (P.layers_ 1).ln_gamma (P.layers_ 1).ln_beta
      ((P.firstFused0 s ev_x ev_y feat_in).hidden_ 1) := by
    simp only [l1, l0, SslaSPipeline.layer0, SslaSPipeline.layer1, if_pos hin, htmp, hH]
    rfl
  have h0 : l0.1 = (P.firstFused0 s ev_x ev_y feat_in).hidden_ 0 := by
    simp only [l0, SslaSPipeline.layer0, if_pos hin]
    rfl
  rw [h1, h0]
  have hstate := s0_l1_interior_state P.ar ev_x ev_y (P.Ws_ 0)
    (readFeat kC0 ((P.firstFused0 s ev_x ev_y feat_in).stage_out_ 0)) (P.layers_ 1).qvgIn
    (P.layers_ 1).goW (P.layers_ 1).ln_gamma (P.layers_ 1).ln_beta
    ((P.firstFused0 s ev_x ev_y feat_in).hidden_ 1)
  exact ⟨rfl, rfl, congrArg (fun H => ((P.firstFused0 s ev_x ev_y feat_in).setHidden 1 H).hidden_)
    hstate.symm⟩

theorem interior1 (hin : Interior ev_x ev_y (P.Hs_ 1) (P.Ws_ 1)) :
    let r := P.secondFused1 (P.firstFused1 s ev_x ev_y feat_in) ev_x ev_y feat_out
    let l2 := P.layer2 ev_x ev_y (readFeat kC0 feat_in) s.pipe.hidden_2
    let l3 := P.layer3 ev_x ev_y l2.2 s.pipe.hidden_3
    r.1.hidden_ = Function.update (Function.update s.hidden_ 2 l2.1) 3 l3.1 ∧
      r.2 = writeFeat feat_out l3.2 ∧
      (P.secondStateOnly1 (P.firstFused1 s ev_x ev_y feat_in) ev_x ev_y).hidden_ = r.1.hidden_ := by
  intro r l2 l3
  obtain ⟨htmp, hH⟩ := firstFused1_handed P (s := s) ev_x ev_y feat_in
  have h3 : l3 = s1_l1_interior_tiled P.ar ev_x ev_y (P.Ws_ 1)
      (readFeat kC1 ((P.firstFused1 s ev_x ev_y feat_in).stage_out_ 1)) (P.layers_ 3).qvgIn
      (P.layers_ 3).goW_T (P.layers_ 3).ln_gamma (P.layers_ 3).ln_beta
      ((P.firstFused1 s ev_x ev_y feat_in).hidden_ 3) := by
    simp only [l3, l2, SslaSPipeline.layer2, SslaSPipeline.layer3, if_pos hin, htmp, hH]
    rfl
  have h2 : l2.1 = (P.firstFused1 s ev_x ev_y feat_in).hidden_ 2 := by
    simp only [l2, SslaSPipeline.layer2, if_pos hin]
    rfl
  rw [h3, h2]
  have hstate := s1_l1_interior_tiled_state P.ar ev_x ev_y (P.Ws_ 1)
    (readFeat kC1 ((P.firstFused1 s ev_x ev_y feat_in).stage_out_ 1)) (P.layers_ 3).qvgIn
    (P.layers_ 3).goW_T (P.layers_ 3).ln_gamma (P.layers_ 3).ln_beta
    ((P.firstFused1 s ev_x ev_y feat_in).hidden_ 3)
  exact ⟨rfl, rfl, congrArg (fun H => ((P.firstFused1 s ev_x ev_y feat_in).setHidden 3 H).hidden_)
    hstate.symm⟩

end Interior

variable (hP : P.toSslaSPipeline.Schema)

include hP

/-- Both paths of a stage, and the one without output, run its two layers. -/
theorem stageForward0_hidden (feat_out : Nat → R) :
    let r := P.stageForward s ev_x ev_y 0 feat_in feat_out
    let l0 := P.layer0 ev_x ev_y (readFeat kInDim feat_in) s.pipe.hidden_0
    let l1 := P.layer1 ev_x ev_y l0.2 s.pipe.hidden_1
    r.1.hidden_ = Function.update (Function.update s.hidden_ 0 l0.1) 1 l1.1 ∧
      r.2 = writeFeat feat_out l1.2 ∧
      (P.stageForwardStateOnly s ev_x ev_y 0 feat_in).hidden_ = r.1.hidden_ := by
  unfold SslaSDetector.stageForward SslaSDetector.stageForwardStateOnly
  by_cases hin : Interior ev_x ev_y (P.Hs_ 0) (P.Ws_ 0)
  · simp only [if_pos hin]
    exact interior0 P feat_in feat_out hin
  · have hboth := bothLayers P (s := s) ev_x ev_y feat_in 0 hP.layer0.passthrough
      hP.layer1.passthrough
    simp only [if_neg hin, SslaSPipeline.layer0, SslaSPipeline.layer1]
    exact ⟨(hboth feat_out).1, (hboth feat_out).2, (hboth s.stack).1.trans (hboth feat_out).1.symm⟩

theorem stageForward1_hidden (feat_out : Nat → R) :
    let r := P.stageForward s ev_x ev_y 1 feat_in feat_out
    let l2 := P.layer2 ev_x ev_y (readFeat kC0 feat_in) s.pipe.hidden_2
    let l3 := P.layer3 ev_x ev_y l2.2 s.pipe.hidden_3
    r.1.hidden_ = Function.update (Function.update s.hidden_ 2 l2.1) 3 l3.1 ∧
      r.2 = writeFeat feat_out l3.2 ∧
      (P.stageForwardStateOnly s ev_x ev_y 1 feat_in).hidden_ = r.1.hidden_ := by
  unfold SslaSDetector.stageForward SslaSDetector.stageForwardStateOnly
  by_cases hin : Interior ev_x ev_y (P.Hs_ 1) (P.Ws_ 1)
  · simp only [if_pos hin]
    exact interior1 P feat_in feat_out hin
  · have hboth := bothLayers P (s := s) ev_x ev_y feat_in 1 hP.layer2.passthrough
      hP.layer3.passthrough
    simp only [if_neg hin, SslaSPipeline.layer2, SslaSPipeline.layer3]
    exact ⟨(hboth feat_out).1, (hboth feat_out).2, (hboth s.stack).1.trans (hboth feat_out).1.symm⟩

/-- On its part of the state `stage_forward` is the stage of the CPU shards. -/
theorem pipe_stageForward0 (feat_out : Nat → R) :
    let r := P.stageForward s ev_x ev_y 0 feat_in feat_out
    let r' := P.stageForward0 s.pipe ev_x ev_y (readFeat kInDim feat_in)
    r.1.pipe = r'.1 ∧ r.2 = writeFeat feat_out r'.2 := by
  intro r r'
  obtain ⟨hhidden, hout, -⟩ := stageForward0_hidden P (s := s) ev_x ev_y feat_in hP feat_out
  have hkept : r.1.tdrop_counter_ = s.tdrop_counter_ ∧ r.1.last_t_us_ = s.last_t_us_ := by
    simp only [r, SslaSDetector.stageForward]
    split <;> exact ⟨rfl, rfl⟩
  simp only [r', stageForward0_eq]
  exact ⟨pipe_stage0 hhidden hkept.1 hkept.2, hout⟩

theorem pipe_stageForward1 (feat_out : Nat → R) :
    let r := P.stageForward s ev_x ev_y 1 feat_in feat_out
    let r' := P.stageForward1 s.pipe ev_x ev_y (readFeat kC0 feat_in)
    r.1.pipe = r'.1 ∧ r.2 = writeFeat feat_out r'.2 := by
  intro r r'
  obtain ⟨hhidden, hout, -⟩ := stageForward1_hidden P (s := s) ev_x ev_y feat_in hP feat_out
  have hkept : r.1.tdrop_counter_ = s.tdrop_counter_ ∧ r.1.last_t_us_ = s.last_t_us_ := by
    simp only [r, SslaSDetector.stageForward]
    by_cases hin : Interior ev_x ev_y (P.Hs_ 1) (P.Ws_ 1)
    · simp only [if_pos hin]
      exact ⟨rfl, rfl⟩
    · simp only [if_neg hin]
      exact ⟨rfl, rfl⟩
  simp only [r', stageForward1_eq]
  exact ⟨pipe_stage1 hhidden hkept.1 hkept.2, hout⟩

theorem pipe_stageForwardStateOnly0 : (P.stageForwardStateOnly s ev_x ev_y 0 feat_in).pipe =
    P.toSslaSPipeline.stageForwardStateOnly0 s.pipe ev_x ev_y (readFeat kInDim feat_in) := by
  obtain ⟨hhidden, -, hstate⟩ := stageForward0_hidden P (s := s) ev_x ev_y feat_in hP s.stack
  have hkept : (P.stageForwardStateOnly s ev_x ev_y 0 feat_in).tdrop_counter_ = s.tdrop_counter_ ∧
      (P.stageForwardStateOnly s ev_x ev_y 0 feat_in).last_t_us_ = s.last_t_us_ := by
    simp only [SslaSDetector.stageForwardStateOnly]
    split <;> exact ⟨rfl, rfl⟩
  rw [SslaSPipeline.stageForwardStateOnly0_eq, stageForward0_eq]
  exact pipe_stage0 (hstate.trans hhidden) hkept.1 hkept.2

theorem pipe_stageForwardStateOnly1 : (P.stageForwardStateOnly s ev_x ev_y 1 feat_in).pipe =
    P.toSslaSPipeline.stageForwardStateOnly1 s.pipe ev_x ev_y (readFeat kC0 feat_in) := by
  obtain ⟨hhidden, -, hstate⟩ := stageForward1_hidden P (s := s) ev_x ev_y feat_in hP s.stack
  have hkept : (P.stageForwardStateOnly s ev_x ev_y 1 feat_in).tdrop_counter_ = s.tdrop_counter_ ∧
      (P.stageForwardStateOnly s ev_x ev_y 1 feat_in).last_t_us_ = s.last_t_us_ := by
    simp only [SslaSDetector.stageForwardStateOnly]
    split <;> exact ⟨rfl, rfl⟩
  rw [SslaSPipeline.stageForwardStateOnly1_eq, stageForward1_eq]
  exact pipe_stage1 (hstate.trans hhidden) hkept.1 hkept.2

end Stages

end SslaRt
