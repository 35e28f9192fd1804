import SslaRt.LayerBuffers

/-! A reset pipeline cannot be told from a fresh one. Two states are the same if
they differ in scratch only; every operation keeps them the same and returns the
same result on both. -/

namespace SslaRt

variable {R : Type*}

/-- The states differ in scratch only. -/
structure Same (s s' : DetectorState R) : Prop where
  hidden_ : s.hidden_ = s'.hidden_
  tdrop_counter_ : s.tdrop_counter_ = s'.tdrop_counter_
  last_t_us_ : s.last_t_us_ = s'.last_t_us_
  zero_feat_cell_ : s.zero_feat_cell_ = s'.zero_feat_cell_
  last_predictions_ : s.last_predictions_ = s'.last_predictions_
  shape : s.last_det_.shape = s'.last_det_.shape
  last_output_ : s.last_output_ = s'.last_output_

/-- Between the two layers of a stage: the buffer of the stage holds the same
feature. -/
structure Handed (stage : Nat) (s s' : DetectorState R) : Prop where
  same : Same s s'
  tmp : Agree (chans stage) (s.stage_out_ stage) (s'.stage_out_ stage)

variable {s s' : DetectorState R}

theorem Same.pipe (h : Same s s') : s.pipe = s'.pipe := by
  unfold DetectorState.pipe
  rw [h.hidden_, h.tdrop_counter_, h.last_t_us_]

theorem Same.setHidden (h : Same s s') (l : Nat) {H H' : Nat → Fin (outDim l) → R} (hH : H = H') :
    Same (s.setHidden l H) (s'.setHidden l H') :=
  { h with hidden_ := by rw [DetectorState.setHidden, DetectorState.setHidden, h.hidden_, hH] }

theorem Same.publishOutput (h : Same s s') : Same s.publishOutput s'.publishOutput := by
  refine ⟨h.hidden_, h.tdrop_counter_, h.last_t_us_, h.zero_feat_cell_, h.last_predictions_, h.shape, ?_⟩
  simp only [DetectorState.publishOutput, h.last_predictions_, h.shape]

theorem Same.handed (h : Same s s') (stage : Nat) {tmp tmp' : Nat → R}
    (ht : Agree (chans stage) tmp tmp') :
    Handed stage (s.setStageOut stage tmp) (s'.setStageOut stage tmp') := by
  refine ⟨⟨h.hidden_, h.tdrop_counter_, h.last_t_us_, h.zero_feat_cell_, h.last_predictions_, h.shape,
    h.last_output_⟩, ?_⟩
  unfold DetectorState.setStageOut
  simp only [Function.update_self]
  exact ht

theorem outDim_first (stage : Nat) : outDim (2 * stage) = chans stage := by
  rw [outDim, Nat.mul_div_cancel_left stage Nat.two_pos]

theorem outDim_second (stage : Nat) : outDim (2 * stage + 1) = chans stage := by
  rw [outDim]
  congr 1
  omega

theorem Handed.agree_in {stage : Nat} (h : Handed stage s s') :
    Agree (inDim (2 * stage + 1)) (s.stage_out_ stage) (s'.stage_out_ stage) := by
  have hdim : inDim (2 * stage + 1) = chans stage := outDim_first stage
  rw [hdim]
  exact h.tmp

theorem Handed.agree_out {stage : Nat} (h : Handed stage s s') :
    Agree (outDim (2 * stage + 1)) (s.stage_out_ stage) (s'.stage_out_ stage) := by
  rw [outDim_second]
  exact h.tmp

section Layers

variable [CommRing R] (P : SslaSDetector R) (ev_x ev_y : Nat)

def SslaSDetector.layerResult (l : Nat) (feat_in : Nat → R) (s : DetectorState R) :
    (Nat → Fin (outDim l) → R) × (Fin (outDim l) → R) :=
  SslaRt.layerResult P.ar (inDim l) (outDim l) (P.layers_ l) ev_x ev_y (P.Hs_ (l / 2)) (P.Ws_ (l / 2))
    feat_in (s.hidden_ l)

theorem layerForwardCt_hidden (l : Nat) (feat_in feat_out : Nat → R) :
    (P.layerForwardCt s ev_x ev_y l feat_in feat_out).1.hidden_ =
      Function.update s.hidden_ l (P.layerResult ev_x ev_y l feat_in s).1 := by
  unfold SslaSDetector.layerForwardCt
  dsimp only
  rw [(layerBuffers_eq ..).1]
  rfl

theorem layerForwardCt_feat_out (l : Nat) (feat_in feat_out : Nat → R) :
    (P.layerForwardCt s ev_x ev_y l feat_in feat_out).2 =
      writeFeat feat_out (P.layerResult ev_x ev_y l feat_in s).2 := by
  unfold SslaSDetector.layerForwardCt
  dsimp only
  rw [(layerBuffers_eq ..).2]
  rfl

theorem Same.layerResult (h : Same s s') {l : Nat} {feat_in feat_in' : Nat → R}
    (hin : Agree (inDim l) feat_in feat_in') (hout : Agree (outDim l) feat_in feat_in') :
    P.layerResult ev_x ev_y l feat_in s = P.layerResult ev_x ev_y l feat_in' s' := by
  unfold SslaSDetector.layerResult
  rw [h.hidden_]
  exact layerResult_congr _ _ _ _ _ _ _ _ hin hout _

theorem Same.layerForwardCt (h : Same s s') {l : Nat} {feat_in feat_in' : Nat → R}
    (hin : Agree (inDim l) feat_in feat_in') (hout : Agree (outDim l) feat_in feat_in')
    (feat_out feat_out' : Nat → R) :
    Same (P.layerForwardCt s ev_x ev_y l feat_in feat_out).1
      (P.layerForwardCt s' ev_x ev_y l feat_in' feat_out').1 := by
  refine ⟨?_, h.tdrop_counter_, h.last_t_us_, h.zero_feat_cell_, h.last_predictions_, h.shape,
    h.last_output_⟩
  rw [layerForwardCt_hidden, layerForwardCt_hidden, h.hidden_, h.layerResult P ev_x ev_y hin hout]

theorem Same.feat_out (h : Same s s') {l : Nat} {feat_in feat_in' : Nat → R}
    (hin : Agree (inDim l) feat_in feat_in') (hout : Agree (outDim l) feat_in feat_in')
    (feat_out : Nat → R) : (P.layerForwardCt s ev_x ev_y l feat_in feat_out).2 =
      (P.layerForwardCt s' ev_x ev_y l feat_in' feat_out).2 := by
  rw [layerForwardCt_feat_out, layerForwardCt_feat_out, h.layerResult P ev_x ev_y hin hout]

theorem Same.firstLayer (h : Same s s') (stage : Nat) (feat_in : Nat → R) :
    Handed stage (P.firstLayer s ev_x ev_y stage feat_in) (P.firstLayer s' ev_x ev_y stage feat_in) := by
  have hrefl : ∀ n, Agree n feat_in feat_in := fun n => Agree.refl feat_in
  have hsame := h.layerForwardCt P ev_x ev_y (l := 2 * stage) (hrefl _) (hrefl _)
    (s.stage_out_ stage) (s'.stage_out_ stage)
  refine hsame.handed stage ?_
  rw [layerForwardCt_feat_out, layerForwardCt_feat_out,
    h.layerResult P ev_x ev_y (hrefl _) (hrefl _), ← outDim_first]
  exact agree_writeFeat _ _ _

theorem Same.firstFused0 (h : Same s s') (feat_in : Nat → R) :
    Handed 0 (P.firstFused0 s ev_x ev_y feat_in) (P.firstFused0 s' ev_x ev_y feat_in) := by
  unfold SslaSDetector.firstFused0
  rw [h.hidden_]
  exact (h.setHidden 0 rfl).handed 0 (agree_writeFeat _ _ _)

theorem Same.firstFused1 (h : Same s s') (feat_in : Nat → R) :
    Handed 1 (P.firstFused1 s ev_x ev_y feat_in) (P.firstFused1 s' ev_x ev_y feat_in) := by
  unfold SslaSDetector.firstFused1
  rw [h.hidden_]
  exact (h.setHidden 2 rfl).handed 1 (agree_writeFeat _ _ _)

structure SameOut (r r' : DetectorState R × (Nat → R)) : Prop where
  state : Same r.1 r'.1
  feat_out : r.2 = r'.2

theorem Handed.secondLayer {stage : Nat} (h : Handed stage s s') (feat_out : Nat → R) :
    SameOut (P.layerForwardCt s ev_x ev_y (2 * stage + 1) (s.stage_out_ stage) feat_out)
      (P.layerForwardCt s' ev_x ev_y (2 * stage + 1) (s'.stage_out_ stage) feat_out) :=
  ⟨h.same.layerForwardCt P ev_x ev_y h.agree_in h.agree_out feat_out feat_out,
    h.same.feat_out P ev_x ev_y h.agree_in h.agree_out feat_out⟩

theorem Handed.secondFused0 (h : Handed 0 s s') (feat_out : Nat → R) :
    SameOut (P.secondFused0 s ev_x ev_y feat_out) (P.secondFused0 s' ev_x ev_y feat_out) := by
  have hx : readFeat kC0 (s.stage_out_ 0) = readFeat kC0 (s'.stage_out_ 0) := h.tmp.readFeat
  unfold SslaSDetector.secondFused0
  rw [hx, h.same.hidden_]
  exact ⟨h.same.setHidden 1 rfl, rfl⟩

theorem Handed.secondFused1 (h : Handed 1 s s') (feat_out : Nat → R) :
    SameOut (P.secondFused1 s ev_x ev_y feat_out) (P.secondFused1 s' ev_x ev_y feat_out) := by
  have hx : readFeat kC1 (s.stage_out_ 1) = readFeat kC1 (s'.stage_out_ 1) := h.tmp.readFeat
  unfold SslaSDetector.secondFused1
  rw [hx, h.same.hidden_]
  exact ⟨h.same.setHidden 3 rfl, rfl⟩

theorem Handed.secondStateOnly0 (h : Handed 0 s s') :
    Same (P.secondStateOnly0 s ev_x ev_y) (P.secondStateOnly0 s' ev_x ev_y) := by
  have hx : readFeat kC0 (s.stage_out_ 0) = readFeat kC0 (s'.stage_out_ 0) := h.tmp.readFeat
  unfold SslaSDetector.secondStateOnly0
  rw [hx, h.same.hidden_]
  exact h.same.setHidden 1 rfl

theorem Handed.secondStateOnly1 (h : Handed 1 s s') :
    Same (P.secondStateOnly1 s ev_x ev_y) (P.secondStateOnly1 s' ev_x ev_y) := by
  have hx : readFeat kC1 (s.stage_out_ 1) = readFeat kC1 (s'.stage_out_ 1) := h.tmp.readFeat
  unfold SslaSDetector.secondStateOnly1
  rw [hx, h.same.hidden_]
  exact h.same.setHidden 3 rfl

theorem Same.stageForward (h : Same s s') (stage : Fin 4) (feat_in feat_out : Nat → R) :
    SameOut (P.stageForward s ev_x ev_y stage feat_in feat_out)
      (P.stageForward s' ev_x ev_y stage feat_in feat_out) := by
  unfold SslaSDetector.stageForward
  match stage with
  | 0 =>
    dsimp only
    split
    · exact (h.firstFused0 P ev_x ev_y feat_in).secondFused0 P ev_x ev_y feat_out
    · exact (h.firstLayer P ev_x ev_y 0 feat_in).secondLayer P ev_x ev_y feat_out
  | 1 =>
    dsimp only
    split
    · exact (h.firstFused1 P ev_x ev_y feat_in).secondFused1 P ev_x ev_y feat_out
    · exact (h.firstLayer P ev_x ev_y 1 feat_in).secondLayer P ev_x ev_y feat_out
  | 2 => exact (h.firstLayer P ev_x ev_y 2 feat_in).secondLayer P ev_x ev_y feat_out
  | 3 => exact (h.firstLayer P ev_x ev_y 3 feat_in).secondLayer P ev_x ev_y feat_out

/-- The local arrays may hold different floats before. -/
theorem Handed.discardOutput {stage : Nat} (h : Handed stage s s') (stack stack' : Nat → R) :
    Same (SslaSDetector.discardOutput
        (P.layerForwardCt s ev_x ev_y (2 * stage + 1) (s.stage_out_ stage) stack))
      (SslaSDetector.discardOutput
        (P.layerForwardCt s' ev_x ev_y (2 * stage + 1) (s'.stage_out_ stage) stack')) := by
  have hsame := h.same.layerForwardCt P ev_x ev_y h.agree_in h.agree_out stack stack'
  exact ⟨hsame.hidden_, hsame.tdrop_counter_, hsame.last_t_us_, hsame.zero_feat_cell_,
    hsame.last_predictions_, hsame.shape, hsame.last_output_⟩

theorem Same.stageForwardStateOnly (h : Same s s') (stage : Fin 4) (feat_in : Nat → R) :
    Same (P.stageForwardStateOnly s ev_x ev_y stage feat_in)
      (P.stageForwardStateOnly s' ev_x ev_y stage feat_in) := by
  unfold SslaSDetector.stageForwardStateOnly
  match stage with
  | 0 =>
    dsimp only
    split
    · exact (h.firstFused0 P ev_x ev_y feat_in).secondStateOnly0 P ev_x ev_y
    · exact (h.firstLayer P ev_x ev_y 0 feat_in).discardOutput P ev_x ev_y _ _
  | 1 =>
    dsimp only
    split
    · exact (h.firstFused1 P ev_x ev_y feat_in).secondStateOnly1 P ev_x ev_y
    · exact (h.firstLayer P ev_x ev_y 1 feat_in).discardOutput P ev_x ev_y _ _
  | 2 => exact (h.firstLayer P ev_x ev_y 2 feat_in).discardOutput P ev_x ev_y _ _
  | 3 => exact (h.firstLayer P ev_x ev_y 3 feat_in).discardOutput P ev_x ev_y _ _

end Layers

section Operations

variable [CommRing R] (P : SslaSDetector R)

theorem Same.preprocess (h : Same s s') (e : Event R) :
    Same (P.preprocess s e).1 (P.preprocess s' e).1 ∧ (P.preprocess s e).2 = (P.preprocess s' e).2 := by
  unfold SslaSDetector.preprocess
  rw [h.pipe]
  exact ⟨{ h with last_t_us_ := rfl }, rfl⟩

omit [CommRing R] in
theorem Same.tdropCheckAt (h : Same s s') (stage pooled_ev_x pooled_ev_y : Nat) :
    Same (P.tdropCheckAt s stage pooled_ev_x pooled_ev_y).1
        (P.tdropCheckAt s' stage pooled_ev_x pooled_ev_y).1 ∧
      (P.tdropCheckAt s stage pooled_ev_x pooled_ev_y).2 =
        (P.tdropCheckAt s' stage pooled_ev_x pooled_ev_y).2 := by
  unfold SslaSDetector.tdropCheckAt
  rw [h.pipe]
  exact ⟨{ h with tdrop_counter_ := rfl }, rfl⟩

omit [CommRing R] in
theorem Same.tdropAndPool (h : Same s s') (stage ev_x ev_y : Nat) :
    Same (P.tdropAndPool s stage ev_x ev_y).1 (P.tdropAndPool s' stage ev_x ev_y).1 ∧
      (P.tdropAndPool s stage ev_x ev_y).2 = (P.tdropAndPool s' stage ev_x ev_y).2 := by
  unfold SslaSDetector.tdropAndPool
  rw [h.pipe]
  exact ⟨{ h with tdrop_counter_ := rfl }, rfl⟩

omit [CommRing R] in
/-- The row of a cell does not depend on the scratch of the head. -/
theorem Same.decodeInto (h : Same s s')
    {decode : HeadScratch R → (Fin P.row_stride → R) × HeadScratch R}
    (hrow : ∀ scratch scratch', (decode scratch).1 = (decode scratch').1) (level gx gy : Nat) :
    Same (P.decodeInto s decode level gx gy) (P.decodeInto s' decode level gx gy) := by
  unfold SslaSDetector.decodeInto
  dsimp only
  rw [hrow s.scratch_head_ s'.scratch_head_, h.last_predictions_]
  exact { h with last_predictions_ := rfl }

theorem Same.headDecodeCell (h : Same s s') (stage : Nat) (gx gy : Int) (feat : Nat → R) :
    Same (P.headDecodeCell s stage gx gy feat) (P.headDecodeCell s' stage gx gy feat) := by
  unfold SslaSDetector.headDecodeCell
  cases P.headLevel stage with
  | none => exact h
  | some level =>
    dsimp only
    split
    · exact h
    · exact (h.decodeInto P (fun _ _ => decodeYoloxCellCt_row ..) level _ _).publishOutput

theorem Same.prepopulateHeadZero (h : Same s s') :
    Same (P.prepopulateHeadZero s) (P.prepopulateHeadZero s') := by
  unfold SslaSDetector.prepopulateHeadZero
  split
  · exact h
  · refine Same.publishOutput (List.foldl_rel h fun c _ t t' ht => ?_)
    dsimp only
    rw [ht.zero_feat_cell_]
    exact ht.decodeInto P (fun _ _ => decodeYoloxCellCt_row ..) _ _ _

theorem Same.run (h : Same s s') (op : DetectorOp R) :
    Same (P.run s op).1 (P.run s' op).1 ∧ (P.run s op).2 = (P.run s' op).2 := by
  cases op with
  | preprocess e =>
    obtain ⟨hstate, hout⟩ := h.preprocess P e
    exact ⟨hstate, congrArg OpResult.input hout⟩
  | stage_forward stage ev_x ev_y feat_in feat_out =>
    obtain ⟨hstate, hout⟩ := h.stageForward P ev_x ev_y stage feat_in feat_out
    exact ⟨hstate, congrArg OpResult.features hout⟩
  | stage_forward_state_only stage ev_x ev_y feat_in =>
    exact ⟨h.stageForwardStateOnly P ev_x ev_y stage feat_in, rfl⟩
  | layer_forward layer_idx ev_x ev_y feat_in feat_out =>
    exact ⟨h.layerForwardCt P ev_x ev_y (Agree.refl feat_in) (Agree.refl feat_in) feat_out feat_out,
      congrArg OpResult.features
        (h.feat_out P ev_x ev_y (Agree.refl feat_in) (Agree.refl feat_in) feat_out)⟩
  | tdrop_and_pool stage ev_x ev_y =>
    obtain ⟨hstate, hout⟩ := h.tdropAndPool P stage ev_x ev_y
    exact ⟨hstate, congrArg (fun r : Nat × Nat × Bool => OpResult.pooled r.1 r.2.1 r.2.2) hout⟩
  | tdrop_check_at stage x y =>
    obtain ⟨hstate, hout⟩ := h.tdropCheckAt P stage x y
    exact ⟨hstate, congrArg OpResult.passed hout⟩
  | head_decode_cell stage gx gy feat => exact ⟨h.headDecodeCell P stage gx gy feat, rfl⟩
  | reset =>
    refine ⟨Same.prepopulateHeadZero P ?_, rfl⟩
    exact ⟨rfl, rfl, rfl, h.zero_feat_cell_, rfl, h.shape, rfl⟩

theorem Same.step (h : Same s s') (op : DetectorOp R) :
    Same (P.step s op).1 (P.step s' op).1 ∧ (P.step s op).2 = (P.step s' op).2 := by
  obtain ⟨hstate, hout⟩ := h.run P op
  refine ⟨hstate, ?_⟩
  unfold SslaSDetector.step
  dsimp only
  rw [hout, hstate.last_predictions_, hstate.last_output_]

end Operations

section Constant

/-- What no operation changes although it is not a weight. -/
structure Kept (s s' : DetectorState R) : Prop where
  zero_feat_cell_ : s'.zero_feat_cell_ = s.zero_feat_cell_
  shape : s'.last_det_.shape = s.last_det_.shape

variable [CommRing R] (P : SslaSDetector R)

theorem kept_stageForward (stage : Fin 4) (ev_x ev_y : Nat) (feat_in feat_out : Nat → R) :
    Kept s (P.stageForward s ev_x ev_y stage feat_in feat_out).1 := by
  unfold SslaSDetector.stageForward
  match stage with
  | 0 | 1 =>
    dsimp only
    split <;> exact ⟨rfl, rfl⟩
  | 2 | 3 => exact ⟨rfl, rfl⟩

theorem kept_stageForwardStateOnly (stage : Fin 4) (ev_x ev_y : Nat) (feat_in : Nat → R) :
    Kept s (P.stageForwardStateOnly s ev_x ev_y stage feat_in) := by
  unfold SslaSDetector.stageForwardStateOnly
  match stage with
  | 0 | 1 =>
    dsimp only
    split <;> exact ⟨rfl, rfl⟩
  | 2 | 3 => exact ⟨rfl, rfl⟩

theorem kept_headDecodeCell (stage : Nat) (gx gy : Int) (feat : Nat → R) :
    Kept s (P.headDecodeCell s stage gx gy feat) := by
  unfold SslaSDetector.headDecodeCell
  cases P.headLevel stage with
  | none => exact ⟨rfl, rfl⟩
  | some level =>
    dsimp only
    split <;> exact ⟨rfl, rfl⟩

theorem kept_prepopulateHeadZero : Kept s (P.prepopulateHeadZero s) := by
  unfold SslaSDetector.prepopulateHeadZero
  split
  · exact ⟨rfl, rfl⟩
  · have hfold : ∀ (cells : List (Nat × Nat × Nat)) (t : DetectorState R), Kept t
        (cells.foldl (fun s c =>
          let decode := decodeYoloxCell P.hm (P.head_ c.1) c.2.2 c.2.1 s.zero_feat_cell_
          P.decodeInto s decode c.1 c.2.2 c.2.1) t) := by
      intro cells
      induction cells with
      | nil => exact fun t => ⟨rfl, rfl⟩
      | cons c cells ih => exact fun t => ⟨(ih _).zero_feat_cell_, (ih _).shape⟩
    exact ⟨(hfold _ s).zero_feat_cell_, (hfold _ s).shape⟩

theorem kept_step (op : DetectorOp R) : Kept s (P.step s op).1 := by
  cases op with
  | preprocess | layer_forward | tdrop_and_pool | tdrop_check_at => exact ⟨rfl, rfl⟩
  | stage_forward stage ev_x ev_y feat_in feat_out =>
    exact kept_stageForward P stage ev_x ev_y feat_in feat_out
  | stage_forward_state_only stage ev_x ev_y feat_in =>
    exact kept_stageForwardStateOnly P stage ev_x ev_y feat_in
  | head_decode_cell stage gx gy feat => exact kept_headDecodeCell P stage gx gy feat
  | reset =>
    have hclear := kept_prepopulateHeadZero (s := SslaSDetector.clear s) P
    exact ⟨hclear.zero_feat_cell_, hclear.shape⟩

theorem kept_run (ops : List (DetectorOp R)) (s : DetectorState R) :
    Kept s (Scan.final P.step s ops) := by
  induction ops generalizing s with
  | nil => exact ⟨rfl, rfl⟩
  | cons op ops ih =>
    have hop := kept_step (s := s) P op
    have hrest := ih (P.step s op).1
    exact ⟨hrest.zero_feat_cell_.trans hop.zero_feat_cell_, hrest.shape.trans hop.shape⟩

end Constant

section Runs

variable [CommRing R] (P : SslaSDetector R)

theorem Same.outs (h : Same s s') (ops : List (DetectorOp R)) :
    Scan.outs P.step s ops = Scan.outs P.step s' ops := by
  induction ops generalizing s s' with
  | nil => rfl
  | cons op ops ih =>
    obtain ⟨hstate, hout⟩ := h.step P op
    rw [Scan.outs, Scan.outs, hout, ih hstate]

/-- After any history a reset leaves what `load` leaves, up to scratch. -/
theorem same_reset_load (stack stack' : Nat → R) (history : List (DetectorOp R)) :
    Same (P.reset (Scan.final P.step (P.load stack) history)) (P.load stack') := by
  have hload := kept_prepopulateHeadZero (s := P.allocate stack) P
  have hrun := kept_run P history (P.load stack)
  refine Same.prepopulateHeadZero P ⟨rfl, rfl, rfl, ?_, rfl, ?_, rfl⟩
  · exact hrun.zero_feat_cell_.trans hload.zero_feat_cell_
  · exact hrun.shape.trans hload.shape

end Runs

/-- A reset is a cold start: whatever was done before it, every further sequence
of operations returns what it returns on a fresh pipeline, with the same
predictions and the same last output after the reset and after every operation. -/
theorem reset_coldStart [CommRing R] (P : SslaSDetector R) (stack stack' : Nat → R)
    (history ops : List (DetectorOp R)) :
    let warm := P.reset (Scan.final P.step (P.load stack) history)
    let cold := P.load stack'
    warm.last_output_ = cold.last_output_ ∧ warm.last_predictions_ = cold.last_predictions_ ∧
      Scan.outs P.step warm ops = Scan.outs P.step cold ops := by
  have hsame := same_reset_load P stack stack' history
  exact ⟨hsame.last_output_, hsame.last_predictions_, hsame.outs P ops⟩

end SslaRt
