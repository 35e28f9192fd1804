import SslaRt.StagePipelineSpec

/-! With several head levels the threads leave the rows of the earlier ones as they
were; the loop without threads decodes these too. -/

namespace SslaRt

variable {R : Type*} [CommRing R] (P : SslaSDetector R)

section EarlyLevels

theorem headDecodeCell_last {s : DetectorState R} {j : Nat} (hj : j < P.lastLevelOff) (gx gy : Int)
    (feat : Nat → R) : (P.headDecodeCell s 3 gx gy feat).last_predictions_ j = s.last_predictions_ j := by
  unfold SslaSDetector.headDecodeCell
  cases hlevel : P.headLevel 3 with
  | none => rfl
  | some level =>
    dsimp only
    split
    · rfl
    · have hidx : P.head_stage_idx_ level = 3 := by simpa using List.find?_some hlevel
      have hmem := List.mem_range.mp (List.mem_of_find?_eq_some hlevel)
      have hle := P.levels_le
      have hlast : level = P.num_head_levels_ - 1 := by
        unfold SslaSDetector.head_stage_idx_ at hidx
        omega
      have hrow := Nat.mul_le_mul_right P.row_stride (show P.row_offset level ≤
        P.row_offset level + gy.toNat * (P.head_ level).W_grid + gx.toNat by omega)
      unfold SslaSDetector.lastLevelOff at hj
      rw [← hlast] at hj
      unfold DetectorState.publishOutput SslaSDetector.decodeInto
      dsimp only
      exact writeRow_below _ _ _ (by omega)

/-- The threads never write the rows of an earlier level. -/
theorem threadFinish_early {s : DetectorState R} {i j : Nat} (hj : j < P.lastLevelOff)
    (out : Option (StageMsg R (chans i))) :
    (P.threadFinish i s out).1.last_predictions_ j = s.last_predictions_ j := by
  cases out with
  | none => rfl
  | some out =>
    unfold SslaSDetector.threadFinish
    dsimp only
    split
    · rfl
    · split
      · exact headDecodeCell_last P hj _ _ _
      · rfl

theorem threadForward_predictions {s : DetectorState R} (i : Nat) (m : Payload R i) :
    (P.threadForward i s m).1.last_predictions_ = s.last_predictions_ := by
  have hmsg : ∀ (t : DetectorState R) i x y feat,
      (P.forwardMsg t i x y feat).1.last_predictions_ = t.last_predictions_ := by
    intro t i x y feat
    unfold SslaSDetector.forwardMsg
    split
    · rename_i hi
      exact (onlyStage_stageForward P x y feat _ ⟨i, hi⟩).last_predictions_
    · rfl
  cases i with
  | zero =>
    unfold SslaSDetector.threadForward
    dsimp only
    split
    · rfl
    · exact hmsg ..
  | succ i => exact hmsg ..

theorem through_early {j : Nat} (hj : j < P.lastLevelOff) (s : DetectorState R) (k i : Nat) (m : Payload R i) :
    (P.stageThreads.through k i s m).last_predictions_ j = s.last_predictions_ j := by
  refine P.stageThreads.through_keeps (Q := fun t => t.last_predictions_ j = s.last_predictions_ j)
    (fun i t m ht => ?_) k i s m rfl
  have hforward := congrFun (threadForward_predictions P (s := t) i m) j
  exact ((threadFinish_early P hj _).trans hforward).trans ht

end EarlyLevels

section TwoLevels

/-- All layers hand on ones; the head has a level for stage 2 and one for stage 3. -/
def twoLevels : SslaSDetector ℤ where
  ar := onesArith
  castFloat := fun _ => 0
  H_ := 8
  W_ := 8
  tdrop_window_ := 1
  layers_ := fun _ => probeWeights 9 (some fun _ => 1) 1 0 1
  hm := ⟨id, id⟩
  num_classes_ := 2
  num_head_levels_ := 2
  levels_pos := Nat.two_pos
  levels_le := by decide
  head_weights := fun _ => ⟨fun _ => 1, fun _ => 0, fun _ => 1, fun _ => 0, fun _ => 1, fun _ => 0,
    fun _ => 1, fun _ => 0, fun _ => 1, fun _ => 0⟩

theorem twoLevels_obj (C_IN level gx gy : Nat) (feat : Nat → ℤ) (scratch : HeadScratch ℤ)
    (o : Fin (5 + (twoLevels.head_ level).n_cls)) (ho : o.val = 4) :
    (decodeYoloxCellCt twoLevels.hm C_IN kC3 (twoLevels.head_ level) gx gy feat scratch).1 o =
      96 * ∑ i : Fin C_IN, feat i := by
  obtain rfl : o = Fin.castAdd _ 4 := Fin.ext ho
  unfold decodeYoloxCellCt
  dsimp only
  rw [Fin.append_left]
  simp only [readFeat_siluInplace]
  simp [matvecBias, matvec, twoLevels, SslaSDetector.head_, readFeat]

theorem decodeInto_obj (s : DetectorState ℤ) (C_IN level gx gy : Nat) (feat : Nat → ℤ) :
    let cell := twoLevels.row_offset level + gy * (twoLevels.head_ level).W_grid + gx
    let decode := decodeYoloxCellCt twoLevels.hm C_IN kC3 (twoLevels.head_ level) gx gy feat
    (twoLevels.decodeInto s decode level gx gy).last_predictions_ (cell * twoLevels.row_stride + 4) =
      96 * ∑ i : Fin C_IN, feat i := by
  intro cell decode
  have hrow := writeRow_at s.last_predictions_ (cell * twoLevels.row_stride)
    (decode s.scratch_head_).1 ⟨4, (by decide : 4 < 7)⟩
  exact hrow.trans (twoLevels_obj C_IN level gx gy feat s.scratch_head_ _ rfl)

theorem decodeInto_above (s : DetectorState ℤ)
    (decode : HeadScratch ℤ → (Fin twoLevels.row_stride → ℤ) × HeadScratch ℤ) (level gx gy : Nat)
    {j : Nat} (hj : j < (twoLevels.row_offset level + gy * (twoLevels.head_ level).W_grid + gx) * 7) :
    (twoLevels.decodeInto s decode level gx gy).last_predictions_ j = s.last_predictions_ j :=
  writeRow_below _ _ _ hj

theorem twoLevels_start :
    (twoLevels.reset (twoLevels.load fun _ => 0)).last_predictions_ 4 = 0 := by
  have hcells : twoLevels.headCells = [(0, 0, 0), (0, 0, 1), (0, 1, 0), (0, 1, 1), (1, 0, 0)] := by
    decide
  have hzero : (SslaSDetector.clear (twoLevels.load fun _ => 0)).zero_feat_cell_ = fun _ => 0 :=
    (kept_prepopulateHeadZero (s := twoLevels.allocate fun _ => 0) twoLevels).zero_feat_cell_
  unfold SslaSDetector.reset SslaSDetector.prepopulateHeadZero
  rw [if_neg (by decide), hcells]
  have hpublish : ∀ s : DetectorState ℤ, s.publishOutput.last_predictions_ = s.last_predictions_ :=
    fun _ => rfl
  simp only [List.foldl_cons, List.foldl_nil, hpublish]
  refine (decodeInto_above _ _ 1 0 0 (by decide)).trans ?_
  refine (decodeInto_above _ _ 0 1 1 (by decide)).trans ?_
  refine (decodeInto_above _ _ 0 0 1 (by decide)).trans ?_
  refine (decodeInto_above _ _ 0 1 0 (by decide)).trans ?_
  refine (decodeInto_obj _ kC2 0 0 0 _).trans ?_
  rw [hzero]
  simp

theorem twoLevels_feat (s : DetectorState ℤ) (x y : Nat) (feat : Nat → ℤ) (i : Fin kC2) :
    (twoLevels.stageForward s x y 2 feat fun _ => 0).2 i = 1 := by
  have hout := layerForwardCt_feat_out twoLevels (s := twoLevels.firstLayer s x y 2 feat) x y 5
    ((twoLevels.firstLayer s x y 2 feat).stage_out_ 2) fun _ => 0
  have hfeat : (twoLevels.stageForward s x y 2 feat fun _ => 0).2 = writeFeat (fun _ => 0) _ := hout
  have hgamma : ∀ v : ℤ, v * 0 + 1 = 1 := fun v => by rw [mul_zero, zero_add]
  rw [hfeat]
  exact (writeFeat_of_lt _ _ i.isLt).trans (hgamma _)

theorem twoLevels_row (s : DetectorState ℤ) (feat : Nat → ℤ) (hfeat : ∀ i : Fin kC2, feat i = 1) :
    (twoLevels.headDecodeCell s 2 (0 : Nat) (0 : Nat) feat).last_predictions_ 4 = 96 * 48 := by
  have hcell : twoLevels.headDecodeCell s 2 (0 : Nat) (0 : Nat) feat =
    (twoLevels.decodeInto s (decodeYoloxCellCt twoLevels.hm kC2 kC3 (twoLevels.head_ 0) 0 0 feat)
      0 0 0).publishOutput := rfl
  rw [hcell]
  refine (decodeInto_obj s kC2 0 0 0 feat).trans ?_
  simp only [hfeat]
  simp

theorem twoLevels_pooled (s : DetectorState ℤ) (stage : Nat) :
    (twoLevels.tdropAndPool s stage 0 0).2 = (0, 0, true) := by
  unfold SslaSDetector.tdropAndPool SslaSPipeline.tdropAndPool SslaSPipeline.tdropCheckAt
  dsimp only
  split
  · rfl
  · rfl

theorem twoLevels_loop (s : DetectorState ℤ) :
    (twoLevels.processOne s (pixelEvent (0, 0))).last_predictions_ 4 = 96 * 48 := by
  have hx : castInt (pixelEvent (0, 0)).x = 0 := castInt_natCast 0
  have hy : castInt (pixelEvent (0, 0)).y = 0 := castInt_natCast 0
  unfold SslaSDetector.processOne
  dsimp only
  rw [hx, hy, if_neg (by decide)]
  simp only [Int.toNat_zero, twoLevels_pooled, Bool.not_true, Bool.false_eq_true, if_false]
  refine (headDecodeCell_last twoLevels (by decide) _ _ _).trans ?_
  exact twoLevels_row _ _ (twoLevels_feat _ _ _ _)

/-- One event at the corner: the row of its cell at stage 2. -/
theorem pipeline_early_level : ∃ s : S2State ℤ,
    let start := twoLevels.reset (twoLevels.load fun _ => 0)
    twoLevels.stageThreads.Reachable 1 start s ∧ s.sent = [.work 0 (pixelEvent (0, 0)), .marker 1] ∧
      1 ≤ s.marker_done 3 ∧ s.shared.last_predictions_ 4 ≠
        ((eventsOf s.sent).foldl twoLevels.processOne start).last_predictions_ 4 := by
  obtain ⟨s, hreach, hsent, hdone, hshared⟩ := StageChain.Chain.reachable_one
    twoLevels.stageThreads 1 Nat.one_pos (twoLevels.reset (twoLevels.load fun _ => 0)) (pixelEvent (0, 0))
  refine ⟨s, hreach, hsent, hdone.ge, ?_⟩
  have hthreads : s.shared.last_predictions_ 4 = 0 := by
    rw [hshared]
    exact (through_early twoLevels (by decide) _ 4 0 (pixelEvent (0, 0))).trans twoLevels_start
  have hloop : ((eventsOf s.sent).foldl twoLevels.processOne
      (twoLevels.reset (twoLevels.load fun _ => 0))).last_predictions_ 4 = 96 * 48 := by
    have hevents : eventsOf s.sent = [pixelEvent (0, 0)] := by
      rw [hsent]
      rfl
    rw [hevents, List.foldl_cons, List.foldl_nil]
    exact twoLevels_loop _
  rw [hthreads, hloop]
  decide

end TwoLevels

end SslaRt
