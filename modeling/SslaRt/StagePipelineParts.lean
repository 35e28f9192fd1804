import SslaRt.StagePipeline
import SslaRt.StageParts

/-! The threads of scheme 2 own the stages: what each of them reads and writes. -/

namespace SslaRt

variable {R : Type*}

namespace SslaSDetector

variable (P : SslaSDetector R)

/-- The rows of the level that stage 3 emits are the last ones. -/
def lastLevelOff : Nat := P.row_offset (P.num_head_levels_ - 1) * P.row_stride

end SslaSDetector

/-- What stage `i` and its thread own. -/
structure StagePart (P : SslaSDetector R) (i : Nat) (s t : DetectorState R) : Prop where
  hidden_ : SameStage i s t
  tdrop_counter_ : s.tdrop_counter_ i = t.tdrop_counter_ i
  last_t_us_ : i = 0 → s.last_t_us_ = t.last_t_us_
  last_predictions_ : i = 3 → ∀ j, P.lastLevelOff ≤ j → s.last_predictions_ j = t.last_predictions_ j

section Parts

variable {P : SslaSDetector R} {i : Nat} {s t u : DetectorState R}

theorem StagePart.refl (s : DetectorState R) : StagePart P i s s :=
  ⟨fun _ _ => rfl, rfl, fun _ => rfl, fun _ _ _ => rfl⟩

theorem StagePart.symm (h : StagePart P i s t) : StagePart P i t s :=
  ⟨fun l hl => (h.hidden_ l hl).symm, h.tdrop_counter_.symm, fun hi => (h.last_t_us_ hi).symm,
    fun hi j hj => (h.last_predictions_ hi j hj).symm⟩

theorem StagePart.trans (h : StagePart P i s t) (h' : StagePart P i t u) : StagePart P i s u :=
  ⟨fun l hl => (h.hidden_ l hl).trans (h'.hidden_ l hl), h.tdrop_counter_.trans h'.tdrop_counter_,
    fun hi => (h.last_t_us_ hi).trans (h'.last_t_us_ hi),
    fun hi j hj => (h.last_predictions_ hi j hj).trans (h'.last_predictions_ hi j hj)⟩

/-- The forward pass of another stage. -/
theorem OnlyStage.part {stage : Nat} (h : OnlyStage stage s t) (hi : i ≠ stage) : StagePart P i s t := by
  refine ⟨fun l hl => (h.hidden_ l (by omega)).symm, ?_, fun _ => h.last_t_us_.symm, fun _ j _ => ?_⟩
  · rw [h.tdrop_counter_]
  · rw [h.last_predictions_]

theorem OnlyStage.own {s' t' : DetectorState R} (h : OnlyStage i s s') (h' : OnlyStage i t t')
    (hs : StagePart P i s t) (hsame : SameStage i s' t') : StagePart P i s' t' := by
  refine ⟨hsame, ?_, fun hi => ?_, fun hi j hj => ?_⟩
  · rw [h.tdrop_counter_, h'.tdrop_counter_, hs.tdrop_counter_]
  · rw [h.last_t_us_, h'.last_t_us_, hs.last_t_us_ hi]
  · rw [h.last_predictions_, h'.last_predictions_, hs.last_predictions_ hi j hj]

end Parts

section Pooling

variable {P : SslaSDetector R} {s t : DetectorState R}

theorem tdropAndPool_other (stage j x y : Nat) (hj : j ≠ stage) :
    StagePart P j s (P.tdropAndPool s stage x y).1 := by
  refine ⟨fun _ _ => rfl, ?_, fun _ => rfl, fun _ _ _ => rfl⟩
  unfold SslaSDetector.tdropAndPool SslaSPipeline.tdropAndPool SslaSPipeline.tdropCheckAt
  dsimp only
  split
  · rfl
  · exact (Function.update_of_ne hj ..).symm

theorem tdropAndPool_own (stage x y : Nat) (h : StagePart P stage s t) (hstage : stage < 3) :
    (P.tdropAndPool s stage x y).2 = (P.tdropAndPool t stage x y).2 ∧
      StagePart P stage (P.tdropAndPool s stage x y).1 (P.tdropAndPool t stage x y).1 := by
  have hcounter : s.pipe.tdrop_counter_ stage = t.pipe.tdrop_counter_ stage := h.tdrop_counter_
  unfold SslaSDetector.tdropAndPool SslaSPipeline.tdropAndPool SslaSPipeline.tdropCheckAt
  simp only [show ¬ stage > 2 by omega, if_false, hcounter, true_and]
  refine ⟨h.hidden_, ?_, h.last_t_us_, h.last_predictions_⟩
  simp only [Function.update_self]

end Pooling

section Head

variable [CommRing R] {P : SslaSDetector R} {s t : DetectorState R}

theorem headDecodeCell_other (stage i : Nat) (gx gy : Int) (feat : Nat → R) (hi : i ≠ 3) :
    StagePart P i s (P.headDecodeCell s stage gx gy feat) := by
  unfold SslaSDetector.headDecodeCell
  cases P.headLevel stage with
  | none => exact .refl s
  | some level =>
    dsimp only
    split
    · exact .refl s
    · exact ⟨fun _ _ => rfl, rfl, fun _ => rfl, fun h => absurd h hi⟩

theorem headDecodeCell_own (stage i : Nat) (gx gy : Int) (feat : Nat → R) (h : StagePart P i s t) :
    StagePart P i (P.headDecodeCell s stage gx gy feat) (P.headDecodeCell t stage gx gy feat) := by
  unfold SslaSDetector.headDecodeCell
  cases P.headLevel stage with
  | none => exact h
  | some level =>
    dsimp only
    split
    · exact h
    · refine ⟨h.hidden_, h.tdrop_counter_, h.last_t_us_, fun hi j hj => ?_⟩
      have hrow := decodeYoloxCellCt_row P.hm (chans stage) kC3 (P.head_ level) gx.toNat gy.toNat feat
        s.scratch_head_ t.scratch_head_
      unfold DetectorState.publishOutput SslaSDetector.decodeInto
      dsimp only
      rw [hrow]
      unfold writeRow
      split
      · rfl
      · exact h.last_predictions_ hi j hj

omit [CommRing R] in
theorem writeRow_above {n : Nat} (buf : Nat → R) (off : Nat) (row : Fin n → R) {j : Nat}
    (hj : off + n ≤ j) : writeRow buf off row j = buf j :=
  dif_neg (by omega)

omit [CommRing R] in
theorem writeRow_below {n : Nat} (buf : Nat → R) (off : Nat) (row : Fin n → R) {j : Nat}
    (hj : j < off) : writeRow buf off row j = buf j :=
  dif_neg (by omega)

omit [CommRing R] in
theorem writeRow_at {n : Nat} (buf : Nat → R) (off : Nat) (row : Fin n → R) (k : Fin n) :
    writeRow buf off row (off + k) = row k := by
  unfold writeRow
  rw [dif_pos ⟨Nat.le_add_right _ _, Nat.add_lt_add_left k.isLt _⟩]
  congr 1
  exact Fin.ext (Nat.add_sub_cancel_left ..)

omit [CommRing R] in
theorem row_offset_succ (level : Nat) : P.row_offset (level + 1) =
    P.row_offset level + (P.head_ level).H_grid * (P.head_ level).W_grid := by
  simp [SslaSDetector.row_offset, List.range_succ]

omit [CommRing R] in
theorem row_offset_mono {level level' : Nat} (h : level ≤ level') :
    P.row_offset level ≤ P.row_offset level' := by
  induction h with
  | refl => exact Nat.le_refl _
  | step _ ih =>
    rw [row_offset_succ]
    omega

omit [CommRing R] in
theorem headLevel_early {stage level : Nat} (h : P.headLevel stage = some level) (hstage : stage < 3) :
    level < P.num_head_levels_ - 1 := by
  have hle := P.levels_le
  have hmem := List.mem_range.mp (List.mem_of_find?_eq_some h)
  have hidx : P.head_stage_idx_ level = stage := by simpa using List.find?_some h
  unfold SslaSDetector.head_stage_idx_ at hidx
  omega

/-- An earlier stage writes above the rows of the last level. -/
theorem headDecodeCell_early (stage i : Nat) (gx gy : Int) (feat : Nat → R) (hstage : stage < 3) :
    StagePart P i s (P.headDecodeCell s stage gx gy feat) := by
  unfold SslaSDetector.headDecodeCell
  cases hlevel : P.headLevel stage with
  | none => exact .refl s
  | some level =>
    dsimp only
    split
    · exact .refl s
    · rename_i hin
      refine ⟨fun _ _ => rfl, rfl, fun _ => rfl, fun _ j hj => ?_⟩
      have hlast := row_offset_mono (P := P) (headLevel_early hlevel hstage)
      have hcell : gy.toNat * (P.head_ level).W_grid + gx.toNat <
          (P.head_ level).H_grid * (P.head_ level).W_grid := by
        have hx : gx.toNat < (P.head_ level).W_grid := by omega
        have hy : gy.toNat + 1 ≤ (P.head_ level).H_grid := by omega
        have hmul := Nat.mul_le_mul_right (P.head_ level).W_grid hy
        rw [Nat.succ_mul] at hmul
        omega
      rw [Nat.succ_eq_add_one, row_offset_succ] at hlast
      have hrow := Nat.mul_le_mul_right P.row_stride
        (show P.row_offset level + gy.toNat * (P.head_ level).W_grid + gx.toNat + 1 ≤
          P.row_offset (P.num_head_levels_ - 1) by omega)
      rw [Nat.succ_mul] at hrow
      unfold SslaSDetector.lastLevelOff at hj
      unfold DetectorState.publishOutput SslaSDetector.decodeInto
      dsimp only
      exact (writeRow_above _ _ _ (by omega)).symm

end Head

section Threads

variable [CommRing R] {P : SslaSDetector R} {s t : DetectorState R}

theorem preprocess_own (e : Event R) (h : StagePart P 0 s t) :
    (P.preprocess s e).2 = (P.preprocess t e).2 ∧
      StagePart P 0 (P.preprocess s e).1 (P.preprocess t e).1 := by
  have htime : s.pipe.last_t_us_ = t.pipe.last_t_us_ := h.last_t_us_ rfl
  unfold SslaSDetector.preprocess SslaSPipeline.preprocess
  dsimp only
  split
  · exact ⟨rfl, h.hidden_, h.tdrop_counter_, fun _ => htime, h.last_predictions_⟩
  · rw [htime]
    exact ⟨rfl, h.hidden_, h.tdrop_counter_, fun _ => rfl, h.last_predictions_⟩

theorem preprocess_other (e : Event R) (j : Nat) (hj : j ≠ 0) :
    StagePart P j s (P.preprocess s e).1 :=
  ⟨fun _ _ => rfl, rfl, fun h => absurd h hj, fun _ _ _ => rfl⟩

theorem forwardMsg_own (i x y : Nat) (feat : Nat → R) (h : StagePart P i s t) :
    (P.forwardMsg s i x y feat).2 = (P.forwardMsg t i x y feat).2 ∧
      StagePart P i (P.forwardMsg s i x y feat).1 (P.forwardMsg t i x y feat).1 := by
  unfold SslaSDetector.forwardMsg
  split
  · rename_i hi
    have hforward : SameForward (fun _ => 0) (fun _ => 0) i (chans i)
        (P.stageForward s x y ⟨i, hi⟩ feat fun _ => 0) (P.stageForward t x y ⟨i, hi⟩ feat fun _ => 0) :=
      have hs : SameStage (⟨i, hi⟩ : Fin 4) s t := h.hidden_
      hs.stageForward
    obtain ⟨hsame, v, hv, hv'⟩ := hforward
    refine ⟨?_, ?_⟩
    · dsimp only
      rw [hv, hv']
    · exact OnlyStage.own (onlyStage_stageForward P x y feat _ ⟨i, hi⟩)
        (onlyStage_stageForward P x y feat _ ⟨i, hi⟩) h hsame
  · exact ⟨rfl, h⟩

theorem forwardMsg_other (i j x y : Nat) (feat : Nat → R) (hj : j ≠ i) :
    StagePart P j s (P.forwardMsg s i x y feat).1 := by
  unfold SslaSDetector.forwardMsg
  split
  · rename_i hi
    exact (onlyStage_stageForward P x y feat _ ⟨i, hi⟩).part hj
  · exact .refl s

theorem threadFinish_own (i : Nat) (out : Option (StageMsg R (chans i))) (h : StagePart P i s t) :
    (P.threadFinish i s out).2 = (P.threadFinish i t out).2 ∧
      StagePart P i (P.threadFinish i s out).1 (P.threadFinish i t out).1 := by
  cases out with
  | none => exact ⟨rfl, h⟩
  | some out =>
    unfold SslaSDetector.threadFinish
    dsimp only
    split
    · rename_i hi
      obtain ⟨hout, hpart⟩ := tdropAndPool_own i out.x out.y h hi
      rw [hout]
      exact ⟨rfl, hpart⟩
    · split
      · exact ⟨rfl, headDecodeCell_own 3 i _ _ _ h⟩
      · exact ⟨rfl, h⟩

theorem threadFinish_other (i j : Nat) (out : Option (StageMsg R (chans i))) (hj : j ≠ i) :
    StagePart P j s (P.threadFinish i s out).1 := by
  cases out with
  | none => exact .refl s
  | some out =>
    unfold SslaSDetector.threadFinish
    dsimp only
    split
    · exact tdropAndPool_other i j out.x out.y hj
    · split
      · rename_i hi
        exact headDecodeCell_other 3 j _ _ _ (by omega)
      · exact .refl s

variable (P) in
/-- The stage threads of one pipeline do not disturb each other. -/
theorem stageThreads_local : P.stageThreads.Local (StagePart P) where
  refl := fun _ => .refl
  symm := fun _ _ _ => .symm
  trans := fun _ _ _ _ => .trans
  forward_own := by
    intro i s t m h
    cases i with
    | zero =>
      change (P.threadForward 0 s m).2 = (P.threadForward 0 t m).2 ∧
        StagePart P 0 (P.threadForward 0 s m).1 (P.threadForward 0 t m).1
      unfold SslaSDetector.threadForward
      dsimp only
      split
      · exact ⟨rfl, h⟩
      · obtain ⟨hin, hpre⟩ := preprocess_own m h
        rw [hin]
        exact forwardMsg_own 0 _ _ _ hpre
    | succ i => exact forwardMsg_own (i + 1) m.x m.y (featBuf m.feat) h
  forward_other := by
    intro i j s m hj
    cases i with
    | zero =>
      change StagePart P j s (P.threadForward 0 s m).1
      unfold SslaSDetector.threadForward
      dsimp only
      split
      · exact .refl s
      · exact (preprocess_other m j hj).trans (forwardMsg_other 0 j _ _ _ hj)
    | succ i => exact forwardMsg_other (i + 1) j m.x m.y (featBuf m.feat) hj
  finish_own := fun i _ _ _ out h => threadFinish_own i out h
  finish_other := fun i j _ _ out hj => threadFinish_other i j out hj

end Threads

end SslaRt
