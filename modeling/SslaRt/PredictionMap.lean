import SslaRt.ColdStart
import SslaRt.Geometry
import SslaRt.FusedStages

/-! The prediction tensor is a map from head cells to rows: a row holds the
decode of the last feature passed for its cell. -/

namespace SslaRt

variable {R : Type*}

/-- One call of `head_decode_cell`. -/
structure HeadCall (R : Type*) where
  stage : Int
  gx : Int
  gy : Int
  feat : Nat → R

namespace SslaSDetector

section Rows

variable (P : SslaSDetector R)

/-- A level, a row and a column of its grid. -/
def HeadCell (c : Nat × Nat × Nat) : Prop :=
  c.1 < P.num_head_levels_ ∧ c.2.1 < (P.head_ c.1).H_grid ∧ c.2.2 < (P.head_ c.1).W_grid

def anchorRow (c : Nat × Nat × Nat) : Nat :=
  P.row_offset c.1 + c.2.1 * (P.head_ c.1).W_grid + c.2.2

variable {P} {c c' : Nat × Nat × Nat}

theorem mem_headCells : c ∈ P.headCells ↔ P.HeadCell c := by
  obtain ⟨level, gy, gx⟩ := c
  simp [headCells, HeadCell]

theorem row_offset_succ (level : Nat) : P.row_offset (level + 1) =
    P.row_offset level + (P.head_ level).H_grid * (P.head_ level).W_grid := by
  simp [row_offset, List.range_succ]

theorem row_offset_mono : Monotone P.row_offset :=
  monotone_nat_of_le_succ fun level => by rw [row_offset_succ]; exact Nat.le_add_right _ _

theorem HeadCell.row_lt (h : P.HeadCell c) : P.anchorRow c < P.row_offset (c.1 + 1) := by
  have hrow := rowMajor_lt h.2.2 h.2.1
  rw [row_offset_succ, anchorRow]
  omega

theorem HeadCell.row_lt_total (h : P.HeadCell c) : P.anchorRow c < P.total_anchors_ :=
  h.row_lt.trans_le (row_offset_mono h.1)

theorem HeadCell.row_inj (h : P.HeadCell c) (h' : P.HeadCell c')
    (he : P.anchorRow c = P.anchorRow c') : c = c' := by
  have hlevel : c.1 = c'.1 := by
    rcases Nat.lt_trichotomy c.1 c'.1 with hlt | heq | hlt
    · have hle := row_offset_mono (P := P) (show c.1 + 1 ≤ c'.1 from hlt)
      have hrow := h.row_lt
      unfold anchorRow at he hrow
      omega
    · exact heq
    · have hle := row_offset_mono (P := P) (show c'.1 + 1 ≤ c.1 from hlt)
      have hrow := h'.row_lt
      unfold anchorRow at he hrow
      omega
  obtain ⟨level, gy, gx⟩ := c
  obtain ⟨level', gy', gx'⟩ := c'
  obtain rfl : level = level' := hlevel
  have hrow : gy * (P.head_ level).W_grid + gx = gy' * (P.head_ level).W_grid + gx' := by
    simp only [anchorRow] at he
    omega
  obtain ⟨rfl, hx⟩ := rowMajor_inj h.2.2 h'.2.2 hrow
  obtain rfl : gx = gx' := hx
  rfl

theorem writeRow_row {n : Nat} (buf : Nat → R) (row : Fin n → R) (r r' : Nat) (i : Fin n) :
    writeRow buf (r * n) row (r' * n + i) = if r' = r then row i else buf (r' * n + i) := by
  unfold writeRow
  by_cases hr : r' = r
  · subst hr
    rw [if_pos rfl, dif_pos ⟨Nat.le_add_right _ _, by omega⟩]
    congr 1
    exact Fin.ext (Nat.add_sub_cancel_left _ _)
  · rw [if_neg hr, dif_neg]
    rintro ⟨hle, hlt⟩
    have hn : 0 < n := i.pos
    rcases Nat.lt_or_gt_of_ne hr with h | h
    · have hmul := Nat.mul_le_mul_right n (show r' + 1 ≤ r from h)
      rw [Nat.succ_mul] at hmul
      omega
    · have hmul := Nat.mul_le_mul_right n (show r + 1 ≤ r' from h)
      rw [Nat.succ_mul] at hmul
      omega

end Rows

variable [CommRing R] (P : SslaSDetector R)

/-- The row that a feature decodes to at a head cell. -/
def cellDecode (c : Nat × Nat × Nat) (feat : Nat → R) : Fin P.row_stride → R :=
  (decodeYoloxCell P.hm (P.head_ c.1) c.2.2 c.2.1 feat ⟨0, 0, 0⟩).1

def tensorRow (s : DetectorState R) (c : Nat × Nat × Nat) : Fin P.row_stride → R :=
  fun i => s.last_predictions_ (P.anchorRow c * P.row_stride + i)

/-- No head has a negative stage. -/
def headCall (s : DetectorState R) (call : HeadCall R) : DetectorState R :=
  if call.stage < 0 then s else P.headDecodeCell s call.stage.toNat call.gx call.gy call.feat

/-- The head cell that a call is for, if its stage has a head and its coordinates are in the grid. -/
def target (call : HeadCall R) : Option (Nat × Nat × Nat) :=
  if call.stage < 0 then none
  else (P.headLevel call.stage.toNat).bind fun level =>
    if call.gx < 0 ∨ call.gx ≥ (P.head_ level).W_grid ∨ call.gy < 0 ∨
      call.gy ≥ (P.head_ level).H_grid then none
    else some (level, call.gy.toNat, call.gx.toNat)

/-- The last feature passed for a head cell, zero if there was none. -/
def lastFeat (calls : List (HeadCall R)) (c : Nat × Nat × Nat) : Nat → R :=
  ((calls.reverse.find? fun call => P.target call = some c).map HeadCall.feat).getD 0

section Decode

variable {P} {s : DetectorState R} {c : Nat × Nat × Nat}

theorem lastFeat_snoc (calls : List (HeadCall R)) (call : HeadCall R) (c : Nat × Nat × Nat) :
    P.lastFeat (calls ++ [call]) c =
      if P.target call = some c then call.feat else P.lastFeat calls c := by
  unfold lastFeat
  rw [List.reverse_append, List.reverse_singleton, List.singleton_append, List.find?_cons]
  by_cases h : P.target call = some c
  · simp [h]
  · simp [h]

omit [CommRing R] in
theorem target_headCell {call : HeadCall R} (h : P.target call = some c) :
    P.HeadCell c ∧ P.head_stage_idx_ c.1 = call.stage.toNat := by
  unfold target at h
  split at h
  · exact absurd h (by simp)
  · obtain ⟨level, hlevel, hc⟩ := Option.bind_eq_some_iff.mp h
    split at hc
    · exact absurd hc (by simp)
    · rename_i hin
      injection hc with hc
      subst hc
      rw [headLevel] at hlevel
      have hmem := List.mem_range.mp (List.mem_of_find?_eq_some hlevel)
      have hstage := List.find?_some hlevel
      refine ⟨⟨hmem, ?_, ?_⟩, of_decide_eq_true hstage⟩
      · dsimp only
        omega
      · dsimp only
        omega

theorem decodeInto_row {decode : HeadScratch R → (Fin P.row_stride → R) × HeadScratch R}
    {feat : Nat → R} (hdecode : (decode s.scratch_head_).1 = P.cellDecode c feat)
    (c' : Nat × Nat × Nat) (hc : P.HeadCell c) (hc' : P.HeadCell c') :
    P.tensorRow (P.decodeInto s decode c.1 c.2.2 c.2.1) c' =
      if c' = c then P.cellDecode c feat else P.tensorRow s c' := by
  funext i
  have hrow := writeRow_row s.last_predictions_ (decode s.scratch_head_).1 (P.anchorRow c)
    (P.anchorRow c') i
  refine hrow.trans ?_
  by_cases h : c' = c
  · rw [if_pos h, if_pos (congrArg P.anchorRow h), hdecode]
  · rw [if_neg h, if_neg fun he => h (hc'.row_inj hc he)]
    rfl

/-- A call is a step of the map; a call without a target changes nothing. -/
theorem headCall_none {call : HeadCall R} (h : P.target call = none) : P.headCall s call = s := by
  unfold target at h
  unfold headCall headDecodeCell
  by_cases hneg : call.stage < 0
  · rw [if_pos hneg]
  · rw [if_neg hneg] at h ⊢
    cases hlevel : P.headLevel call.stage.toNat with
    | none => rfl
    | some level =>
      rw [hlevel, Option.bind_some] at h
      dsimp only
      split at h
      · rename_i hout
        rw [if_pos hout]
      · exact absurd h (by simp)

theorem headCall_some {call : HeadCall R} (h : P.target call = some c) :
    ∃ decode : HeadScratch R → (Fin P.row_stride → R) × HeadScratch R,
      (∀ scratch, (decode scratch).1 = P.cellDecode c call.feat) ∧
      P.headCall s call = (P.decodeInto s decode c.1 c.2.2 c.2.1).publishOutput := by
  obtain ⟨-, hstage⟩ := target_headCell h
  unfold target at h
  unfold headCall headDecodeCell
  by_cases hneg : call.stage < 0
  · rw [if_pos hneg] at h
    exact absurd h (by simp)
  · rw [if_neg hneg] at h ⊢
    obtain ⟨level, hlevel, hc⟩ := Option.bind_eq_some_iff.mp h
    split at hc
    · exact absurd hc (by simp)
    · rename_i hin
      injection hc with hc
      subst hc
      rw [hlevel]
      dsimp only at hstage ⊢
      rw [if_neg hin, ← hstage]
      exact ⟨_, fun scratch => decodeYoloxCellCt_row .., rfl⟩

/-- Every row is the decode of the feature that `feat` gives its cell. -/
def Decoded (P : SslaSDetector R) (s : DetectorState R) (feat : Nat × Nat × Nat → Nat → R) : Prop :=
  ∀ c, P.HeadCell c → P.tensorRow s c = P.cellDecode c (feat c)

/-- What `last_output` must be. -/
def Published (P : SslaSDetector R) (s : DetectorState R) : Prop :=
  s.last_output_ = some ⟨[P.total_anchors_, 5 + P.num_classes_], s.last_predictions_⟩ ∧
    s.last_det_.shape = [P.total_anchors_, 5 + P.num_classes_]

theorem headCall_decoded {feat : Nat × Nat × Nat → Nat → R} (hs : Decoded P s feat)
    (call : HeadCall R) : Decoded P (P.headCall s call) fun c =>
      if P.target call = some c then call.feat else feat c := by
  intro c hc
  cases ht : P.target call with
  | none =>
    rw [headCall_none ht]
    exact hs c hc
  | some c' =>
    obtain ⟨decode, hdecode, hcall⟩ := headCall_some (s := s) ht
    rw [hcall]
    refine (decodeInto_row (hdecode _) c (target_headCell ht).1 hc).trans ?_
    dsimp only
    by_cases h : c = c'
    · rw [if_pos h, if_pos (congrArg some h.symm), h]
    · rw [if_neg h, if_neg fun he => h (Option.some.inj he).symm]
      exact hs c hc

theorem headCall_published (hs : Published P s) (call : HeadCall R) :
    Published P (P.headCall s call) := by
  cases ht : P.target call with
  | none => rwa [headCall_none ht]
  | some c =>
    obtain ⟨decode, -, hcall⟩ := headCall_some (s := s) ht
    rw [hcall]
    obtain ⟨-, hshape⟩ := hs
    refine ⟨?_, hshape⟩
    exact congrArg (fun shape => some (DetectionOutput.mk shape _)) hshape

theorem foldl_headCall {start : DetectorState R} (hd : Decoded P start fun _ => 0)
    (hp : Published P start) (calls : List (HeadCall R)) :
    Decoded P (calls.foldl P.headCall start) (P.lastFeat calls) ∧
      Published P (calls.foldl P.headCall start) := by
  induction calls using List.reverseRecOn with
  | nil => exact ⟨hd, hp⟩
  | append_singleton calls call ih =>
    obtain ⟨hdecoded, hpublished⟩ := ih
    rw [List.foldl_append, List.foldl_cons, List.foldl_nil]
    refine ⟨?_, headCall_published hpublished call⟩
    have hlast : P.lastFeat (calls ++ [call]) = fun c =>
        if P.target call = some c then call.feat else P.lastFeat calls c :=
      funext fun c => lastFeat_snoc calls call c
    rw [hlast]
    exact headCall_decoded hdecoded call

end Decode

section Start

variable {P} {s : DetectorState R}

/-- One round of the loops over the cells. -/
def decodeZero (P : SslaSDetector R) (s : DetectorState R) (c : Nat × Nat × Nat) : DetectorState R :=
  P.decodeInto s (decodeYoloxCell P.hm (P.head_ c.1) c.2.2 c.2.1 s.zero_feat_cell_) c.1 c.2.2 c.2.1

theorem foldl_decodeZero (hzero : s.zero_feat_cell_ = 0) {cells : List (Nat × Nat × Nat)}
    (hcells : ∀ c ∈ cells, P.HeadCell c) :
    (cells.foldl P.decodeZero s).zero_feat_cell_ = 0 ∧
      ∀ c ∈ cells, P.tensorRow (cells.foldl P.decodeZero s) c = P.cellDecode c 0 := by
  induction cells using List.reverseRecOn with
  | nil => exact ⟨hzero, nofun⟩
  | append_singleton cells c' ih =>
    obtain ⟨hz, hrows⟩ := ih fun c hc => hcells c (List.mem_append_left _ hc)
    rw [List.foldl_append, List.foldl_cons, List.foldl_nil]
    refine ⟨hz, fun c hc => ?_⟩
    rw [decodeZero, hz]
    refine (decodeInto_row (decodeYoloxCellCt_row ..) c (hcells c' (by simp)) (hcells c hc)).trans ?_
    rcases List.mem_append.mp hc with hc | hc
    · split
      · rename_i h
        rw [h]
      · exact hrows c hc
    · rw [if_pos (List.mem_singleton.mp hc), List.mem_singleton.mp hc]

theorem prepopulate_decoded (hanchors : 0 < P.total_anchors_) (hzero : s.zero_feat_cell_ = 0)
    (hshape : s.last_det_.shape = [P.total_anchors_, 5 + P.num_classes_]) :
    Decoded P (P.prepopulateHeadZero s) (fun _ => 0) ∧ Published P (P.prepopulateHeadZero s) := by
  have hkept := kept_prepopulateHeadZero (s := s) P
  have hlevels := P.levels_pos
  have hshape' := hkept.shape.trans hshape
  unfold prepopulateHeadZero at hshape' ⊢
  rw [if_neg (by omega)] at hshape' ⊢
  obtain ⟨-, hrows⟩ := foldl_decodeZero hzero fun c => (@mem_headCells R P c).mp
  refine ⟨fun c hc => hrows c (mem_headCells.mpr hc), ?_, hshape'⟩
  exact congrArg (fun shape => some (DetectionOutput.mk shape _)) hshape'

omit [CommRing R] in
theorem total_anchors_pos {height width : Int}
    (hload : loadGeometry height width = some (P.H_, P.W_)) : 0 < P.total_anchors_ := by
  obtain ⟨hH, hW⟩ := loadGeometry_bounds hload
  have hlevels := P.levels_pos
  have hle := P.levels_le
  have hfirst : P.HeadCell (0, 0, 0) := by
    refine ⟨hlevels, ?_, ?_⟩
    · exact Nat.div_pos ((Nat.pow_le_pow_right Nat.two_pos (show P.head_stage_idx_ 0 ≤ 3 by
        unfold head_stage_idx_; omega)).trans hH) (Nat.two_pow_pos _)
    · exact Nat.div_pos ((Nat.pow_le_pow_right Nat.two_pos (show P.head_stage_idx_ 0 ≤ 3 by
        unfold head_stage_idx_; omega)).trans hW) (Nat.two_pow_pos _)
  exact Nat.zero_lt_of_lt hfirst.row_lt_total

/-- After a load, and after a reset of whatever a load has become. -/
theorem start_decoded (hanchors : 0 < P.total_anchors_) (stack : Nat → R)
    (history : List (DetectorOp R)) {start : DetectorState R}
    (hstart : start = P.load stack ∨ start = P.reset (Scan.final P.step (P.load stack) history)) :
    Decoded P start (fun _ => 0) ∧ Published P start := by
  rcases hstart with rfl | rfl
  · exact prepopulate_decoded hanchors rfl rfl
  · have hload := kept_prepopulateHeadZero (s := P.allocate stack) P
    have hrun := kept_run P history (P.load stack)
    exact prepopulate_decoded hanchors (hrun.zero_feat_cell_.trans hload.zero_feat_cell_)
      (hrun.shape.trans hload.shape)

end Start

theorem predictions_map {height width : Int} (hload : loadGeometry height width = some (P.H_, P.W_))
    (hsmall : P.total_anchors_ < 2 ^ 31) (stack : Nat → R) (history : List (DetectorOp R))
    {start s : DetectorState R}
    (hstart : start = P.load stack ∨ start = P.reset (Scan.final P.step (P.load stack) history))
    (calls : List (HeadCall R)) (hs : s = calls.foldl P.headCall start) :
    (∀ c, P.HeadCell c → P.tensorRow s c = P.cellDecode c (P.lastFeat calls c)) ∧
      (∀ t call, (P.target call = none → P.headCall t call = t) ∧
        ∀ c, P.HeadCell c → P.target call ≠ some c →
          P.tensorRow (P.headCall t call) c = P.tensorRow t c) ∧
      (∀ c c', P.HeadCell c → P.HeadCell c' → P.anchorRow c = P.anchorRow c' → c = c') ∧
      (∀ c, P.HeadCell c → P.anchorRow c < P.total_anchors_ ∧
        int32 (P.anchorRow c) = P.anchorRow c) ∧
      int32 P.total_anchors_ = P.total_anchors_ ∧
      s.last_output_ = some ⟨[P.total_anchors_, 5 + P.num_classes_], s.last_predictions_⟩ := by
  have hanchors := total_anchors_pos hload
  obtain ⟨hd, hp⟩ := start_decoded hanchors stack history hstart
  obtain ⟨hdecoded, hpublished⟩ := foldl_headCall hd hp calls
  rw [← hs] at hdecoded hpublished
  refine ⟨hdecoded, fun t call => ⟨headCall_none, fun c hc hne => ?_⟩,
    fun c c' hc hc' => hc.row_inj hc', fun c hc => ⟨hc.row_lt_total, ?_⟩, int32_of_lt hsmall,
    hpublished.1⟩
  · cases ht : P.target call with
    | none => rw [headCall_none ht]
    | some c' =>
      obtain ⟨decode, hdecode, hcall⟩ := headCall_some (s := t) ht
      rw [hcall]
      refine (decodeInto_row (hdecode _) c (target_headCell ht).1 hc).trans (if_neg ?_)
      rintro rfl
      exact hne ht
  · exact int32_of_lt (hc.row_lt_total.trans hsmall)

theorem predictions_map_probe :
    let P := probeDetector 8 8 1
    let s := P.headCall (P.load fun _ => 0) ⟨3, 0, 0, fun _ => 1⟩
    P.tensorRow s (0, 0, 0) = P.cellDecode (0, 0, 0) fun _ => 1 :=
  ((probeDetector 8 8 1).predictions_map (show loadGeometry 8 8 = some (8, 8) from rfl) (by decide)
    (fun _ => 0) [] (.inl rfl) [⟨3, 0, 0, fun _ => 1⟩] rfl).1 (0, 0, 0) ⟨by decide, by decide, by decide⟩

/-- Four levels over 65536 x 65536 pixels: the offset of the second level wraps to zero. -/
theorem rows_wrap :
    let P : SslaSDetector ℤ := { probeDetector 65536 65536 1 with
      num_head_levels_ := 4, levels_pos := by decide, levels_le := by decide }
    loadGeometry 65536 65536 = some (P.H_, P.W_) ∧ P.HeadCell (0, 0, 0) ∧ P.HeadCell (1, 0, 0) ∧
      int32 (P.anchorRow (0, 0, 0)) = int32 (P.anchorRow (1, 0, 0)) ∧
      0 < int32 P.total_anchors_ := by
  refine ⟨rfl, ⟨by decide, by decide, by decide⟩, ⟨by decide, by decide, by decide⟩, by decide,
    by decide⟩

end SslaSDetector

end SslaRt
