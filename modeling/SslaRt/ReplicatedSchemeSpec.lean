import SslaRt.ReplicatedScheme
import SslaRt.ShardLayerSpec
import SslaRt.StagePipelineParts
import SslaRt.Scan

/-! Scheme 7 gives every event on its owner's pipeline what the sequential scheme gives
exactly if one shard owns all columns. -/

namespace SslaRt

variable {R : Type*}

/-- The states agree on all that the stages and the last level of the head read. -/
structure SameRun (P : SslaSDetector R) (s t : DetectorState R) : Prop where
  hidden_ : ∀ stage, SameStage stage s t
  tdrop_counter_ : s.tdrop_counter_ = t.tdrop_counter_
  rows : ∀ j, P.lastLevelOff ≤ j → s.last_predictions_ j = t.last_predictions_ j

section Same

variable [CommRing R] {P : SslaSDetector R} {s t u : DetectorState R}

omit [CommRing R] in
theorem SameRun.symm (h : SameRun P s t) : SameRun P t s :=
  ⟨fun stage l hl => (h.hidden_ stage l hl).symm, h.tdrop_counter_.symm, fun j hj => (h.rows j hj).symm⟩

omit [CommRing R] in
theorem SameRun.trans (h : SameRun P s t) (h' : SameRun P t u) : SameRun P s u :=
  ⟨fun stage l hl => (h.hidden_ stage l hl).trans (h'.hidden_ stage l hl),
    h.tdrop_counter_.trans h'.tdrop_counter_, fun j hj => (h.rows j hj).trans (h'.rows j hj)⟩

theorem SameRun.stageForward (h : SameRun P s t) (x y : Nat) (stage : Fin 4) (feat_in feat_out : Nat → R) :
    (P.stageForward s x y stage feat_in feat_out).2 = (P.stageForward t x y stage feat_in feat_out).2 ∧
      SameRun P (P.stageForward s x y stage feat_in feat_out).1
        (P.stageForward t x y stage feat_in feat_out).1 := by
  have hs := onlyStage_stageForward (s := s) P x y feat_in feat_out stage
  have ht := onlyStage_stageForward (s := t) P x y feat_in feat_out stage
  have hforward : SameForward feat_out feat_out stage (chans stage)
      (P.stageForward s x y stage feat_in feat_out) (P.stageForward t x y stage feat_in feat_out) :=
    (h.hidden_ stage).stageForward
  obtain ⟨hsame, v, hv, hv'⟩ := hforward
  refine ⟨by rw [hv, hv'], fun k l hl => ?_, ?_, fun j hj => ?_⟩
  · by_cases hk : k = stage
    · exact hsame l (hk ▸ hl)
    · rw [hs.hidden_ l (hl ▸ hk), ht.hidden_ l (hl ▸ hk)]
      exact h.hidden_ k l hl
  · rw [hs.tdrop_counter_, ht.tdrop_counter_, h.tdrop_counter_]
  · rw [hs.last_predictions_, ht.last_predictions_]
    exact h.rows j hj

omit [CommRing R] in
theorem SameRun.tdropAndPool (h : SameRun P s t) (stage x y : Nat) :
    (P.tdropAndPool s stage x y).2 = (P.tdropAndPool t stage x y).2 ∧
      SameRun P (P.tdropAndPool s stage x y).1 (P.tdropAndPool t stage x y).1 := by
  have hc : s.pipe.tdrop_counter_ = t.pipe.tdrop_counter_ := h.tdrop_counter_
  unfold SslaSDetector.tdropAndPool SslaSPipeline.tdropAndPool SslaSPipeline.tdropCheckAt
  dsimp only
  rw [hc]
  split
  · exact ⟨rfl, h.hidden_, hc, h.rows⟩
  · exact ⟨rfl, h.hidden_, rfl, h.rows⟩

/-- The head is written; the stages do not read it. -/
theorem headDecodeCell_kept (stage : Nat) (gx gy : Int) (feat : Nat → R) :
    (P.headDecodeCell s stage gx gy feat).hidden_ = s.hidden_ ∧
      (P.headDecodeCell s stage gx gy feat).tdrop_counter_ = s.tdrop_counter_ := by
  unfold SslaSDetector.headDecodeCell
  cases P.headLevel stage with
  | none => exact ⟨rfl, rfl⟩
  | some level =>
    dsimp only
    split
    · exact ⟨rfl, rfl⟩
    · exact ⟨rfl, rfl⟩

theorem SameRun.headDecodeCell (h : SameRun P s t) (stage : Nat) (gx gy : Int) (feat : Nat → R) :
    SameRun P (P.headDecodeCell s stage gx gy feat) (P.headDecodeCell t stage gx gy feat) := by
  have hs := headDecodeCell_kept (P := P) (s := s) stage gx gy feat
  have ht := headDecodeCell_kept (P := P) (s := t) stage gx gy feat
  have hpart : StagePart P 3 s t :=
    ⟨h.hidden_ 3, congrFun h.tdrop_counter_ 3, nofun, fun _ => h.rows⟩
  refine ⟨fun k => ?_, ?_, (headDecodeCell_own stage 3 gx gy feat hpart).last_predictions_ rfl⟩
  · unfold SameStage
    rw [hs.1, ht.1]
    exact h.hidden_ k
  · rw [hs.2, ht.2, h.tdrop_counter_]

/-- A level before the last one is written above the rows of the last. -/
theorem sameRun_headDecodeCell_early {stage : Nat} (hstage : stage < 3) (gx gy : Int) (feat : Nat → R) :
    SameRun P s (P.headDecodeCell s stage gx gy feat) := by
  have hs := headDecodeCell_kept (P := P) (s := s) stage gx gy feat
  refine ⟨fun k => ?_, hs.2.symm, (headDecodeCell_early stage 3 gx gy feat hstage).last_predictions_ rfl⟩
  unfold SameStage
  rw [hs.1]
  exact fun _ _ => rfl

omit [CommRing R] in
theorem headLevel_last : P.headLevel 3 = some (P.num_head_levels_ - 1) := by
  have hpos := P.levels_pos
  have hle := P.levels_le
  unfold SslaSDetector.headLevel
  rw [List.find?_range_eq_some]
  refine ⟨?_, List.mem_range.mpr (by omega), fun j hj => ?_⟩
  · unfold SslaSDetector.head_stage_idx_
    simp only [decide_eq_true_eq]
    omega
  · unfold SslaSDetector.head_stage_idx_
    simp only [Bool.not_eq_true', decide_eq_false_iff_not]
    omega

omit [CommRing R] in
theorem SameRun.headCellRow (h : SameRun P s t) (gx gy : Nat) :
    P.headCellRow s gx gy = P.headCellRow t gx gy := by
  unfold SslaSDetector.headCellRow
  rw [headLevel_last]
  simp only [Option.map_some, Option.some.injEq]
  refine List.map_congr_left fun o _ => h.rows _ ?_
  have hle := Nat.mul_le_mul_right P.row_stride (show P.row_offset (P.num_head_levels_ - 1) ≤
    P.row_offset (P.num_head_levels_ - 1) + gy * (P.head_ (P.num_head_levels_ - 1)).W_grid + gx by omega)
  unfold SslaSDetector.lastLevelOff
  omega

variable (P) in
/-- What follows stage 3 may differ above the rows of the last level. -/
def SameDecode (d d' : DetectorState R → (Fin 4 → SslaSDetector.Touched R) → DetectorState R) : Prop :=
  ∀ s t at_, SameRun P s t → SameRun P (d s at_) (d' t at_)

theorem SameRun.throughStages {d d' : DetectorState R → (Fin 4 → SslaSDetector.Touched R) → DetectorState R}
    (hd : SameDecode P d d') (h : SameRun P s t) (x y : Nat) (feat_in : Nat → R) :
    (P.throughStages d s x y feat_in).2 = (P.throughStages d' t x y feat_in).2 ∧
      SameRun P (P.throughStages d s x y feat_in).1 (P.throughStages d' t x y feat_in).1 := by
  unfold SslaSDetector.throughStages
  dsimp only
  obtain ⟨hf0, h⟩ := h.stageForward x y 0 feat_in fun _ => 0
  obtain ⟨hp0, h⟩ := h.tdropAndPool 0 x y
  rw [hf0, hp0]
  split
  · exact ⟨rfl, h⟩
  · obtain ⟨hf1, h⟩ := h.stageForward _ _ 1 _ fun _ => 0
    obtain ⟨hp1, h⟩ := h.tdropAndPool 1 _ _
    rw [hf1, hp1]
    split
    · exact ⟨rfl, h⟩
    · obtain ⟨hf2, h⟩ := h.stageForward _ _ 2 _ fun _ => 0
      obtain ⟨hp2, h⟩ := h.tdropAndPool 2 _ _
      rw [hf2, hp2]
      split
      · exact ⟨rfl, h⟩
      · obtain ⟨hf3, h⟩ := h.stageForward _ _ 3 _ fun _ => 0
        rw [hf3]
        have hlast := fun at_ => hd _ _ at_ h
        exact ⟨by rw [(hlast _).headCellRow], hlast _⟩

theorem throughStages_last_t_us {d : DetectorState R → (Fin 4 → SslaSDetector.Touched R) → DetectorState R}
    (hd : ∀ s at_, (d s at_).last_t_us_ = s.last_t_us_) (x y : Nat) (feat_in : Nat → R) :
    (P.throughStages d s x y feat_in).1.last_t_us_ = s.last_t_us_ := by
  have hf := fun (u : DetectorState R) (stage : Fin 4) (x y : Nat) (feat : Nat → R) =>
    (onlyStage_stageForward (s := u) P x y feat (fun _ => 0) stage).last_t_us_
  have hp := fun (u : DetectorState R) (stage x y : Nat) =>
    show (P.tdropAndPool u stage x y).1.last_t_us_ = u.last_t_us_ from rfl
  unfold SslaSDetector.throughStages
  dsimp only
  split
  · rw [hp, hf]
  · split
    · rw [hp, hf, hp, hf]
    · split
      · rw [hp, hf, hp, hf, hp, hf]
      · rw [hd, hf, hp, hf, hp, hf, hp, hf]

theorem headDecodeCell_last_t_us (stage : Nat) (gx gy : Int) (feat : Nat → R) :
    (P.headDecodeCell s stage gx gy feat).last_t_us_ = s.last_t_us_ := by
  unfold SslaSDetector.headDecodeCell
  cases P.headLevel stage with
  | none => rfl
  | some level =>
    dsimp only
    split
    · rfl
    · rfl

theorem preprocess_congr (h : s.last_t_us_ = t.last_t_us_) (e : Event R) :
    (P.preprocess s e).2 = (P.preprocess t e).2 ∧
      (P.preprocess s e).1.last_t_us_ = (P.preprocess t e).1.last_t_us_ := by
  have hpipe : s.pipe.last_t_us_ = t.pipe.last_t_us_ := h
  unfold SslaSDetector.preprocess SslaSPipeline.preprocess
  dsimp only
  rw [hpipe]
  split
  · exact ⟨rfl, hpipe⟩
  · exact ⟨rfl, rfl⟩

theorem sameRun_preprocess (e : Event R) : SameRun P s (P.preprocess s e).1 :=
  ⟨fun _ _ _ => rfl, rfl, fun _ _ => rfl⟩

end Same

section Broadcast

variable {W N : Nat}

theorem markShard_bit (affected : Nat → BitVec 8) (s k : Nat) :
    (markShard affected s (k / 8)).getLsbD (k % 8) =
      ((affected (k / 8)).getLsbD (k % 8) || decide (k = s)) := by
  unfold markShard
  by_cases hbyte : k / 8 = s / 8
  · rw [hbyte, Function.update_self, BitVec.getLsbD_or, ← BitVec.twoPow_eq, BitVec.getLsbD_twoPow]
    congr 1
    by_cases hk : k = s
    · simp [hk, Nat.mod_lt]
    · simp [hk, show s % 8 ≠ k % 8 by omega]
  · rw [Function.update_of_ne hbyte]
    simp [show k ≠ s by omega]

theorem clampCol_clampCol (c : Int) : clampCol W (clampCol W c) = clampCol W c := by
  simp only [clampCol]
  split_ifs <;> omega

theorem shardOfCol_clampCol (c : Int) : shardOfCol W N (clampCol W c) = shardOfCol W N c := by
  simp only [shardOfCol, clampCol_clampCol]

theorem isAffected_iff (ex : Int) (k : Nat) : isAffected W N ex k = true ↔
    k = shardOfCol W N (ex - 1) ∨ k = shardOfCol W N ex ∨ k = shardOfCol W N (ex + 1) := by
  simp only [isAffected, affectedBytes, markShard_bit, shardOfCol_clampCol, Bool.or_eq_true,
    decide_eq_true_eq]
  simp [or_assoc]

end Broadcast

section Outcomes

open Scan

variable [CommRing R] (P : SslaSDetector R) (N : Nat) (s : DetectorState R) (events : List (Event R))

namespace SslaSDetector

omit [CommRing R] in
/-- The shard of an event of the grid. -/
def ownerOf (e : Event R) : Option Nat :=
  if P.OutOfBounds (castInt e.x) (castInt e.y) then none else some (shardOfCol P.W_ N (castInt e.x))

def pushAll : ReplicatedState R := events.foldl (P.pushOne N) ⟨fun _ => s, fun _ => []⟩

/-- What shard `k` computes for the events that it owns. -/
def ownerOutcomes (k : Nat) : List (Outcome R) :=
  let st := P.pushAll N s events
  (((st.q_own k).zip (outs P.shardEvent (st.pipes k) (st.q_own k))).filter fun m => m.1.is_owner).map
    Prod.snd

/-- What the sequential scheme computes for the events of shard `k`. -/
def referenceOutcomes (k : Nat) : List (Outcome R) :=
  (events.zip (outs P.referenceEvent s events)).filterMap fun m =>
    if P.ownerOf N m.1 = some k then m.2 else none

def Strict : Prop := ∀ k < N, P.ownerOutcomes N s events k = P.referenceOutcomes N s events k

end SslaSDetector

variable {P N s events}

theorem pushAll_append (e : Event R) :
    P.pushAll N s (events ++ [e]) = P.pushOne N (P.pushAll N s events) e := by
  simp [SslaSDetector.pushAll]

theorem referenceOutcomes_snoc (e : Event R) (k : Nat) :
    P.referenceOutcomes N s (events ++ [e]) k = P.referenceOutcomes N s events k ++
      if P.ownerOf N e = some k then (P.referenceEvent (final P.referenceEvent s events) e).2.toList
      else [] := by
  unfold SslaSDetector.referenceOutcomes
  rw [outs_append, List.zip_append (outs_length ..).symm, List.filterMap_append]
  congr 1
  simp only [outs, List.zip_cons_cons, List.zip_nil_right]
  split
  · rename_i hk
    cases (P.referenceEvent (final P.referenceEvent s events) e).2 <;> simp [hk]
  · rename_i hk
    simp [hk]

/-- A shard that owns no event reports none. -/
theorem referenceOutcomes_nil {k : Nat} (h : ∀ e ∈ events, P.ownerOf N e ≠ some k) :
    P.referenceOutcomes N s events k = [] := by
  unfold SslaSDetector.referenceOutcomes
  rw [List.filterMap_eq_nil_iff]
  intro m hm
  exact if_neg (h m.1 (List.of_mem_zip hm).1)

theorem pushOne_outside (st : ReplicatedState R) {e : Event R} (h : P.ownerOf N e = none) :
    P.OutOfBounds (castInt e.x) (castInt e.y) ∧ P.pushOne N st e = st := by
  unfold SslaSDetector.ownerOf at h
  have hout : P.OutOfBounds (castInt e.x) (castInt e.y) := by
    by_contra hin
    simp [hin] at h
  exact ⟨hout, if_pos hout⟩

/-- What an event of shard `k` adds to the queues. -/
theorem pushOne_inside (st : ReplicatedState R) {e : Event R} {k : Nat} (hN : 0 < N)
    (h : P.ownerOf N e = some k) :
    ¬ P.OutOfBounds (castInt e.x) (castInt e.y) ∧
      (P.pushOne N st e).pipes k = (P.preprocess (st.pipes k) e).1 ∧
      (P.pushOne N st e).q_own k = st.q_own k ++ [⟨true, 0x1FF#16, (castInt e.x).toNat,
        (castInt e.y).toNat, (P.preprocess (st.pipes k) e).2⟩] ∧
      ∀ j ≠ k, ∀ m ∈ (P.pushOne N st e).q_own j, m ∈ st.q_own j ∨ m.is_owner = false := by
  unfold SslaSDetector.ownerOf at h
  have hin : ¬ P.OutOfBounds (castInt e.x) (castInt e.y) := by
    intro hout
    simp [hout] at h
  rw [if_neg hin] at h
  obtain rfl : shardOfCol P.W_ N (castInt e.x) = k := by simpa using h
  have hk := shardOfCol_lt (W := P.W_) hN (castInt e.x)
  have haffected : isAffected P.W_ N (castInt e.x) (shardOfCol P.W_ N (castInt e.x)) = true :=
    (isAffected_iff _ _).mpr (.inr (.inl rfl))
  unfold SslaSDetector.pushOne
  rw [if_neg hin]
  refine ⟨hin, by simp, by simp [hk, haffected], fun j hj m hm => ?_⟩
  dsimp only at hm
  split at hm
  · rcases List.mem_append.mp hm with hm | hm
    · exact .inl hm
    · rw [List.mem_singleton.mp hm]
      exact .inr (by simp [hj])
  · exact .inl hm

theorem sameDecode_last : SameDecode P
    (fun s at_ => P.headDecodeCell s 3 (at_ 3).x (at_ 3).y (at_ 3).feat) fun s at_ =>
      P.headDecodeCell (P.headDecodeCell (P.headDecodeCell (P.headDecodeCell s 0 (at_ 0).x (at_ 0).y
        (at_ 0).feat) 1 (at_ 1).x (at_ 1).y (at_ 1).feat) 2 (at_ 2).x (at_ 2).y (at_ 2).feat) 3
        (at_ 3).x (at_ 3).y (at_ 3).feat := by
  intro s t at_ h
  have h0 := h.trans (sameRun_headDecodeCell_early (P := P) (s := t) (show 0 < 3 by decide)
    (at_ 0).x (at_ 0).y (at_ 0).feat)
  have h1 := h0.trans (sameRun_headDecodeCell_early (show 1 < 3 by decide)
    (at_ 1).x (at_ 1).y (at_ 1).feat)
  have h2 := h1.trans (sameRun_headDecodeCell_early (show 2 < 3 by decide)
    (at_ 2).x (at_ 2).y (at_ 2).feat)
  exact h2.headDecodeCell 3 _ _ _

theorem shardEvent_owner (u : DetectorState R) (x y : Nat) (mask : BitVec 16) (feat_in : Fin kInDim → R) :
    P.shardEvent u ⟨true, mask, x, y, feat_in⟩ =
      P.throughStages (fun s at_ => P.headDecodeCell s 3 (at_ 3).x (at_ 3).y (at_ 3).feat) u x y
        (featBuf feat_in) := by
  unfold SslaSDetector.shardEvent
  exact if_pos rfl

/-- An owner's event after the same run is the event of the sequential scheme. -/
theorem shardEvent_referenceEvent {u v v' : DetectorState R} {e : Event R} (mask : BitVec 16)
    (hin : ¬ P.OutOfBounds (castInt e.x) (castInt e.y)) (h : SameRun P u v)
    (htime : v'.last_t_us_ = v.last_t_us_) :
    (P.referenceEvent v e).2 = some (P.shardEvent u ⟨true, mask, (castInt e.x).toNat,
        (castInt e.y).toNat, (P.preprocess v' e).2⟩).2 ∧
      SameRun P (P.shardEvent u ⟨true, mask, (castInt e.x).toNat, (castInt e.y).toNat,
        (P.preprocess v' e).2⟩).1 (P.referenceEvent v e).1 := by
  rw [shardEvent_owner, (preprocess_congr htime e).1]
  obtain ⟨hout, hrun⟩ := (h.trans (sameRun_preprocess e)).throughStages sameDecode_last
    (castInt e.x).toNat (castInt e.y).toNat (featBuf (P.preprocess v e).2)
  unfold SslaSDetector.referenceEvent
  rw [if_neg hin, hout]
  exact ⟨rfl, hrun⟩

theorem referenceEvent_last_t_us {v : DetectorState R} {e : Event R}
    (hin : ¬ P.OutOfBounds (castInt e.x) (castInt e.y)) :
    (P.referenceEvent v e).1.last_t_us_ = (P.preprocess v e).1.last_t_us_ := by
  unfold SslaSDetector.referenceEvent
  rw [if_neg hin]
  refine throughStages_last_t_us (fun u at_ => ?_) _ _ _
  simp only [headDecodeCell_last_t_us]

/-- All events so far have been the shard's own: its pipeline went along with the
sequential one. -/
structure Follows (P : SslaSDetector R) (N : Nat) (s : DetectorState R) (events : List (Event R))
    (k : Nat) : Prop where
  others : ∀ j ≠ k, ∀ m ∈ (P.pushAll N s events).q_own j, m.is_owner = false
  own : ∀ m ∈ (P.pushAll N s events).q_own k, m.is_owner = true
  times : ((P.pushAll N s events).pipes k).last_t_us_ = (final P.referenceEvent s events).last_t_us_
  pipe : SameRun P s ((P.pushAll N s events).pipes k)
  run : ∀ t, SameRun P s t →
    outs P.shardEvent t ((P.pushAll N s events).q_own k) = P.referenceOutcomes N s events k ∧
      SameRun P (final P.shardEvent t ((P.pushAll N s events).q_own k)) (final P.referenceEvent s events)

theorem follows (hN : 0 < N) {k : Nat} (h : ∀ e ∈ events, ∀ j, P.ownerOf N e = some j → j = k) :
    Follows P N s events k := by
  induction events using List.reverseRecOn with
  | nil =>
    have hnil : P.pushAll N s [] = ⟨fun _ => s, fun _ => []⟩ := rfl
    exact ⟨fun _ _ _ hm => absurd hm List.not_mem_nil, fun _ hm => absurd hm List.not_mem_nil, rfl,
      ⟨fun _ _ _ => rfl, rfl, fun _ _ => rfl⟩, fun t ht => ⟨rfl, ht.symm⟩⟩
  | append_singleton events e ih =>
    have hf := ih fun e' he' => h e' (List.mem_append_left _ he')
    cases howner : P.ownerOf N e with
    | none =>
      obtain ⟨hout, hsame⟩ := pushOne_outside (P.pushAll N s events) howner
      have href : P.referenceEvent (final P.referenceEvent s events) e =
          (final P.referenceEvent s events, none) := if_pos hout
      have hfinal : final P.referenceEvent s (events ++ [e]) = final P.referenceEvent s events := by
        rw [final_append, final_cons, final_nil, href]
      refine ⟨?_, ?_, ?_, ?_, ?_⟩
      · rw [pushAll_append, hsame]
        exact hf.others
      · rw [pushAll_append, hsame]
        exact hf.own
      · rw [pushAll_append, hsame, hfinal]
        exact hf.times
      · rw [pushAll_append, hsame]
        exact hf.pipe
      · rw [pushAll_append, hsame, hfinal, referenceOutcomes_snoc, if_neg (by simp [howner]), List.append_nil]
        exact hf.run
    | some j =>
      obtain rfl : j = k := h e (List.mem_append_right _ List.mem_cons_self) j howner
      obtain ⟨hin, hpipe, hq, hothers⟩ := pushOne_inside (P.pushAll N s events) hN howner
      have hfinal : final P.referenceEvent s (events ++ [e]) =
          (P.referenceEvent (final P.referenceEvent s events) e).1 := by
        rw [final_append, final_cons, final_nil]
      refine ⟨fun i hi m hm => ?_, fun m hm => ?_, ?_, ?_, fun t ht => ?_⟩
      · rw [pushAll_append] at hm
        exact (hothers i hi m hm).elim (hf.others i hi m) id
      · rw [pushAll_append, hq] at hm
        rcases List.mem_append.mp hm with hm | hm
        · exact hf.own m hm
        · rw [List.mem_singleton.mp hm]
      · rw [pushAll_append, hpipe, (preprocess_congr hf.times e).2, hfinal, referenceEvent_last_t_us hin]
      · rw [pushAll_append, hpipe]
        exact hf.pipe.trans (sameRun_preprocess e)
      · obtain ⟨houts, hsame⟩ := hf.run t ht
        obtain ⟨hout, hrun⟩ := shardEvent_referenceEvent (0x1FF#16) hin hsame hf.times
        rw [pushAll_append, hq, hfinal, final_append, final_cons, final_nil, outs_append,
          referenceOutcomes_snoc, if_pos howner, houts, hout]
        exact ⟨rfl, hrun⟩

/-- Events of one shard are processed as in the sequential scheme. -/
theorem strict_of_one_owner (hN : 0 < N) {k : Nat}
    (h : ∀ e ∈ events, ∀ j, P.ownerOf N e = some j → j = k) : P.Strict N s events := by
  have hf := follows (s := s) hN h
  intro i hi
  by_cases hik : i = k
  · subst hik
    unfold SslaSDetector.ownerOutcomes
    dsimp only
    rw [List.filter_eq_self.mpr fun m hm => hf.own m.1 (List.of_mem_zip hm).1,
      List.map_snd_zip (outs_length ..).le]
    exact (hf.run _ hf.pipe).1
  · rw [referenceOutcomes_nil fun e he howner => hik (h e he i howner)]
    unfold SslaSDetector.ownerOutcomes
    dsimp only
    rw [List.filter_eq_nil_iff.mpr fun m hm => by simp [hf.others i hik m.1 (List.of_mem_zip hm).1]]
    rfl

end Outcomes

end SslaRt
