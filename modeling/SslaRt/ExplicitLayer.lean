import SslaRt.ExplicitDispatch

/-! The layer driven by the task lists. A list schedules the tasks of a warp in
batch order, so that the layer makes the same sweeps as the one whose warps find
their own tasks, although the two give a cell to different warps. -/

namespace SslaRt

open CellMemory Interleave

variable {R : Type*} [CommRing R] (ar : Arith R) (IN OUT : Nat) (Hl Wl : Nat)
  (event_slots : Nat → EventSlot R)

/-- Warp `t.1` runs the task `t.2`, an event and an offset. -/
def listedTask (layer : LayerWeightsS2S3 R) (st : ComputeState R OUT)
    (t : Fin N_WARPS × Nat × Nat) : ComputeState R OUT :=
  let e := t.2.1
  let delta := t.2.2
  match deltaCell Hl Wl (event_slots e).evx (event_slots e).evy delta with
  | none => st
  | some (py, px) =>
    let patch_idx := py * Wl + px
    let in_feat := readFeat IN (event_slots e).in_feat
    let qvg_w := fun n => layer.qvgIn (delta * (3 * OUT * IN) + n)
    let go_w := fun n => layer.goW (delta * (OUT * OUT) + n)
    let r := processPatchCell ar IN OUT in_feat qvg_w go_w (st.1 patch_idx)
    (Function.update st.1 patch_idx r.1, Function.update st.2 (e, t.1) r.2)

def listedPhase (lists : TaskLists) (sched : TaskSchedule lists.task_count)
    (layer : LayerWeightsS2S3 R) (hidden : Nat → Fin OUT → R) : ComputeState R OUT :=
  sched.order.foldl
    (fun st t => listedTask ar IN OUT Hl Wl event_slots layer st (t.1, lists.task t.1 t.2))
    (hidden, fun _ _ => 0)

def runLayerCelled (batch_size : Nat) (lists : TaskLists) (sched : TaskSchedule lists.task_count)
    (layer : LayerWeightsS2S3 R) (hidden : Nat → Fin OUT → R) :
    (Nat → EventSlot R) × (Nat → Fin OUT → R) :=
  let slots := residualPhase IN OUT batch_size (fun _ => true) layer event_slots
  let st := listedPhase ar IN OUT Hl Wl slots lists sched layer hidden
  (gatherPhase ar OUT batch_size (fun _ => true) layer st.2 slots, st.1)

section Tasks

omit [CommRing R] in
theorem deltaCell_neighbour {evx evy delta : Nat} :
    (deltaCell Hl Wl evx evy delta).map (fun p => (p.1 * Wl + p.2, delta)) =
      neighbour evx evy Hl Wl delta := by
  cases hc : deltaCell Hl Wl evx evy delta with
  | none =>
    refine (if_neg fun h => ?_).symm
    have hsome : deltaCell Hl Wl evx evy delta = some (evy + 1 - delta / 3, evx + 1 - delta % 3) :=
      deltaCell_eq_some.mpr ⟨by omega, by omega, h.2.1, h.2.2.2⟩
    simp [hc] at hsome
  | some p =>
    obtain ⟨hy, hx, hyh, hxw⟩ := deltaCell_eq_some.mp hc
    refine (neighbour_eq_some.mpr ⟨rfl, ?_, by omega, by omega, by omega, by omega⟩).symm
    rw [show evy + 1 - delta / 3 = p.1 by omega, show evx + 1 - delta % 3 = p.2 by omega]

omit [CommRing R] in
theorem mem_batchTasks {mask : Option (Nat → Bool)} {k : Nat} {t : Fin N_WARPS × Nat × Nat}
    (ht : t ∈ batchTasks Hl Wl event_slots mask k) : t.2.2 < 9 ∧
      ∃ p, deltaCell Hl Wl (event_slots t.2.1).evx (event_slots t.2.1).evy t.2.2 = some p ∧
        t.1 = taskOwner p := by
  obtain ⟨e, -, he⟩ := List.mem_flatMap.mp ht
  split at he
  · obtain ⟨delta, hd, hm⟩ := List.mem_filterMap.mp he
    obtain ⟨p, hp, rfl⟩ := Option.map_eq_some_iff.mp hm
    exact ⟨List.mem_range.mp hd, p, hp, rfl⟩
  · simp at he

/-- The cells of event `e` with their owners, in the order of the walk. -/
def eventCells (e : Nat) : List (Fin N_WARPS × Nat × Nat) :=
  (List.range 9).filterMap fun delta =>
    (deltaCell Hl Wl (event_slots e).evx (event_slots e).evy delta).map fun p =>
      (taskOwner p, p.1 * Wl + p.2, delta)

omit [CommRing R] in
theorem eventCells_nodup (e : Nat) : ((eventCells Hl Wl event_slots e).map Prod.fst).Nodup := by
  have hh := eventTasks_owners_nodup Hl Wl event_slots e
  simpa only [eventTasks, eventCells, List.map_filterMap, Option.map_map, Function.comp_def] using hh

omit [CommRing R] in
theorem eventCells_perm (e : Nat) : ((eventCells Hl Wl event_slots e).map Prod.snd).Perm
    (neighbours (event_slots e).evx (event_slots e).evy Hl Wl) := by
  have hmap : (eventCells Hl Wl event_slots e).map Prod.snd =
      (List.range 9).filterMap (neighbour (event_slots e).evx (event_slots e).evy Hl Wl) := by
    simp only [eventCells, List.map_filterMap, Option.map_map, Function.comp_def,
      deltaCell_neighbour]
  rw [hmap]
  exact (by decide : (List.range 9).Perm [8, 7, 6, 5, 4, 3, 2, 1, 0]).filterMap _

/-- The tasks of one event, one after the other. -/
def listedRound (mask : Option (Nat → Bool)) (W : LayerWeightsS2S3 R) (st : ComputeState R OUT)
    (k : Nat) : ComputeState R OUT :=
  (if selected mask k then eventTasks Hl Wl event_slots k 9 else []).foldl
    (listedTask ar IN OUT Hl Wl event_slots W) st

variable {IN OUT} {W : LayerWeightsS2S3 R} {L : LayerRef R IN OUT} (hW : W.Represents L)

include hW

theorem listedTask_some {st : ComputeState R OUT} {w : Fin N_WARPS} {e delta : Nat} (hd : delta < 9)
    {p : Nat × Nat} (hp : deltaCell Hl Wl (event_slots e).evx (event_slots e).evy delta = some p) :
    listedTask ar IN OUT Hl Wl event_slots W st (w, e, delta) =
      taskStep (L.process ar (readFeat IN (event_slots e).in_feat)) true e st
        (w, p.1 * Wl + p.2, delta) := by
  unfold listedTask
  simp only [hp, processPatchCell_eq ar hW _ hd]
  rfl

theorem listedTask_comm {mask : Option (Nat → Bool)} {k : Nat} (st : ComputeState R OUT)
    {t t' : Fin N_WARPS × Nat × Nat} (ht : t ∈ batchTasks Hl Wl event_slots mask k)
    (ht' : t' ∈ batchTasks Hl Wl event_slots mask k) (hne : t.1 ≠ t'.1) :
    listedTask ar IN OUT Hl Wl event_slots W (listedTask ar IN OUT Hl Wl event_slots W st t) t' =
      listedTask ar IN OUT Hl Wl event_slots W (listedTask ar IN OUT Hl Wl event_slots W st t') t := by
  obtain ⟨w, e, delta⟩ := t
  obtain ⟨w', e', delta'⟩ := t'
  obtain ⟨hd, p, hp, hw⟩ := mem_batchTasks Hl Wl event_slots ht
  obtain ⟨hd', p', hp', hw'⟩ := mem_batchTasks Hl Wl event_slots ht'
  have hcell : p.1 * Wl + p.2 ≠ p'.1 * Wl + p'.2 := by
    intro he
    obtain ⟨hy, hx⟩ := rowMajor_inj (deltaCell_eq_some.mp hp).2.2.2 (deltaCell_eq_some.mp hp').2.2.2 he
    exact hne (hw.trans (congrArg taskOwner (Prod.ext hy hx) |>.trans hw'.symm))
  have hslot : (e, w) ≠ (e', w') := fun he => hne (congrArg Prod.snd he)
  simp only [listedTask_some ar Hl Wl event_slots hW hd hp,
    listedTask_some ar Hl Wl event_slots hW hd' hp', taskStep, if_true,
    Function.update_of_ne hcell, Function.update_of_ne hcell.symm]
  exact Prod.ext (Function.update_comm hcell _ _ _) (Function.update_comm hslot _ _ _)

/-- Whatever the warps' pace, the lists have the effect of the walk that built them. -/
theorem listedPhase_eq {batch_size : Nat} (mask : Option (Nat → Bool))
    {lists : TaskLists}
    (hlists : ∀ w, lists.tasks w =
      ((batchTasks Hl Wl event_slots mask batch_size).filter fun t => t.1 = w).map Prod.snd)
    (sched : TaskSchedule lists.task_count) (hidden : Nat → Fin OUT → R) :
    listedPhase ar IN OUT Hl Wl event_slots lists sched W hidden =
      (batchTasks Hl Wl event_slots mask batch_size).foldl
        (listedTask ar IN OUT Hl Wl event_slots W) (hidden, fun _ _ => 0) := by
  let order := sched.order.map fun t => (t.1, lists.task t.1 t.2)
  have hfilter : ∀ w, order.filter (fun t => t.1 = w) =
      (batchTasks Hl Wl event_slots mask batch_size).filter fun t => t.1 = w := by
    intro w
    have hown : ((batchTasks Hl Wl event_slots mask batch_size).filter fun t => t.1 = w).map
        (fun t => (w, t.2)) = (batchTasks Hl Wl event_slots mask batch_size).filter
          fun t => t.1 = w := by
      refine List.map_congr_left (fun t ht => ?_) |>.trans (List.map_id _)
      exact Prod.ext (of_decide_eq_true (List.mem_filter.mp ht).2).symm rfl
    calc order.filter (fun t => t.1 = w)
        = (sched.order.filter fun t => t.1 = w).map fun t => (t.1, lists.task t.1 t.2) :=
          List.filter_map
      _ = (lists.tasks w).map fun a => (w, a) := by
          rw [sched.program_order, List.map_map, TaskLists.tasks, List.map_map]
          rfl
      _ = _ := by
          rw [hlists, List.map_map]
          exact hown
  have hmem : ∀ t ∈ order, t ∈ batchTasks Hl Wl event_slots mask batch_size := by
    intro t ht
    have hin : t ∈ order.filter fun b => b.1 = t.1 := by simp [ht]
    rw [hfilter] at hin
    exact (List.mem_filter.mp hin).1
  refine List.foldl_map.symm.trans ?_
  exact foldl_eq_of_filter_eq Prod.fst _ order _ _
    (fun st t ht t' ht' hne => listedTask_comm ar Hl Wl event_slots hW st (hmem t ht) (hmem t' ht') hne)
    hfilter

theorem listedRound_spec {mask : Option (Nat → Bool)} {e : Nat} (hs : selected mask e = true)
    (st : ComputeState R OUT) (hz : ∀ w, st.2 (e, w) = 0) :
    let f := L.process ar (readFeat IN (event_slots e).in_feat)
    let patch := neighbours (event_slots e).evx (event_slots e).evy Hl Wl
    let st' := listedRound ar IN OUT Hl Wl event_slots mask W st e
    st'.1 = (sweep f patch st.1 0).1 ∧
      (selected none e = true → ∑ w, st'.2 (e, w) = (sweep f patch st.1 0).2) ∧
      ∀ i, i ≠ e → ∀ w, st'.2 (i, w) = st.2 (i, w) := by
  have hfold : listedRound ar IN OUT Hl Wl event_slots mask W st e = (eventCells Hl Wl event_slots e).foldl
      (taskStep (L.process ar (readFeat IN (event_slots e).in_feat)) true e) st := by
    rw [listedRound, if_pos hs, eventTasks, eventCells, List.foldl_filterMap, List.foldl_filterMap]
    refine List.foldl_ext _ _ _ fun st delta hd => ?_
    cases hp : deltaCell Hl Wl (event_slots e).evx (event_slots e).evy delta with
    | none => rfl
    | some p => exact listedTask_some ar Hl Wl event_slots hW (List.mem_range.mp hd) hp
  have hperm := eventCells_perm Hl Wl event_slots e
  have hnd := (hperm.map Prod.fst).nodup_iff.mpr
    (neighbours_nodup (event_slots e).evx (event_slots e).evy Hl Wl)
  have hsum : ∑ w, st.2 (e, w) = 0 := Finset.sum_eq_zero fun w _ => hz w
  have hh := taskSteps_foldl (L.process ar (readFeat IN (event_slots e).in_feat)) true e
    (eventCells Hl Wl event_slots e) (eventCells_nodup Hl Wl event_slots e) st fun w _ => hz w
  rw [hsum, sweep_perm _ _ _ hperm hnd] at hh
  rwa [hfold]

/-- Both dispatchers leave the same hidden state and the same sums of contributions. -/
theorem listedPhase_computePhase {batch_size : Nat} (mask : Option (Nat → Bool)) {lists : TaskLists}
    (hlists : ∀ w, lists.tasks w =
      ((batchTasks Hl Wl event_slots mask batch_size).filter fun t => t.1 = w).map Prod.snd)
    (sched : TaskSchedule lists.task_count) (sched' : Schedule N_WARPS batch_size)
    (hidden : Nat → Fin OUT → R) :
    let st := listedPhase ar IN OUT Hl Wl event_slots lists sched W hidden
    let st' := computePhase ar IN OUT sched' Hl Wl event_slots mask none W hidden
    st.1 = st'.1 ∧ ∀ e < batch_size, ∑ w, st.2 (e, w) = ∑ w, st'.2 (e, w) := by
  intro st st'
  let round : (Nat → Fin OUT → R) → Nat → Nat → Fin OUT → R := fun h k =>
    if selected mask k then (sweep (L.process ar (readFeat IN (event_slots k).in_feat))
      (neighbours (event_slots k).evx (event_slots k).evy Hl Wl) h 0).1 else h
  let hseq : Nat → Nat → Fin OUT → R := fun k => (List.range k).foldl round hidden
  have hstep : ∀ k < batch_size, hseq (k + 1) = round (hseq k) k := by
    intro k _
    simp only [hseq, List.range_succ, List.foldl_append, List.foldl_cons, List.foldl_nil]
  have hst : st = (List.range batch_size).foldl (listedRound ar IN OUT Hl Wl event_slots mask W)
      (hidden, fun _ _ => 0) :=
    (listedPhase_eq ar Hl Wl event_slots hW mask hlists sched hidden).trans List.foldl_flatMap
  obtain ⟨h1, h2, h3⟩ := computePhase_spec ar Hl Wl event_slots mask none sched' hidden hseq rfl hstep hW
  obtain ⟨g1, g2, g3⟩ := history_spec ar Hl Wl event_slots mask none hidden hseq rfl hstep
    (fun k hs st => by rw [listedRound, hs]; rfl)
    (fun k hs => listedRound_spec ar Hl Wl event_slots hW hs) le_rfl
  rw [← hst] at g1 g2 g3
  refine ⟨g1.trans h1.symm, fun e he => ?_⟩
  cases hs : selected mask e with
  | true => rw [g3 e he hs rfl, h3 e he hs rfl]
  | false => exact Finset.sum_congr rfl fun w _ => (g2 e (Or.inr hs) w).trans (h2 e (Or.inr hs) w).symm

end Tasks

theorem gatherPhase_congr {OUT batch_size : Nat} {gathered : Nat → Bool} {W : LayerWeightsS2S3 R}
    {contrib contrib' : Nat × Fin N_WARPS → Fin OUT → R}
    (h : ∀ e < batch_size, ∑ w, contrib (e, w) = ∑ w, contrib' (e, w))
    (event_slots : Nat → EventSlot R) :
    gatherPhase ar OUT batch_size gathered W contrib event_slots =
      gatherPhase ar OUT batch_size gathered W contrib' event_slots := by
  funext e
  unfold gatherPhase perEventWarp
  split
  · next he =>
    have hsum := h e he.2
    have hpoint : ∀ o, ∑ w, contrib (e, w) o = ∑ w, contrib' (e, w) o := by
      intro o
      simpa only [Finset.sum_apply] using congrFun hsum o
    simp only [gatherResidualLn, hpoint]
  · rfl

/-- The layer whose 3x3 weights are those of the buffers, with some projection. -/
def LayerWeightsS2S3.patchRef (W : LayerWeightsS2S3 R) (IN OUT : Nat) : LayerRef R IN OUT where
  qvgIn := fun delta r i => W.qvgIn (delta * (3 * OUT * IN) + (i * (3 * OUT) + r))
  goW := fun delta o i => W.goW (delta * (OUT * OUT) + (i * OUT + o))
  input_proj := some fun _ _ => 0
  ln_gamma := W.ln_gamma
  ln_beta := W.ln_beta
  K := 3
  passthrough := nofun

theorem patchRef_represents (W : LayerWeightsS2S3 R) (IN OUT : Nat) :
    ({ W with input_proj := some fun _ => 0 } : LayerWeightsS2S3 R).Represents (W.patchRef IN OUT) :=
  ⟨fun _ _ _ _ _ _ => rfl, fun _ _ _ _ _ => rfl, rfl, rfl, rfl⟩

omit [CommRing R] in
theorem eventTasks_congr {slots : Nat → EventSlot R} (h : ∀ e, SameEvent (slots e) (event_slots e))
    (mask : Option (Nat → Bool)) (k : Nat) :
    batchTasks Hl Wl slots mask k = batchTasks Hl Wl event_slots mask k := by
  simp only [batchTasks, eventTasks, (h _).evx, (h _).evy]

theorem dispatch_agree {batch_size : Nat} (hn : batch_size ≤ BATCH) (mask : Option (Nat → Bool))
    (sm : TaskLists) (layer : LayerWeightsS2S3 R) (hidden : Nat → Fin OUT → R) :
    (∀ e < batch_size, selected mask e = true → ∀ delta < 9, ∀ p,
      deltaCell Hl Wl (event_slots e).evx (event_slots e).evy delta = some p →
        (dispatchAt Hl Wl event_slots mask e delta sm).task_count (taskOwner p) < BATCH) ∧
    ∀ (sched : TaskSchedule (dispatchTasks Hl Wl event_slots mask batch_size sm).task_count)
      (sched' : Schedule N_WARPS batch_size),
      runLayerCelled ar IN OUT Hl Wl event_slots batch_size
          (dispatchTasks Hl Wl event_slots mask batch_size sm) sched layer hidden =
        runLayerCelledImplicit ar IN OUT sched' Hl Wl event_slots mask layer hidden := by
  refine ⟨fun e he hs delta hd p hp => ?_, fun sched sched' => ?_⟩
  · exact dispatchAt_count_lt Hl Wl event_slots mask (he.trans_le hn) hs hd hp sm
  · have hev := residualPhase_sameEvent IN OUT batch_size (fun _ => true) layer event_slots
    have hlists := dispatchTasks_tasks Hl Wl event_slots mask hn sm
    simp only [← eventTasks_congr Hl Wl event_slots hev] at hlists
    obtain ⟨hhidden, hsum⟩ := listedPhase_computePhase ar Hl Wl _ (patchRef_represents layer IN OUT)
      mask hlists sched sched' hidden
    exact Prod.ext (gatherPhase_congr ar hsum _) hhidden

theorem dispatch_agree_neighbours :
    let slots : Nat → EventSlot ℤ := fun e => ⟨fun _ => 1, fun _ => 0, e, 0, true⟩
    let lists := dispatchTasks 2 2 slots none 2 ⟨fun _ => 0, fun _ => 0, fun _ => 0⟩
    let layer : LayerWeightsS2S3 ℤ := ⟨fun _ => 1, fun _ => 1, none, fun _ => 1, fun _ => 0⟩
    runLayerCelled ⟨id, id⟩ 1 1 2 2 slots 2 lists (TaskSchedule.sequential _) layer 0 =
      runLayerCelledImplicit ⟨id, id⟩ 1 1 (Schedule.roundRobin N_WARPS 2) 2 2 slots none layer
        0 :=
  (dispatch_agree ⟨id, id⟩ 1 1 2 2 _ (by decide : 2 ≤ BATCH) none _ _ 0).2 _ _

end SslaRt
