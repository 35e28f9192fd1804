import SslaRt.CelledSpec

/-! The warps of a layer never meet in a hidden cell over a whole batch, and
together they process the patch of every event of the mask. -/

namespace SslaRt

open CellMemory Interleave

variable {R : Type*} [CommRing R] (ar : Arith R) {IN OUT : Nat} (Hl Wl : Nat)
  (event_slots : Nat → EventSlot R) (enter_mask output_mask : Option (Nat → Bool))
  (W : LayerWeightsS2S3 R)

/-- The hidden cell that a warp reads and writes for an event. -/
def footprint (t : Fin N_WARPS × Nat) : Option Nat :=
  (taskCell Hl Wl event_slots enter_mask t).map Prod.fst

def touchedCells (batch_size : Nat) (w : Fin N_WARPS) : List Nat :=
  (List.range batch_size).filterMap fun e => footprint Hl Wl event_slots enter_mask (w, e)

/-- What the nine warps together process for an event, with the weight index. -/
def processedCells (e : Nat) : List (Nat × Nat) :=
  (List.finRange N_WARPS).filterMap fun w => taskCell Hl Wl event_slots enter_mask (w, e)

/-- The partition of the cells among the warps. A task reads and writes no
hidden cell but its own. -/
structure CellPartition (batch_size : Nat) : Prop where
  reads : ∀ (t : Fin N_WARPS × Nat) (st st' : ComputeState R OUT), st.2 = st'.2 →
    (∀ c ∈ footprint Hl Wl event_slots enter_mask t, st.1 c = st'.1 c) →
    (∀ c ∈ footprint Hl Wl event_slots enter_mask t,
      (computeTask ar IN OUT Hl Wl event_slots enter_mask output_mask W st t).1 c =
        (computeTask ar IN OUT Hl Wl event_slots enter_mask output_mask W st' t).1 c) ∧
    (computeTask ar IN OUT Hl Wl event_slots enter_mask output_mask W st t).2 =
      (computeTask ar IN OUT Hl Wl event_slots enter_mask output_mask W st' t).2
  writes : ∀ (t : Fin N_WARPS × Nat) (st : ComputeState R OUT) (c : Nat),
    c ∉ footprint Hl Wl event_slots enter_mask t →
    (computeTask ar IN OUT Hl Wl event_slots enter_mask output_mask W st t).1 c = st.1 c
  implicit_frame : ∀ (sched : Schedule N_WARPS batch_size) (hidden : Nat → Fin OUT → R) (c : Nat),
    (∀ w, c ∉ touchedCells Hl Wl event_slots enter_mask batch_size w) →
    (runLayerCelledImplicit ar IN OUT sched Hl Wl event_slots enter_mask W hidden).2 c = hidden c
  split_frame : ∀ (sched : Schedule N_WARPS batch_size) (hidden : Nat → Fin OUT → R) (c : Nat),
    (∀ w, c ∉ touchedCells Hl Wl event_slots enter_mask batch_size w) →
    (runLayerCelledImplicitSplit ar IN OUT sched Hl Wl event_slots enter_mask output_mask W
      hidden).2 c = hidden c
  disjoint : ∀ w w', w ≠ w' → List.Disjoint (touchedCells Hl Wl event_slots enter_mask batch_size w)
    (touchedCells Hl Wl event_slots enter_mask batch_size w')
  covers : ∀ e, selected enter_mask e = true →
    (processedCells Hl Wl event_slots enter_mask e).Perm
        (patchOrder 9 (event_slots e).evx (event_slots e).evy Hl Wl) ∧
      (cells (processedCells Hl Wl event_slots enter_mask e)).Nodup
  skips : ∀ e, selected enter_mask e = false → processedCells Hl Wl event_slots enter_mask e = []

theorem computeTask_writes (t : Fin N_WARPS × Nat) (st : ComputeState R OUT) {c : Nat}
    (hc : c ∉ footprint Hl Wl event_slots enter_mask t) :
    (computeTask ar IN OUT Hl Wl event_slots enter_mask output_mask W st t).1 c = st.1 c := by
  cases htask : taskCell Hl Wl event_slots enter_mask t with
  | none => rw [computeTask_none ar Hl Wl _ _ _ htask]
  | some p =>
    obtain ⟨patch_idx, delta⟩ := p
    have hne : c ≠ patch_idx := by
      rintro rfl
      exact hc (by simp [footprint, htask])
    obtain ⟨hs, hp⟩ := (taskCell_eq_some Hl Wl event_slots enter_mask).mp htask
    simp only [computeTask, hs, Bool.true_eq_false, if_false, hp]
    split <;> exact Function.update_of_ne hne _ _

theorem computeTask_reads (t : Fin N_WARPS × Nat) {st st' : ComputeState R OUT} (h2 : st.2 = st'.2)
    (h : ∀ c ∈ footprint Hl Wl event_slots enter_mask t, st.1 c = st'.1 c) :
    (∀ c ∈ footprint Hl Wl event_slots enter_mask t,
      (computeTask ar IN OUT Hl Wl event_slots enter_mask output_mask W st t).1 c =
        (computeTask ar IN OUT Hl Wl event_slots enter_mask output_mask W st' t).1 c) ∧
    (computeTask ar IN OUT Hl Wl event_slots enter_mask output_mask W st t).2 =
      (computeTask ar IN OUT Hl Wl event_slots enter_mask output_mask W st' t).2 := by
  cases htask : taskCell Hl Wl event_slots enter_mask t with
  | none =>
    rw [computeTask_none ar Hl Wl _ _ _ htask, computeTask_none ar Hl Wl _ _ _ htask]
    exact ⟨h, h2⟩
  | some p =>
    obtain ⟨patch_idx, delta⟩ := p
    have hcell : ∀ c, c ∈ footprint Hl Wl event_slots enter_mask t ↔ c = patch_idx := by
      intro c
      simp [footprint, htask, eq_comm]
    have heq := h patch_idx ((hcell patch_idx).mpr rfl)
    obtain ⟨hs, hp⟩ := (taskCell_eq_some Hl Wl event_slots enter_mask).mp htask
    simp only [computeTask, hs, Bool.true_eq_false, if_false, hp, heq, h2]
    refine ⟨fun c hc => ?_, ?_⟩
    · obtain rfl := (hcell c).mp hc
      split <;> simp
    · split <;> rfl

omit [CommRing R] in
theorem mem_touchedCells {batch_size c : Nat} {w : Fin N_WARPS}
    (h : c ∈ touchedCells Hl Wl event_slots enter_mask batch_size w) :
    ∃ e d, patchTask Hl Wl w (event_slots e).evx (event_slots e).evy = some (c, d) := by
  obtain ⟨e, -, he⟩ := List.mem_filterMap.mp h
  obtain ⟨⟨c', d⟩, htask, rfl⟩ := Option.map_eq_some_iff.mp he
  exact ⟨e, d, ((taskCell_eq_some Hl Wl event_slots enter_mask).mp htask).2⟩

omit [CommRing R] in
theorem touchedCells_disjoint {w w' : Fin N_WARPS} (hw : w ≠ w') (batch_size : Nat) :
    List.Disjoint (touchedCells Hl Wl event_slots enter_mask batch_size w)
      (touchedCells Hl Wl event_slots enter_mask batch_size w') := by
  intro c hc hc'
  obtain ⟨e, d, htask⟩ := mem_touchedCells Hl Wl event_slots enter_mask hc
  obtain ⟨e', d', htask'⟩ := mem_touchedCells Hl Wl event_slots enter_mask hc'
  exact patchTask_disjoint hw htask htask' rfl

omit [CommRing R] in
theorem processedCells_selected {e : Nat} (hs : selected enter_mask e = true) :
    processedCells Hl Wl event_slots enter_mask e =
      warpTasks Hl Wl (event_slots e).evx (event_slots e).evy := by
  simp only [processedCells, taskCell, hs, if_true]
  rfl

theorem computePhase_frame {batch_size : Nat} (sched : Schedule N_WARPS batch_size)
    (hidden : Nat → Fin OUT → R) {c : Nat}
    (hc : ∀ w, c ∉ touchedCells Hl Wl event_slots enter_mask batch_size w) :
    (computePhase ar IN OUT sched Hl Wl event_slots enter_mask output_mask W hidden).1 c =
      hidden c := by
  have hfold : ∀ (l : List (Fin N_WARPS × Nat)) (st : ComputeState R OUT),
      (∀ t ∈ l, c ∉ footprint Hl Wl event_slots enter_mask t) →
      (l.foldl (computeTask ar IN OUT Hl Wl event_slots enter_mask output_mask W) st).1 c =
        st.1 c := by
    intro l
    induction l with
    | nil => exact fun _ _ => rfl
    | cons t l ih =>
      intro st hl
      rw [List.foldl_cons, ih _ (fun u hu => hl u (List.mem_cons_of_mem t hu)),
        computeTask_writes _ _ _ _ _ _ _ _ _ (hl t List.mem_cons_self)]
  refine hfold sched.order _ (fun t ht hmem => hc t.1 (List.mem_filterMap.mpr ⟨t.2, ?_, hmem⟩))
  exact List.mem_range.mpr (sched.lt_of_mem ht)

theorem touchedCells_residualPhase {batch_size : Nat} (gathered : Nat → Bool) :
    touchedCells Hl Wl (residualPhase IN OUT batch_size gathered W event_slots) enter_mask =
      touchedCells Hl Wl event_slots enter_mask := by
  have hcell := residualPhase_sameEvent IN OUT batch_size gathered W event_slots
  funext n w
  simp only [touchedCells, footprint, taskCell, (hcell _).evx, (hcell _).evy]

/-- The cell partition of a layer, with and without an output mask, is free of
races. -/
theorem cellPartition (batch_size : Nat) :
    @CellPartition R _ ar IN OUT Hl Wl event_slots enter_mask output_mask W batch_size where
  reads t _ _ h2 h := computeTask_reads ar Hl Wl event_slots enter_mask output_mask W t h2 h
  writes t st _ hc := computeTask_writes ar Hl Wl event_slots enter_mask output_mask W t st hc
  implicit_frame sched hidden _ hc := by
    refine computePhase_frame ar Hl Wl _ enter_mask none W sched hidden ?_
    rwa [touchedCells_residualPhase]
  split_frame sched hidden _ hc := by
    refine computePhase_frame ar Hl Wl _ enter_mask output_mask W sched hidden ?_
    rwa [touchedCells_residualPhase]
  disjoint _ _ hw := touchedCells_disjoint Hl Wl event_slots enter_mask hw batch_size
  covers e hs := by
    have hperm := warpTasks_perm Hl Wl (event_slots e).evx (event_slots e).evy
    rw [processedCells_selected Hl Wl event_slots enter_mask hs, patchOrder_eq (by decide)]
    exact ⟨hperm, (hperm.map Prod.fst).nodup_iff.mpr (neighbours_nodup _ _ _ _)⟩
  skips e hs := by
    simp [processedCells, taskCell, hs]

end SslaRt
