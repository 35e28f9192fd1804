import SslaRt.CelledLayer

/-! The compute phase of the nine warps, in any interleaving, performs the
sweeps of the events in batch order. -/

namespace SslaRt

open CellMemory Interleave

variable {R : Type*} [CommRing R] (ar : Arith R) {IN OUT : Nat} (Hl Wl : Nat)
  (event_slots : Nat → EventSlot R) (enter_mask output_mask : Option (Nat → Bool))
  {W : LayerWeightsS2S3 R} {L : LayerRef R IN OUT}

def taskCell (t : Fin N_WARPS × Nat) : Option (Nat × Nat) :=
  if selected enter_mask t.2 then patchTask Hl Wl t.1 (event_slots t.2).evx (event_slots t.2).evy
  else none

omit [CommRing R] in
theorem taskCell_eq_some {t : Fin N_WARPS × Nat} {p : Nat × Nat} :
    taskCell Hl Wl event_slots enter_mask t = some p ↔ selected enter_mask t.2 = true ∧
      patchTask Hl Wl t.1 (event_slots t.2).evx (event_slots t.2).evy = some p := by
  unfold taskCell
  split <;> simp_all

theorem computeTask_none {st : ComputeState R OUT} {t : Fin N_WARPS × Nat}
    (h : taskCell Hl Wl event_slots enter_mask t = none) :
    computeTask ar IN OUT Hl Wl event_slots enter_mask output_mask W st t = st := by
  unfold taskCell at h
  unfold computeTask
  split at h
  · next he => simp [he, h]
  · next he => simp [he]

theorem computeTask_some (hW : W.Represents L) {st : ComputeState R OUT} {t : Fin N_WARPS × Nat}
    {c d : Nat} (h : taskCell Hl Wl event_slots enter_mask t = some (c, d)) :
    computeTask ar IN OUT Hl Wl event_slots enter_mask output_mask W st t =
      (Function.update st.1 c
          (L.process ar (readFeat IN (event_slots t.2).in_feat) d (st.1 c)).1,
        if selected output_mask t.2 then
          Function.update st.2 (t.2, t.1)
            (L.process ar (readFeat IN (event_slots t.2).in_feat) d (st.1 c)).2
        else st.2) := by
  obtain ⟨he, hp⟩ := (taskCell_eq_some Hl Wl event_slots enter_mask).mp h
  have hd : d < 9 := by
    rw [patchTask_eq] at hp
    rw [(neighbour_eq_some.mp hp).1]
    exact patchDelta_lt t.1 _ _
  unfold computeTask
  simp only [he, Bool.true_eq_false, if_false, hp,
    processPatchCellStateOnly_eq ar IN OUT _ _ (fun n => W.goW (d * (OUT * OUT) + n)),
    processPatchCell_eq ar hW _ hd]
  split <;> rfl

theorem computeTask_comm (hW : W.Represents L) (st : ComputeState R OUT)
    (t t' : Fin N_WARPS × Nat) (hne : t.1 ≠ t'.1) :
    computeTask ar IN OUT Hl Wl event_slots enter_mask output_mask W
        (computeTask ar IN OUT Hl Wl event_slots enter_mask output_mask W st t) t' =
      computeTask ar IN OUT Hl Wl event_slots enter_mask output_mask W
        (computeTask ar IN OUT Hl Wl event_slots enter_mask output_mask W st t') t := by
  cases h : taskCell Hl Wl event_slots enter_mask t with
  | none => rw [computeTask_none ar Hl Wl _ _ _ h, computeTask_none ar Hl Wl _ _ _ h]
  | some p =>
    cases h' : taskCell Hl Wl event_slots enter_mask t' with
    | none => rw [computeTask_none ar Hl Wl _ _ _ h', computeTask_none ar Hl Wl _ _ _ h']
    | some p' =>
      obtain ⟨c, d⟩ := p
      obtain ⟨c', d'⟩ := p'
      have hc : c ≠ c' := patchTask_disjoint hne
        ((taskCell_eq_some Hl Wl event_slots enter_mask).mp h).2
        ((taskCell_eq_some Hl Wl event_slots enter_mask).mp h').2
      have hslot : (t.2, t.1) ≠ (t'.2, t'.1) := fun he => hne (congrArg Prod.snd he)
      simp only [computeTask_some ar Hl Wl _ _ _ hW h, computeTask_some ar Hl Wl _ _ _ hW h',
        Function.update_of_ne hc, Function.update_of_ne hc.symm]
      refine Prod.ext (Function.update_comm hc _ _ _) ?_
      by_cases ho : selected output_mask t.2 = true
      · by_cases ho' : selected output_mask t'.2 = true
        · simpa only [ho, ho', if_true] using Function.update_comm hslot _ _ _
        · simp only [ho, ho', if_true, if_false, Bool.false_eq_true]
      · by_cases ho' : selected output_mask t'.2 = true <;>
          simp only [ho, ho', if_true, if_false, Bool.false_eq_true]

theorem sum_update_of_zero {ι A : Type*} [Fintype ι] [DecidableEq ι] [AddCommMonoid A] (f : ι → A)
    (w : ι) (hw : f w = 0) (r : A) : ∑ v, Function.update f w r v = ∑ v, f v + r := by
  rw [Finset.sum_update_of_mem (Finset.mem_univ w), ← Finset.add_sum_erase _ _ (Finset.mem_univ w),
    hw, zero_add, add_comm, Finset.sdiff_singleton_eq_erase]

section Contrib

variable {A : Type*} {k : Nat} {w : Fin N_WARPS} {contrib : Nat × Fin N_WARPS → A} {r : A}

theorem contrib_frame (o : Bool) {e : Nat} {v : Fin N_WARPS} (hne : (e, v) ≠ (k, w)) :
    (if o then Function.update contrib (k, w) r else contrib) (e, v) = contrib (e, v) := by
  split
  · exact Function.update_of_ne hne _ _
  · rfl

theorem contrib_sum [AddCommMonoid A] (hz : contrib (k, w) = 0) :
    ∑ v, Function.update contrib (k, w) r (k, v) = ∑ v, contrib (k, v) + r := by
  have hrow : ∀ v, Function.update contrib (k, w) r (k, v) =
      Function.update (fun v => contrib (k, v)) w r v := by
    intro v
    by_cases hv : v = w
    · subst hv
      rw [Function.update_self, Function.update_self]
    · rw [Function.update_of_ne hv, Function.update_of_ne fun he => hv (congrArg Prod.snd he)]
  rw [Finset.sum_congr rfl fun v _ => hrow v]
  exact sum_update_of_zero (fun v => contrib (k, v)) w hz r

end Contrib

/-- A task of event `k`: warp `t.1` updates cell `t.2.1` with the weights of `t.2.2`. -/
def taskStep {A S : Type*} (f : Nat → S → S × A) (output : Bool) (k : Nat)
    (st : (Nat → S) × (Nat × Fin N_WARPS → A)) (t : Fin N_WARPS × Nat × Nat) :
    (Nat → S) × (Nat × Fin N_WARPS → A) :=
  (Function.update st.1 t.2.1 (f t.2.2 (st.1 t.2.1)).1,
    if output then Function.update st.2 (k, t.1) (f t.2.2 (st.1 t.2.1)).2 else st.2)

/-- Tasks of different warps for one event make the sweep of their cells. -/
theorem taskSteps_foldl {A S : Type*} [AddCommMonoid A] (f : Nat → S → S × A) (output : Bool)
    (k : Nat) (ts : List (Fin N_WARPS × Nat × Nat)) (hnd : (ts.map Prod.fst).Nodup)
    (st : (Nat → S) × (Nat × Fin N_WARPS → A)) (hz : ∀ w ∈ ts.map Prod.fst, st.2 (k, w) = 0) :
    let st' := ts.foldl (taskStep f output k) st
    st'.1 = (sweep f (ts.map Prod.snd) st.1 (∑ w, st.2 (k, w))).1 ∧
      (output = true →
        ∑ w, st'.2 (k, w) = (sweep f (ts.map Prod.snd) st.1 (∑ w, st.2 (k, w))).2) ∧
      ∀ e, e ≠ k → ∀ w, st'.2 (e, w) = st.2 (e, w) := by
  induction ts generalizing st with
  | nil => exact ⟨rfl, fun _ => rfl, fun _ _ _ => rfl⟩
  | cons t ts ih =>
    have ht := List.nodup_cons.mp hnd
    set r := f t.2.2 (st.1 t.2.1)
    set st1 := taskStep f output k st t
    have hz1 : ∀ v ∈ ts.map Prod.fst, st1.2 (k, v) = 0 := by
      intro v hv
      have hvw : (k, v) ≠ (k, t.1) := fun he => ht.1 ((Prod.mk.inj he).2 ▸ hv)
      exact (contrib_frame _ hvw).trans (hz v (List.mem_cons_of_mem _ hv))
    obtain ⟨h1, h2, h3⟩ := ih ht.2 st1 hz1
    simp only [List.foldl_cons, List.map_cons, sweep_cons]
    refine ⟨h1.trans (sweep_congr_state (fun _ _ => rfl) _ _ _ _), fun ho => ?_, ?_⟩
    · have hst1 : st1.2 = Function.update st.2 (k, t.1) r.2 := if_pos ho
      rw [h2 ho, hst1, contrib_sum (hz t.1 (by simp))]
      rfl
    · intro e he v
      exact (h3 e he v).trans (contrib_frame _ fun hv => he (congrArg Prod.fst hv))

section Round

variable (k : Nat)

/-- The warps that have a cell of event `k`, with this cell and its weights. -/
def warpCells : List (Fin N_WARPS × Nat × Nat) :=
  (List.finRange N_WARPS).filterMap fun w =>
    (patchTask Hl Wl w (event_slots k).evx (event_slots k).evy).map fun p => (w, p)

omit [CommRing R] in
theorem warpCells_snd : (warpCells Hl Wl event_slots k).map Prod.snd =
    warpTasks Hl Wl (event_slots k).evx (event_slots k).evy := by
  simp only [warpCells, warpTasks, List.map_filterMap, Option.map_map, Function.comp_def,
    Option.map_id']

omit [CommRing R] in
theorem warpCells_nodup : ((warpCells Hl Wl event_slots k).map Prod.fst).Nodup := by
  rw [warpCells, List.map_filterMap]
  refine (List.nodup_finRange _).filterMap fun w w' v hw hw' => ?_
  simp only [Option.map_map, Option.mem_def, Option.map_eq_some_iff, Function.comp_apply] at hw hw'
  obtain ⟨_, -, rfl⟩ := hw
  obtain ⟨_, -, rfl⟩ := hw'
  rfl

theorem computeTasks_foldl (hW : W.Represents L) (hk : selected enter_mask k = true)
    (st : ComputeState R OUT) :
    ((List.finRange N_WARPS).map (fun w => (w, k))).foldl
        (computeTask ar IN OUT Hl Wl event_slots enter_mask output_mask W) st =
      (warpCells Hl Wl event_slots k).foldl
        (taskStep (L.process ar (readFeat IN (event_slots k).in_feat)) (selected output_mask k) k)
        st := by
  rw [List.foldl_map, warpCells, List.foldl_filterMap]
  refine List.foldl_ext _ _ _ fun st w _ => ?_
  have hcell : taskCell Hl Wl event_slots enter_mask (w, k) =
      patchTask Hl Wl w (event_slots k).evx (event_slots k).evy := if_pos hk
  cases h : patchTask Hl Wl w (event_slots k).evx (event_slots k).evy with
  | none => exact computeTask_none ar Hl Wl event_slots enter_mask output_mask (hcell.trans h)
  | some p => exact computeTask_some ar Hl Wl event_slots enter_mask output_mask hW (hcell.trans h)

theorem round_skip (hk : selected enter_mask k = false) (st : ComputeState R OUT) :
    ((List.finRange N_WARPS).map (fun w => (w, k))).foldl
      (computeTask ar IN OUT Hl Wl event_slots enter_mask output_mask W) st = st := by
  have hcell : ∀ w, taskCell Hl Wl event_slots enter_mask (w, k) = none := by
    intro w
    simp [taskCell, hk]
  rw [List.foldl_map]
  exact List.foldl_fixed' (fun w : Fin N_WARPS =>
    computeTask_none ar Hl Wl event_slots enter_mask output_mask (hcell w)) _

theorem round_foldl (hW : W.Represents L) (hk : selected enter_mask k = true)
    (st : ComputeState R OUT) (hz : ∀ w, st.2 (k, w) = 0) :
    let f := L.process ar (readFeat IN (event_slots k).in_feat)
    let patch := neighbours (event_slots k).evx (event_slots k).evy Hl Wl
    let st' := ((List.finRange N_WARPS).map (fun w => (w, k))).foldl
      (computeTask ar IN OUT Hl Wl event_slots enter_mask output_mask W) st
    st'.1 = (sweep f patch st.1 0).1 ∧
      (selected output_mask k = true → ∑ w, st'.2 (k, w) = (sweep f patch st.1 0).2) ∧
      ∀ e, e ≠ k → ∀ w, st'.2 (e, w) = st.2 (e, w) := by
  have hperm := warpTasks_perm Hl Wl (event_slots k).evx (event_slots k).evy
  have hnd := (hperm.map Prod.fst).nodup_iff.mpr
    (neighbours_nodup (event_slots k).evx (event_slots k).evy Hl Wl)
  have hsum : ∑ w, st.2 (k, w) = 0 := Finset.sum_eq_zero (fun w _ => hz w)
  have hh := taskSteps_foldl (L.process ar (readFeat IN (event_slots k).in_feat))
    (selected output_mask k) k (warpCells Hl Wl event_slots k) (warpCells_nodup Hl Wl event_slots k)
    st (fun w _ => hz w)
  rw [hsum, warpCells_snd, sweep_perm _ _ _ hperm hnd] at hh
  rwa [computeTasks_foldl ar Hl Wl event_slots enter_mask output_mask k hW hk]

end Round

section Phase

variable {n : Nat} (sched : Schedule N_WARPS n) (hidden : Nat → Fin OUT → R)
  (hseq : Nat → Nat → Fin OUT → R)

section History

variable (h0 : hseq 0 = hidden)
  (hstep : ∀ k < n, hseq (k + 1) = if selected enter_mask k then
    (sweep (L.process ar (readFeat IN (event_slots k).in_feat))
      (neighbours (event_slots k).evx (event_slots k).evy Hl Wl) (hseq k) 0).1 else hseq k)

include h0 hstep

/-- A batch of rounds, one for each selected event. `hseq` is the history of the
hidden state, one entry before each event: the batch ends in the last entry and
each event that produces an output contributes what its sweep collects from the
entry before it. -/
theorem history_spec {round : ComputeState R OUT → Nat → ComputeState R OUT}
    (hskip : ∀ k, selected enter_mask k = false → ∀ st, round st k = st)
    (hround : ∀ k, selected enter_mask k = true → ∀ st : ComputeState R OUT,
      (∀ w, st.2 (k, w) = 0) →
        let f := L.process ar (readFeat IN (event_slots k).in_feat)
        let patch := neighbours (event_slots k).evx (event_slots k).evy Hl Wl
        (round st k).1 = (sweep f patch st.1 0).1 ∧
          (selected output_mask k = true → ∑ w, (round st k).2 (k, w) = (sweep f patch st.1 0).2) ∧
          ∀ e, e ≠ k → ∀ w, (round st k).2 (e, w) = st.2 (e, w))
    {k : Nat} (hk : k ≤ n) :
    let st := (List.range k).foldl round (hidden, fun _ _ => 0)
    st.1 = hseq k ∧ (∀ e, k ≤ e ∨ selected enter_mask e = false → ∀ w, st.2 (e, w) = 0) ∧
      ∀ e < k, selected enter_mask e = true → selected output_mask e = true →
        ∑ w, st.2 (e, w) = (sweep (L.process ar (readFeat IN (event_slots e).in_feat))
          (neighbours (event_slots e).evx (event_slots e).evy Hl Wl) (hseq e) 0).2 := by
  induction k with
  | zero => exact ⟨h0.symm, fun _ _ _ => rfl, fun e he => absurd he (Nat.not_lt_zero e)⟩
  | succ k ih =>
    obtain ⟨h1, h2, h3⟩ := ih (Nat.le_of_succ_le hk)
    simp only [List.range_succ, List.foldl_append, List.foldl_cons, List.foldl_nil]
    cases hs : selected enter_mask k with
    | false =>
      rw [hskip k hs]
      refine ⟨by rw [h1, hstep k hk, hs]; rfl, fun e he => h2 e (he.imp Nat.le_of_succ_le id), ?_⟩
      intro e he hse
      rcases Nat.lt_succ_iff_lt_or_eq.mp he with he | rfl
      · exact h3 e he hse
      · simp [hs] at hse
    | true =>
      obtain ⟨g1, g2, g3⟩ := hround k hs _ (h2 k (Or.inl le_rfl))
      refine ⟨by rw [g1, h1, hstep k hk, if_pos hs], fun e he w => ?_, fun e he hse hso => ?_⟩
      · have hne : e ≠ k := by
          rintro rfl
          rcases he with he | he
          · omega
          · simp [hs] at he
        rw [g3 e hne, h2 e (he.imp Nat.le_of_succ_le id)]
      · rcases Nat.lt_succ_iff_lt_or_eq.mp he with he | rfl
        · rw [Finset.sum_congr rfl (fun w _ => g3 e (by omega) w), h3 e he hse hso]
        · rw [g2 hso, h1]

theorem computePhase_spec (hW : W.Represents L) :
    let st := computePhase ar IN OUT sched Hl Wl event_slots enter_mask output_mask W hidden
    st.1 = hseq n ∧ (∀ e, n ≤ e ∨ selected enter_mask e = false → ∀ w, st.2 (e, w) = 0) ∧
      ∀ e < n, selected enter_mask e = true → selected output_mask e = true →
        ∑ w, st.2 (e, w) = (sweep (L.process ar (readFeat IN (event_slots e).in_feat))
          (neighbours (event_slots e).evx (event_slots e).evy Hl Wl) (hseq e) 0).2 := by
  have hfold : computePhase ar IN OUT sched Hl Wl event_slots enter_mask output_mask W hidden =
      (List.range n).foldl (fun st k => ((List.finRange N_WARPS).map (fun w => (w, k))).foldl
        (computeTask ar IN OUT Hl Wl event_slots enter_mask output_mask W) st)
        (hidden, fun _ _ => 0) := by
    rw [← List.foldl_flatMap]
    exact sched.foldl_eq _ (fun st t t' _ _ =>
      computeTask_comm ar Hl Wl event_slots enter_mask output_mask hW st t t') _
  rw [hfold]
  exact history_spec ar Hl Wl event_slots enter_mask output_mask hidden hseq h0 hstep
    (fun k hs => round_skip ar Hl Wl event_slots enter_mask output_mask k hs)
    (fun k hs => round_foldl ar Hl Wl event_slots enter_mask output_mask k hW hs) le_rfl

end History

end Phase

end SslaRt
