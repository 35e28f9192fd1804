import SslaRt.CelledBatch
import SslaRt.Predictions

/-! The head of the kernel. The warp of an event writes the seven columns of
the prediction of its s3 cell and then counts the version of the cell up, with
a plain load and a plain store. -/

namespace SslaRt

open Interleave

abbrev HEAD_OUT : Nat := 7

/-- The predictions and versions of a block, and the register of each warp. -/
structure HeadState (R : Type*) where
  preds : Int → Nat → R
  version : Int → UInt32
  reg : Fin N_WARPS → UInt32

variable {R : Type*} (writes : Nat → Option (Int × (Nat → R)))

/-- Step `t.2` of warp `t.1`: a column, the load of the version or its store. -/
def headTask (st : HeadState R) (t : Fin N_WARPS × Nat) : HeadState R :=
  match writes t.1 with
  | none => st
  | some (cell_idx, out) =>
    if t.2 < HEAD_OUT then
      { st with
        preds := Function.update st.preds cell_idx
          (Function.update (st.preds cell_idx) t.2 (out t.2)) }
    else if t.2 = HEAD_OUT then
      { st with reg := Function.update st.reg t.1 (st.version cell_idx) }
    else { st with version := Function.update st.version cell_idx (st.reg t.1 + 1) }

abbrev HEAD_STEPS : Nat := HEAD_OUT + 2

def headPhase (sched : Schedule N_WARPS HEAD_STEPS) (st : HeadState R) : HeadState R :=
  sched.order.foldl (headTask writes) st

def cellOuts (cell_idx : Int) : List (Nat → R) :=
  (List.range N_WARPS).filterMap fun e =>
    (writes e).bind fun w => if w.1 = cell_idx then some w.2 else none

/-- Every cell holds the last prediction for it, and its version grew by the
number of them. -/
structure HeadResult (st st' : HeadState R) : Prop where
  row : ∀ cell_idx, ∀ o < HEAD_OUT, st'.preds cell_idx o =
    ((cellOuts writes cell_idx).getLast?.map (· o)).getD (st.preds cell_idx o)
  version : ∀ cell_idx, st'.version cell_idx =
    st.version cell_idx + UInt32.ofNat (cellOuts writes cell_idx).length

def DistinctCells : Prop :=
  ∀ e < N_WARPS, ∀ e' < N_WARPS, e ≠ e' → ∀ w ∈ writes e, ∀ w' ∈ writes e', w.1 ≠ w'.1

theorem filterMap_eq_singleton {α β : Type*} {l : List α} {f : α → Option β} {a : α} {b : β}
    (hnd : l.Nodup) (ha : a ∈ l) (hfa : f a = some b) (hne : ∀ x ∈ l, x ≠ a → f x = none) :
    l.filterMap f = [b] := by
  obtain ⟨p, q, rfl⟩ := List.append_of_mem ha
  obtain ⟨-, hq, hpq⟩ := List.nodup_append.mp hnd
  have hp : p.filterMap f = [] := List.filterMap_eq_nil_iff.mpr fun x hx =>
    hne x (by simp [hx]) (hpq x hx a List.mem_cons_self)
  have hq' : q.filterMap f = [] := List.filterMap_eq_nil_iff.mpr fun x hx =>
    hne x (by simp [hx]) (fun h => (List.nodup_cons.mp hq).1 (h ▸ hx))
  rw [List.filterMap_append, List.filterMap_cons_some hfa, hp, hq', List.nil_append]

section Columns

def ownTask (out : Nat → R) (st : (Nat → R) × UInt32 × UInt32) (step : Nat) :
    (Nat → R) × UInt32 × UInt32 :=
  if step < HEAD_OUT then (Function.update st.1 step (out step), st.2)
  else if step = HEAD_OUT then (st.1, st.2.1, st.2.1)
  else (st.1, st.2.2 + 1, st.2.2)

theorem ownTask_columns (out : Nat → R) (st : (Nat → R) × UInt32 × UInt32) {n : Nat}
    (hn : n ≤ HEAD_OUT) : (List.range n).foldl (ownTask out) st =
      (fun o => if o < n then out o else st.1 o, st.2) := by
  induction n with
  | zero => simp
  | succ n ih =>
    rw [List.range_succ, List.foldl_append, ih (by omega), List.foldl_cons, List.foldl_nil, ownTask,
      if_pos (by omega)]
    refine Prod.ext (funext fun o => ?_) rfl
    by_cases ho : o = n
    · subst ho
      simp
    · simp only [Function.update_of_ne ho]
      by_cases hlt : o < n
      · rw [if_pos hlt, if_pos (by omega)]
      · rw [if_neg hlt, if_neg (by omega)]

theorem ownTask_steps (out : Nat → R) (st : (Nat → R) × UInt32 × UInt32) :
    (List.range HEAD_STEPS).foldl (ownTask out) st =
      (fun o => if o < HEAD_OUT then out o else st.1 o, st.2.1 + 1, st.2.1) := by
  rw [HEAD_STEPS, List.range_succ, List.range_succ, List.foldl_append, List.foldl_append,
    ownTask_columns out st le_rfl]
  rfl

end Columns

section Distinct

variable {writes}

theorem headTask_own {w : Fin N_WARPS} {cell_idx : Int} {out : Nat → R}
    (hw : writes w = some (cell_idx, out)) (st : HeadState R) (step : Nat) :
    let st' := headTask writes st (w, step)
    (st'.preds cell_idx, st'.version cell_idx, st'.reg w) =
      ownTask out (st.preds cell_idx, st.version cell_idx, st.reg w) step := by
  simp only [headTask, hw, ownTask]
  split_ifs <;> simp

theorem headTask_reg {v : Fin N_WARPS} {t : Fin N_WARPS × Nat} (hv : v ≠ t.1) (st : HeadState R) :
    (headTask writes st t).reg v = st.reg v := by
  unfold headTask
  cases writes t.1 with
  | none => rfl
  | some p =>
    dsimp only
    split_ifs
    · rfl
    · exact Function.update_of_ne hv _ _
    · rfl

theorem headTask_other {t : Fin N_WARPS × Nat} {cell_idx : Int}
    (hw : ∀ w ∈ writes t.1, w.1 ≠ cell_idx) (st : HeadState R) :
    (headTask writes st t).preds cell_idx = st.preds cell_idx ∧
      (headTask writes st t).version cell_idx = st.version cell_idx := by
  cases hwt : writes t.1 with
  | none => simp [headTask, hwt]
  | some p =>
    obtain ⟨c, out⟩ := p
    have hne : cell_idx ≠ c := (hw (c, out) hwt).symm
    simp only [headTask, hwt]
    split_ifs <;> simp [Function.update_of_ne hne]

theorem headPhase_writer {w : Fin N_WARPS} {cell_idx : Int} {out : Nat → R}
    (hw : writes w = some (cell_idx, out))
    (hother : ∀ v : Fin N_WARPS, v ≠ w → ∀ u ∈ writes v, u.1 ≠ cell_idx)
    (sched : Schedule N_WARPS HEAD_STEPS) (st : HeadState R) :
    let st' := headPhase writes sched st
    (∀ o < HEAD_OUT, st'.preds cell_idx o = out o) ∧
      st'.version cell_idx = st.version cell_idx + 1 := by
  have hproj := foldl_proj_filter
    (fun st : HeadState R => (st.preds cell_idx, st.version cell_idx, st.reg w))
    (fun t : Fin N_WARPS × Nat => decide (t.1 = w)) (f := headTask writes)
    (g := fun s t => ownTask out s t.2)
    (fun st t ht => by
      obtain rfl := of_decide_eq_true ht
      exact headTask_own hw st t.2)
    (fun st t ht => by
      have hne : t.1 ≠ w := of_decide_eq_false ht
      obtain ⟨h1, h2⟩ := headTask_other (hother t.1 hne) st
      simp only [h1, h2, headTask_reg (Ne.symm hne)]) sched.order st
  rw [sched.program_order, List.foldl_map, ownTask_steps] at hproj
  simp only [Prod.mk.injEq] at hproj
  obtain ⟨hrow, hversion, -⟩ := hproj
  exact ⟨fun o ho => (congrFun hrow o).trans (if_pos ho), hversion⟩

theorem foldl_untouched {cell_idx : Int} {l : List (Fin N_WARPS × Nat)}
    (hnone : ∀ t ∈ l, ∀ u ∈ writes t.1, u.1 ≠ cell_idx) (st : HeadState R) :
    (l.foldl (headTask writes) st).preds cell_idx = st.preds cell_idx ∧
      (l.foldl (headTask writes) st).version cell_idx = st.version cell_idx := by
  induction l generalizing st with
  | nil => exact ⟨rfl, rfl⟩
  | cons t l ih =>
    obtain ⟨h1, h2⟩ := headTask_other (hnone t List.mem_cons_self) st
    obtain ⟨ih1, ih2⟩ := ih (fun u hu => hnone u (List.mem_cons_of_mem t hu)) (headTask writes st t)
    exact ⟨ih1.trans h1, ih2.trans h2⟩

theorem cellOuts_eq_nil {cell_idx : Int}
    (hnone : ∀ v : Fin N_WARPS, ∀ u ∈ writes v, u.1 ≠ cell_idx) : cellOuts writes cell_idx = [] := by
  refine List.filterMap_eq_nil_iff.mpr (fun e he => ?_)
  cases hw : writes e with
  | none => rfl
  | some u => exact if_neg (hnone ⟨e, List.mem_range.mp he⟩ u hw)

theorem cellOuts_eq_singleton {w : Fin N_WARPS} {cell_idx : Int} {out : Nat → R}
    (hw : writes w = some (cell_idx, out))
    (hother : ∀ v : Fin N_WARPS, v ≠ w → ∀ u ∈ writes v, u.1 ≠ cell_idx) :
    cellOuts writes cell_idx = [out] := by
  refine filterMap_eq_singleton List.nodup_range (List.mem_range.mpr w.isLt) (by simp [hw]) ?_
  intro e he hne
  cases hwe : writes e with
  | none => rfl
  | some u =>
    have hlt := List.mem_range.mp he
    exact if_neg (hother ⟨e, hlt⟩ (fun h => hne (congrArg Fin.val h)) u hwe)

theorem headResult_of_distinct (h : DistinctCells writes) (sched : Schedule N_WARPS HEAD_STEPS)
    (st : HeadState R) : HeadResult writes st (headPhase writes sched st) := by
  have hcell : ∀ cell_idx, (∀ v : Fin N_WARPS, ∀ u ∈ writes v, u.1 ≠ cell_idx) ∨
      ∃ w : Fin N_WARPS, ∃ out, writes w = some (cell_idx, out) ∧
        ∀ v : Fin N_WARPS, v ≠ w → ∀ u ∈ writes v, u.1 ≠ cell_idx := by
    intro cell_idx
    by_cases hnone : ∀ v : Fin N_WARPS, ∀ u ∈ writes v, u.1 ≠ cell_idx
    · exact Or.inl hnone
    · push Not at hnone
      obtain ⟨w, ⟨c, out⟩, hw, rfl⟩ := hnone
      exact Or.inr ⟨w, out, hw, fun v hv u hu => h v v.isLt w w.isLt
        (fun he => hv (Fin.ext he)) u hu (c, out) hw⟩
  constructor
  · intro cell_idx o ho
    rcases hcell cell_idx with hnone | ⟨w, out, hw, hother⟩
    · rw [cellOuts_eq_nil hnone, headPhase, (foldl_untouched (fun t _ => hnone t.1) st).1]
      rfl
    · rw [cellOuts_eq_singleton hw hother, (headPhase_writer hw hother sched st).1 o ho]
      rfl
  · intro cell_idx
    rcases hcell cell_idx with hnone | ⟨w, out, hw, hother⟩
    · rw [cellOuts_eq_nil hnone, headPhase, (foldl_untouched (fun t _ => hnone t.1) st).2]
      simp
    · rw [cellOuts_eq_singleton hw hother, (headPhase_writer hw hother sched st).2]
      rfl

end Distinct

section Lost

variable {writes}

theorem headTask_version {t : Fin N_WARPS × Nat} (ht : t.2 ≤ HEAD_OUT) (st : HeadState R) :
    (headTask writes st t).version = st.version := by
  unfold headTask
  cases writes t.1 with
  | none => rfl
  | some p =>
    dsimp only
    split_ifs
    · rfl
    · rfl
    · omega

theorem rounds_version {n : Nat} (hn : n ≤ HEAD_OUT + 1) (st : HeadState R) :
    ((rounds N_WARPS n).foldl (headTask writes) st).version = st.version := by
  have hfold : ∀ (l : List (Fin N_WARPS × Nat)) (st : HeadState R), (∀ t ∈ l, t.2 ≤ HEAD_OUT) →
      (l.foldl (headTask writes) st).version = st.version := by
    intro l
    induction l with
    | nil => exact fun _ _ => rfl
    | cons t l ih =>
      intro st hl
      rw [List.foldl_cons, ih _ (fun u hu => hl u (List.mem_cons_of_mem t hu)),
        headTask_version (hl t List.mem_cons_self)]
  refine hfold _ st (fun t ht => ?_)
  simp only [rounds, List.mem_flatMap, List.mem_range, List.mem_map] at ht
  obtain ⟨e, he, w, -, rfl⟩ := ht
  exact Nat.le_of_lt_succ (he.trans_le hn)

theorem foldl_reg {v : Fin N_WARPS} {l : List (Fin N_WARPS × Nat)} (hv : ∀ t ∈ l, v ≠ t.1)
    (st : HeadState R) : (l.foldl (headTask writes) st).reg v = st.reg v := by
  induction l generalizing st with
  | nil => rfl
  | cons t l ih =>
    rw [List.foldl_cons, ih (fun u hu => hv u (List.mem_cons_of_mem t hu)),
      headTask_reg (hv t List.mem_cons_self)]

theorem loads_reg {ws : List (Fin N_WARPS)} (hnd : ws.Nodup) {w : Fin N_WARPS} (hmem : w ∈ ws)
    {cell_idx : Int} {out : Nat → R} (hw : writes w = some (cell_idx, out)) (st : HeadState R) :
    ((ws.map fun w => (w, HEAD_OUT)).foldl (headTask writes) st).reg w = st.version cell_idx := by
  induction ws generalizing st with
  | nil => simp at hmem
  | cons v ws ih =>
    obtain ⟨hv, hnd'⟩ := List.nodup_cons.mp hnd
    rw [List.map_cons, List.foldl_cons]
    rcases List.mem_cons.mp hmem with rfl | hmem'
    · rw [foldl_reg (fun t ht => ?_)]
      · simp [headTask, hw]
      · obtain ⟨u, hu, rfl⟩ := List.mem_map.mp ht
        exact fun h => hv (h ▸ hu)
    · rw [ih hnd' hmem', headTask_version le_rfl]

/-- The stores write one more than the registers. -/
theorem stores_version {ws : List (Fin N_WARPS)} {cell_idx : Int} {v : UInt32} {st : HeadState R}
    (hreg : ∀ w ∈ ws, ∀ u ∈ writes w, u.1 = cell_idx → st.reg w = v)
    (hex : ∃ w ∈ ws, ∃ u ∈ writes w, u.1 = cell_idx) :
    ((ws.map fun w => (w, HEAD_OUT + 1)).foldl (headTask writes) st).version cell_idx = v + 1 := by
  induction ws generalizing st with
  | nil =>
    obtain ⟨w, hw, -⟩ := hex
    simp at hw
  | cons w ws ih =>
    rw [List.map_cons, List.foldl_cons]
    have hstore : (headTask writes st (w, HEAD_OUT + 1)).reg = st.reg := by
      unfold headTask
      cases writes w with
      | none => rfl
      | some p => rfl
    by_cases hrest : ∃ w' ∈ ws, ∃ u ∈ writes w', u.1 = cell_idx
    · refine ih (fun w' hw' u hu hc => ?_) hrest
      rw [hstore]
      exact hreg w' (List.mem_cons_of_mem w hw') u hu hc
    · push Not at hrest
      rw [(foldl_untouched (fun t ht => ?_) _).2]
      · obtain ⟨w', hw', ⟨c, out⟩, hu, rfl⟩ := hex
        rcases List.mem_cons.mp hw' with rfl | hin
        · simp only [Option.mem_def] at hu
          simp [headTask, hu, hreg w' List.mem_cons_self (c, out) hu rfl]
        · exact absurd rfl (hrest w' hin (c, out) hu)
      · obtain ⟨w', hw', rfl⟩ := List.mem_map.mp ht
        exact hrest w' hw'

/-- When all warps keep pace, every load comes before every store. -/
theorem roundRobin_version {w : Fin N_WARPS} {cell_idx : Int} {out : Nat → R}
    (hw : writes w = some (cell_idx, out)) (st : HeadState R) :
    (headPhase writes (Schedule.roundRobin N_WARPS HEAD_STEPS) st).version cell_idx =
      st.version cell_idx + 1 := by
  have hrounds : rounds N_WARPS HEAD_STEPS =
      rounds N_WARPS HEAD_OUT ++ (List.finRange N_WARPS).map (fun w => (w, HEAD_OUT)) ++
        (List.finRange N_WARPS).map (fun w => (w, HEAD_OUT + 1)) := by
    rw [show HEAD_STEPS = HEAD_OUT + 1 + 1 from rfl, rounds_succ, rounds_succ]
  change ((rounds N_WARPS HEAD_STEPS).foldl (headTask writes) st).version cell_idx = _
  rw [hrounds, List.foldl_append, List.foldl_append]
  refine stores_version (fun v hv u hu hc => ?_) ⟨w, List.mem_finRange w, _, hw, rfl⟩
  obtain ⟨c, out'⟩ := u
  obtain rfl : c = cell_idx := hc
  rw [loads_reg (List.nodup_finRange N_WARPS) hv hu, rounds_version (Nat.le_succ _)]

theorem two_le_cellOuts {e e' : Nat} (hne : e ≠ e') (he : e < N_WARPS) (he' : e' < N_WARPS)
    {cell_idx : Int} {out out' : Nat → R} (hw : writes e = some (cell_idx, out))
    (hw' : writes e' = some (cell_idx, out')) : 2 ≤ (cellOuts writes cell_idx).length := by
  have hmem := List.mem_range.mpr he
  obtain ⟨p, q, hpq⟩ := List.append_of_mem (List.mem_range.mpr he')
  have hfst : ∀ l : List Nat, e ∈ l → 0 < (l.filterMap fun e => (writes e).bind fun w =>
      if w.1 = cell_idx then some w.2 else none).length := fun l hl =>
    List.length_pos_of_mem (a := out) (List.mem_filterMap.mpr ⟨e, hl, by simp [hw]⟩)
  rw [cellOuts, hpq, List.filterMap_append, List.filterMap_cons_some (b := out') (by simp [hw']),
    List.length_append, List.length_cons]
  rw [hpq, List.mem_append, List.mem_cons] at hmem
  rcases hmem with hp | rfl | hq
  · have hpos := hfst p hp
    omega
  · exact absurd rfl hne
  · have hpos := hfst q hq
    omega

theorem distinct_of_headResult {st : HeadState R}
    (h : ∀ sched, HeadResult writes st (headPhase writes sched st)) : DistinctCells writes := by
  rintro e he e' he' hne ⟨c, out⟩ hw ⟨c', out'⟩ hw' heq
  obtain rfl : c = c' := heq
  have hcount := (h (Schedule.roundRobin _ _)).version c
  rw [roundRobin_version (w := ⟨e, he⟩) hw] at hcount
  have hlen := two_le_cellOuts hne he he' hw hw'
  have hmax : (cellOuts writes c).length ≤ N_WARPS :=
    (List.length_filterMap_le _ _).trans (List.length_range).le
  have hone : (1 : UInt32) = UInt32.ofNat (cellOuts writes c).length := by
    simpa using hcount
  have hnat := congrArg UInt32.toNat hone
  rw [UInt32.toNat_ofNat_of_lt' (hmax.trans_lt (by decide)), UInt32.toNat_one] at hnat
  omega

end Lost

theorem headResult_iff_distinct (st : HeadState R) :
    (∀ sched, HeadResult writes st (headPhase writes sched st)) ↔ DistinctCells writes :=
  ⟨distinct_of_headResult, fun h sched => headResult_of_distinct h sched st⟩

end SslaRt
