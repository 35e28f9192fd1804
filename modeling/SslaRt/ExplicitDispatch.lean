import SslaRt.CelledBatch

/-! The explicit dispatcher: one thread walks the events of a batch and the nine
offsets and appends every task to the list of the warp that owns the cell. The
list of a warp holds the tasks routed to it, in the order of the walk. -/

namespace SslaRt

variable {R : Type*}

/-- The cell of an event at offset `delta`, if it is in the grid. -/
def deltaCell (Hl Wl evx evy delta : Nat) : Option (Nat × Nat) :=
  let dy : Int := 1 - (delta / 3 : Nat)
  let dx : Int := 1 - (delta % 3 : Nat)
  let py : Int := evy + dy
  let px : Int := evx + dx
  if py < 0 ∨ py ≥ Hl ∨ px < 0 ∨ px ≥ Wl then none else some (py.toNat, px.toNat)

def taskOwner (p : Nat × Nat) : Fin N_WARPS :=
  ⟨p.1 % 3 * 3 + p.2 % 3, by unfold N_WARPS; omega⟩

/-- The task lists in shared memory, each `BATCH` wide. -/
structure TaskLists where
  task_event : Nat → Nat
  task_delta : Nat → Nat
  task_count : Fin N_WARPS → Nat

namespace TaskLists

def push (l : TaskLists) (owner : Fin N_WARPS) (task : Nat × Nat) : TaskLists :=
  let t := l.task_count owner
  { task_event := Function.update l.task_event (owner * BATCH + t) task.1
    task_delta := Function.update l.task_delta (owner * BATCH + t) task.2
    task_count := Function.update l.task_count owner (t + 1) }

def task (l : TaskLists) (w : Fin N_WARPS) (t : Nat) : Nat × Nat :=
  (l.task_event (w * BATCH + t), l.task_delta (w * BATCH + t))

def tasks (l : TaskLists) (w : Fin N_WARPS) : List (Nat × Nat) :=
  (List.range (l.task_count w)).map (l.task w)

end TaskLists

section Dispatch

variable (Hl Wl : Nat) (event_slots : Nat → EventSlot R) (mask : Option (Nat → Bool))

def dispatchDelta (e : Nat) (l : TaskLists) (delta : Nat) : TaskLists :=
  match deltaCell Hl Wl (event_slots e).evx (event_slots e).evy delta with
  | none => l
  | some p => l.push (taskOwner p) (e, delta)

def dispatchEvent (l : TaskLists) (e : Nat) : TaskLists :=
  if selected mask e = false then l else (List.range 9).foldl (dispatchDelta Hl Wl event_slots e) l

/-- Before event `e`; the counts start at zero, the lists with what is in memory. -/
def dispatchUpTo (e : Nat) (sm : TaskLists) : TaskLists :=
  (List.range e).foldl (dispatchEvent Hl Wl event_slots mask) { sm with task_count := fun _ => 0 }

def dispatchTasks (batch_size : Nat) (sm : TaskLists) : TaskLists :=
  dispatchUpTo Hl Wl event_slots mask batch_size sm

/-- Before offset `delta` of event `e`. -/
def dispatchAt (e delta : Nat) (sm : TaskLists) : TaskLists :=
  (List.range delta).foldl (dispatchDelta Hl Wl event_slots e)
    (dispatchUpTo Hl Wl event_slots mask e sm)

end Dispatch

section Routing

variable {l : TaskLists} {ts : List (Fin N_WARPS × Nat × Nat)}

def TaskLists.pushAll (l : TaskLists) (ts : List (Fin N_WARPS × Nat × Nat)) : TaskLists :=
  ts.foldl (fun l t => l.push t.1 t.2) l

theorem pushAll_snoc (l : TaskLists) (ts : List (Fin N_WARPS × Nat × Nat))
    (t : Fin N_WARPS × Nat × Nat) : l.pushAll (ts ++ [t]) = (l.pushAll ts).push t.1 t.2 := by
  simp [TaskLists.pushAll]

theorem pushAll_count (hl : ∀ w, l.task_count w = 0) (w : Fin N_WARPS) :
    (l.pushAll ts).task_count w = (ts.filter fun t => t.1 = w).length := by
  induction ts using List.reverseRecOn with
  | nil => exact hl w
  | append_singleton ts t ih =>
    rw [pushAll_snoc, List.filter_append, List.length_append, ← ih]
    by_cases hw : t.1 = w
    · subst hw
      simp [TaskLists.push]
    · simp [TaskLists.push, hw, Function.update_of_ne (Ne.symm hw)]

theorem listSlot_inj {w w' : Fin N_WARPS} {t t' : Nat} (ht : t < BATCH) (ht' : t' < BATCH)
    (h : w.val * BATCH + t = w'.val * BATCH + t') : w = w' ∧ t = t' := by
  have hh := rowMajor_inj ht ht' h
  exact ⟨Fin.ext hh.1, hh.2⟩

theorem push_task {owner w : Fin N_WARPS} {a : Nat × Nat} {t : Nat} (ho : l.task_count owner < BATCH)
    (ht : t < BATCH) : (l.push owner a).task w t =
      if w = owner ∧ t = l.task_count owner then a else l.task w t := by
  unfold TaskLists.task TaskLists.push
  split
  · next h =>
    obtain ⟨rfl, rfl⟩ := h
    simp
  · next h =>
    have hne : w.val * BATCH + t ≠ owner.val * BATCH + l.task_count owner :=
      fun he => h (listSlot_inj ht ho he)
    simp only [Function.update_of_ne hne]

/-- With room in every list, the list of a warp is what was routed to it. -/
theorem pushAll_tasks (hl : ∀ w, l.task_count w = 0)
    (hroom : ∀ w, (ts.filter fun t => t.1 = w).length ≤ BATCH) (w : Fin N_WARPS) :
    (l.pushAll ts).tasks w = (ts.filter fun t => t.1 = w).map Prod.snd := by
  induction ts using List.reverseRecOn with
  | nil => simp [TaskLists.tasks, TaskLists.pushAll, hl]
  | append_singleton ts t ih =>
    have hle : ∀ v, (l.pushAll ts).task_count v ≤ BATCH := by
      intro v
      rw [pushAll_count hl]
      exact le_trans (by simp) (hroom v)
    have hlt : (l.pushAll ts).task_count t.1 < BATCH := by
      have hh := hroom t.1
      rw [pushAll_count hl]
      simp only [List.filter_append, List.length_append, List.filter_cons, decide_true, if_true,
        List.filter_nil, List.length_singleton] at hh
      omega
    have hih := ih fun v => le_trans (by simp) (hroom v)
    rw [pushAll_snoc, List.filter_append, List.map_append, ← hih]
    have hold : ∀ n ≤ (l.pushAll ts).task_count w, (List.range n).map (((l.pushAll ts).push t.1 t.2).task w) =
        (List.range n).map ((l.pushAll ts).task w) := by
      intro n hn
      refine List.map_congr_left fun i hi => ?_
      have hi' := List.mem_range.mp hi
      rw [push_task hlt (by have := hle w; omega), if_neg]
      rintro ⟨rfl, rfl⟩
      omega
    by_cases hw : t.1 = w
    · subst hw
      have hcount : ((l.pushAll ts).push t.1 t.2).task_count t.1 = (l.pushAll ts).task_count t.1 + 1 :=
        Function.update_self _ _ _
      rw [TaskLists.tasks, hcount, List.range_succ, List.map_append, hold _ le_rfl]
      simp [TaskLists.tasks, push_task hlt hlt]
    · have hcount : ((l.pushAll ts).push t.1 t.2).task_count w = (l.pushAll ts).task_count w :=
        Function.update_of_ne (Ne.symm hw) _ _
      rw [TaskLists.tasks, hcount, hold _ le_rfl]
      simp [TaskLists.tasks, hw]

end Routing

theorem deltaCell_eq_some {Hl Wl evx evy delta : Nat} {p : Nat × Nat} :
    deltaCell Hl Wl evx evy delta = some p ↔
      p.1 + delta / 3 = evy + 1 ∧ p.2 + delta % 3 = evx + 1 ∧ p.1 < Hl ∧ p.2 < Wl := by
  unfold deltaCell
  dsimp only
  split
  · next h =>
    simp only [reduceCtorEq, false_iff]
    omega
  · next h =>
    simp only [Option.some.injEq, Prod.ext_iff]
    omega

section Walk

variable (Hl Wl : Nat) (event_slots : Nat → EventSlot R) (mask : Option (Nat → Bool))

/-- The tasks of event `e` at its first `n` offsets, each with its owner. -/
def eventTasks (e n : Nat) : List (Fin N_WARPS × Nat × Nat) :=
  (List.range n).filterMap fun delta =>
    (deltaCell Hl Wl (event_slots e).evx (event_slots e).evy delta).map fun p =>
      (taskOwner p, e, delta)

def batchTasks (k : Nat) : List (Fin N_WARPS × Nat × Nat) :=
  (List.range k).flatMap fun e => if selected mask e then eventTasks Hl Wl event_slots e 9 else []

theorem batchTasks_succ (k : Nat) : batchTasks Hl Wl event_slots mask (k + 1) =
    batchTasks Hl Wl event_slots mask k ++
      if selected mask k then eventTasks Hl Wl event_slots k 9 else [] := by
  simp [batchTasks, List.range_succ]

theorem eventTasks_succ (e n : Nat) : eventTasks Hl Wl event_slots e (n + 1) =
    eventTasks Hl Wl event_slots e n ++
      ((deltaCell Hl Wl (event_slots e).evx (event_slots e).evy n).map fun p =>
        (taskOwner p, e, n)).toList := by
  rw [eventTasks, List.range_succ, List.filterMap_append]
  cases hc : deltaCell Hl Wl (event_slots e).evx (event_slots e).evy n <;>
    simp [eventTasks, hc]

/-- An event has at most one task for each warp. -/
theorem eventTasks_owners_nodup (e : Nat) :
    ((eventTasks Hl Wl event_slots e 9).map Prod.fst).Nodup := by
  rw [eventTasks, List.map_filterMap]
  refine (List.pairwise_filterMap.mpr ?_)
  refine List.nodup_range.imp_of_mem fun hd hd' hne w hw w' hw' he => ?_
  simp only [Option.map_map, Option.map_eq_some_iff, Function.comp_apply] at hw hw'
  obtain ⟨p, hp, rfl⟩ := hw
  obtain ⟨p', hp', rfl⟩ := hw'
  obtain ⟨hy, hx, -, -⟩ := deltaCell_eq_some.mp hp
  obtain ⟨hy', hx', -, -⟩ := deltaCell_eq_some.mp hp'
  have hval := congrArg Fin.val he
  simp only [taskOwner] at hval
  have hlt := List.mem_range.mp hd
  have hlt' := List.mem_range.mp hd'
  omega

theorem eventTasks_filter_le (e : Nat) (w : Fin N_WARPS) :
    ((eventTasks Hl Wl event_slots e 9).filter fun t => t.1 = w).length ≤ 1 := by
  have hh := List.nodup_iff_count_le_one.mp (eventTasks_owners_nodup Hl Wl event_slots e) w
  rw [List.count_eq_length_filter, List.filter_map, List.length_map] at hh
  simpa only [Function.comp_def, beq_eq_decide] using hh

theorem batchTasks_filter_le (k : Nat) (w : Fin N_WARPS) :
    ((batchTasks Hl Wl event_slots mask k).filter fun t => t.1 = w).length ≤ k := by
  induction k with
  | zero => simp [batchTasks]
  | succ k ih =>
    rw [batchTasks_succ, List.filter_append, List.length_append]
    have hk : ((if selected mask k then eventTasks Hl Wl event_slots k 9 else []).filter
        fun t => t.1 = w).length ≤ 1 := by
      split
      · exact eventTasks_filter_le Hl Wl event_slots k w
      · simp
    omega

theorem foldl_dispatchDelta (e n : Nat) (l : TaskLists) :
    (List.range n).foldl (dispatchDelta Hl Wl event_slots e) l =
      l.pushAll (eventTasks Hl Wl event_slots e n) := by
  rw [TaskLists.pushAll, eventTasks, List.foldl_filterMap]
  refine List.foldl_ext _ _ _ fun l delta _ => ?_
  unfold dispatchDelta
  cases deltaCell Hl Wl (event_slots e).evx (event_slots e).evy delta <;> rfl

theorem dispatchUpTo_eq (k : Nat) (sm : TaskLists) : dispatchUpTo Hl Wl event_slots mask k sm =
    ({ sm with task_count := fun _ => 0 } : TaskLists).pushAll
      (batchTasks Hl Wl event_slots mask k) := by
  induction k with
  | zero => rfl
  | succ k ih =>
    rw [dispatchUpTo, List.range_succ, List.foldl_append, ← dispatchUpTo, ih, batchTasks_succ,
      TaskLists.pushAll, TaskLists.pushAll, List.foldl_append]
    simp only [List.foldl_cons, List.foldl_nil, dispatchEvent]
    cases hs : selected mask k with
    | false => rfl
    | true => exact foldl_dispatchDelta Hl Wl event_slots k 9 _

/-- The index at which a task is written is inside the list of its warp. -/
theorem dispatchAt_count_lt {e delta : Nat} (he : e < BATCH) (hs : selected mask e = true)
    (hd : delta < 9) {p : Nat × Nat}
    (hp : deltaCell Hl Wl (event_slots e).evx (event_slots e).evy delta = some p) (sm : TaskLists) :
    (dispatchAt Hl Wl event_slots mask e delta sm).task_count (taskOwner p) < BATCH := by
  have hsub : (batchTasks Hl Wl event_slots mask e ++ eventTasks Hl Wl event_slots e (delta + 1)).Sublist
      (batchTasks Hl Wl event_slots mask (e + 1)) := by
    rw [batchTasks_succ, if_pos hs]
    have hrange : (List.range (delta + 1)).Sublist (List.range 9) := List.range_sublist.mpr hd
    exact (List.Sublist.refl _).append (hrange.filterMap _)
  have hle := ((hsub.filter fun t => t.1 = taskOwner p).length_le).trans
    (batchTasks_filter_le Hl Wl event_slots mask (e + 1) (taskOwner p))
  rw [eventTasks_succ, hp, ← List.append_assoc, List.filter_append, List.length_append] at hle
  simp only [Option.map_some, Option.toList_some, List.filter_cons, decide_true, if_true,
    List.filter_nil, List.length_singleton] at hle
  rw [dispatchAt, foldl_dispatchDelta, dispatchUpTo_eq, TaskLists.pushAll, TaskLists.pushAll,
    ← List.foldl_append, ← TaskLists.pushAll, pushAll_count fun _ => rfl]
  omega

theorem dispatchTasks_tasks {batch_size : Nat} (hn : batch_size ≤ BATCH) (sm : TaskLists)
    (w : Fin N_WARPS) : (dispatchTasks Hl Wl event_slots mask batch_size sm).tasks w =
      ((batchTasks Hl Wl event_slots mask batch_size).filter fun t => t.1 = w).map Prod.snd := by
  rw [dispatchTasks, dispatchUpTo_eq]
  exact pushAll_tasks (fun _ => rfl)
    (fun v => (batchTasks_filter_le Hl Wl event_slots mask batch_size v).trans hn) w

end Walk

section Owners

variable {R : Type*} (Hl Wl : Nat) (event_slots : Nat → EventSlot R)

/-- The warp that updates a cell is one row and one column off its owner. -/
theorem patchTask_taskOwner {evx evy c d : Nat} {w : Fin N_WARPS}
    (h : patchTask Hl Wl w evx evy = some (c, d)) :
    (taskOwner (c / Wl, c % Wl)).val = (w.val / 3 + 2) % 3 * 3 + (w.val + 2) % 3 := by
  obtain ⟨py, px, rfl, hpx, hw⟩ := patchTask_owner h
  have hdiv : (py * Wl + px) / Wl = py := by
    rw [Nat.mul_comm, Nat.mul_add_div (by omega), Nat.div_eq_of_lt hpx, Nat.add_zero]
  have hmod : (py * Wl + px) % Wl = px := by
    rw [Nat.mul_comm, Nat.mul_add_mod, Nat.mod_eq_of_lt hpx]
  simp only [taskOwner, hdiv, hmod]
  omega

/-- Some warp updates the cell of an event in the grid. -/
theorem patchTask_centre {evx evy : Nat} (hx : evx < Wl) (hy : evy < Hl) :
    ∃ w d, patchTask Hl Wl w evx evy = some (evy * Wl + evx, d) := by
  refine ⟨⟨(evy + 1) % 3 * 3 + (evx + 1) % 3, by unfold N_WARPS; omega⟩, 4, ?_⟩
  rw [patchTask]
  have hdy : warpOffset (((evy + 1) % 3 * 3 + (evx + 1) % 3) / 3) evy = 0 := by
    rw [warpOffset_eq]
    omega
  have hdx : warpOffset (((evy + 1) % 3 * 3 + (evx + 1) % 3) % 3) evx = 0 := by
    rw [warpOffset_eq]
    omega
  dsimp only
  rw [hdy, hdx, if_neg (by omega)]
  norm_cast

theorem implicit_never_owner (e : Nat) (hx : (event_slots e).evx < Wl)
    (hy : (event_slots e).evy < Hl) :
    (∀ w c d, patchTask Hl Wl w (event_slots e).evx (event_slots e).evy = some (c, d) →
      taskOwner (c / Wl, c % Wl) ≠ w) ∧
    ∃ w d, patchTask Hl Wl w (event_slots e).evx (event_slots e).evy =
        some ((event_slots e).evy * Wl + (event_slots e).evx, d) ∧
      taskOwner ((event_slots e).evy, (event_slots e).evx) ≠ w ∧ tdropOwner event_slots none e ≠ w := by
  have hne : ∀ w c d, patchTask Hl Wl w (event_slots e).evx (event_slots e).evy = some (c, d) →
      taskOwner (c / Wl, c % Wl) ≠ w := by
    intro w c d h he
    have hval := patchTask_taskOwner Hl Wl h
    have hw : w.val < 9 := w.isLt
    rw [he] at hval
    omega
  obtain ⟨w, d, h⟩ := patchTask_centre Hl Wl hx hy
  have howner := hne w _ d h
  rw [Nat.mul_comm, Nat.mul_add_div (by omega), Nat.div_eq_of_lt hx, Nat.mul_add_mod,
    Nat.mod_eq_of_lt hx] at howner
  exact ⟨hne, w, d, h, howner, howner⟩

theorem implicit_never_owner_centre :
    let slots : Nat → EventSlot ℤ := fun _ => ⟨fun _ => 0, fun _ => 0, 1, 1, true⟩
    ∃ w d, patchTask 3 3 w 1 1 = some (4, d) ∧ tdropOwner slots none 0 ≠ w := by
  intro slots
  obtain ⟨-, w, d, h, -, hw⟩ := implicit_never_owner 3 3 slots 0 (by decide) (by decide)
  exact ⟨w, d, h, hw⟩

theorem implicit_wrong_owner : patchTask 3 3 0 1 1 = some (8, 0) ∧ taskOwner (8 / 3, 8 % 3) = 8 ∧
    taskOwner (8 / 3, 8 % 3) ≠ 0 := by
  decide

end Owners

end SslaRt
