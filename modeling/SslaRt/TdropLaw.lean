import SslaRt.ProbePipeline
import SslaRt.ParallelTdrop
import SslaRt.Scan

/-! The law of the temporal dropout over a run of arrivals: which arrival at a
cell passes, and that all implementations of it decide alike. -/

namespace SslaRt

open Interleave

/-- The `k`-th arrival at a cell passes if `k` is a multiple of the window. -/
def lawDecisions (window : Int) (arrivals : List (Nat × Nat)) : List Bool :=
  arrivals.mapIdx fun i c => decide (((arrivals.take i).count c : Int) % window = 0)

/-- `_tdrop` of the reference, on an array of integers below 256. -/
def refTdrop (counter : Nat → Nat) (window : Int) (idx : Nat) : (Nat → Nat) × Bool :=
  let pre := counter idx
  (Function.update counter idx ((pre + 1) &&& 0xff),
    if window ≤ 1 then true else decide ((pre : Int) % window = 0))

namespace SslaSPipeline

variable {R : Type*} (P : SslaSPipeline R)

/-- `fetch_add` returns the old value; concurrent callers are ordered by it. -/
def tdropAndPoolAtomic (atomic_counters : Nat → UInt8) (stage ev_x ev_y : Nat) :
    (Nat → UInt8) × (Nat × Nat × Bool) :=
  if stage > 2 then (atomic_counters, ev_x, ev_y, true)
  else
    let ev_x := ev_x / 2
    let ev_y := ev_y / 2
    let Wp := P.Ws_ (stage + 1)
    let idx := ev_y * Wp + ev_x
    let pre := atomic_counters idx
    (Function.update atomic_counters idx (pre + 1), ev_x, ev_y,
      if P.tdrop_window_ ≤ 1 then true else decide ((pre.toNat : Int) % P.tdrop_window_ = 0))

end SslaSPipeline

structure TdropBatch (R : Type*) where
  batch_size : Nat
  sched : Schedule N_WARPS batch_size
  event_slots : Nat → EventSlot R
  mask : Option (Nat → Bool)
  pass_flags : Nat → Bool

namespace TdropBatch

variable {R : Type*}

def selectedEvents (b : TdropBatch R) : List Nat := (List.range b.batch_size).filter (selected b.mask)

def arrivals (b : TdropBatch R) : List (Nat × Nat) :=
  b.selectedEvents.map fun e => ((b.event_slots e).evx, (b.event_slots e).evy)

def step (window : Int) (Wl : Nat) (td : Nat → UInt8) (b : TdropBatch R) :
    (Nat → UInt8) × List Bool :=
  let r := parallelTdrop b.sched window td b.event_slots Wl b.mask b.pass_flags
  (r.1, b.selectedEvents.map r.2)

end TdropBatch

/-- All implementations decide a run of arrivals at cells of stage `stage + 1`
by the law. -/
structure TdropLaw {R : Type*} [CommRing R] (P : SslaSPipeline R) (stage : Nat)
    (arrivals : List (Nat × Nat)) : Prop where
  check_at : Scan.outs (fun s c => P.tdropCheckAt s stage c.1 c.2) SslaSPipeline.reset arrivals =
    lawDecisions P.tdrop_window_ arrivals
  and_pool : ∀ events : List (Nat × Nat), events.map (fun e => (e.1 / 2, e.2 / 2)) = arrivals →
    Scan.outs (fun s e => let d := P.tdropAndPool s stage e.1 e.2; (d.state, d.pass))
      SslaSPipeline.reset events = lawDecisions P.tdrop_window_ arrivals
  atomic : ∀ events : List (Nat × Nat), events.map (fun e => (e.1 / 2, e.2 / 2)) = arrivals →
    Scan.outs (fun td e => let d := P.tdropAndPoolAtomic td stage e.1 e.2; (d.1, d.2.2.2))
      (fun _ => 0) events = lawDecisions P.tdrop_window_ arrivals
  reference : Scan.outs (fun td c => refTdrop td P.tdrop_window_ (c.2 * P.Ws_ (stage + 1) + c.1))
    (fun _ => 0) arrivals = lawDecisions P.tdrop_window_ arrivals
  parallel : ∀ batches : List (TdropBatch R), batches.flatMap TdropBatch.arrivals = arrivals →
    (Scan.outs (TdropBatch.step P.tdrop_window_ (P.Ws_ (stage + 1))) (fun _ => 0) batches).flatten =
      lawDecisions P.tdrop_window_ arrivals

section Serial

variable (window : Int)

/-- The byte counter in the order of the arrivals, the cells as indices. -/
def serialDecisions (td : Nat → UInt8) (idxs : List Nat) : List Bool :=
  Scan.outs (fun td idx => tdrop td window idx) td idxs

theorem counter_after (td : Nat → UInt8) (idxs : List Nat) (idx : Nat) :
    Scan.final (fun td i => tdrop td window i) td idxs idx =
      td idx + UInt8.ofNat (idxs.count idx) := by
  induction idxs generalizing td with
  | nil => simp
  | cons i idxs ih =>
    rw [Scan.final_cons, ih, List.count_cons]
    by_cases hi : i = idx
    · subst hi
      simp [UInt8.ofNat_add, UInt8.add_assoc, UInt8.add_comm]
    · rw [tdrop_of_ne td window (Ne.symm hi)]
      simp [hi]

theorem serialDecisions_getElem (idxs : List Nat) (k : Nat) (hk : k < idxs.length)
    (hk' : k < (serialDecisions window (fun _ => 0) idxs).length) :
    (serialDecisions window (fun _ => 0) idxs)[k] = if window ≤ 1 then true else
      decide ((((idxs.take k).count idxs[k] % 256 : Nat) : Int) % window = 0) := by
  refine (Scan.outs_getElem _ _ _ k hk hk').trans ?_
  rw [tdrop_snd, counter_after, UInt8.zero_add, UInt8.toNat_ofNat']

end Serial

section Cells

variable {Wp : Nat} {arrivals : List (Nat × Nat)} (hin : ∀ c ∈ arrivals, c.1 < Wp)

include hin in
theorem count_idx {c : Nat × Nat} (hc : c.1 < Wp) (k : Nat) :
    ((arrivals.map fun c => c.2 * Wp + c.1).take k).count (c.2 * Wp + c.1) =
      (arrivals.take k).count c := by
  rw [← List.map_take]
  have hin' : ∀ d ∈ arrivals.take k, d.1 < Wp := fun d hd => hin d (List.mem_of_mem_take hd)
  generalize arrivals.take k = ds at hin' ⊢
  induction ds with
  | nil => rfl
  | cons d ds ih =>
    have hd := hin' d List.mem_cons_self
    rw [List.map_cons, List.count_cons, List.count_cons,
      ih (fun e he => hin' e (List.mem_cons_of_mem d he))]
    by_cases hdc : d = c
    · subst hdc
      simp
    · have hne : d.2 * Wp + d.1 ≠ c.2 * Wp + c.1 := fun h =>
        hdc (Prod.ext (rowMajor_inj hd hc h).2 (rowMajor_inj hd hc h).1)
      simp [hdc, hne]

include hin in
theorem serial_getElem {window : Int} (hw : 1 ≤ window) (k : Nat) (hk : k < arrivals.length)
    (hk' : k < (serialDecisions window (fun _ => 0) (arrivals.map fun c => c.2 * Wp + c.1)).length) :
    (serialDecisions window (fun _ => 0) (arrivals.map fun c => c.2 * Wp + c.1))[k] =
      decide ((((arrivals.take k).count arrivals[k] % 256 : Nat) : Int) % window = 0) := by
  rw [serialDecisions_getElem window _ k (by simpa using hk), List.getElem_map,
    count_idx hin (hin _ (List.getElem_mem hk))]
  split
  · next h1 =>
    obtain rfl : window = 1 := le_antisymm h1 hw
    simp
  · rfl

theorem count_take_lt {k : Nat} (hk : k < arrivals.length) :
    (arrivals.take k).count arrivals[k] < arrivals.count arrivals[k] := by
  have hle := (List.take_sublist (k + 1) arrivals).count_le arrivals[k]
  rw [List.take_succ_eq_append_getElem hk, List.count_append, List.count_singleton_self] at hle
  exact hle

theorem exists_arrival {c : Nat × Nat} {n : Nat} (h : n < arrivals.count c) :
    ∃ k, ∃ hk : k < arrivals.length, arrivals[k] = c ∧ (arrivals.take k).count c = n := by
  induction arrivals generalizing n with
  | nil => simp at h
  | cons d ds ih =>
    by_cases hd : d = c
    · subst hd
      cases n with
      | zero => exact ⟨0, by simp, rfl, rfl⟩
      | succ n =>
        obtain ⟨k, hk, hc, hn⟩ := ih (n := n) (by simpa using h)
        exact ⟨k + 1, by simpa using hk, hc, by simp [hn]⟩
    · obtain ⟨k, hk, hc, hn⟩ := ih (n := n) (by simpa [hd] using h)
      exact ⟨k + 1, by simpa using hk, hc, by simp [hd, hn]⟩

include hin in
/-- The byte wraps at the arrival with number 256, which then passes. -/
theorem serial_eq_law_iff {window : Int} (hw : 1 ≤ window) :
    serialDecisions window (fun _ => 0) (arrivals.map fun c => c.2 * Wp + c.1) =
      lawDecisions window arrivals ↔ window ∣ 256 ∨ ∀ c, arrivals.count c ≤ 256 := by
  constructor
  · intro heq
    by_contra hcon
    push Not at hcon
    obtain ⟨hdvd, c, hc⟩ := hcon
    obtain ⟨k, hk, hkc, hn⟩ := exists_arrival hc
    have hs := serial_getElem hin hw k hk (by simpa [serialDecisions] using hk)
    simp only [heq, lawDecisions, List.getElem_mapIdx, hkc, hn] at hs
    simp only [Nat.mod_self, Nat.cast_zero, Int.zero_emod, decide_true, decide_eq_true_eq] at hs
    exact hdvd (Int.dvd_of_emod_eq_zero hs)
  · intro hcond
    refine List.ext_getElem (by simp [serialDecisions, lawDecisions]) (fun k hk hk' => ?_)
    have hlen : k < arrivals.length := by simpa [lawDecisions] using hk'
    rw [serial_getElem hin hw k hlen hk]
    simp only [lawDecisions, List.getElem_mapIdx]
    rcases hcond with hdvd | hfew
    · simp only [Int.natCast_emod, Nat.cast_ofNat, Int.emod_emod_of_dvd _ hdvd]
    · rw [Nat.mod_eq_of_lt ((count_take_lt hlen).trans_le (hfew _))]

end Cells

section Implementations

variable {R : Type*} (P : SslaSPipeline R) {stage : Nat}

theorem checkAt_outs (hs : stage ≤ 2) (s : PipeState R) (arrivals : List (Nat × Nat)) :
    Scan.outs (fun s c => P.tdropCheckAt s stage c.1 c.2) s arrivals =
      serialDecisions P.tdrop_window_ (s.tdrop_counter_ stage)
        (arrivals.map fun c => c.2 * P.Ws_ (stage + 1) + c.1) := by
  rw [serialDecisions, Scan.outs_map]
  refine Scan.outs_proj (fun s => s.tdrop_counter_ stage) (fun s c => ?_) (fun s c => ?_) s arrivals
  · simp only [SslaSPipeline.tdropCheckAt, if_neg (by omega : ¬ stage > 2), Function.update_self]
  · simp only [SslaSPipeline.tdropCheckAt, if_neg (by omega : ¬ stage > 2)]

theorem andPool_outs (hs : stage ≤ 2) (s : PipeState R) (events : List (Nat × Nat)) :
    Scan.outs (fun s e => let d := P.tdropAndPool s stage e.1 e.2; (d.state, d.pass)) s events =
      Scan.outs (fun s c => P.tdropCheckAt s stage c.1 c.2) s
        (events.map fun e => (e.1 / 2, e.2 / 2)) := by
  rw [Scan.outs_map]
  simp only [SslaSPipeline.tdropAndPool, if_neg (by omega : ¬ stage > 2)]

theorem atomic_outs (hs : stage ≤ 2) (td : Nat → UInt8) (events : List (Nat × Nat)) :
    Scan.outs (fun td e => let d := P.tdropAndPoolAtomic td stage e.1 e.2; (d.1, d.2.2.2)) td
        events = serialDecisions P.tdrop_window_ td
      ((events.map fun e => (e.1 / 2, e.2 / 2)).map fun c => c.2 * P.Ws_ (stage + 1) + c.1) := by
  rw [serialDecisions, List.map_map, Scan.outs_map]
  simp only [SslaSPipeline.tdropAndPoolAtomic, if_neg (by omega : ¬ stage > 2)]
  rfl

theorem toNat_succ_and (pre : UInt8) : (pre + 1).toNat = (pre.toNat + 1) &&& 0xff := by
  rw [UInt8.toNat_add, UInt8.toNat_one]
  exact (Nat.and_two_pow_sub_one_eq_mod _ 8).symm

theorem reference_outs (window : Int) (idx : Nat × Nat → Nat) (td : Nat → UInt8)
    (arrivals : List (Nat × Nat)) :
    Scan.outs (fun td c => refTdrop td window (idx c)) (fun i => (td i).toNat) arrivals =
      serialDecisions window td (arrivals.map idx) := by
  rw [serialDecisions, Scan.outs_map]
  refine (Scan.outs_proj (fun (td : Nat → UInt8) i => (td i).toNat) (fun td c => ?_)
    (fun td c => rfl) td arrivals).symm
  funext i
  simp only [refTdrop]
  by_cases hi : i = idx c
  · subst hi
    rw [tdrop_self, Function.update_self, toNat_succ_and]
  · rw [tdrop_of_ne _ _ hi, Function.update_of_ne hi]

section Batch

variable {Wl : Nat} (window : Int) (b : TdropBatch R) (td : Nat → UInt8)

def TdropBatch.cell (e : Nat) : Nat × Nat := ((b.event_slots e).evx, (b.event_slots e).evy)

def tdropBefore (Wl k : Nat) : Nat → UInt8 :=
  Scan.final (fun td c => tdrop td window (c.2 * Wl + c.1)) td
    (((List.range k).filter (selected b.mask)).map b.cell)

theorem tdropBefore_succ (k : Nat) : tdropBefore window b td Wl (k + 1) =
    if selected b.mask k then
      (tdrop (tdropBefore window b td Wl k) window (tdropIdx b.event_slots Wl k)).1
    else tdropBefore window b td Wl k := by
  unfold tdropBefore
  rw [List.range_succ, List.filter_append, List.map_append, Scan.final_append]
  cases hs : selected b.mask k with
  | true => simp [hs, TdropBatch.cell, tdropIdx]
  | false => simp [hs]

theorem outs_before (k : Nat) : Scan.outs (fun td c => tdrop td window (c.2 * Wl + c.1)) td
      (((List.range k).filter (selected b.mask)).map b.cell) =
    ((List.range k).filter (selected b.mask)).map fun e =>
      (tdrop (tdropBefore window b td Wl e) window (tdropIdx b.event_slots Wl e)).2 := by
  induction k with
  | zero => rfl
  | succ k ih =>
    rw [List.range_succ, List.filter_append, List.map_append, List.map_append, Scan.outs_append, ih]
    cases hs : selected b.mask k with
    | true => simp [hs, Scan.outs, TdropBatch.cell, tdropIdx, tdropBefore]
    | false => simp [hs, Scan.outs]

/-- A batch counts its selected events one after the other. -/
theorem step_eq_serial (hin : ∀ c ∈ b.arrivals, c.1 < Wl) :
    b.step window Wl td = (Scan.final (fun td c => tdrop td window (c.2 * Wl + c.1)) td b.arrivals,
      Scan.outs (fun td c => tdrop td window (c.2 * Wl + c.1)) td b.arrivals) := by
  have hx : ∀ e < b.batch_size, selected b.mask e = true → (b.event_slots e).evx < Wl := by
    intro e he hs
    exact hin (b.cell e) (List.mem_map_of_mem (List.mem_filter.mpr ⟨List.mem_range.mpr he, hs⟩))
  obtain ⟨htd, hpass⟩ := parallelTdrop_spec window b.event_slots Wl b.mask hx td b.pass_flags
    (tdropBefore window b td Wl) rfl (fun e _ => tdropBefore_succ window b td e) b.sched
  refine Prod.ext htd ((List.map_congr_left fun e he => ?_).trans
    (outs_before window b td b.batch_size).symm)
  obtain ⟨hmem, hs⟩ := List.mem_filter.mp he
  rw [hpass e (List.mem_range.mp hmem), hs, Bool.true_and]

theorem parallel_outs (batches : List (TdropBatch R))
    (hin : ∀ c ∈ batches.flatMap TdropBatch.arrivals, c.1 < Wl) :
    (Scan.outs (TdropBatch.step window Wl) td batches).flatten =
      serialDecisions window td
        ((batches.flatMap TdropBatch.arrivals).map fun c => c.2 * Wl + c.1) := by
  rw [serialDecisions, Scan.outs_map]
  exact Scan.outs_pieces (fun b hb td => step_eq_serial window b td
    (fun c hc => hin c (List.mem_flatMap_of_mem hb hc))) td

end Batch

end Implementations

/-- All implementations follow the law on a run exactly if the window divides
256 or no cell is hit more than 256 times. -/
theorem tdropLaw_iff {R : Type*} [CommRing R] (P : SslaSPipeline R) {stage : Nat} (hs : stage ≤ 2)
    (hw : 1 ≤ P.tdrop_window_) {arrivals : List (Nat × Nat)}
    (hin : ∀ c ∈ arrivals, c.1 < P.Ws_ (stage + 1)) :
    TdropLaw P stage arrivals ↔ P.tdrop_window_ ∣ 256 ∨ ∀ c, arrivals.count c ≤ 256 := by
  rw [← serial_eq_law_iff hin hw]
  constructor
  · intro h
    rw [← h.check_at, checkAt_outs P hs]
    rfl
  · intro hserial
    have hcheck := (checkAt_outs P hs SslaSPipeline.reset arrivals).trans hserial
    constructor
    · exact hcheck
    · rintro events rfl
      rw [andPool_outs P hs, hcheck]
    · rintro events rfl
      rw [atomic_outs P hs, hserial]
    · rw [← hserial]
      exact reference_outs P.tdrop_window_ (fun c => c.2 * P.Ws_ (stage + 1) + c.1) (fun _ => 0) _
    · rintro batches rfl
      rw [parallel_outs _ _ _ hin, hserial]

theorem tdropLaw_window4 : TdropLaw (probePipeline 16 16 4) 0 [(1, 1), (0, 1), (1, 1)] :=
  (tdropLaw_iff (probePipeline 16 16 4) (by decide) (by decide) (by decide)).mpr
    (Or.inl (by decide))

/-- The arrival with number 256 at one cell passes, and 256 is no multiple of
3. -/
theorem not_tdropLaw_window3 : ¬ TdropLaw (probePipeline 16 16 3) 0 (List.replicate 257 (0, 0)) := by
  intro h
  have hin : ∀ c ∈ List.replicate 257 ((0 : Nat), (0 : Nat)), c.1 < (probePipeline 16 16 3).Ws_ 1 := by
    intro c hc
    rw [List.eq_of_mem_replicate hc]
    decide
  have hserial := (checkAt_outs (probePipeline 16 16 3) (by decide) SslaSPipeline.reset _).symm.trans
    h.check_at
  rcases (serial_eq_law_iff hin (by decide)).mp hserial with hdvd | hfew
  · revert hdvd
    decide
  · have hcount := hfew (0, 0)
    rw [List.count_replicate_self] at hcount
    omega

end SslaRt
