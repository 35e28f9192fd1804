import SslaRt.SignalPipeline
import Mathlib.Data.List.TakeWhile

/-! With a halo of two columns every shard computes the stage-0 features of its
own events exactly. The state of layer 0 agrees in the strip and its halo, the
state of layer 1 in one column less on each side, the features in the strip. -/

namespace SslaRt

open CellMemory Contamination Scan

variable {R : Type*}

def gridPixels (P : SslaSPipeline R) : Set Pixel := {a | a.1 < P.W_ ∧ a.2 < P.H_}

section Columns

variable {P : SslaSPipeline R} {h : S01gHandle} (hP : h.For P) {k : Nat} {a : Pixel}

include hP

theorem owned_not_reached (hhalo : h.halo = 2) (hstrip : 2 ≤ h.strip_w) (ha : a ∈ gridPixels P)
    (ho : k = h.owner a.1) : a ∉ reach (patch0 P) (gridPixels P) (unrouted h k (gridPixels P)) := by
  have hpx : (a.1 : Int) < h.W_full := by exact_mod_cast hP.W_full ▸ ha.1
  have hb := h.owner_bounds (Int.natCast_nonneg a.1) hpx
  have hc := h.covers_owner (Int.natCast_nonneg a.1) hpx (by omega) ho
  rw [← ho] at hb
  rintro ⟨-, hun | ⟨b, ⟨hbgrid, hbc⟩, c, hcb, hca⟩⟩
  · exact hun.2 hc
  · have hbx : (b.1 : Int) < h.W_full := by exact_mod_cast hP.W_full ▸ hbgrid.1
    rw [h.covers_iff (Int.natCast_nonneg b.1) hbx (by omega) hc.1, S01gHandle.lo, S01gHandle.hi,
      hhalo] at hbc
    obtain ⟨py, px, rfl, -, hpxl, -, -, hxa, hax⟩ := mem_cells_neighbours.mp hca
    obtain ⟨py', px', heq, -, hpxl', -, -, hxb, hbx'⟩ := mem_cells_neighbours.mp hcb
    obtain ⟨-, hcol⟩ := rowMajor_inj hpxl hpxl' heq
    omega

end Columns

section View

variable [CommRing R] (P : SslaSPipeline R)

/-- One pipeline for the whole grid. -/
def wholeStep (w : WorkerState R) (e : Event R) : WorkerState R × MsgOutcome R :=
  Stage01Capi.shardStep P w (ownMessage e)

variable {P} {h : S01gHandle} (hP : h.For P) {k : Nat} {X : Set Pixel} {β : Type*}
  {g : WorkerState R → ShardMsg R → WorkerState R × β} (out : β → MsgOutcome R)
  (hg : ∀ w m, StepSpec P m w (g w m).1 (out (g w m).2))

include hP hg

theorem stage0_partialView (hgrid : ∀ a ∈ X, a.1 < P.W_) (hp0 : (P.layers_ 0).num_pos = 1)
    (hp1 : (P.layers_ 1).num_pos ≠ 1) :
    PartialView (wholeStep P) g (h.route k) (fun e => ¬ e.Skipped P → e.at ∈ X)
      fun w w' => Stage0Agrees P h k X w.pipe w'.pipe where
  seen := by
    intro w w' e m hX hr hagree
    obtain ⟨⟨hb, hc⟩, rfl⟩ := h.route_eq_some.mp hr
    have hs : ¬ e.Skipped P := fun hh => hb ((outOfBounds_iff hP).mpr hh)
    rw [(Event.in_grid hs).1] at hc
    rw [(hg _ _).pipe, wholeStep, (Stage01Capi.shardStep_spec P w _).pipe]
    exact stage0Agrees_seen hs hp0 hp1 hagree hgrid hc _ _
  unseen := by
    intro w w' e hX hr hagree
    have hno := h.route_eq_none.mp hr
    rw [wholeStep, (Stage01Capi.shardStep_spec P w _).pipe]
    by_cases hs : e.Skipped P
    · have hskip : (ownMessage e).ev.Skipped P := hs
      rw [msgPipe, if_pos hskip]
      exact hagree
    · have hc : ¬ h.Covers k e.px := by
        rw [outOfBounds_iff hP, (Event.in_grid hs).1] at hno
        exact fun hc => hno ⟨hs, hc⟩
      exact stage0Agrees_unseen hs hp0 hp1 hagree (hX hs) hc _

end View

section Messages

def shardMsgs (h : S01gHandle) (k : Nat) (events : List (Event R)) : List (ShardMsg R) :=
  (h.submitBatch (fun _ => []) 0 events).q_in k

theorem shardMsgs_eq (h : S01gHandle) (k : Nat) (events : List (Event R)) :
    shardMsgs h k events = events.filterMap (h.route k) :=
  (h.submitBatch_q_in _ _ events k).trans (List.nil_append _)

theorem shardMsgs_takeWhile (h : S01gHandle) (k : Nat) (events : List (Event R)) :
    (shardMsgs h k events).takeWhile (fun m => !m.eof) = shardMsgs h k events := by
  refine List.takeWhile_eq_self_iff.mpr fun m hm => ?_
  rw [shardMsgs_eq] at hm
  obtain ⟨e, -, hr⟩ := List.mem_filterMap.mp hm
  obtain ⟨-, rfl⟩ := h.route_eq_some.mp hr
  rfl

theorem runWorker_shardMsgs {β : Type*} (g : WorkerState R → ShardMsg R → WorkerState R × β)
    (w : WorkerState R) (h : S01gHandle) (k : Nat) (events : List (Event R)) :
    runWorker g w (shardMsgs h k events) = (final g w (events.filterMap (h.route k)),
      outs g w (events.filterMap (h.route k))) := by
  rw [runWorker, shardMsgs_takeWhile, shardMsgs_eq]

theorem ownMessages_takeWhile (events : List (Event R)) :
    (events.map ownMessage).takeWhile (fun m => !m.eof) = events.map ownMessage := by
  refine List.takeWhile_eq_self_iff.mpr fun m hm => ?_
  obtain ⟨e, -, rfl⟩ := List.mem_map.mp hm
  rfl

end Messages

section Exact

variable [CommRing R] (P : SslaSPipeline R)

/-- What the pipeline for the whole grid computes for every event. -/
def wholeOutcomes (w : WorkerState R) (events : List (Event R)) : List (MsgOutcome R) :=
  (Stage01Capi.shardWorker P w (events.map ownMessage)).2

theorem wholeOutcomes_eq (w : WorkerState R) (events : List (Event R)) :
    wholeOutcomes P w events = outs (wholeStep P) w events := by
  rw [wholeOutcomes, Stage01Capi.shardWorker, runWorker, ownMessages_takeWhile]
  exact outs_map _ _ _ _

variable {P} {h : S01gHandle} (hP : h.For P) (hhalo : h.halo = 2) (hstrip : 2 ≤ h.strip_w) {k : Nat}
  (hp0 : (P.layers_ 0).num_pos = 1) (hp1 : (P.layers_ 1).num_pos ≠ 1)

include hP hhalo hstrip hp0 hp1

theorem owned_feat0_agree {s s' : PipeState R} {e : Event R} (ho : h.Owns k e)
    (hagree : Stage0Agrees P h k (gridPixels P) s s') :
    (evStage0 P s e).2 = (evStage0 P s' e).2 := by
  have hs : ¬ e.Skipped P := fun hh => ho.1 ((outOfBounds_iff hP).mpr hh)
  obtain ⟨hx, -, hpx, hpy⟩ := Event.in_grid hs
  have hc := h.covers_of_owns (by omega) ho
  have hk := ho.2
  rw [hx] at hc hk
  rw [evStage0_eq hs, evStage0_eq hs]
  exact evLayer1_out_agree hs hagree (fun a ha => ha.1) hc hp0 hp1 ⟨hpx, hpy⟩
    (owned_not_reached hP hhalo hstrip ⟨hpx, hpy⟩ hk)

theorem stage0_sharedVisit {β : Type*} {g : WorkerState R → ShardMsg R → WorkerState R × β}
    {p : Event R × MsgOutcome R} {o' : β}
    (hv : SharedVisit (wholeStep P) g h k (fun e => ¬ e.Skipped P → e.at ∈ gridPixels P)
      (fun w w' => Stage0Agrees P h k (gridPixels P) w.pipe w'.pipe) p o') :
    ∃ w', ¬ Event.Skipped P p.1 ∧ o' = (g w' (ownMessage p.1)).2 ∧
      p.2.feat0 = (evStage0 P w'.pipe p.1).2 := by
  obtain ⟨e, o⟩ := p
  obtain ⟨w, w', -, ho, hagree, hout, rfl⟩ := hv
  simp only at ho hout
  subst hout
  have hs : ¬ e.Skipped P := fun hh => ho.1 ((outOfBounds_iff hP).mpr hh)
  refine ⟨w', hs, rfl, ?_⟩
  simp only
  rw [← owned_feat0_agree hP hhalo hstrip hp0 hp1 ho hagree]
  exact Stage01Capi.shardStep_feat0 P w (ownMessage e) hs

end Exact

theorem init_for (P : SslaSPipeline R) (n_shards halo : Int) : (S01gHandle.init n_shards halo P.W_ P.H_).For P := ⟨rfl, rfl⟩

/-- Every shard computes for the events that it owns the stage-0 feature that
one pipeline computes which gets all events. The shard that asks the dropout
first has the feature whenever the event passes. -/
theorem shard_feat0_exact [CommRing R] (P : SslaSPipeline R) (gpu : GpuRings) (n_shards : Int)
    (hstrip : 2 ≤ (S01gHandle.init n_shards 2 P.W_ P.H_).strip_w)
    (hp0 : (P.layers_ 0).num_pos = 1) (hp1 : (P.layers_ 1).num_pos = 9) (w : WorkerState R) (k : Nat)
    (events : List (Event R)) :
    let h := S01gHandle.init n_shards 2 P.W_ P.H_
    let whole := ownedOutcomes h k events (wholeOutcomes P w events)
    let msgs := shardMsgs h k events
    List.Forall₂ (fun p o' => o'.1.pass0 = true → o'.1.feat0 = p.2.feat0) whole
        (ownerOutcomes msgs (Stage01ToGpu.shardWorker P gpu w msgs).2) ∧
      List.Forall₂ (fun p o' => o'.feat0 = p.2.feat0) whole
        (ownerOutcomes msgs (Stage01Capi.shardWorker P w msgs).2) := by
  intro h whole msgs
  have hP : h.For P := init_for P n_shards 2
  have hp1' : (P.layers_ 1).num_pos ≠ 1 := by omega
  have hok : ∀ e ∈ events, ¬ e.Skipped P → e.at ∈ gridPixels P := by
    intro e _ hs
    obtain ⟨-, -, hpx, hpy⟩ := Event.in_grid hs
    exact ⟨hpx, hpy⟩
  have hgrid : ∀ a ∈ gridPixels P, a.1 < P.W_ := fun a ha => ha.1
  have hhalo : 0 ≤ h.halo := Int.natCast_nonneg 2
  have hrefl := Stage0Agrees.refl P h k (gridPixels P) w.pipe
  have hwhole : whole = ownedOutcomes h k events (outs (wholeStep P) w events) := by
    rw [← wholeOutcomes_eq]
  have hmsgs : msgs = events.filterMap (h.route k) := shardMsgs_eq h k events
  rw [hwhole, Stage01ToGpu.shardWorker, Stage01Capi.shardWorker, runWorker_shardMsgs,
    runWorker_shardMsgs, hmsgs]
  constructor
  · refine (ownedOutcomes_related hhalo (stage0_partialView hP Prod.fst
      (Stage01ToGpu.shardStep_spec P gpu) hgrid hp0 hp1') hok hrefl).imp fun p o' hv hpass => ?_
    obtain ⟨w', -, rfl, ho⟩ := stage0_sharedVisit hP rfl hstrip hp0 hp1' hv
    rw [ho]
    exact (Stage01ToGpu.shardStep_spec P gpu w' (ownMessage p.1)).feat0 hpass
  · refine (ownedOutcomes_related hhalo (stage0_partialView hP id
      (Stage01Capi.shardStep_spec P) hgrid hp0 hp1') hok hrefl).imp fun p o' hv => ?_
    obtain ⟨w', hs, rfl, ho⟩ := stage0_sharedVisit hP rfl hstrip hp0 hp1' hv
    rw [ho]
    exact Stage01Capi.shardStep_feat0 P w' (ownMessage p.1) hs

/-- The event in column 8 belongs to the second shard and reaches the first one as a copy. -/
theorem shard_feat0_exact_twoShards :
    let P := signalPipeline 16 8 1
    let events := [polarEvent 1 (8, 2), polarEvent 0 (7, 2), polarEvent 1 (3, 1)]
    let h := S01gHandle.init 2 2 16 8
    let whole := ownedOutcomes h 0 events (wholeOutcomes P zeroWorker events)
    let msgs := shardMsgs h 0 events
    List.Forall₂ (fun p o' => o'.1.pass0 = true → o'.1.feat0 = p.2.feat0) whole
        (ownerOutcomes msgs (Stage01ToGpu.shardWorker P ⟨false, [], 2, 0⟩ zeroWorker msgs).2) ∧
      List.Forall₂ (fun p o' => o'.feat0 = p.2.feat0) whole
        (ownerOutcomes msgs (Stage01Capi.shardWorker P zeroWorker msgs).2) :=
  shard_feat0_exact (signalPipeline 16 8 1) ⟨false, [], 2, 0⟩ 2 (by decide) rfl rfl zeroWorker 0
    [polarEvent 1 (8, 2), polarEvent 0 (7, 2), polarEvent 1 (3, 1)]

end SslaRt
