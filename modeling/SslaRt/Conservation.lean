import SslaRt.StageDrain
import SslaRt.Routing

/-! No event is lost or counted twice: when the shards have worked their queues
off, the counters account for every submitted event. -/

namespace SslaRt

open Tally (tally)

variable {R : Type*}

namespace S01gHandle

variable (h : S01gHandle)

def deliveries (es : List (Event R)) : List (Nat × ShardMsg R) :=
  (es.filter fun e => ¬ h.OutOfBounds (castInt e.x) (castInt e.y)).flatMap h.covering

/-- The column is in the strip of its owner also after a negative halo is taken
off on both sides. -/
def KeepsInside (ex : Int) : Prop :=
  -h.halo ≤ ex % h.strip_w ∧ ex % h.strip_w < h.strip_w + h.halo

instance (ex : Int) : Decidable (h.KeepsInside ex) := inferInstanceAs (Decidable (_ ∧ _))

theorem covers_owner_iff {ex : Int} (h0 : 0 ≤ ex) (hW : ex < h.W_full) {k : Nat}
    (hk : k = h.owner ex) : h.Covers k ex ↔ h.KeepsInside ex := by
  have hpos : (0 : Int) < h.strip_w := by exact_mod_cast h.strip_pos h0 hW
  have hN := min_le_right (ex / (h.strip_w : Int)) ((h.N : Int) - 1)
  have hdm := Int.mul_ediv_add_emod ex h.strip_w
  rw [← owner, ← hk] at hN
  rw [h.owner_eq h0 hW] at hk
  unfold Covers KeepsInside lo hi
  rw [← hk] at hdm ⊢
  have hmul : ((k : Int) + 1) * h.strip_w = h.strip_w * k + h.strip_w := by ring
  have hcomm : (k : Int) * h.strip_w = h.strip_w * k := Int.mul_comm _ _
  omega

theorem keepsInside_of_halo {ex : Int} (hhalo : 0 ≤ h.halo) (h0 : 0 ≤ ex) (hW : ex < h.W_full) :
    h.KeepsInside ex := by
  have hpos : (0 : Int) < h.strip_w := by exact_mod_cast h.strip_pos h0 hW
  have hr := Int.emod_nonneg ex hpos.ne'
  have hlt := Int.emod_lt_of_pos ex hpos
  unfold KeepsInside
  omega

theorem filterMap_route_cons (e : Event R) (es : List (Event R)) (k : Nat) :
    (e :: es).filterMap (h.route k) = (h.route k e).toList ++ es.filterMap (h.route k) := by
  rw [List.filterMap_eq_flatMap_toList, List.filterMap_eq_flatMap_toList, List.flatMap_cons]

theorem deliveries_filter (es : List (Event R)) (k : Nat) :
    ((h.deliveries es).filter fun m => m.1 = k).map Prod.snd = es.filterMap (h.route k) := by
  induction es with
  | nil => rfl
  | cons e es ih =>
    rw [h.filterMap_route_cons]
    by_cases hb : h.OutOfBounds (castInt e.x) (castInt e.y)
    · have hnone : h.route k e = none := h.route_eq_none.mpr (fun hh => hh.1 hb)
      have hcons : h.deliveries (e :: es) = h.deliveries es := by simp [deliveries, hb]
      rw [hcons, ih, hnone]
      rfl
    · have hcons : h.deliveries (e :: es) = h.covering e ++ h.deliveries es := by
        simp [deliveries, hb]
      rw [hcons, List.filter_append, List.map_append, h.covering_filter hb, ih]

theorem deliveries_lt {es : List (Event R)} {m : Nat × ShardMsg R} (hm : m ∈ h.deliveries es) :
    m.1 ∈ Finset.range h.N := by
  obtain ⟨e, he, hm⟩ := List.mem_flatMap.mp hm
  have hb : ¬ h.OutOfBounds (castInt e.x) (castInt e.y) := by simpa using (List.mem_filter.mp he).2
  have hmem : m.2 ∈ (h.route m.1 e).toList := by
    rw [← h.covering_filter hb m.1]
    exact List.mem_map.mpr ⟨m, List.mem_filter.mpr ⟨hm, decide_eq_true rfl⟩, rfl⟩
  exact Finset.mem_range.mpr (h.route_eq_some.mp (Option.mem_toList.mp hmem)).1.2.1

theorem sum_routed (es : List (Event R)) (q : ShardMsg R → Bool) :
    ∑ k ∈ Finset.range h.N, (es.filterMap (h.route k)).countP q =
      (h.deliveries es).countP fun m => q m.2 := by
  rw [← Tally.sum_countP_filter (fun m hm => h.deliveries_lt hm)]
  refine Finset.sum_congr rfl (fun k _ => ?_)
  rw [← h.deliveries_filter, List.countP_map]
  rfl

/-- An event has one owner, and that gets it unless the halo is negative and
takes its column off. -/
theorem covering_owners {e : Event R} (hb : ¬ h.OutOfBounds (castInt e.x) (castInt e.y)) :
    (h.covering e).countP (fun m => m.2.is_owner) = (decide (h.KeepsInside (castInt e.x))).toNat := by
  have hin := hb
  simp only [OutOfBounds, not_or, not_lt, ge_iff_le, not_le] at hin
  obtain ⟨k, hk⟩ := Int.eq_ofNat_of_zero_le (h.owner_nonneg hin.1)
  have hkN : k ∈ Finset.range h.N := by
    have hN := min_le_right (castInt e.x / (h.strip_w : Int)) ((h.N : Int) - 1)
    rw [← owner, hk] at hN
    exact Finset.mem_range.mpr (by omega)
  have hroute : ∀ j, ([e].filterMap (h.route j)).countP ShardMsg.is_owner =
      (decide (h.Covers j (castInt e.x) ∧ j = k)).toNat := by
    intro j
    rw [List.filterMap_cons, h.route_eq, hk]
    by_cases hc : h.Covers j (castInt e.x)
    · rw [if_pos ⟨hb, hc⟩, List.filterMap_nil, Tally.countP_cons_toNat]
      simp [hc]
    · rw [if_neg (fun hh => hc hh.2), decide_eq_false (fun hh => hc hh.1)]
      rfl
  have hsum := h.sum_routed [e] ShardMsg.is_owner
  have hdel : h.deliveries [e] = h.covering e := by simp [deliveries, hb]
  rw [hdel, Finset.sum_congr rfl (fun j _ => hroute j), Finset.sum_eq_single_of_mem k hkN] at hsum
  · rw [← hsum]
    simp [h.covers_owner_iff hin.1 hin.2.1 hk.symm]
  · intro j _ hj
    simp [hj]

theorem deliveries_owners (es : List (Event R)) :
    (h.deliveries es).countP (fun m => m.2.is_owner) =
      (es.filter fun e => ¬ h.OutOfBounds (castInt e.x) (castInt e.y)).countP
        fun e => h.KeepsInside (castInt e.x) := by
  unfold deliveries
  induction es with
  | nil => rfl
  | cons e es ih =>
    by_cases hb : h.OutOfBounds (castInt e.x) (castInt e.y)
    · rw [List.filter_cons_of_neg (by simpa using hb), ih]
    · rw [List.filter_cons_of_pos (by simpa using hb), List.flatMap_cons, List.countP_append, ih,
        h.covering_owners hb, Tally.countP_cons_toNat, Nat.add_comm]

end S01gHandle

section Books

variable [CommRing R] {cfg : StageConfig R} {s t : StageState R}

/-- What shard `k` was sent, from the messages it decided back to the producer. -/
def history (s : StageState R) (k : Nat) : List (ShardMsg R) :=
  (s.log k).map Prod.fst ++ ((s.q_in k).map Prod.snd ++
    ((s.submitting.getD []).filter fun m => m.1 = k).map fun m => m.2.2)

structure Accounted (cfg : StageConfig R) (s : StageState R) : Prop where
  history : ∀ k, history s k = s.submitted.filterMap (cfg.handle.route k)
  accepted : s.accepted + s.submitting.toList.length =
    s.submitted.countP fun e => ¬ cfg.handle.OutOfBounds (castInt e.x) (castInt e.y)
  n_oob : s.n_oob = s.submitted.countP fun e => cfg.handle.OutOfBounds (castInt e.x) (castInt e.y)

omit [CommRing R] in
theorem history_submit (hidle : s.submitting = none) {e : Event R}
    (hb : ¬ cfg.handle.OutOfBounds (castInt e.x) (castInt e.y)) (k : Nat) :
    history { s with
      submitting := some ((cfg.handle.covering e).map fun m => (m.1, s.submitted.length, m.2))
      submitted := s.submitted ++ [e] } k = history s k ++ (cfg.handle.route k e).toList := by
  rw [← cfg.handle.covering_filter hb k]
  simp only [history, hidle, Option.getD_none, Option.getD_some, List.filter_nil, List.map_nil,
    List.append_nil, List.filter_map, List.map_map, List.append_assoc]
  rfl

omit [CommRing R] in
theorem history_push {k : Nat} {m : Nat × ShardMsg R} {rest : List (Nat × Nat × ShardMsg R)}
    (hs : s.submitting = some ((k, m) :: rest)) (k' : Nat) :
    history { s with
      submitting := some rest
      q_in := Function.update s.q_in k (s.q_in k ++ [m]) } k' = history s k' := by
  unfold history
  by_cases hk : k = k'
  · subst hk
    simp [hs]
  · simp [hs, hk, Function.update_of_ne (Ne.symm hk)]

omit [CommRing R] in
theorem history_pop {k : Nat} {m : Nat × ShardMsg R} {rest : List (Nat × ShardMsg R)}
    (hq : s.q_in k = m :: rest) (w : WorkerState R) (ops : List (StageOp R)) (o : MsgOutcome R)
    (k' : Nat) : history { s with
      q_in := Function.update s.q_in k rest
      workers := Function.update s.workers k w
      todo := Function.update s.todo k ops
      log := Function.update s.log k (s.log k ++ [(m.2, o)]) } k' = history s k' := by
  unfold history
  by_cases hk : k' = k
  · subst hk
    simp [hq]
  · simp [Function.update_of_ne hk]

theorem Accounted.step (h : Accounted cfg s) (hw : WellRouted cfg s) (hst : StageStep cfg s t) :
    Accounted cfg t := by
  cases hst with
  | reject e hidle hb =>
    refine ⟨fun k => ?_, ?_, ?_⟩
    · have hnone : cfg.handle.route k e = none := cfg.handle.route_eq_none.mpr (fun hh => hh.1 hb)
      rw [List.filterMap_append, cfg.handle.filterMap_route_cons, hnone]
      exact (h.history k).trans (List.append_nil _).symm
    · simp [h.accepted, hb]
    · simp [h.n_oob, hb]
  | submit e hidle hb =>
    refine ⟨fun k => ?_, ?_, ?_⟩
    · rw [history_submit hidle hb, h.history k, List.filterMap_append,
        cfg.handle.filterMap_route_cons, List.filterMap_nil, List.append_nil]
    · have hold := h.accepted
      simp only [hidle, Option.toList_none, List.length_nil, Nat.add_zero] at hold
      simp [hold, hb]
    · simp [h.n_oob, hb]
  | push k m rest hs hroom =>
    refine ⟨fun k' => (history_push hs k').trans (h.history k'), ?_, h.n_oob⟩
    have hold := h.accepted
    rw [hs] at hold
    exact hold
  | accept hs =>
    have hold := h.accepted
    rw [hs] at hold
    refine ⟨fun k => ?_, hold, h.n_oob⟩
    rw [← h.history k]
    simp [SslaRt.history, hs]
  | eof k m rest hrun hidle hq heof =>
    have hm := hw.q_in k m (hq ▸ List.mem_cons_self)
    exact absurd (heof.symm.trans hm.eof) (by decide)
  | pop k m rest r hrun hidle hq heof hr =>
    exact ⟨fun k' => (history_pop hq _ _ r.2.1 k').trans (h.history k'), h.accepted, h.n_oob⟩
  | exec k op rest ht => cases op <;> exact ⟨h.history, h.accepted, h.n_oob⟩

theorem reachable_accounted (buf : WorkerState R) (ring_head : Nat → Nat)
    (h : StageReachable cfg (stageInit buf ring_head) s) : Accounted cfg s := by
  induction h with
  | refl => exact ⟨fun _ => rfl, rfl, rfl⟩
  | tail hreach hst ih => exact ih.step (reachable_wellRouted buf ring_head hreach) hst

end Books

/-- The counters account for every event, where the rings started at
`ring_head`. -/
structure Conserved (cfg : StageConfig R) (ring_head : Nat → Nat) (s : StageState R) : Prop where
  submitted : s.accepted + s.n_oob = s.submitted.length
  owner : ∑ k ∈ cfg.shards, s.total_owner k = s.accepted
  halo : ∑ k ∈ cfg.shards, s.total_owner k + ∑ k ∈ cfg.shards, s.total_halo k =
    (cfg.handle.deliveries s.submitted).length
  passes : ∀ k ∈ cfg.shards,
    s.pass_stage1 k ≤ s.pass_stage0 k ∧ s.pass_stage0 k ≤ s.total_owner k
  pushed : ∀ b, s.ring_head b = ring_head b + s.n_pushed b ∧
    s.n_pushed b = ∑ k ∈ cfg.shards, (s.log k).countP fun x => cfg.rings.Gets b x
  decided : ∀ k, (s.log k).map Prod.fst = s.submitted.filterMap (cfg.handle.route k)

section Drained

variable [CommRing R] {cfg : StageConfig R} {s : StageState R} {buf : WorkerState R}
  {ring_head : Nat → Nat} (h : StageReachable cfg (stageInit buf ring_head) s) (hd : Drained s)

include h hd

theorem drained_value (c : Counter) :
    c.value s = c.value (stageInit buf ring_head) + tally (c.dueTo cfg.rings) cfg.shards s.log := by
  have hbalanced := reachable_balanced buf ring_head c h
  rwa [Counter.Balanced, Tally.tally_nil hd.todo, Nat.add_zero] at hbalanced

theorem drained_shard {k : Nat} (hk : k ∈ cfg.shards) :
    s.total_owner k = (s.log k).countP (fun x => x.1.is_owner) ∧
      s.total_halo k = (s.log k).countP (fun x => !x.1.is_owner) ∧
      s.pass_stage0 k = (s.log k).countP (fun x => x.1.is_owner && x.2.pass0) ∧
      s.pass_stage1 k = (s.log k).countP (fun x => x.1.is_owner && x.2.pass1) := by
  have hsingle : ∀ q : ShardMsg R × MsgOutcome R → Bool,
      0 + tally (fun j x => decide (j = k) && q x) cfg.shards s.log = (s.log k).countP q :=
    fun q => (Nat.zero_add _).trans (Tally.tally_single hk q)
  exact ⟨(drained_value h hd (.total_owner k)).trans (hsingle _),
    (drained_value h hd (.total_halo k)).trans (hsingle _),
    (drained_value h hd (.pass_stage0 k)).trans (hsingle _),
    (drained_value h hd (.pass_stage1 k)).trans (hsingle _)⟩

theorem drained_log (k : Nat) :
    (s.log k).map Prod.fst = s.submitted.filterMap (cfg.handle.route k) := by
  have hhistory := (reachable_accounted buf ring_head h).history k
  rw [history, hd.q_in, hd.submitting] at hhistory
  simpa using hhistory

theorem drained_sum (q : ShardMsg R → Bool) :
    ∑ k ∈ cfg.shards, (s.log k).countP (fun x => q x.1) =
      (cfg.handle.deliveries s.submitted).countP fun m => q m.2 := by
  rw [← cfg.handle.sum_routed]
  refine Finset.sum_congr rfl (fun k _ => ?_)
  rw [← drained_log h hd, List.countP_map]
  rfl

theorem drained_owner : ∑ k ∈ cfg.shards, s.total_owner k =
    (s.submitted.filter fun e => ¬ cfg.handle.OutOfBounds (castInt e.x) (castInt e.y)).countP
      fun e => cfg.handle.KeepsInside (castInt e.x) := by
  rw [← cfg.handle.deliveries_owners, ← drained_sum h hd ShardMsg.is_owner]
  exact Finset.sum_congr rfl fun k hk => (drained_shard h hd hk).1

theorem drained_halo : ∑ k ∈ cfg.shards, s.total_owner k + ∑ k ∈ cfg.shards, s.total_halo k =
    (cfg.handle.deliveries s.submitted).length := by
  have hsum := drained_sum h hd fun _ => true
  simp only [List.countP_true] at hsum
  rw [← hsum, ← Finset.sum_add_distrib]
  refine Finset.sum_congr rfl (fun k hk => ?_)
  obtain ⟨howner, hhalo, -⟩ := drained_shard h hd hk
  rw [howner, hhalo]
  have hsplit := List.length_eq_countP_add_countP (l := s.log k)
    fun x : ShardMsg R × MsgOutcome R => x.1.is_owner
  simpa using hsplit.symm

theorem drained_passes {k : Nat} (hk : k ∈ cfg.shards) :
    s.pass_stage1 k ≤ s.pass_stage0 k ∧ s.pass_stage0 k ≤ s.total_owner k := by
  have hlogged := reachable_wellLogged buf ring_head h
  obtain ⟨howner, -, hpass0, hpass1⟩ := drained_shard h hd hk
  rw [howner, hpass0, hpass1]
  constructor
  · refine List.countP_mono_left (fun x hx hp => ?_)
    rw [Bool.and_eq_true] at hp ⊢
    exact ⟨hp.1, hlogged.passes k x hx hp.2⟩
  · refine List.countP_mono_left (fun x _ hp => ?_)
    exact (Bool.and_eq_true _ _ ▸ hp).1

theorem drained_accepted : s.accepted =
    (s.submitted.filter fun e => ¬ cfg.handle.OutOfBounds (castInt e.x) (castInt e.y)).length := by
  have haccepted := (reachable_accounted buf ring_head h).accepted
  rw [hd.submitting] at haccepted
  rw [← List.countP_eq_length_filter]
  exact haccepted

theorem drained_submitted : s.accepted + s.n_oob = s.submitted.length := by
  rw [drained_accepted h hd, (reachable_accounted buf ring_head h).n_oob,
    ← List.countP_eq_length_filter, Nat.add_comm]
  simpa using (List.length_eq_countP_add_countP
    (fun e : Event R => decide (cfg.handle.OutOfBounds (castInt e.x) (castInt e.y)))).symm

end Drained

/-- When the shards have worked their queues off, the counters account for every
event exactly if no accepted event lies in a border of its strip that a negative
halo takes off. -/
theorem eventConservation_iff [CommRing R] (cfg : StageConfig R) (buf : WorkerState R)
    (ring_head : Nat → Nat) {s : StageState R}
    (h : StageReachable cfg (stageInit buf ring_head) s) (hd : Drained s) :
    (Conserved cfg ring_head s ↔ ∀ e ∈ s.submitted,
      ¬ cfg.handle.OutOfBounds (castInt e.x) (castInt e.y) →
      cfg.handle.KeepsInside (castInt e.x)) ∧
    (0 ≤ cfg.halo → Conserved cfg ring_head s) := by
  have howner : ∑ k ∈ cfg.shards, s.total_owner k = s.accepted ↔ ∀ e ∈ s.submitted,
      ¬ cfg.handle.OutOfBounds (castInt e.x) (castInt e.y) →
      cfg.handle.KeepsInside (castInt e.x) := by
    rw [drained_owner h hd, drained_accepted h hd, List.countP_eq_length]
    simp only [List.mem_filter, decide_eq_true_eq, and_imp]
  have hiff : Conserved cfg ring_head s ↔ ∑ k ∈ cfg.shards, s.total_owner k = s.accepted := by
    refine ⟨Conserved.owner, fun ho => ?_⟩
    refine ⟨drained_submitted h hd, ho, drained_halo h hd, fun k hk => drained_passes h hd hk,
      fun b => ?_, drained_log h hd⟩
    have hhead := drained_value h hd (.ring_head b)
    have hpushed := (drained_value h hd (.n_pushed b)).trans (Nat.zero_add _)
    exact ⟨hhead.trans (congrArg _ hpushed.symm), hpushed⟩
  rw [hiff, howner]
  refine ⟨Iff.rfl, fun hhalo e he hb => ?_⟩
  simp only [S01gHandle.OutOfBounds, not_or, not_lt, ge_iff_le, not_le] at hb
  exact cfg.handle.keepsInside_of_halo hhalo hb.1 hb.2.1

def oneShard (halo : Int) : StageConfig ℤ where
  P := probePipeline 80 64 4
  n_shards := 1
  halo := halo
  rings := ⟨true, [⟨0, 20, 0, 16⟩], 20, 16⟩
  shard_ring_cap := 65536
  cap_ge := default_cap_ge

def twoShards : StageConfig ℤ where
  P := probePipeline 80 64 1
  n_shards := 2
  halo := 2
  rings := ⟨true, [⟨0, 20, 0, 16⟩], 20, 16⟩
  shard_ring_cap := 65536
  cap_ge := default_cap_ge

theorem castInt_border : castInt (pixelEventAt (R := ℤ) 40 0).x = (40 : Nat) ∧
    castInt (pixelEventAt (R := ℤ) 40 0).y = (0 : Nat) := ⟨castInt_natCast 40, castInt_natCast 0⟩

theorem twoShards_inBounds : ¬ twoShards.handle.OutOfBounds (castInt (pixelEventAt (R := ℤ) 40 0).x)
    (castInt (pixelEventAt (R := ℤ) 40 0).y) := by
  rw [castInt_border.1, castInt_border.2]
  decide

theorem twoShards_route (k : Fin 2) : twoShards.handle.route k (pixelEventAt (R := ℤ) 40 0) =
    some ⟨pixelEventAt 40 0, decide (k = 1), false⟩ := by
  have howner : decide ((k : Int) = twoShards.handle.owner (40 : Nat)) = decide (k = 1) := by
    revert k
    decide
  have hx := castInt_border.1
  rw [S01gHandle.route_eq, hx, if_pos ⟨hx ▸ twoShards_inBounds, by revert k; decide⟩, howner]

/-- Each shard has decided the one message that it got. -/
theorem twoShards_log {s : StageState ℤ} (hs : StageReachable twoShards (stageInit zeroWorker fun _ => 0) s)
    (hdecided : ∀ k, (s.log k).map Prod.fst = s.submitted.filterMap (twoShards.handle.route k))
    (hes : s.submitted = [pixelEventAt 40 0]) (k : Fin 2) :
    ∃ o, s.log k = [(⟨pixelEventAt 40 0, decide (k = 1), false⟩, o)] ∧
      ∃ w, o = (Stage01ToGpu.shardStep twoShards.P twoShards.rings w
        ⟨pixelEventAt 40 0, decide (k = 1), false⟩).2.1 := by
  have hk := hdecided k
  rw [hes, List.filterMap_cons, twoShards_route] at hk
  obtain ⟨x, hlog, hx⟩ := List.map_eq_singleton_iff.mp hk
  obtain ⟨w, hw⟩ := reachable_decided _ _ hs k x (by rw [hlog]; exact List.mem_singleton_self x)
  exact ⟨x.2, by rw [hlog, ← hx], w, by rw [← hx]; exact hw⟩

/-- The event in column 40 is accepted, its owner pushes a record, and the other shard
gets a copy. -/
theorem twoShards_conserved : ∃ s : StageState ℤ,
    StageReachable twoShards (stageInit zeroWorker fun _ => 0) s ∧ Drained s ∧
    s.submitted = [pixelEventAt 40 0] ∧ Conserved twoShards (fun _ => 0) s ∧
    s.accepted = 1 ∧ s.total_owner 1 = 1 ∧ s.total_halo 0 = 1 ∧ s.pass_stage1 1 = 1 ∧
    s.n_pushed 0 = 1 := by
  obtain ⟨s, hs, hd, hes⟩ := exists_worked_off twoShards zeroWorker (fun _ => 0) [pixelEventAt 40 0]
  have hconserved := (eventConservation_iff twoShards zeroWorker _ hs hd).2 (by decide)
  obtain ⟨o0, hlog0, -⟩ := twoShards_log hs hconserved.decided hes 0
  obtain ⟨o1, hlog1, w, ho1⟩ := twoShards_log hs hconserved.decided hes 1
  have hlog0' : s.log 0 = [(⟨pixelEventAt 40 0, false, false⟩, o0)] := hlog0
  have hlog1' : s.log 1 = [(⟨pixelEventAt 40 0, true, false⟩, o1)] := hlog1
  obtain ⟨howner0, hhalo0, -⟩ := drained_shard hs hd (k := 0) (by decide)
  obtain ⟨howner1, -, -, hstage1⟩ := drained_shard hs hd (k := 1) (by decide)
  have hpass : o1.pass1 = true := by
    rw [ho1]
    exact (decided_passes twoShards (by decide) (m := ⟨pixelEventAt 40 0, true, false⟩) twoShards_inBounds rfl).2
  have htakes : twoShards.rings.Gets 0 (⟨pixelEventAt 40 0, true, false⟩, o1) := by
    refine ⟨rfl, hpass, ?_⟩
    rw [Event.px, Event.py, castInt_border.1, castInt_border.2]
    decide
  have hnot : ¬ twoShards.rings.Gets 0 (⟨pixelEventAt 40 0, false, false⟩, o0) :=
    fun hg => absurd hg.1 Bool.false_ne_true
  have hshards : twoShards.shards = Finset.range 2 := rfl
  have hone : s.total_owner 1 = 1 := by simp [howner1, hlog1']
  have hsum : ∑ k ∈ twoShards.shards, s.total_owner k = 1 := by
    rw [hshards, Finset.sum_range_succ, Finset.sum_range_one, hone, howner0, hlog0']
    rfl
  refine ⟨s, hs, hd, hes, hconserved, hconserved.owner.symm.trans hsum, hone, ?_, ?_, ?_⟩
  · simp [hhalo0, hlog0']
  · simp [hstage1, hlog1', hpass]
  · rw [(hconserved.pushed 0).2, hshards, Finset.sum_range_succ, Finset.sum_range_one, hlog0', hlog1',
      Tally.countP_cons_toNat, Tally.countP_cons_toNat, decide_eq_false hnot, decide_eq_true htakes]
    rfl

/-- A halo of minus one takes the first column off, so an event there is accepted
and sent to nobody. -/
theorem negativeHalo_not_conserved : ¬ ∀ s, StageReachable (oneShard (-1))
    (stageInit zeroWorker fun _ => 0) s → Drained s → Conserved (oneShard (-1)) (fun _ => 0) s := by
  intro hall
  have hx : castInt (pixelEventAt (R := ℤ) 0 0).x = (0 : Nat) := castInt_natCast 0
  have hy : castInt (pixelEventAt (R := ℤ) 0 0).y = (0 : Nat) := castInt_natCast 0
  have hb : ¬ (oneShard (-1)).handle.OutOfBounds (castInt (pixelEventAt (R := ℤ) 0 0).x)
      (castInt (pixelEventAt (R := ℤ) 0 0).y) := by
    rw [hx, hy]
    decide
  have hnobody : (oneShard (-1)).handle.covering (pixelEventAt (R := ℤ) 0 0) = [] := by
    unfold S01gHandle.covering S01gHandle.cover
    rw [hx]
    rfl
  have hsubmit : StageStep (oneShard (-1)) (stageInit zeroWorker fun _ => 0) _ :=
    .submit (pixelEventAt 0 0) rfl hb
  have hnone : some (((oneShard (-1)).handle.covering (pixelEventAt (R := ℤ) 0 0)).map
      fun m => (m.1, 0, m.2)) = some [] := by rw [hnobody, List.map_nil]
  have hconserved := hall _ ((Relation.ReflTransGen.single hsubmit).tail (.accept hnone))
    ⟨rfl, fun _ => rfl, fun _ => rfl⟩
  exact absurd hconserved.owner (by decide)

end SslaRt
