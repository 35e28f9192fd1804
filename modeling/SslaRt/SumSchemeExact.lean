import SslaRt.ShardLayerExact
import SslaRt.SumSchemeReplay

/-! The messages for the stages are what the events give one after the other, with the
affected shards of each in turn. -/

namespace SslaRt

namespace SumScheme

open OwnedCells

variable {R : Type*} [CommRing R] (p : SumScheme R)

/-- The affected shards on one job, one after the other. -/
def sharded (l : Layer) (j : Job R) (H_all : Nat → Fin kC0 → R) : (Nat → Fin kC0 → R) × (Fin kC0 → R) :=
  (affectedShards j.x p.W_ p.num_shards).foldl (fun st k =>
    let r := p.part l k (j.work p k) st.1
    (r.1, st.2 + r.2)) (H_all, 0)

/-- The pieces of a job, each with its shard. -/
def pieces (j : Job R) : List (Nat × ShardWork R) :=
  (affectedShards j.x p.W_ p.num_shards).map fun k => (k, j.work p k)

/-- The hidden state of a layer after some jobs. -/
def layerRun (l : Layer) (jobs : List (Job R)) : Nat → Fin kC0 → R :=
  jobs.foldl (fun H j => (p.sharded l j H).1) 0

variable {p}

omit [CommRing R] in
theorem mem_affected {x k : Nat} :
    k ∈ affectedShards x p.W_ p.num_shards ↔ k < p.num_shards ∧ (p.shardMask x).getLsbD k = true := by
  unfold affectedShards
  rw [List.mem_filter, List.mem_range]
  rfl

omit [CommRing R] in
theorem pieces_ownWork {j : Job R} : ∀ t ∈ p.pieces j, p.OwnWork t.1 t.2 := by
  intro t ht
  obtain ⟨k, -, rfl⟩ := List.mem_map.mp ht
  rfl

theorem foldl_parts {κ S A : Type*} [AddMonoid A] (f : κ → S → S × A) (order : List κ) (m : S) (a : A) :
    order.foldl (fun st k => let r := f k st.1; (r.1, st.2 + r.2)) (m, a) =
      (order.foldl (fun m k => (f k m).1) m, a + (Scan.outs (fun m k => f k m) m order).sum) := by
  induction order generalizing m a with
  | nil => simp [Scan.outs]
  | cons k order ih => simp [Scan.outs, ih, add_assoc]

theorem sharded_fst (l : Layer) (j : Job R) (H_all : Nat → Fin kC0 → R) :
    (p.sharded l j H_all).1 = finish (p.part l) H_all (p.pieces j) := by
  unfold sharded pieces finish
  rw [foldl_parts (fun k m => p.part l k (j.work p k) m), List.foldl_map]

theorem layerRun_eq (l : Layer) (jobs : List (Job R)) :
    p.layerRun l jobs = finish (p.part l) 0 (jobs.flatMap p.pieces) := by
  unfold layerRun
  induction jobs using List.reverseRecOn with
  | nil => rfl
  | append_singleton jobs j ih =>
    rw [List.foldl_append, List.flatMap_append, List.foldl_cons, List.foldl_nil, ih, sharded_fst]
    unfold finish
    rw [List.foldl_append, List.flatMap_singleton]

omit [CommRing R] in
theorem stepsOf_pieces (j : Job R) (k : Nat) : stepsOf (p.pieces j) k = (p.workAt k j).toList := by
  have hnd : (affectedShards j.x p.W_ p.num_shards).Nodup := List.nodup_range.filter _
  have hfilter : (affectedShards j.x p.W_ p.num_shards).filter (fun i => i = k) =
      List.replicate (if k ∈ affectedShards j.x p.W_ p.num_shards then 1 else 0) k := by
    rw [List.filter_eq, hnd.count]
  unfold stepsOf pieces workAt
  rw [List.filter_map, List.map_map]
  refine (congrArg (List.map _) hfilter).trans ?_
  by_cases hk : k < p.num_shards ∧ (p.shardMask j.x).getLsbD k = true
  · rw [if_pos (mem_affected.mpr hk), if_pos hk]
    rfl
  · rw [if_neg fun h => hk (mem_affected.mp h), if_neg hk]
    rfl

omit [CommRing R] in
theorem stepsOf_append {κ W : Type*} [DecidableEq κ] (a b : List (κ × W)) (k : κ) :
    stepsOf (a ++ b) k = stepsOf a k ++ stepsOf b k := by
  unfold stepsOf
  rw [List.filter_append, List.map_append]

omit [CommRing R] in
theorem stepsOf_jobs (jobs : List (Job R)) (k : Nat) :
    stepsOf (jobs.flatMap p.pieces) k = jobs.filterMap (p.workAt k) := by
  induction jobs with
  | nil => rfl
  | cons j jobs ih =>
    rw [List.flatMap_cons, stepsOf_append, ih, stepsOf_pieces, List.filterMap_cons]
    cases p.workAt k j <;> rfl

/-- The affected shards of a job see what each of them left after the earlier jobs. -/
theorem sharded_snd (l : Layer) (jobs : List (Job R)) (j : Job R) :
    (p.sharded l j (p.layerRun l jobs)).2 = ((affectedShards j.x p.W_ p.num_shards).map fun k =>
      (p.part l k (j.work p k) (replay (p.part l) 0 k (jobs.filterMap (p.workAt k)))).2).sum := by
  have houts : ∀ (order : List Nat) (ts : List (Nat × ShardWork R)), order.Nodup →
      (∀ t ∈ ts, p.OwnWork t.1 t.2) → (∀ k ∈ order, stepsOf ts k = jobs.filterMap (p.workAt k)) →
      Scan.outs (fun m k => p.part l k (j.work p k) m) (finish (p.part l) 0 ts) order =
        order.map fun k =>
          (p.part l k (j.work p k) (replay (p.part l) 0 k (jobs.filterMap (p.workAt k)))).2 := by
    intro order
    induction order with
    | nil => intros; rfl
    | cons k order ih =>
      intro ts hnd hok hsteps
      rw [List.nodup_cons] at hnd
      rw [Scan.outs, List.map_cons, run_out (part_owned l) ts hok (show p.OwnWork k (j.work p k) from rfl),
        hsteps k List.mem_cons_self]
      refine congrArg _ ?_
      have hnext : finish (p.part l) 0 (ts ++ [(k, j.work p k)]) =
          (p.part l k (j.work p k) (finish (p.part l) 0 ts)).1 := by
        unfold finish
        rw [List.foldl_append]
        rfl
      rw [← hnext]
      refine ih _ hnd.2 (fun t ht => ?_) fun i hi => ?_
      · rcases List.mem_append.mp ht with ht | ht
        · exact hok t ht
        · rw [List.mem_singleton.mp ht]
          rfl
      · have hne : k ≠ i := fun h => hnd.1 (h ▸ hi)
        rw [stepsOf_append, hsteps i (List.mem_cons_of_mem _ hi)]
        simp [stepsOf, hne]
  unfold sharded
  rw [foldl_parts (fun k m => p.part l k (j.work p k) m), zero_add, layerRun_eq]
  refine congrArg List.sum (houts _ _ (List.nodup_range.filter _) (fun t ht => ?_) fun k _ =>
    stepsOf_jobs jobs k)
  obtain ⟨i, -, hi⟩ := List.mem_flatMap.mp ht
  exact pieces_ownWork t hi

variable {s : State R} {ops : List (ProducerOp R)}

theorem sum_range_filter {A : Type*} [AddCommMonoid A] (n : Nat) (q : Nat → Prop) [DecidablePred q]
    (g : Nat → A) : ∑ k ∈ Finset.range n, (if q k then g k else 0) =
      (((List.range n).filter fun k => q k).map g).sum := by
  induction n with
  | zero => rfl
  | succ n ih =>
    rw [Finset.sum_range_succ, ih, List.range_succ, List.filter_append, List.map_append, List.sum_append]
    by_cases h : q n
    · rw [if_pos h]
      simp [h]
    · rw [if_neg h]
      simp [h]

omit [CommRing R] in
theorem works_nodup {jobs : List (Job R)} (hnd : (jobs.map Job.seq).Nodup) (k : Nat) :
    ((jobs.filterMap (p.workAt k)).map ShardWork.seq).Nodup := by
  have hsub : ((jobs.filterMap (p.workAt k)).map ShardWork.seq).Sublist (jobs.map Job.seq) := by
    clear hnd
    induction jobs with
    | nil => exact List.Sublist.refl _
    | cons j jobs ih =>
      rw [List.filterMap_cons]
      cases h : p.workAt k j with
      | none => exact ih.cons _
      | some w =>
        rw [workAt_seq h]
        exact ih.cons_cons _
  exact hsub.nodup hnd

/-- What is collected for a job is what its shards give after the earlier jobs. -/
theorem collected_eq (hw : Working p ops s) (ho : Outputs p s) {l : Layer}
    (hnd : ((issued ops s l).map Job.seq).Nodup) {a b : List (Job R)} {j : Job R}
    (heq : issued ops s l = a ++ j :: b) {v : Fin kC0 → R} (hc : Collected p (s.log l) j v) :
    v = (p.sharded l j (p.layerRun l a)).2 := by
  obtain ⟨f, rfl, hf⟩ := hc
  have haffected : affectedShards j.x p.W_ p.num_shards = (List.range p.num_shards).filter
      fun k => (p.shardMask j.x).getLsbD k = true :=
    List.filter_congr fun k _ => Bool.decide_eq_true.symm
  rw [sharded_snd, haffected, ← sum_range_filter]
  refine Finset.sum_congr rfl fun k hk => ?_
  by_cases hbit : (p.shardMask j.x).getLsbD k = true
  · rw [if_pos hbit, if_pos hbit]
    have hlog := hf k (Finset.mem_range.mp hk)
    rw [if_pos hbit] at hlog
    have hmem : (j.work p k, (⟨j.seq, f k⟩ : PartialMsg R)) ∈ s.log l k := by
      have : (j.work p k, (⟨j.seq, f k⟩ : PartialMsg R)) ∈ (s.log l k).filter fun e => e.1.seq = j.seq := by
        rw [hlog]
        exact List.mem_singleton_self _
      exact (List.mem_filter.mp this).1
    obtain ⟨c, d, hsplit⟩ := List.append_of_mem hmem
    have hout := ho l k c _ d hsplit
    -- the works before it are those of the earlier jobs
    have hjk : p.workAt k j = some (j.work p k) := if_pos ⟨Finset.mem_range.mp hk, hbit⟩
    have hwork := hw l k
    rw [hsplit, heq, List.map_append, List.map_cons, List.filterMap_append,
      List.filterMap_cons_some hjk, List.append_assoc, List.cons_append] at hwork
    have hworks := works_nodup (p := p) hnd k
    rw [heq, List.filterMap_append, List.filterMap_cons_some hjk] at hworks
    rw [← hwork, List.map_append, List.map_cons, List.nodup_append, List.nodup_cons] at hworks
    have hfirst : c.map Prod.fst = a.filterMap (p.workAt k) := by
      refine ((List.append_cons_inj_of_notMem (fun hmem => ?_) fun hmem => ?_).mp hwork).1
      · exact hworks.2.2 _ (List.mem_map_of_mem hmem) _ List.mem_cons_self rfl
      · exact hworks.2.1.1 (List.mem_map_of_mem hmem)
    rw [← hfirst]
    exact hout
  · rw [if_neg hbit, if_neg hbit]

def StageInMsg.number : StageInMsg R → Nat
  | .event seq _ _ _ => seq
  | .marker seq => seq
  | .eof => 0

def StageInMsg.isEvent : StageInMsg R → Bool
  | .event _ _ _ _ => true
  | _ => false

section Sequential

variable (p)

/-- Layer 0 for an event, and the job of layer 1 that comes from it. -/
def layer0Event (H_all : Nat → Fin kC0 → R) (m : EventMeta R) : (Nat → Fin kC0 → R) × Job R :=
  let r := p.sharded .l0 m.job H_all
  (r.1, ⟨m.seq, m.x, m.y, featBuf (p.layerFinalize .l0 (featBuf m.feat_in) r.2)⟩)

def layer1Event (H_all : Nat → Fin kC0 → R) (j : Job R) : (Nat → Fin kC0 → R) × StageInMsg R :=
  let r := p.sharded .l1 j H_all
  (r.1, .event j.seq j.x j.y (p.layerFinalize .l1 j.feat r.2))

/-- Both layers of stage 0 for one event. -/
def shardedEvent (H : (Nat → Fin kC0 → R) × (Nat → Fin kC0 → R)) (m : EventMeta R) :
    ((Nat → Fin kC0 → R) × (Nat → Fin kC0 → R)) × StageInMsg R :=
  let r₀ := p.layer0Event H.1 m
  let r₁ := p.layer1Event H.2 r₀.2
  ((r₀.1, r₁.1), r₁.2)

variable {p}

theorem layer0_run (ms : List (EventMeta R)) :
    Scan.final p.layer0Event 0 ms = p.layerRun .l0 (ms.map EventMeta.job) := by
  unfold Scan.final layerRun
  rw [List.foldl_map]
  rfl

theorem layer1_run (js : List (Job R)) : Scan.final p.layer1Event 0 js = p.layerRun .l1 js := rfl

/-- The layers one after the other, each for all events. -/
theorem outs_sharded (ms : List (EventMeta R)) (H₀ H₁ : Nat → Fin kC0 → R) :
    Scan.outs p.shardedEvent (H₀, H₁) ms =
      Scan.outs p.layer1Event H₁ (Scan.outs p.layer0Event H₀ ms) := by
  induction ms generalizing H₀ H₁ with
  | nil => rfl
  | cons m ms ih => exact congrArg _ (ih _ _)

theorem layer0_seqs (ms : List (EventMeta R)) (H : Nat → Fin kC0 → R) :
    (Scan.outs p.layer0Event H ms).map Job.seq = ms.map EventMeta.seq := by
  induction ms generalizing H with
  | nil => rfl
  | cons m ms ih => exact congrArg _ (ih _)

theorem layer1_seqs (js : List (Job R)) (H : Nat → Fin kC0 → R) :
    (Scan.outs p.layer1Event H js).map StageInMsg.number = js.map Job.seq := by
  induction js generalizing H with
  | nil => rfl
  | cons j js ih => exact congrArg _ (ih _)

omit [CommRing R] in
theorem event_numbers (l : List (StageInMsg R)) :
    (l.filter StageInMsg.isEvent).map StageInMsg.number = eventSeqs (l.filterMap StageInMsg.item) := by
  induction l with
  | nil => rfl
  | cons m l ih =>
    cases m with
    | event seq x y feat => exact congrArg (seq :: ·) ih
    | marker seq => exact ih
    | eof => exact ih

end Sequential

omit [CommRing R] in
/-- Elements of a list in the order of their keys, from the first on. -/
theorem prefix_of_keys {α : Type*} (key : α → Nat) {l L : List α} (hnd : (L.map key).Nodup)
    (hmem : ∀ x ∈ l, x ∈ L) (hkeys : l.map key <+: L.map key) : l <+: L := by
  induction l generalizing L with
  | nil => exact List.nil_prefix
  | cons x l ih =>
    cases L with
    | nil => exact absurd (hmem x List.mem_cons_self) List.not_mem_nil
    | cons y L =>
      rw [List.map_cons, List.nodup_cons] at hnd
      rw [List.map_cons, List.map_cons, List.cons_prefix_cons] at hkeys
      have hxy : x = y := by
        refine (List.mem_cons.mp (hmem x List.mem_cons_self)).resolve_right fun hx => hnd.1 ?_
        rw [← hkeys.1]
        exact List.mem_map_of_mem hx
      subst hxy
      refine List.cons_prefix_cons.mpr ⟨rfl, ih hnd.2 (fun z hz => ?_) hkeys.2⟩
      refine (List.mem_cons.mp (hmem z (List.mem_cons_of_mem _ hz))).resolve_left fun hzx => hnd.1 ?_
      exact hkeys.2.subset (hzx ▸ List.mem_map_of_mem hz)

section Run

variable {events : List (Event R)} (hp : Driven p ops) (h : p.Reachable ops s)
include hp h

theorem dispatched_sharded : s.dispatched <+: Scan.outs p.layer0Event 0 (eventMetas ops) := by
  have hinv := reachable_inv hp h
  have hout := (reachable_replays hp h).2
  refine prefix_of_keys Job.seq ?_ (fun j hj => ?_) ?_
  · rw [layer0_seqs]
    exact hp.nodup
  · obtain ⟨m, hm, v, hc, rfl⟩ := hinv.jobs j hj
    obtain ⟨a, b, hsplit⟩ := List.append_of_mem hm
    have hissued : issued ops s .l0 = a.map EventMeta.job ++ m.job :: b.map EventMeta.job := by
      unfold issued
      dsimp only
      rw [hsplit, List.map_append, List.map_cons]
    rw [collected_eq hinv.working hout (hinv.nodup hp .l0) hissued hc, hsplit, Scan.outs_append,
      layer0_run]
    exact List.mem_append_right _ List.mem_cons_self
  · rw [layer0_seqs, ← eventSeqs_items, ← show s.line = _ from hinv.line, show s.dispatched.map Job.seq = _
      from hinv.dispatched]
    unfold State.line
    rw [eventSeqs_append]
    exact List.prefix_append _ _

theorem results_sharded : s.sent.filter StageInMsg.isEvent <+:
    Scan.outs p.shardedEvent 0 (eventMetas ops) := by
  have hinv := reachable_inv hp h
  have hout := (reachable_replays hp h).2
  obtain ⟨rest, hrest⟩ := dispatched_sharded hp h
  rw [show (0 : (Nat → Fin kC0 → R) × (Nat → Fin kC0 → R)) = (0, 0) from rfl, outs_sharded]
  refine prefix_of_keys StageInMsg.number ?_ (fun m hm => ?_) ?_
  · rw [layer1_seqs, layer0_seqs]
    exact hp.nodup
  · obtain ⟨hmem, hevent⟩ := List.mem_filter.mp hm
    cases m with
    | marker seq => cases hevent
    | eof => cases hevent
    | event seq x y feat =>
      obtain ⟨j, hj, v, hc, rfl, rfl, rfl, rfl⟩ := hinv.results seq x y feat (List.mem_append_left _ hmem)
      obtain ⟨a, b, hsplit⟩ := List.append_of_mem hj
      rw [collected_eq hinv.working hout (hinv.nodup hp .l1) (show issued ops s .l1 = _ from hsplit) hc,
        ← hrest, hsplit, List.append_assoc, List.cons_append, Scan.outs_append, layer1_run]
      exact List.mem_append_right _ List.mem_cons_self
  · rw [event_numbers, layer1_seqs, layer0_seqs, ← eventSeqs_items, ← show s.line = _ from hinv.line]
    unfold State.line State.forwarded
    rw [List.append_assoc, eventSeqs_append]
    exact List.prefix_append _ _

end Run

end SumScheme

end SslaRt
