import SslaRt.CpuStage
import SslaRt.ShardWorkerRefinement

/-! The order of the records of one shard in a ring: the events that a shard
has in its queue, in work and in the ring stay in the order of submission. -/

namespace SslaRt

section Pushed

variable {R : Type*} {rings : GpuRings} {ev : Event R} {s2x s2y : Int} {feat1 : Fin kC1 → R}

def GpuRings.Takes (rings : GpuRings) (b : Nat) (s2x s2y : Int) : Prop :=
  (rings.gpu_attached ∧ 0 ≤ s2x ∧ s2x < rings.gpu_W2 ∧ 0 ≤ s2y ∧ s2y < rings.gpu_H2) ∧
    ∃ gb ∈ rings.gpu_block[b]?, (gb.proc_x_lo ≤ s2x ∧ s2x < gb.proc_x_hi) ∧
      gb.proc_y_lo ≤ s2y ∧ s2y < gb.proc_y_hi

theorem GpuRings.mem_push {b : Nat} {record : HybridInputRec R} :
    (b, record) ∈ rings.push ev s2x s2y feat1 ↔ rings.Takes b s2x s2y ∧
      record = ⟨ev.t, UInt16.ofInt s2x, UInt16.ofInt s2y, feat1⟩ := by
  unfold GpuRings.push GpuRings.Takes
  split
  · next hin =>
    simp only [List.mem_filterMap, List.mem_zipIdx_iff_getElem?, Prod.exists, hin, true_and,
      Option.mem_def]
    constructor
    · rintro ⟨gb, i, hget, hrec⟩
      split at hrec
      · cases hrec
      · split at hrec
        · cases hrec
        · next hx hy =>
          simp only [Option.some.injEq, Prod.mk.injEq] at hrec
          obtain ⟨rfl, rfl⟩ := hrec
          exact ⟨⟨gb, hget, by omega, by omega⟩, rfl⟩
    · rintro ⟨⟨gb, hget, hx, hy⟩, rfl⟩
      exact ⟨gb, b, hget, by rw [if_neg (by omega), if_neg (by omega)]⟩
  · next hin => simp [hin]

theorem GpuRings.push_nodup : ((rings.push ev s2x s2y feat1).map Prod.fst).Nodup := by
  unfold GpuRings.push
  split
  · have hidx : rings.gpu_block.zipIdx.Pairwise fun a b => a.2 ≠ b.2 := by
      refine List.pairwise_map.mp ?_
      rw [List.zipIdx_map_snd]
      exact List.nodup_range' ..
    refine List.pairwise_map.mpr (hidx.filterMap _ ?_)
    intro a a' hne r hr r' hr'
    split_ifs at hr hr'
    cases hr
    cases hr'
    exact hne
  · exact List.nodup_nil

end Pushed

section Stream

variable {R : Type*}

def claimIndices (b : Nat) (ops : List (StageOp R)) : List Nat :=
  ops.filterMap fun
    | .claim b' index _ => if b' = b then some index else none
    | _ => none

/-- The events of shard `k` from the ring of block `b` back to the producer. -/
def stream (s : StageState R) (b k : Nat) : List Nat :=
  ((s.ring b).filter fun entry => entry.shard = k).map RingEntry.index ++
    (claimIndices b (s.todo k) ++ ((s.q_in k).map Prod.fst ++
      ((s.submitting.getD []).filter fun m => m.1 = k).map fun m => m.2.1))

theorem claimIndices_recs (b index : Nat) {recs : List (Nat × HybridInputRec R)}
    (hnd : (recs.map Prod.fst).Nodup) : (claimIndices b
      (recs.flatMap fun r => [StageOp.claim r.1 index r.2, .n_pushed r.1])).Sublist [index] := by
  induction recs with
  | nil => exact List.nil_sublist _
  | cons r recs ih =>
    rw [List.map_cons, List.nodup_cons] at hnd
    have hrest := ih hnd.2
    by_cases hb : r.1 = b
    · have hnone : claimIndices b
          (recs.flatMap fun r => [StageOp.claim r.1 index r.2, .n_pushed r.1]) = [] := by
        refine List.filterMap_eq_nil_iff.mpr (fun op hop => ?_)
        obtain ⟨r', hr', hop⟩ := List.mem_flatMap.mp hop
        have hne : r'.1 ≠ b := fun h => hnd.1 (List.mem_map.mpr ⟨r', hr', h.trans hb.symm⟩)
        simp only [List.mem_cons, List.not_mem_nil, or_false] at hop
        rcases hop with rfl | rfl
        · exact if_neg hne
        · rfl
      unfold claimIndices at hnone ⊢
      simp [hb, hnone]
    · unfold claimIndices at hrest ⊢
      simpa [hb] using hrest

theorem claimIndices_messageOps (P : SslaSPipeline R) (b index : Nat) (m : ShardMsg R)
    (o : MsgOutcome R) {recs : List (Nat × HybridInputRec R)} (hnd : (recs.map Prod.fst).Nodup) :
    (claimIndices b (messageOps P index m o recs)).Sublist [index] := by
  unfold messageOps
  split
  · exact List.nil_sublist _
  · split
    · have hrecs := claimIndices_recs b index hnd
      unfold claimIndices at hrecs ⊢
      rw [List.filterMap_append]
      split_ifs <;> simpa using hrecs
    · exact List.nil_sublist _

theorem stream_claims {s s' : StageState R} {b k : Nat} (hring : s'.ring b = s.ring b)
    (hsub : s'.submitting = s.submitting)
    (htodo : (claimIndices b (s'.todo k) ++ (s'.q_in k).map Prod.fst).Sublist
      (claimIndices b (s.todo k) ++ (s.q_in k).map Prod.fst)) :
    (stream s' b k).Sublist (stream s b k) := by
  unfold stream
  rw [hring, hsub, ← List.append_assoc (claimIndices b (s'.todo k)),
    ← List.append_assoc (claimIndices b (s.todo k))]
  exact (htodo.append_right _).append_left _

variable [CommRing R] {cfg : StageConfig R} {s t : StageState R}

omit [CommRing R] in
theorem submit_stream (b k : Nat) {e : Event R} (hidle : s.submitting = none)
    (hb : ¬ cfg.handle.OutOfBounds (castInt e.x) (castInt e.y)) :
    (stream { s with
      submitting := some ((cfg.handle.covering e).map fun m => (m.1, s.submitted.length, m.2))
      submitted := s.submitted ++ [e] } b k).Sublist (stream s b k ++ [s.submitted.length]) := by
  have hnew : ((((cfg.handle.covering e).map fun m => (m.1, s.submitted.length, m.2)).filter
      fun m => m.1 = k).map fun m => m.2.1).Sublist [s.submitted.length] := by
    have hroute := congrArg (List.map fun _ => s.submitted.length) (cfg.handle.covering_filter hb k)
    rw [List.filter_map, List.map_map]
    rw [List.map_map] at hroute
    refine hroute ▸ ?_
    cases cfg.handle.route k e with
    | none => exact List.nil_sublist _
    | some m => exact List.Sublist.refl _
  unfold stream
  simp only [hidle, Option.getD_none, Option.getD_some, List.filter_nil, List.map_nil,
    List.append_nil, List.append_assoc]
  exact (((hnew.append_left _).append_left _).append_left _)

omit [CommRing R] in
theorem exec_stream (b k k' : Nat) {op : StageOp R} {rest : List (StageOp R)}
    (ht : s.todo k' = op :: rest) :
    stream (op.apply k' { s with todo := Function.update s.todo k' rest }) b k = stream s b k := by
  unfold stream
  cases op with
  | claim b' index record =>
    simp only [StageOp.apply]
    by_cases hk : k' = k
    · subst hk
      by_cases hb : b' = b
      · subst hb
        simp [ht, claimIndices]
      · simp [ht, claimIndices, hb, Function.update_of_ne (Ne.symm hb)]
    · by_cases hb : b' = b
      · subst hb
        simp [hk, Function.update_of_ne (Ne.symm hk)]
      · simp [Function.update_of_ne (Ne.symm hk), Function.update_of_ne (Ne.symm hb)]
  | n_pushed b' | total_owner | total_halo | pass_stage0 | pass_stage1 =>
    by_cases hk : k = k'
    · subst hk
      simp [StageOp.apply, ht, claimIndices]
    · simp [StageOp.apply, Function.update_of_ne hk]

/-- A step moves the events of a stream forward, leaves some out, or adds the
new one at the end. -/
theorem StageStep.stream (h : StageStep cfg s t) (b k : Nat) :
    (SslaRt.stream t b k).Sublist (SslaRt.stream s b k) ∧
        t.submitted.length = s.submitted.length ∨
      (SslaRt.stream t b k).Sublist (SslaRt.stream s b k ++ [s.submitted.length]) ∧
        t.submitted.length = s.submitted.length + 1 := by
  cases h with
  | reject e hidle hb => exact Or.inr ⟨List.sublist_append_left _ _, List.length_append⟩
  | submit e hidle hb => exact Or.inr ⟨submit_stream b k hidle hb, List.length_append⟩
  | push k' m rest hs hroom =>
    have hsame : SslaRt.stream { s with
        submitting := some rest
        q_in := Function.update s.q_in k' (s.q_in k' ++ [m]) } b k = SslaRt.stream s b k := by
      unfold SslaRt.stream
      by_cases hk : k' = k
      · subst hk
        simp [hs]
      · simp [hs, hk, Function.update_of_ne (Ne.symm hk)]
    exact Or.inl ⟨hsame ▸ List.Sublist.refl _, rfl⟩
  | accept hs =>
    have hsame : SslaRt.stream { s with submitting := none, accepted := s.accepted + 1 } b k =
        SslaRt.stream s b k := by
      simp [SslaRt.stream, hs]
    exact Or.inl ⟨hsame ▸ List.Sublist.refl _, rfl⟩
  | eof k' m rest hrun hidle hq heof =>
    refine Or.inl ⟨stream_claims rfl rfl ?_, rfl⟩
    by_cases hk : k = k'
    · subst hk
      simp [hq]
    · simp [Function.update_of_ne hk]
  | pop k' m rest r hrun hidle hq heof hr =>
    refine Or.inl ⟨stream_claims rfl rfl ?_, rfl⟩
    by_cases hk : k = k'
    · subst hk
      have hnd : (r.2.2.map Prod.fst).Nodup := by
        rw [hr, Stage01ToGpu.shardStep_push]
        split
        · exact GpuRings.push_nodup
        · exact List.nodup_nil
      have hops := claimIndices_messageOps cfg.P b m.1 m.2 r.2.1 hnd
      simpa [hidle, hq, claimIndices] using hops.append_right (rest.map Prod.fst)
    · simp [Function.update_of_ne hk]
  | exec k' op rest ht =>
    refine Or.inl ⟨exec_stream b k k' ht ▸ List.Sublist.refl _, ?_⟩
    cases op <;> rfl

end Stream

section Order

variable {R : Type*}

/-- Every stream is in the order of submission. -/
structure InOrder (s : StageState R) : Prop where
  sorted : ∀ b k, (stream s b k).Pairwise (· < ·)
  submitted : ∀ b k, ∀ i ∈ stream s b k, i < s.submitted.length

variable [CommRing R] (cfg : StageConfig R)

variable {cfg} in
theorem InOrder.step {s t : StageState R} (h : InOrder s) (hst : StageStep cfg s t) : InOrder t := by
  constructor
  · intro b k
    rcases hst.stream b k with ⟨hsub, -⟩ | ⟨hsub, -⟩
    · exact (h.sorted b k).sublist hsub
    · refine (List.pairwise_append.mpr ⟨h.sorted b k, List.pairwise_singleton _ _, ?_⟩).sublist hsub
      intro i hi j hj
      rw [List.mem_singleton.mp hj]
      exact h.submitted b k i hi
  · intro b k i hi
    rcases hst.stream b k with ⟨hsub, hlen⟩ | ⟨hsub, hlen⟩
    · rw [hlen]
      exact h.submitted b k i (hsub.subset hi)
    · rw [hlen]
      rcases List.mem_append.mp (hsub.subset hi) with hi | hi
      · exact (h.submitted b k i hi).trans (Nat.lt_succ_self _)
      · rw [List.mem_singleton.mp hi]
        exact Nat.lt_succ_self _

theorem reachable_inOrder (buf : WorkerState R) (ring_head : Nat → Nat) {s : StageState R}
    (h : StageReachable cfg (stageInit buf ring_head) s) : InOrder s := by
  induction h with
  | refl => exact ⟨fun _ _ => List.Pairwise.nil, fun _ _ i hi => absurd hi List.not_mem_nil⟩
  | tail _ hst ih => exact ih.step hst

end Order

section Origin

variable {R : Type*} (cfg : StageConfig R)

/-- A message as the producer sends it to shard `k`. -/
structure RoutedTo (k : Nat) (m : ShardMsg R) : Prop where
  eof : m.eof = false
  inside : ¬ cfg.handle.OutOfBounds (castInt m.ev.x) (castInt m.ev.y)
  covers : cfg.handle.Covers k (castInt m.ev.x)
  owner : m.is_owner = true ↔ (k : Int) = cfg.handle.owner (castInt m.ev.x)

/-- Shard `k` owns a pixel, gets its events and puts their records into the
ring of block `b`. -/
structure Feeds (k b x y : Nat) : Prop where
  x_lt : x < cfg.P.W_
  y_lt : y < cfg.P.H_
  owner : (k : Int) = cfg.handle.owner x
  covers : cfg.handle.Covers k x
  takes : cfg.rings.Takes b (x / 4 : Nat) (y / 4 : Nat)

def cellKey (x y : Nat) : UInt16 × UInt16 :=
  (UInt16.ofInt (x / 4 : Nat), UInt16.ofInt (y / 4 : Nat))

def HybridInputRec.key (record : HybridInputRec R) : UInt16 × UInt16 := (record.x, record.y)

def Origin (k b : Nat) (record : HybridInputRec R) : Prop :=
  ∃ x y, Feeds cfg k b x y ∧ record.key = cellKey x y

structure WellRouted (s : StageState R) : Prop where
  submitting : ∀ l ∈ s.submitting, ∀ m ∈ l, RoutedTo cfg m.1 m.2.2
  q_in : ∀ k, ∀ m ∈ s.q_in k, RoutedTo cfg k m.2
  claims : ∀ k b index record, .claim b index record ∈ s.todo k → Origin cfg k b record
  ring : ∀ b, ∀ entry ∈ s.ring b, Origin cfg entry.shard b entry.record

variable {cfg}

theorem covering_routed {e : Event R} (hb : ¬ cfg.handle.OutOfBounds (castInt e.x) (castInt e.y))
    {m : Nat × ShardMsg R} (hm : m ∈ cfg.handle.covering e) : RoutedTo cfg m.1 m.2 := by
  have hmem : m.2 ∈ (cfg.handle.route m.1 e).toList := by
    rw [← cfg.handle.covering_filter hb m.1]
    exact List.mem_map.mpr ⟨m, List.mem_filter.mpr ⟨hm, decide_eq_true rfl⟩, rfl⟩
  obtain ⟨⟨-, hcovers⟩, heq⟩ := cfg.handle.route_eq_some.mp (Option.mem_toList.mp hmem)
  rw [← heq]
  exact ⟨rfl, hb, hcovers, decide_eq_true_iff⟩

theorem messageOps_origin {k index : Nat} {m : ShardMsg R} (hm : RoutedTo cfg k m)
    {o : MsgOutcome R} {feat1 : Fin kC1 → R} {recs : List (Nat × HybridInputRec R)}
    (hrecs : ∀ r ∈ recs, r ∈ cfg.rings.push m.ev (m.ev.px / 2 / 2 : Nat) (m.ev.py / 2 / 2 : Nat) feat1)
    {b i : Nat} {record : HybridInputRec R}
    (hop : .claim b i record ∈ messageOps cfg.P index m o recs) : Origin cfg k b record := by
  unfold messageOps at hop
  split at hop
  · simp at hop
  · next hb =>
    split at hop
    · next howner =>
      have hmem : (b, record) ∈ recs := by
        rcases List.mem_append.mp hop with hop | hop
        · obtain ⟨r, hr, hop⟩ := List.mem_flatMap.mp hop
          simp only [List.mem_cons, StageOp.claim.injEq, reduceCtorEq, List.not_mem_nil,
            or_false] at hop
          obtain ⟨rfl, -, rfl⟩ := hop
          exact hr
        · split_ifs at hop <;> simp at hop
      obtain ⟨htakes, rfl⟩ := GpuRings.mem_push.mp (hrecs _ hmem)
      simp only [SslaSPipeline.OutOfBounds, not_or] at hb
      have hx : ((m.ev.px : Nat) : Int) = castInt m.ev.x := Int.toNat_of_nonneg (by omega)
      have hy : ((m.ev.py : Nat) : Int) = castInt m.ev.y := Int.toNat_of_nonneg (by omega)
      rw [Nat.div_div_eq_div_mul, Nat.div_div_eq_div_mul] at htakes ⊢
      refine ⟨m.ev.px, m.ev.py, ⟨by omega, by omega, ?_, ?_, htakes⟩, rfl⟩
      · rw [hx]
        exact hm.owner.mp howner
      · rw [hx]
        exact hm.covers
    · simp at hop

variable [CommRing R] {s t : StageState R}

theorem RoutedTo.claims {k index : Nat} {m : ShardMsg R} (hm : RoutedTo cfg k m) (w : WorkerState R)
    {b i : Nat} {record : HybridInputRec R} :
    let r := Stage01ToGpu.shardStep cfg.P cfg.rings w m
    .claim b i record ∈ messageOps cfg.P index m r.2.1 r.2.2 → Origin cfg k b record := by
  intro r hop
  have hpush := Stage01ToGpu.shardStep_push cfg.P cfg.rings w m
  have hrecs : ∀ r' ∈ r.2.2, r' ∈ cfg.rings.push m.ev (m.ev.px / 2 / 2 : Nat)
      (m.ev.py / 2 / 2 : Nat) r.2.1.feat1 := by
    intro r' hr'
    rw [hpush] at hr'
    split at hr'
    · exact hr'
    · exact absurd hr' List.not_mem_nil
  exact messageOps_origin hm hrecs hop

omit [CommRing R] in
theorem WellRouted.q_in_update (h : WellRouted cfg s) {k : Nat} {l : List (Nat × ShardMsg R)}
    (hl : ∀ m ∈ l, RoutedTo cfg k m.2) :
    ∀ k', ∀ m ∈ Function.update s.q_in k l k', RoutedTo cfg k' m.2 :=
  (Function.forall_update_iff s.q_in fun k' l => ∀ m ∈ l, RoutedTo cfg k' m.2).mpr
    ⟨hl, fun k' _ => h.q_in k'⟩

omit [CommRing R] in
theorem WellRouted.claims_update (h : WellRouted cfg s) {k : Nat} {ops : List (StageOp R)}
    (hops : ∀ b index record, .claim b index record ∈ ops → Origin cfg k b record) :
    ∀ k' b index record, .claim b index record ∈ Function.update s.todo k ops k' →
      Origin cfg k' b record :=
  (Function.forall_update_iff s.todo fun k' ops =>
    ∀ b index record, .claim b index record ∈ ops → Origin cfg k' b record).mpr
    ⟨hops, fun k' _ => h.claims k'⟩

omit [CommRing R] in
theorem WellRouted.apply (h : WellRouted cfg s) {k : Nat} {op : StageOp R} {rest : List (StageOp R)}
    (ht : s.todo k = op :: rest) :
    WellRouted cfg (op.apply k { s with todo := Function.update s.todo k rest }) := by
  have hclaims := h.claims_update
    (fun b index record hop => h.claims k b index record (ht ▸ List.mem_cons_of_mem _ hop))
  cases op with
  | claim b index record =>
    refine ⟨h.submitting, h.q_in, hclaims, (Function.forall_update_iff s.ring fun b' entries =>
      ∀ entry ∈ entries, Origin cfg entry.shard b' entry.record).mpr ⟨?_, fun b' _ => h.ring b'⟩⟩
    intro entry hentry
    rcases List.mem_append.mp hentry with hentry | hentry
    · exact h.ring b entry hentry
    · obtain rfl := List.mem_singleton.mp hentry
      exact h.claims k b index record (ht ▸ List.mem_cons_self)
  | n_pushed b | total_owner | total_halo | pass_stage0 | pass_stage1 =>
    exact ⟨h.submitting, h.q_in, hclaims, h.ring⟩

theorem WellRouted.step (h : WellRouted cfg s) (hst : StageStep cfg s t) : WellRouted cfg t := by
  cases hst with
  | reject e hidle hb => exact ⟨h.submitting, h.q_in, h.claims, h.ring⟩
  | submit e hidle hb =>
    refine ⟨?_, h.q_in, h.claims, h.ring⟩
    intro l hl m hm
    cases hl
    obtain ⟨m', hm', rfl⟩ := List.mem_map.mp hm
    exact covering_routed hb hm'
  | push k m rest hs hroom =>
    refine ⟨?_, h.q_in_update ?_, h.claims, h.ring⟩
    · intro l hl m' hm'
      cases hl
      exact h.submitting _ hs m' (List.mem_cons_of_mem _ hm')
    · intro m' hm'
      rcases List.mem_append.mp hm' with hm' | hm'
      · exact h.q_in k m' hm'
      · obtain rfl := List.mem_singleton.mp hm'
        exact h.submitting _ hs _ List.mem_cons_self
  | accept hs => exact ⟨nofun, h.q_in, h.claims, h.ring⟩
  | eof k m rest hrun hidle hq heof =>
    have hm := h.q_in k m (hq ▸ List.mem_cons_self)
    exact absurd (heof.symm.trans hm.eof) (by decide)
  | pop k m rest r hrun hidle hq heof hr =>
    have hm := h.q_in k m (hq ▸ List.mem_cons_self)
    refine ⟨h.submitting, h.q_in_update ?_, h.claims_update ?_, h.ring⟩
    · exact fun m' hm' => h.q_in k m' (hq ▸ List.mem_cons_of_mem _ hm')
    · intro b index record hop
      rw [hr] at hop
      exact hm.claims (s.workers k) hop
  | exec k op rest ht => exact h.apply ht

theorem reachable_wellRouted (buf : WorkerState R) (ring_head : Nat → Nat)
    (h : StageReachable cfg (stageInit buf ring_head) s) : WellRouted cfg s := by
  induction h with
  | refl => exact ⟨nofun, nofun, nofun, nofun⟩
  | tail _ hst ih => exact ih.step hst

end Origin

end SslaRt
