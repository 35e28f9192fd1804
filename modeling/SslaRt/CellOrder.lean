import SslaRt.StageOrder
import SslaRt.MessageStep
import SslaRt.Routing

/-! The records of one s2 cell are in the order of submission in every run
exactly if no two shards feed the cell: two shards run freely and can be
scheduled against the order. -/

namespace SslaRt

variable {R : Type*} (cfg : StageConfig R)

/-- Records with the same coordinates are in the order of submission. -/
def CellOrdered (s : StageState R) : Prop :=
  ∀ b, (s.ring b).Pairwise fun p q => p.record.key = q.record.key → p.index < q.index

/-- No two shards feed one s2 cell of a block. -/
def Uncut : Prop :=
  ∀ b k k' x y x' y', Feeds cfg k b x y → Feeds cfg k' b x' y' → cellKey x y = cellKey x' y' → k = k'

variable {cfg}

theorem cellOrdered_of_uncut {s : StageState R} (hcut : Uncut cfg) (hrouted : WellRouted cfg s)
    (horder : InOrder s) : CellOrdered s := by
  intro b
  refine List.pairwise_iff_getElem.mpr (fun i j hi hj hij hkey => ?_)
  obtain ⟨x, y, hfeeds, hk⟩ := hrouted.ring b _ (List.getElem_mem hi)
  obtain ⟨x', y', hfeeds', hk'⟩ := hrouted.ring b _ (List.getElem_mem hj)
  have hshard := hcut b _ _ x y x' y' hfeeds hfeeds' (hk.symm.trans (hkey.trans hk'))
  have hsorted := (List.pairwise_append.mp (horder.sorted b (s.ring b)[i].shard)).1
  rw [List.pairwise_map, List.pairwise_filter] at hsorted
  exact List.pairwise_iff_getElem.mp hsorted i j hi hj hij (decide_eq_true rfl)
    (decide_eq_true hshard.symm)

section Schedule

structure SameShards (s t : StageState R) : Prop where
  workers : t.workers = s.workers
  todo : t.todo = s.todo
  ended : t.ended = s.ended
  ring : t.ring = s.ring

theorem SameShards.trans {s t u : StageState R} (h : SameShards s t) (h' : SameShards t u) :
    SameShards s u :=
  ⟨h'.workers.trans h.workers, h'.todo.trans h.todo, h'.ended.trans h.ended, h'.ring.trans h.ring⟩

variable [CommRing R] (cfg)

theorem exists_pushed {s : StageState R} {l : List (Nat × Nat × ShardMsg R)}
    (hs : s.submitting = some l)
    (hroom : ∀ k, (s.q_in k).length + (l.filter fun m => m.1 = k).length ≤ cfg.shard_ring_cap) :
    ∃ t, StageReachable cfg s t ∧ t.submitting = some [] ∧ t.submitted = s.submitted ∧
      (∀ k, t.q_in k = s.q_in k ++ (l.filter fun m => m.1 = k).map Prod.snd) ∧ SameShards s t := by
  induction l generalizing s with
  | nil => exact ⟨s, .refl, hs, rfl, fun k => by simp, ⟨rfl, rfl, rfl, rfl⟩⟩
  | cons m l ih =>
    obtain ⟨k', msg⟩ := m
    have hk' := hroom k'
    simp only [decide_true, List.filter_cons_of_pos, List.length_cons] at hk'
    have hpush : StageStep cfg s _ := .push k' msg l hs (by omega)
    obtain ⟨t, hreach, hsub, hsubd, hq, hshards⟩ := ih (s := { s with
      submitting := some l
      q_in := Function.update s.q_in k' (s.q_in k' ++ [msg]) }) rfl (fun k => by
        have hk := hroom k
        by_cases h : k' = k
        · subst h
          simp at hk ⊢
          omega
        · simpa [h, Function.update_of_ne (Ne.symm h)] using hk)
    refine ⟨t, hreach.head hpush, hsub, hsubd, fun k => (hq k).trans ?_,
      ⟨hshards.workers, hshards.todo, hshards.ended, hshards.ring⟩⟩
    by_cases h : k' = k
    · subst h
      simp
    · simp [h, Function.update_of_ne (Ne.symm h)]

theorem exists_submitted {s : StageState R} {e : Event R} (hs : s.submitting = none)
    (hb : ¬ cfg.handle.OutOfBounds (castInt e.x) (castInt e.y))
    (hroom : ∀ k, (s.q_in k).length < cfg.shard_ring_cap) :
    ∃ t, StageReachable cfg s t ∧ t.submitting = none ∧ t.submitted = s.submitted ++ [e] ∧
      (∀ k, t.q_in k = s.q_in k ++
        (cfg.handle.route k e).toList.map fun m => (s.submitted.length, m)) ∧ SameShards s t := by
  have hnew : ∀ k, (((cfg.handle.covering e).map fun m => (m.1, s.submitted.length, m.2)).filter
      fun m => m.1 = k).map Prod.snd =
        (cfg.handle.route k e).toList.map fun m => (s.submitted.length, m) := by
    intro k
    rw [← cfg.handle.covering_filter hb k, List.filter_map, List.map_map, List.map_map]
    rfl
  obtain ⟨t, hreach, hsub, hsubd, hq, hshards⟩ := exists_pushed cfg (s := { s with
    submitting := some ((cfg.handle.covering e).map fun m => (m.1, s.submitted.length, m.2))
    submitted := s.submitted ++ [e] }) rfl (fun k => by
      have hlen := congrArg List.length (hnew k)
      have hone := Option.length_toList_le (o := cfg.handle.route k e)
      have hk := hroom k
      simp only [List.length_map] at hlen
      dsimp only
      omega)
  refine ⟨{ t with submitting := none, accepted := t.accepted + 1 }, ?_, rfl, hsubd, ?_, ?_⟩
  · exact (hreach.head (.submit e hs hb)).tail (.accept hsub)
  · exact fun k => (hq k).trans (congrArg (s.q_in k ++ ·) (hnew k))
  · exact ⟨hshards.workers, hshards.todo, hshards.ended, hshards.ring⟩

theorem exists_submitted_pair (buf : WorkerState R) (ring_head : Nat → Nat) {A B : Event R}
    (hA : ¬ cfg.handle.OutOfBounds (castInt A.x) (castInt A.y))
    (hB : ¬ cfg.handle.OutOfBounds (castInt B.x) (castInt B.y)) :
    ∃ s, StageReachable cfg (stageInit buf ring_head) s ∧ SameShards (stageInit buf ring_head) s ∧
      ∀ k, s.q_in k = ((cfg.handle.route k A).toList.map fun m => (0, m)) ++
        (cfg.handle.route k B).toList.map fun m => (1, m) := by
  have hcap := cfg.cap_ge
  obtain ⟨s, hreach, hsub, hsubd, hq, hsame⟩ := exists_submitted cfg (s := stageInit buf ring_head)
    (e := A) rfl hA (fun _ => Nat.lt_of_lt_of_le (Nat.succ_pos 3) hcap)
  obtain ⟨t, hreach', -, -, hq', hsame'⟩ := exists_submitted cfg (e := B) hsub hB (fun k => by
    have hone := Option.length_toList_le (o := cfg.handle.route k A)
    rw [hq]
    simp only [stageInit, List.nil_append, List.length_map]
    omega)
  refine ⟨t, hreach.trans hreach', hsame.trans hsame', fun k => ?_⟩
  rw [hq', hq, hsubd]
  rfl

/-- The entries that the steps of shard `k` put into the ring of block `b`. -/
def claimEntries (k b : Nat) (ops : List (StageOp R)) : List (RingEntry R) :=
  ops.filterMap fun
    | .claim b' index record => if b' = b then some ⟨k, index, record⟩ else none
    | _ => none

structure SameQueues (k : Nat) (s t : StageState R) : Prop where
  submitting : t.submitting = s.submitting
  submitted : t.submitted = s.submitted
  q_in : ∀ k', k' ≠ k → t.q_in k' = s.q_in k'
  workers : ∀ k', k' ≠ k → t.workers k' = s.workers k'
  todo : ∀ k', k' ≠ k → t.todo k' = s.todo k'
  ended : t.ended = s.ended

omit [CommRing R] in
theorem SameQueues.trans {k : Nat} {s t u : StageState R} (h : SameQueues k s t)
    (h' : SameQueues k t u) : SameQueues k s u where
  submitting := h'.submitting.trans h.submitting
  submitted := h'.submitted.trans h.submitted
  q_in j hj := (h'.q_in j hj).trans (h.q_in j hj)
  workers j hj := (h'.workers j hj).trans (h.workers j hj)
  todo j hj := (h'.todo j hj).trans (h.todo j hj)
  ended := h'.ended.trans h.ended

theorem exists_executed {s : StageState R} {k : Nat} {ops : List (StageOp R)} (hs : s.todo k = ops) :
    ∃ t, StageReachable cfg s t ∧ SameQueues k s t ∧ t.todo k = [] ∧ t.q_in k = s.q_in k ∧
      t.workers k = s.workers k ∧ ∀ b, t.ring b = s.ring b ++ claimEntries k b ops := by
  induction ops generalizing s with
  | nil =>
    exact ⟨s, .refl, ⟨rfl, rfl, fun _ _ => rfl, fun _ _ => rfl, fun _ _ => rfl, rfl⟩, hs, rfl, rfl,
      fun b => (List.append_nil _).symm⟩
  | cons op ops ih =>
    have hstep : StageStep cfg s _ := .exec k op ops hs
    obtain ⟨t, hreach, hsame, htodo, hq, hw, hring⟩ :=
      ih (s := op.apply k { s with todo := Function.update s.todo k ops }) (by
        cases op <;> exact Function.update_self _ _ _)
    refine ⟨t, hreach.head hstep, ?_, htodo, ?_, ?_, fun b => (hring b).trans ?_⟩
    · obtain ⟨h1, h2, h3, h4, h5, h6⟩ := hsame
      have htodo' : ∀ k', k' ≠ k → (op.apply k
          { s with todo := Function.update s.todo k ops }).todo k' = s.todo k' := by
        intro k' hk'
        cases op <;> exact Function.update_of_ne hk' _ _
      refine ⟨h1.trans ?_, h2.trans ?_, fun k' hk' => (h3 k' hk').trans ?_,
        fun k' hk' => (h4 k' hk').trans ?_, fun k' hk' => (h5 k' hk').trans (htodo' k' hk'),
        h6.trans ?_⟩ <;> cases op <;> rfl
    · rw [hq]
      cases op <;> rfl
    · rw [hw]
      cases op <;> rfl
    · cases op with
      | claim b' index record =>
        by_cases hb : b' = b
        · subst hb
          simp [StageOp.apply, claimEntries]
        · simp [StageOp.apply, claimEntries, hb, Function.update_of_ne (Ne.symm hb)]
      | n_pushed b' | total_owner | total_halo | pass_stage0 | pass_stage1 => rfl

theorem exists_processed {s : StageState R} {k : Nat} {m : Nat × ShardMsg R}
    {rest : List (Nat × ShardMsg R)} (hrun : s.ended k = false) (hidle : s.todo k = [])
    (hq : s.q_in k = m :: rest) (heof : m.2.eof = false) :
    let r := Stage01ToGpu.shardStep cfg.P cfg.rings (s.workers k) m.2
    ∃ t, StageReachable cfg s t ∧ SameQueues k s t ∧ t.todo k = [] ∧ t.q_in k = rest ∧
      t.workers k = r.1 ∧
      ∀ b, t.ring b = s.ring b ++ claimEntries k b (messageOps cfg.P m.1 m.2 r.2.1 r.2.2) := by
  intro r
  have hpop : StageStep cfg s _ := .pop k m rest r hrun hidle hq heof rfl
  obtain ⟨t, hreach, ⟨h1, h2, h3, h4, h5, h6⟩, htodo, hq', hw, hring⟩ := exists_executed cfg
    (s := { s with
      q_in := Function.update s.q_in k rest
      workers := Function.update s.workers k r.1
      todo := Function.update s.todo k (messageOps cfg.P m.1 m.2 r.2.1 r.2.2)
      log := Function.update s.log k (s.log k ++ [(m.2, r.2.1)]) }) (Function.update_self _ _ _)
  refine ⟨t, hreach.head hpop, ⟨h1, h2, ?_, ?_, ?_, h6⟩, htodo, ?_, ?_, hring⟩
  · exact fun k' hk' => (h3 k' hk').trans (Function.update_of_ne hk' _ _)
  · exact fun k' hk' => (h4 k' hk').trans (Function.update_of_ne hk' _ _)
  · exact fun k' hk' => (h5 k' hk').trans (Function.update_of_ne hk' _ _)
  · exact hq'.trans (Function.update_self _ _ _)
  · exact hw.trans (Function.update_self _ _ _)

end Schedule

section Fresh

variable [CommRing R]

def Fresh (s : PipeState R) : Prop := (∀ i, s.tdrop_counter_ 0 i = 0) ∧ ∀ i, s.tdrop_counter_ 1 i = 0

variable {P : SslaSPipeline R} {s : PipeState R} {m : ShardMsg R}

theorem Fresh.halo (h : Fresh s) (hs : ¬ m.ev.Skipped P) (ho : m.is_owner = false) :
    Fresh (msgPipe P s m) := by
  have hp : msgPass0 P s m = false := by simp [msgPass0, ho]
  rw [Fresh, msgPipe_counter_0 hs, msgPipe_counter_1 hs, ho, hp]
  exact h

theorem Fresh.passes (h : Fresh s) (hs : ¬ m.ev.Skipped P) (ho : m.is_owner = true) :
    msgPass1 P s m = true := by
  rw [msgPass1_eq hs, msgPass0_eq hs, ho, evCount0, evCount1, tdrop_of_zero (h.1 _),
    tdrop_of_zero (h.2 _)]
  rfl

end Fresh

section Disorder

variable [CommRing R]

omit [CommRing R] in
theorem claimEntries_halo {m : ShardMsg R} (ho : m.is_owner = false) (k b index : Nat)
    (o : MsgOutcome R) (recs : List (Nat × HybridInputRec R)) :
    claimEntries k b (messageOps cfg.P index m o recs) = [] := by
  unfold messageOps
  rw [ho]
  split <;> rfl

theorem exists_claimed {k b x y : Nat} (hf : Feeds cfg k b x y) {w : WorkerState R} (hw : Fresh w.pipe)
    {m : ShardMsg R} (ho : m.is_owner = true) (hx : castInt m.ev.x = x) (hy : castInt m.ev.y = y)
    (index : Nat) :
    let r := Stage01ToGpu.shardStep cfg.P cfg.rings w m
    ∃ entry ∈ claimEntries k b (messageOps cfg.P index m r.2.1 r.2.2),
      entry.index = index ∧ entry.record.key = cellKey x y := by
  intro r
  have hs : ¬ m.ev.Skipped cfg.P := by
    have hxlt := hf.x_lt
    have hylt := hf.y_lt
    simp only [Event.Skipped, SslaSPipeline.OutOfBounds, hx, hy]
    omega
  have hpx : m.ev.px / 2 / 2 = x / 4 := by
    rw [Event.px, hx, Int.toNat_natCast, Nat.div_div_eq_div_mul]
  have hpy : m.ev.py / 2 / 2 = y / 4 := by
    rw [Event.py, hy, Int.toNat_natCast, Nat.div_div_eq_div_mul]
  have hpass : r.2.1.pass1 = true :=
    (Stage01ToGpu.shardStep_spec cfg.P cfg.rings w m).pass1.trans (hw.passes hs ho)
  have hpush : r.2.2 = cfg.rings.push m.ev (x / 4 : Nat) (y / 4 : Nat) r.2.1.feat1 := by
    have h := Stage01ToGpu.shardStep_push cfg.P cfg.rings w m
    rwa [if_pos hpass, hpx, hpy] at h
  set record : HybridInputRec R :=
    ⟨m.ev.t, UInt16.ofInt (x / 4 : Nat), UInt16.ofInt (y / 4 : Nat), r.2.1.feat1⟩ with hrecord
  have hmem : (b, record) ∈ r.2.2 := by
    rw [hpush]
    exact GpuRings.mem_push.mpr ⟨hf.takes, rfl⟩
  have hop : StageOp.claim b index record ∈ messageOps cfg.P index m r.2.1 r.2.2 := by
    have hops : messageOps cfg.P index m r.2.1 r.2.2 = _ := (if_neg hs).trans (if_pos ho)
    rw [hops]
    exact List.mem_append_left _ (List.mem_flatMap.mpr ⟨_, hmem, List.mem_cons_self⟩)
  exact ⟨⟨k, index, record⟩, List.mem_filterMap.mpr ⟨_, hop, if_pos rfl⟩, rfl, rfl⟩

theorem route_feeds {k b x y : Nat} (hf : Feeds cfg k b x y) (j : Nat) :
    cfg.handle.route j (pixelEventAt (R := R) x y) =
      if cfg.handle.Covers j x then some ⟨pixelEventAt x y, decide (j = k), false⟩ else none := by
  have hxlt := hf.x_lt
  have hylt := hf.y_lt
  have hx : castInt (pixelEventAt (R := R) x y).x = x := castInt_natCast x
  have hy : castInt (pixelEventAt (R := R) x y).y = y := castInt_natCast y
  have hb : ¬ cfg.handle.OutOfBounds x y := by
    have hW : cfg.handle.W_full = cfg.P.W_ := rfl
    have hH : cfg.handle.H_full = cfg.P.H_ := rfl
    unfold S01gHandle.OutOfBounds
    omega
  have howner : ((j : Int) = cfg.handle.owner x) = (j = k) := by
    rw [← hf.owner]
    exact propext Int.natCast_inj
  rw [cfg.handle.route_eq, hx, hy]
  simp only [hb, not_false_eq_true, true_and, howner]

/-- A fresh shard works its queue off up to an event of its own; before it may
stand a halo message. -/
theorem exists_drained {s : StageState R} {k b x y : Nat} (hf : Feeds cfg k b x y)
    (hrun : s.ended k = false) (hidle : s.todo k = []) (hw : Fresh (s.workers k).pipe)
    (pre : List (Nat × ShardMsg R)) (m : Nat × ShardMsg R) {rest : List (Nat × ShardMsg R)}
    (hq : s.q_in k = pre ++ m :: rest)
    (hpre : ∀ m' ∈ pre, m'.2.eof = false ∧ m'.2.is_owner = false ∧ ¬ m'.2.ev.Skipped cfg.P)
    (heof : m.2.eof = false) (ho : m.2.is_owner = true) (hx : castInt m.2.ev.x = x)
    (hy : castInt m.2.ev.y = y) :
    ∃ t, StageReachable cfg s t ∧ SameQueues k s t ∧ ∃ new, t.ring b = s.ring b ++ new ∧
      ∃ entry ∈ new, entry.index = m.1 ∧ entry.record.key = cellKey x y := by
  induction pre generalizing s with
  | nil =>
    obtain ⟨t, hreach, hsame, -, -, -, hring⟩ := exists_processed cfg hrun hidle hq heof
    exact ⟨t, hreach, hsame, _, hring b, exists_claimed hf hw ho hx hy m.1⟩
  | cons m' pre ih =>
    obtain ⟨heof', ho', hs'⟩ := hpre m' List.mem_cons_self
    obtain ⟨u, hreach, hsame, htodo, hq', hw', hring⟩ :=
      exists_processed cfg hrun hidle hq heof'
    have hfresh : Fresh (u.workers k).pipe := by
      rw [hw', (Stage01ToGpu.shardStep_spec cfg.P cfg.rings (s.workers k) m'.2).pipe]
      exact hw.halo hs' ho'
    obtain ⟨t, hreach', hsame', new, hnew, hentry⟩ := ih (by rw [hsame.ended, hrun]) htodo hfresh hq'
      (fun m'' hm'' => hpre m'' (List.mem_cons_of_mem m' hm''))
    refine ⟨t, hreach.trans hreach', hsame.trans hsame', new, ?_, hentry⟩
    rw [hnew, hring, claimEntries_halo ho', List.append_nil]

/-- Two shards that feed one cell can be scheduled against the order. -/
theorem exists_disordered (buf : WorkerState R) (ring_head : Nat → Nat) {b k k' x y x' y' : Nat}
    (hf : Feeds cfg k b x y) (hf' : Feeds cfg k' b x' y') (hkey : cellKey x y = cellKey x' y')
    (hne : k ≠ k') : ∃ s, StageReachable cfg (stageInit buf ring_head) s ∧ ¬ CellOrdered s := by
  set A : Event R := pixelEventAt x y with hA
  set B : Event R := pixelEventAt x' y' with hB
  have hrouteA := route_feeds (R := R) hf
  have hrouteB := route_feeds (R := R) hf'
  rw [← hA] at hrouteA
  rw [← hB] at hrouteB
  have hinA := cfg.handle.route_eq_some.mp ((hrouteA k).trans (if_pos hf.covers))
  have hinB := cfg.handle.route_eq_some.mp ((hrouteB k').trans (if_pos hf'.covers))
  obtain ⟨s₀, hreach₀, hsame, hq⟩ := exists_submitted_pair cfg buf ring_head hinA.1.1 hinB.1.1
  have hfresh : ∀ j, Fresh (s₀.workers j).pipe := by
    intro j
    rw [hsame.workers]
    exact ⟨fun _ => rfl, fun _ => rfl⟩
  -- the later event overtakes
  obtain ⟨s₁, hreach₁, hsame₁, newB, hringB, entryB, hmemB, hidxB, hkeyB⟩ := exists_drained hf'
    (s := s₀) (by rw [hsame.ended]; rfl) (by rw [hsame.todo]; rfl) (hfresh k')
    ((cfg.handle.route k' A).toList.map fun m => (0, m)) (1, ⟨B, true, false⟩)
    (by rw [hq, hrouteB, if_pos hf'.covers, decide_eq_true rfl]; rfl)
    (fun m hm => by
      obtain ⟨m', hm', rfl⟩ := List.mem_map.mp hm
      rw [hrouteA, Option.mem_toList, Option.ite_none_right_eq_some] at hm'
      obtain ⟨-, hm'⟩ := hm'
      cases hm'
      exact ⟨rfl, decide_eq_false hne.symm, hinA.1.1⟩)
    rfl rfl (castInt_natCast x') (castInt_natCast y')
  obtain ⟨s₂, hreach₂, -, newA, hringA, entryA, hmemA, hidxA, hkeyA⟩ := exists_drained hf (s := s₁)
    (by rw [hsame₁.ended, hsame.ended]; rfl) (by rw [hsame₁.todo k hne, hsame.todo]; rfl)
    (by rw [hsame₁.workers k hne]; exact hfresh k) [] (0, ⟨A, true, false⟩)
    (by rw [hsame₁.q_in k hne, hq, hrouteA, if_pos hf.covers, decide_eq_true rfl]; rfl) nofun rfl rfl
    (castInt_natCast x) (castInt_natCast y)
  refine ⟨s₂, (hreach₀.trans hreach₁).trans hreach₂, fun hordered => ?_⟩
  have hpair := hordered b
  rw [hringA, hringB] at hpair
  have hlt := (List.pairwise_append.mp hpair).2.2 entryB (List.mem_append_right _ hmemB) entryA hmemA
    (hkeyB.trans (hkey.symm.trans hkeyA.symm))
  rw [hidxA, hidxB] at hlt
  exact absurd hlt (Nat.not_lt_zero 1)

end Disorder

section Strips

theorem ofInt_inj {a b : Nat} (ha : a < 2 ^ 16) (hb : b < 2 ^ 16)
    (h : UInt16.ofInt (a : Int) = UInt16.ofInt (b : Int)) : a = b := by
  have htoNat := congrArg UInt16.toNat h
  simp only [UInt16.ofInt, UInt16.toNat_ofNat'] at htoNat
  omega

/-- A strip width divisible by four keeps the columns of a cell together, and so
does a single strip. -/
theorem uncut_of_strip (hW : cfg.P.W_ ≤ 2 ^ 18) (h : cfg.handle.W_full ≤ cfg.handle.strip_w ∨
    4 ∣ cfg.handle.strip_w) : Uncut cfg := by
  intro b k k' x y x' y' hf hf' hkey
  have hx := hf.x_lt
  have hx' := hf'.x_lt
  have hcell : x / 4 = x' / 4 := ofInt_inj (by omega) (by omega) (congrArg Prod.fst hkey)
  have howner := hf.owner
  have howner' := hf'.owner
  rw [cfg.handle.owner_eq (Int.natCast_nonneg x) (by exact_mod_cast hx)] at howner
  rw [cfg.handle.owner_eq (Int.natCast_nonneg x') (by exact_mod_cast hx')] at howner'
  have hk : k = x / cfg.handle.strip_w := by exact_mod_cast howner
  have hk' : k' = x' / cfg.handle.strip_w := by exact_mod_cast howner'
  rw [hk, hk']
  rcases h with hone | ⟨q, hq⟩
  · have hWfull : cfg.handle.W_full = cfg.P.W_ := rfl
    rw [Nat.div_eq_of_lt (by omega), Nat.div_eq_of_lt (by omega)]
  · rw [hq, ← Nat.div_div_eq_div_mul, ← Nat.div_div_eq_div_mul, hcell]

/-- If the blocks take every column, no other strip width does. -/
theorem strip_of_uncut (hhalo : 0 ≤ cfg.halo) (hH : 0 < cfg.P.H_)
    (htakes : ∀ x < cfg.P.W_, ∃ b, cfg.rings.Takes b (x / 4 : Nat) 0) (hcut : Uncut cfg) :
    cfg.handle.W_full ≤ cfg.handle.strip_w ∨ 4 ∣ cfg.handle.strip_w := by
  by_contra hnot
  obtain ⟨hmany, hoff⟩ := not_or.mp hnot
  have hfeeds : ∀ b k x : Nat, x < cfg.P.W_ → k = x / cfg.handle.strip_w →
      cfg.rings.Takes b (x / 4 : Nat) 0 → Feeds cfg k b x 0 := by
    intro b k x hx hk htake
    have howner : (k : Int) = cfg.handle.owner x := by
      rw [cfg.handle.owner_eq (Int.natCast_nonneg x) (by exact_mod_cast hx), hk]
      rfl
    exact ⟨hx, hH, howner, cfg.handle.covers_owner (Int.natCast_nonneg x) (by exact_mod_cast hx)
      hhalo howner, htake⟩
  have hWfull : cfg.handle.W_full = cfg.P.W_ := rfl
  generalize cfg.handle.strip_w = w at hmany hoff hfeeds
  -- the two columns at the first cut
  have hcell : (w - 1) / 4 = w / 4 := by omega
  obtain ⟨b, htake⟩ := htakes w (by omega)
  have hfirst := hfeeds b 0 (w - 1) (by omega) (Nat.div_eq_of_lt (by omega)).symm
    (by rwa [hcell])
  have hsecond := hfeeds b 1 w (by omega) (Nat.div_self (by omega)).symm htake
  have hkey : cellKey (w - 1) 0 = cellKey w 0 := by rw [cellKey, cellKey, hcell]
  exact absurd (hcut b 0 1 _ _ _ _ hfirst hsecond hkey) (by decide)

end Strips

/-- In every run the records of one cell are in the order of submission exactly
if no two shards feed the cell. Where the blocks take every column, the strips
have to end at multiples of four. -/
theorem cellOrder_iff [CommRing R] (cfg : StageConfig R) (buf : WorkerState R)
    (ring_head : Nat → Nat) :
    ((∀ s, StageReachable cfg (stageInit buf ring_head) s → CellOrdered s) ↔ Uncut cfg) ∧
    (cfg.P.W_ ≤ 2 ^ 18 → 0 < cfg.P.H_ → 0 ≤ cfg.halo →
      (∀ x < cfg.P.W_, ∃ b, cfg.rings.Takes b (x / 4 : Nat) 0) →
      (Uncut cfg ↔ cfg.handle.W_full ≤ cfg.handle.strip_w ∨ 4 ∣ cfg.handle.strip_w)) := by
  refine ⟨⟨fun h => ?_, fun h s hs => ?_⟩, fun hW hH hhalo htakes => ?_⟩
  · intro b k k' x y x' y' hf hf' hkey
    by_contra hne
    obtain ⟨s, hreach, hnot⟩ := exists_disordered buf ring_head hf hf' hkey hne
    exact hnot (h s hreach)
  · exact cellOrdered_of_uncut h (reachable_wellRouted buf ring_head hs)
      (reachable_inOrder cfg buf ring_head hs)
  · exact ⟨strip_of_uncut hhalo hH htakes, uncut_of_strip hW⟩

/-- The default geometry of 80 columns over six shards, one block for the
whole grid: the strips are 14 columns wide. -/
def sixShards : StageConfig ℤ where
  P := probePipeline 80 64 4
  n_shards := 6
  halo := 2
  rings := ⟨true, [⟨0, 20, 0, 16⟩], 20, 16⟩
  shard_ring_cap := 65536
  cap_ge := default_cap_ge

/-- The columns 13 and 14 belong to one cell and to two shards. -/
theorem sixShards_disordered :
    ¬ ∀ s, StageReachable sixShards (stageInit zeroWorker fun _ => 0) s → CellOrdered s := by
  have htakes : sixShards.rings.Takes 0 (3 : Nat) (0 : Nat) :=
    ⟨by decide, ⟨0, 20, 0, 16⟩, rfl, by decide, by decide⟩
  have hfirst : Feeds sixShards 0 0 13 0 := ⟨by decide, by decide, by decide, by decide, htakes⟩
  have hsecond : Feeds sixShards 1 0 14 0 := ⟨by decide, by decide, by decide, by decide, htakes⟩
  obtain ⟨s, hreach, hnot⟩ := exists_disordered zeroWorker (fun _ => 0) hfirst hsecond rfl (by decide)
  exact fun h => hnot (h s hreach)

theorem sixShards_cut : ¬ Uncut sixShards := by
  have htakes : ∀ x < sixShards.P.W_, ∃ b, sixShards.rings.Takes b (x / 4 : Nat) 0 := by
    intro x hx
    have hx : x < 80 := hx
    have hcell : (0 : Int) ≤ (x / 4 : Nat) ∧ ((x / 4 : Nat) : Int) < 20 := by omega
    exact ⟨0, ⟨rfl, hcell.1, hcell.2, by decide, by decide⟩, ⟨0, 20, 0, 16⟩, rfl, hcell, by decide⟩
  have hstrip := (cellOrder_iff sixShards zeroWorker fun _ => 0).2 (by decide) (by decide) (by decide) htakes
  exact fun h => absurd (hstrip.mp h) (by decide)

end SslaRt
