import SslaRt.SumSchemeRunning

/-! Until all events have been sent, a step either leaves everything where it is or
lowers the work that is left. -/

namespace SslaRt

namespace SumScheme

variable {R : Type*} {p : SumScheme R} {s s' t : State R} {events : List (Event R)}

def ShardPc.busy : ShardPc R → Nat
  | .holding _ _ => 1
  | _ => 0

def StagesPc.busy : StagesPc → Nat
  | .storing _ => 1
  | _ => 0

def L1Dispatch.needing (p : SumScheme R) (d : L1Dispatch R) : Nat :=
  ((Finset.range p.num_shards).filter fun k => d.Needs k).card

def dispatchLeft (p : SumScheme R) (ds : List (L1Dispatch R)) : Nat :=
  (ds.map fun d => 1 + 5 * d.needing p).sum

def State.shardLeft (s : State R) (k : Nat) : Nat :=
  4 * ((s.q_in .l0 k).length + (s.q_in .l1 k).length) + 3 * (s.shard k).pc.busy +
    2 * ((s.q_partials .l0 k).length + (s.q_partials .l1 k).length)

/-- What is under way, each thing with the number of steps that it may still cause. -/
def State.left (p : SumScheme R) (s : State R) : Nat :=
  (5 * p.num_shards + 8) * s.ops.length + (5 * p.num_shards + 7) * s.q_meta_l0.length +
    (5 * p.num_shards + 6) * (s.pending .l0).length + dispatchLeft p s.dispatch_l1_pending +
    ∑ k ∈ Finset.range p.num_shards, s.shardLeft k +
    ((s.deferred_partials .l0).length + (s.deferred_partials .l1).length) +
    4 * (s.pending .l1).length + 3 * s.stage_dispatch_pending.length + 2 * s.q_to_stages.length +
    s.stages.busy

/-- Two states that differ in the places of the threads only. -/
structure Idle (s t : State R) : Prop where
  ops : t.ops = s.ops
  q_meta_l0 : t.q_meta_l0 = s.q_meta_l0
  q_in : t.q_in = s.q_in
  q_partials : t.q_partials = s.q_partials
  q_to_stages : t.q_to_stages = s.q_to_stages
  pending : t.pending = s.pending
  dispatch_l1_pending : t.dispatch_l1_pending = s.dispatch_l1_pending
  stage_dispatch_pending : t.stage_dispatch_pending = s.stage_dispatch_pending
  deferred_partials : ∀ l, (t.deferred_partials l).Perm (s.deferred_partials l)
  shard : ∀ k, (t.shard k).pc.busy = (s.shard k).pc.busy
  stages : t.stages.busy = s.stages.busy

theorem Idle.refl (s : State R) : Idle s s := by constructor <;> intros <;> rfl

theorem Idle.sum (s : State R) (pc : SumPc) (d : Bool) : Idle s { s with sum := pc, did_work := d } := by
  constructor <;> intros <;> rfl

theorem Idle.trans {u : State R} (h : Idle s t) (h' : Idle t u) : Idle s u where
  ops := h'.ops.trans h.ops
  q_meta_l0 := h'.q_meta_l0.trans h.q_meta_l0
  q_in := h'.q_in.trans h.q_in
  q_partials := h'.q_partials.trans h.q_partials
  q_to_stages := h'.q_to_stages.trans h.q_to_stages
  pending := h'.pending.trans h.pending
  dispatch_l1_pending := h'.dispatch_l1_pending.trans h.dispatch_l1_pending
  stage_dispatch_pending := h'.stage_dispatch_pending.trans h.stage_dispatch_pending
  deferred_partials := fun l => (h'.deferred_partials l).trans (h.deferred_partials l)
  shard := fun k => (h'.shard k).trans (h.shard k)
  stages := h'.stages.trans h.stages

/-- One of the shards has less to do. -/
theorem sum_shardLeft {k : Nat} (hk : k < p.num_shards) (h : ∀ j ≠ k, t.shardLeft j = s.shardLeft j) :
    ∑ j ∈ Finset.range p.num_shards, t.shardLeft j + s.shardLeft k =
      ∑ j ∈ Finset.range p.num_shards, s.shardLeft j + t.shardLeft k := by
  have hmem := Finset.mem_range.mpr hk
  have hrest : ∑ j ∈ (Finset.range p.num_shards).erase k, t.shardLeft j =
      ∑ j ∈ (Finset.range p.num_shards).erase k, s.shardLeft j :=
    Finset.sum_congr rfl fun j hj => h j (Finset.ne_of_mem_erase hj)
  have ht : ∑ j ∈ (Finset.range p.num_shards).erase k, t.shardLeft j + t.shardLeft k =
      ∑ j ∈ Finset.range p.num_shards, t.shardLeft j := Finset.sum_erase_add _ _ hmem
  have hs : ∑ j ∈ (Finset.range p.num_shards).erase k, s.shardLeft j + s.shardLeft k =
      ∑ j ∈ Finset.range p.num_shards, s.shardLeft j := Finset.sum_erase_add _ _ hmem
  omega

/-- A shard gets one more message. -/
theorem sum_shardLeft_push {l : Layer} {k : Nat} {m : ShardMsg R} (hk : k < p.num_shards)
    (hin : t.q_in = set2 s.q_in l k (s.q_in l k ++ [m])) (hpart : t.q_partials = s.q_partials)
    (hshard : t.shard = s.shard) :
    ∑ j ∈ Finset.range p.num_shards, t.shardLeft j =
      ∑ j ∈ Finset.range p.num_shards, s.shardLeft j + 4 := by
  have hrest : ∀ j ≠ k, t.shardLeft j = s.shardLeft j := by
    intro j hj
    simp [State.shardLeft, hin, hpart, hshard, set2_apply, hj]
  have hself : t.shardLeft k = s.shardLeft k + 4 := by
    cases l <;> simp [State.shardLeft, hin, hpart, hshard, set2_apply] <;> omega
  have htotal := sum_shardLeft hk hrest
  omega

/-- A partial leaves the queue of its shard. -/
theorem sum_shardLeft_drain {l : Layer} {k : Nat} {pm : PartialMsg R} {q : List (PartialMsg R)}
    (hk : k < p.num_shards) (hq : s.q_partials l k = pm :: q)
    (hpart : t.q_partials = set2 s.q_partials l k q) (hin : t.q_in = s.q_in) (hshard : t.shard = s.shard) :
    ∑ j ∈ Finset.range p.num_shards, t.shardLeft j + 2 =
      ∑ j ∈ Finset.range p.num_shards, s.shardLeft j := by
  have hrest : ∀ j ≠ k, t.shardLeft j = s.shardLeft j := by
    intro j hj
    simp [State.shardLeft, hpart, hin, hshard, set2_apply, hj]
  have hself : t.shardLeft k + 2 = s.shardLeft k := by
    cases l <;> simp [State.shardLeft, hpart, hin, hshard, set2_apply, hq] <;> omega
  have htotal := sum_shardLeft hk hrest
  omega

theorem needing_le (d : L1Dispatch R) : d.needing p ≤ p.num_shards :=
  (Finset.card_filter_le _ _).trans_eq (Finset.card_range _)

theorem needing_delivered {d : L1Dispatch R} {k : Nat} (hk : k < p.num_shards) (hneed : d.Needs k) :
    L1Dispatch.needing p { d with delivered_mask := d.delivered_mask ||| 1#16 <<< k } + 1 =
      d.needing p := by
  unfold L1Dispatch.needing
  have hmem : k ∈ (Finset.range p.num_shards).filter fun k => d.Needs k :=
    Finset.mem_filter.mpr ⟨Finset.mem_range.mpr hk, hneed⟩
  rw [← Finset.card_erase_add_one hmem]
  congr 2
  ext j
  rw [Finset.mem_erase, Finset.mem_filter, Finset.mem_filter,
    needs_delivered (hk.trans_le p.shards_le)]
  tauto

theorem producerStep_left (hshards : ∀ k m, .push_l0 k m ∈ s.ops → k < p.num_shards)
    (h : p.ProducerStep s s') : s'.left p < s.left p := by
  have hops : ∀ {op : ProducerOp R} {ops : List (ProducerOp R)}, s.ops = op :: ops →
      (5 * p.num_shards + 8) * ops.length + (5 * p.num_shards + 8) =
        (5 * p.num_shards + 8) * s.ops.length := by
    intro op ops hops
    rw [hops, List.length_cons, Nat.mul_add_one]
  cases h with
  | push_meta m ops heq hroom =>
    have := hops heq
    simp only [State.left, List.length_append, List.length_singleton, Nat.mul_add_one, State.shardLeft]
    omega
  | push_l0 k m ops heq hroom =>
    have hlen := hops heq
    have hk := hshards k m (heq ▸ List.mem_cons_self)
    have htotal := sum_shardLeft_push (s := s)
      (t := { s with ops := ops, q_in := set2 s.q_in .l0 k (s.q_in .l0 k ++ [m]) }) hk rfl rfl rfl
    simp only [State.left]
    omega
  | wait_marker seq ops heq hdone =>
    have := hops heq
    simp only [State.left, State.shardLeft]
    omega
  | set_done ops heq =>
    have := hops heq
    simp only [State.left, State.shardLeft]
    omega

theorem stagesStep_left (h : StagesStep s s') : Idle s s' ∨ s'.left p < s.left p := by
  cases h with
  | popEvent seq x y feat q hpc hq =>
    refine .inr ?_
    simp only [State.left, State.shardLeft, hq, List.length_cons]
    omega
  | popMarker seq q hpc hq =>
    refine .inr ?_
    simp only [State.left, State.shardLeft, hq, hpc, List.length_cons, StagesPc.busy]
    omega
  | popEof q hpc hq =>
    refine .inr ?_
    simp only [State.left, State.shardLeft, hq, hpc, List.length_cons, StagesPc.busy]
    omega
  | miss hpc hq => exact .inl { Idle.refl s with stages := by rw [hpc]; rfl }
  | retry hpc => exact .inl { Idle.refl s with stages := by rw [hpc]; cases s.done <;> rfl }
  | store seq hpc =>
    refine .inr ?_
    simp only [State.left, State.shardLeft, hpc, StagesPc.busy]
    omega

section Shard

variable {k : Nat}

theorem setShard_busy {pc : ShardPc R} {d : Bool} (h : pc.busy = (s.shard k).pc.busy) (j : Nat) :
    (((setShard s k pc d).shard j).pc).busy = (s.shard j).pc.busy := by
  rcases eq_or_ne j k with rfl | hj
  · simp [setShard, h]
  · simp [setShard, hj]

/-- A step of one shard lowers the work when it lowers that of this shard. -/
theorem left_of_shardLeft (hk : k < p.num_shards) (hrest : ∀ j ≠ k, t.shardLeft j = s.shardLeft j)
    (hlt : t.shardLeft k < s.shardLeft k) (hops : t.ops = s.ops) (hmeta : t.q_meta_l0 = s.q_meta_l0)
    (hpend : t.pending = s.pending) (hd : t.dispatch_l1_pending = s.dispatch_l1_pending)
    (hstaged : t.stage_dispatch_pending = s.stage_dispatch_pending)
    (hdef : t.deferred_partials = s.deferred_partials) (hq : t.q_to_stages = s.q_to_stages)
    (hst : t.stages = s.stages) : t.left p < s.left p := by
  have hsum := sum_shardLeft hk hrest
  simp only [State.left, hops, hmeta, hpend, hd, hstaged, hdef, hq, hst]
  omega

variable [CommRing R]

theorem shardStep_left (hk : k < p.num_shards) (h : p.ShardStep k s s') :
    Idle s s' ∨ s'.left p < s.left p := by
  cases h with
  | take l w q hpc hq =>
    refine .inr (left_of_shardLeft hk (fun j hj => ?_) ?_ rfl rfl rfl rfl rfl rfl rfl rfl)
    · simp [State.shardLeft, setShard, set2_apply, hj]
    · cases l <;> simp [State.shardLeft, setShard, set2_apply, hq, hpc, ShardPc.busy] <;> omega
  | takeEof l q hpc hq =>
    refine .inr (left_of_shardLeft hk (fun j hj => ?_) ?_ rfl rfl rfl rfl rfl rfl rfl rfl)
    · simp [State.shardLeft, setShard, set2_apply, hj]
    · cases l <;> simp [State.shardLeft, setShard, set2_apply, hq, hpc, ShardPc.busy]
  | miss l hpc hq =>
    refine .inl { Idle.refl s with shard := setShard_busy ?_ }
    rw [hpc]
    cases l <;> rfl
  | push l pm hpc hroom =>
    refine .inr (left_of_shardLeft hk (fun j hj => ?_) ?_ rfl rfl rfl rfl rfl rfl rfl rfl)
    · simp [State.shardLeft, setShard, set2_apply, hj]
    · cases l <;> simp [State.shardLeft, setShard, set2_apply, hpc, ShardPc.busy, ShardPc.after] <;> omega
  | decide hpc =>
    refine .inl { Idle.refl s with shard := setShard_busy ?_ }
    rw [hpc]
    split <;> rfl

end Shard

section Sum

variable [CommRing R]

theorem tryMatch_length {pending pending' : List (Pending R)} {pm : PartialMsg R}
    (h : tryMatch pending pm = some pending') : pending'.length = pending.length := by
  unfold tryMatch at h
  split at h
  · rw [← Option.some.inj h, List.length_map]
  · cases h

theorem setMatched_length {l : Layer} {pm : PartialMsg R} {pending : List (Pending R)}
    (h : tryMatch (s.pending l) pm = some pending) (l' : Layer) :
    ((setMatched s l pm pending).pending l').length = (s.pending l').length := by
  rcases eq_or_ne l' l with rfl | hne
  · simp [setMatched, tryMatch_length h]
  · simp [setMatched, hne]

omit [CommRing R] in
theorem deferred_length (l : Layer) (pm : PartialMsg R) :
    (Function.update s.deferred_partials l (s.deferred_partials l ++ [pm]) .l0).length +
        (Function.update s.deferred_partials l (s.deferred_partials l ++ [pm]) .l1).length =
      (s.deferred_partials .l0).length + (s.deferred_partials .l1).length + 1 := by
  cases l <;> simp <;> omega

theorem sumStep_left (hr : Running p s) (h : p.SumStep s s') : Idle s s' ∨ s'.left p < s.left p := by
  have hsum := hr.sum
  cases h with
  | popEof q hpc hq =>
    refine .inr ?_
    simp only [State.left, State.shardLeft, hq, List.length_cons, Nat.mul_add_one]
    omega
  | pushEof k hpc hk hroom =>
    rw [hpc] at hsum
    exact hsum.elim
  | pushLastEof hpc hroom =>
    rw [hpc] at hsum
    exact hsum.elim
  | popEvent m q hpc hq =>
    refine .inr ?_
    simp [State.left, State.shardLeft, hq, Nat.mul_add_one]
    omega
  | popMarker seq q hpc hq =>
    refine .inr ?_
    simp [State.left, State.shardLeft, hq, Nat.mul_add_one]
    omega
  | popNone hpc hq => exact .inl (.sum s _ _)
  | retryHit l i pm ds pending hpc hd hm =>
    refine .inr ?_
    have h0 := setMatched_length hm .l0
    have h1 := setMatched_length hm .l1
    simp only [State.left, h0, h1]
    cases l <;> simp [setMatched, State.shardLeft, hd]
  | retryMiss l i pm ds hpc hd hm =>
    -- the partial moves to the end of its list
    refine .inl { Idle.refl s with deferred_partials := fun l' => ?_ }
    rcases eq_or_ne l' l with rfl | hne
    · dsimp only
      rw [Function.update_self, hd]
      exact List.perm_append_singleton pm ds
    · dsimp only
      rw [Function.update_of_ne hne]
  | retryEnd l hpc => exact .inl (.sum s _ _)
  | drainHit k l pm q pending hpc hk hq hm =>
    refine .inr ?_
    have h0 := setMatched_length hm .l0
    have h1 := setMatched_length hm .l1
    have htotal := sum_shardLeft_drain (t := { setMatched s l pm pending with
      q_partials := set2 s.q_partials l k q }) hk hq rfl rfl rfl
    simp only [State.left, h0, h1]
    simp only [setMatched] at htotal ⊢
    omega
  | drainMiss k l pm q hpc hk hq hm =>
    refine .inr ?_
    have htotal := sum_shardLeft_drain (t := { s with
      q_partials := set2 s.q_partials l k q
      deferred_partials := Function.update s.deferred_partials l (s.deferred_partials l ++ [pm])
      did_work := true }) hk hq rfl rfl rfl
    have hdeferred := deferred_length (s := s) l pm
    simp only [State.left]
    omega
  | drainNone k l hpc hk hq => exact .inl (.sum s _ _)
  | drainEnd hpc => exact .inl (.sum s _ _)
  | cascadeMarker0 pe rest hpc hp hm =>
    refine .inr ?_
    simp [State.left, State.shardLeft, hp, Nat.mul_add_one]
    omega
  | cascadeEvent0 pe rest hpc hp hm hall =>
    refine .inr ?_
    have hneed := needing_le (p := p) (L1Dispatch.ofJob p (pe.finalised p))
    simp [State.left, State.shardLeft, hp, Nat.mul_add_one, dispatchLeft]
    omega
  | cascadeEnd0 hpc hwait => exact .inl (.sum s _ _)
  | dispatchSkip k d ds hpc hk hd hneed => exact .inl (.sum s _ _)
  | dispatchPush k d ds hpc hk hd hneed hroom =>
    refine .inr ?_
    have htotal := sum_shardLeft_push (s := s) (t := { s with
      q_in := set2 s.q_in .l1 k (s.q_in .l1 k ++ [.event (d.job.work p k)])
      dispatch_l1_pending := { d with delivered_mask := d.delivered_mask ||| 1#16 <<< k } :: ds
      sum := .dispatch (k + 1)
      did_work := true }) hk rfl rfl rfl
    have hneeds := needing_delivered hk hneed
    simp only [State.left, hd, dispatchLeft, List.map_cons, List.sum_cons]
    omega
  | dispatchFull k d ds hpc hk hd hneed hfull => exact .inl (.sum s _ _)
  | dispatchPop d ds hpc hd =>
    refine .inr ?_
    simp only [State.left, State.shardLeft, hd, dispatchLeft, List.map_cons, List.sum_cons]
    omega
  | dispatchEnd hpc hd => exact .inl (.sum s _ _)
  | cascadeMarker1 pe rest hpc hp hm =>
    refine .inr ?_
    simp [State.left, State.shardLeft, hp]
    omega
  | cascadeEvent1 pe rest hpc hp hm hall =>
    refine .inr ?_
    simp [State.left, State.shardLeft, hp]
    omega
  | cascadeEnd1 hpc hwait => exact .inl (.sum s _ _)
  | emit m ms hpc hm hroom =>
    refine .inr ?_
    simp only [State.left, State.shardLeft, hm, List.length_append, List.length_cons, List.length_nil]
    omega
  | emitEnd hpc h => exact .inl (.sum s _ _)
  | again hpc h => exact .inl (.sum s _ _)
  | giveUp hpc hwork hdone hp0 hp1 hd hst hd0 hd1 => exact .inl (.sum s _ _)

end Sum

end SumScheme

end SslaRt
