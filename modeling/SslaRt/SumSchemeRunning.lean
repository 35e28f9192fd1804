import SslaRt.SumSchemeClosing

/-! No thread ends before all events have been sent. -/

namespace SslaRt

namespace SumScheme

variable {R : Type*} [CommRing R] {p : SumScheme R} {s s' : State R} {events : List (Event R)}

/-- The place of the sum thread in its loops. -/
def SumPc.Within (p : SumScheme R) (s : State R) : SumPc → Prop
  | .deferred l i => i ≤ (s.deferred_partials l).length
  | .draining k l => k < p.num_shards ∨ k = p.num_shards ∧ l = .l0
  | .dispatch k => k ≤ p.num_shards ∧ (k = 0 ∨ s.dispatch_l1_pending ≠ [])
  | .ending _ => False
  | .stopped => False
  | _ => True

structure Running (p : SumScheme R) (s : State R) : Prop where
  work : ∀ k, .eof ∉ s.q_in .l0 k
  shard : ∀ k, (s.shard k).pc ≠ .stopped
  sum : s.sum.Within p s
  stages : s.stages ≠ .stopped
  done : s.done = false

theorem Running.shard_step {k : Nat} (hr : Running p s) (h : p.ShardStep k s s') : Running p s' := by
  have hwork : ∀ {l q j}, (∀ m ∈ q, m ∈ s.q_in l k) → .eof ∉ set2 s.q_in l k q .l0 j := by
    intro l q j hsub hm
    rw [set2_apply] at hm
    split at hm
    · rename_i h
      obtain ⟨rfl, rfl⟩ := h
      exact hr.work _ (hsub _ hm)
    · exact hr.work j hm
  have hshard : ∀ {pc : ShardPc R} {d j}, pc ≠ .stopped → (Function.update s.shard k ⟨pc, d⟩ j).pc ≠ .stopped := by
    intro pc d j hpc
    rcases eq_or_ne j k with rfl | hj
    · rwa [Function.update_self]
    · rw [Function.update_of_ne hj]
      exact hr.shard j
  cases h with
  | take l w q hpc hq =>
    exact ⟨fun _ => hwork fun m hm => hq ▸ List.mem_cons_of_mem _ hm, fun _ => hshard (by simp), hr.sum,
      hr.stages, hr.done⟩
  | takeEof l q hpc hq =>
    have hl : l = .l1 := by
      cases l with
      | l0 => exact absurd (hq ▸ List.mem_cons_self) (hr.work k)
      | l1 => rfl
    subst hl
    exact ⟨fun _ => hwork fun m hm => hq ▸ List.mem_cons_of_mem _ hm, fun _ => hshard (by simp), hr.sum,
      hr.stages, hr.done⟩
  | miss l hpc hq =>
    exact ⟨hr.work, fun _ => hshard (by cases l <;> simp [ShardPc.after]), hr.sum, hr.stages, hr.done⟩
  | push l pm hpc hroom =>
    exact ⟨hr.work, fun _ => hshard (by cases l <;> simp [ShardPc.after]), hr.sum, hr.stages, hr.done⟩
  | decide hpc =>
    exact ⟨hr.work, fun _ => hshard (by simp [hr.done]), hr.sum, hr.stages, hr.done⟩

theorem Running.sum_step (hs : Closing p events s) (hno : ¬ AllSent p events s) (hr : Running p s)
    (h : p.SumStep s s') : Running p s' := by
  have hsum := hr.sum
  cases h with
  | popEof q hpc hq => exact absurd (hs.q_meta (hq ▸ List.mem_cons_self)) hno
  | pushEof k hpc hk hroom => exact absurd (hs.ending k hpc) hno
  | pushLastEof hpc hroom => exact absurd (hs.ending _ hpc) hno
  | giveUp hpc hwork hdone hp0 hp1 hd hst hd0 hd1 =>
    rw [hr.done] at hdone
    cases hdone
  | popEvent m q hpc hq => exact ⟨hr.work, hr.shard, by simp [hpc, SumPc.Within], hr.stages, hr.done⟩
  | popMarker seq q hpc hq => exact ⟨hr.work, hr.shard, by simp [hpc, SumPc.Within], hr.stages, hr.done⟩
  | popNone hpc hq => exact ⟨hr.work, hr.shard, le_rfl, hr.stages, hr.done⟩
  | retryHit l i pm ds pending hpc hd hm =>
    refine ⟨hr.work, hr.shard, ?_, hr.stages, hr.done⟩
    rw [hpc] at hsum
    simpa [SumPc.Within, hd] using hsum
  | retryMiss l i pm ds hpc hd hm =>
    refine ⟨hr.work, hr.shard, ?_, hr.stages, hr.done⟩
    rw [hpc] at hsum
    simp only [SumPc.Within, hd, List.length_cons] at hsum
    simp only [SumPc.Within, Function.update_self, List.length_append, List.length_singleton]
    omega
  | retryEnd l hpc =>
    refine ⟨hr.work, hr.shard, ?_, hr.stages, hr.done⟩
    cases l with
    | l0 => exact le_rfl
    | l1 => exact .inl p.shards_pos
  | drainHit k l pm q pending hpc hk hq hm =>
    exact ⟨hr.work, hr.shard, by simpa [hpc, SumPc.Within, setMatched] using .inl hk, hr.stages, hr.done⟩
  | drainMiss k l pm q hpc hk hq hm =>
    exact ⟨hr.work, hr.shard, by simpa [hpc, SumPc.Within] using .inl hk, hr.stages, hr.done⟩
  | drainNone k l hpc hk hq =>
    refine ⟨hr.work, hr.shard, ?_, hr.stages, hr.done⟩
    cases l with
    | l0 => exact .inl hk
    | l1 =>
      exact (Nat.lt_or_eq_of_le hk).imp_right fun h => ⟨h, rfl⟩
  | drainEnd hpc => exact ⟨hr.work, hr.shard, trivial, hr.stages, hr.done⟩
  | cascadeMarker0 pe rest hpc hp hm => exact ⟨hr.work, hr.shard, by simp [hpc, SumPc.Within], hr.stages, hr.done⟩
  | cascadeEvent0 pe rest hpc hp hm hall =>
    exact ⟨hr.work, hr.shard, by simp [hpc, SumPc.Within], hr.stages, hr.done⟩
  | cascadeEnd0 hpc hwait => exact ⟨hr.work, hr.shard, ⟨Nat.zero_le _, .inl rfl⟩, hr.stages, hr.done⟩
  | dispatchSkip k d ds hpc hk hd hneed =>
    exact ⟨hr.work, hr.shard, ⟨hk, .inr (by simp [hd])⟩, hr.stages, hr.done⟩
  | dispatchPush k d ds hpc hk hd hneed hroom =>
    refine ⟨fun j hm => ?_, hr.shard, ⟨hk, .inr (by simp)⟩, hr.stages, hr.done⟩
    dsimp only at hm
    rw [set2_apply, if_neg (by simp)] at hm
    exact hr.work j hm
  | dispatchFull k d ds hpc hk hd hneed hfull => exact ⟨hr.work, hr.shard, trivial, hr.stages, hr.done⟩
  | dispatchPop d ds hpc hd => exact ⟨hr.work, hr.shard, ⟨Nat.zero_le _, .inl rfl⟩, hr.stages, hr.done⟩
  | dispatchEnd hpc hd => exact ⟨hr.work, hr.shard, trivial, hr.stages, hr.done⟩
  | cascadeMarker1 pe rest hpc hp hm => exact ⟨hr.work, hr.shard, by simp [hpc, SumPc.Within], hr.stages, hr.done⟩
  | cascadeEvent1 pe rest hpc hp hm hall =>
    exact ⟨hr.work, hr.shard, by simp [hpc, SumPc.Within], hr.stages, hr.done⟩
  | cascadeEnd1 hpc hwait => exact ⟨hr.work, hr.shard, trivial, hr.stages, hr.done⟩
  | emit m ms hpc hm hroom => exact ⟨hr.work, hr.shard, by simp [hpc, SumPc.Within], hr.stages, hr.done⟩
  | emitEnd hpc h => exact ⟨hr.work, hr.shard, trivial, hr.stages, hr.done⟩
  | again hpc h => exact ⟨hr.work, hr.shard, trivial, hr.stages, hr.done⟩

omit [CommRing R] in
theorem Running.producer_step (hs : Closing p events s) (hno : ¬ AllSent p events s) (hr : Running p s)
    (h : p.ProducerStep s s') : Running p s' := by
  have hopen : ∀ {op : ProducerOp R} {ops : List (ProducerOp R)}, s.ops = op :: ops → ¬ op.Closes := by
    intro op ops hops
    rcases hs.next hops with ⟨rfl, -⟩ | ⟨h, -⟩ | ⟨h, -⟩
    · exact id
    · exact h
    · exact absurd h hno
  cases h with
  | push_meta m ops hops hroom => exact ⟨hr.work, hr.shard, hr.sum, hr.stages, hr.done⟩
  | push_l0 k m ops hops hroom =>
    refine ⟨fun j hm => ?_, hr.shard, hr.sum, hr.stages, hr.done⟩
    dsimp only at hm
    rw [set2_apply] at hm
    split at hm
    · rw [List.mem_append, List.mem_singleton] at hm
      rcases hm with hm | rfl
      · exact hr.work k hm
      · exact hopen hops trivial
    · exact hr.work j hm
  | wait_marker seq ops hops hdone => exact ⟨hr.work, hr.shard, hr.sum, hr.stages, hr.done⟩
  | set_done ops hops => exact absurd trivial (hopen hops)

omit [CommRing R] in
theorem Running.stages_step (hs : Closing p events s) (hno : ¬ AllSent p events s) (hr : Running p s)
    (h : StagesStep s s') : Running p s' := by
  cases h with
  | popEvent seq x y feat q hpc hq => exact ⟨hr.work, hr.shard, hr.sum, hr.stages, hr.done⟩
  | popMarker seq q hpc hq => exact ⟨hr.work, hr.shard, hr.sum, by simp, hr.done⟩
  | popEof q hpc hq =>
    rcases hs.eof with hmem | ⟨hall, -⟩
    · exact absurd (hs.queued _ (hq ▸ List.mem_cons_self)) hmem
    · exact absurd hall hno
  | miss hpc hq => exact ⟨hr.work, hr.shard, hr.sum, by simp, hr.done⟩
  | retry hpc => exact ⟨hr.work, hr.shard, hr.sum, by simp [hr.done], hr.done⟩
  | store seq hpc => exact ⟨hr.work, hr.shard, hr.sum, by simp, hr.done⟩

theorem Running.step (hs : Closing p events s) (hno : ¬ AllSent p events s) (hr : Running p s)
    (h : p.Step s s') : Running p s' := by
  cases h with
  | producer h => exact hr.producer_step hs hno h
  | shard k hk h => exact hr.shard_step h
  | sum h => exact hr.sum_step hs hno h
  | stages h => exact hr.stages_step hs hno h

theorem reachable_running {body : List (ProducerOp R)} (hb : Body p events body)
    (h : p.Reachable (body ++ .wait_marker events.length :: p.closing) s) :
    AllSent p events s ∨ Running p s := by
  induction h with
  | refl => exact .inr ⟨by simp [init], by simp [init], trivial, by simp [init], rfl⟩
  | @tail s s' hr hst ih =>
    by_cases hno : AllSent p events s
    · exact .inl (hno.mono (step_sent hst))
    · exact .inr ((ih.resolve_left hno).step (reachable_closing hb hr) hno hst)

/-- The marker that is stored, or about to be. -/
def State.lastMarker (s : State R) : Nat :=
  match s.stages with
  | .storing seq => seq
  | _ => s.marker_done_stages

/-- The markers that the stages have popped are not above the last one. -/
def Stored (s : State R) : Prop := ∃ popped, s.sent = popped ++ s.q_to_stages ∧
  ∀ q, .marker q ∈ popped.filterMap StageInMsg.item → q ≤ s.lastMarker

omit [CommRing R] in
theorem Stored.stages_step {lo hi : Nat} (hplaced : Placed lo hi s.received) (hs : Stored s)
    (h : StagesStep s s') : Stored s' := by
  obtain ⟨popped, hsent, hle⟩ := hs
  cases h with
  | popEvent seq x y feat q hpc hq =>
    refine ⟨popped ++ [.event seq x y feat], by rw [hsent, hq, List.append_assoc, List.singleton_append],
      fun m hm => hle m ?_⟩
    simpa [StageInMsg.item] using hm
  | popMarker seq q hpc hq =>
    refine ⟨popped ++ [.marker seq], by rw [hsent, hq, List.append_assoc, List.singleton_append],
      fun m hm => ?_⟩
    show m ≤ seq
    rw [List.filterMap_append, List.mem_append] at hm
    rcases hm with hm | hm
    · have horder := hplaced.order
      unfold State.received at horder
      rw [hsent, hq, List.filterMap_append, List.pairwise_append] at horder
      exact horder.2.2 _ hm (.marker seq) List.mem_cons_self
    · obtain rfl : m = seq := by simpa [StageInMsg.item] using hm
      exact le_rfl
  | popEof q hpc hq =>
    refine ⟨popped ++ [.eof], by rw [hsent, hq, List.append_assoc, List.singleton_append], fun m hm => ?_⟩
    have hlast := hle m (by simpa [StageInMsg.item] using hm)
    rwa [State.lastMarker, hpc] at hlast
  | miss hpc hq =>
    refine ⟨popped, hsent, fun m hm => ?_⟩
    have hlast := hle m hm
    rwa [State.lastMarker, hpc] at hlast
  | retry hpc =>
    refine ⟨popped, hsent, fun m hm => ?_⟩
    have hlast := hle m hm
    rw [State.lastMarker, hpc] at hlast
    cases hd : s.done <;> simpa [State.lastMarker, hd] using hlast
  | store seq hpc =>
    refine ⟨popped, hsent, fun m hm => ?_⟩
    have hlast := hle m hm
    rwa [State.lastMarker, hpc] at hlast

theorem Stored.sum_step (hs : Stored s) (hstages : s'.stages = s.stages)
    (hdone : s'.marker_done_stages = s.marker_done_stages) (h : p.SumStep s s') : Stored s' := by
  obtain ⟨popped, hsent, hle⟩ := hs
  have hlast : s'.lastMarker = s.lastMarker := by
    unfold State.lastMarker
    rw [hstages, hdone]
  refine ⟨popped, ?_, fun q hq => hlast ▸ hle q hq⟩
  cases sumStep_emits h with
  | quiet hmeta hqueue hsent' hstaged hrun hend => rw [hsent', hqueue, hsent]
  | emit m ms hm hmeta hqueue hsent' hstaged hsum hsum' =>
    rw [hsent', hqueue, hsent, List.append_assoc]
  | eof k hmeta hqueue hsent' hstaged hsum hsum' =>
    rw [hsent', hqueue, hsent, List.append_assoc]

section Reachable

variable {body : List (ProducerOp R)} (hb : Body p events body)
  (h : p.Reachable (body ++ .wait_marker events.length :: p.closing) s)
include hb h

theorem reachable_line : InLine (body ++ .wait_marker events.length :: p.closing) s :=
  (reachable_inv (program_driven hb) h).line

theorem received_placed : Placed 0 events.length s.received := by
  have hplaced := line_placed hb (reachable_line hb h)
  unfold State.line State.forwarded at hplaced
  rw [List.append_assoc] at hplaced
  exact ⟨(List.pairwise_append.mp hplaced.order).1, fun i hi =>
    hplaced.range i (List.mem_append_left _ hi)⟩

theorem reachable_stored : Stored s := by
  induction h with
  | refl => exact ⟨[], rfl, by simp⟩
  | tail hr hst ih =>
    cases hst with
    | producer h => cases h <;> exact ih
    | shard k hk h => cases h <;> exact ih
    | sum h => exact ih.sum_step (by cases h <;> rfl) (by cases h <;> rfl) h
    | stages h => exact ih.stages_step (received_placed hb hr) h

omit hb in
/-- The operations that are left are the end of the program. -/
theorem reachable_ops : s.ops <:+ body ++ .wait_marker events.length :: p.closing := by
  induction h with
  | refl => exact List.suffix_rfl
  | tail hr hst ih =>
    cases hst with
    | producer h =>
      cases h with
      | push_meta m ops hops hroom => exact (List.suffix_cons _ _).trans (hops ▸ ih)
      | push_l0 k m ops hops hroom => exact (List.suffix_cons _ _).trans (hops ▸ ih)
      | wait_marker seq ops hops hdone => exact (List.suffix_cons _ _).trans (hops ▸ ih)
      | set_done ops hops => exact (List.suffix_cons _ _).trans (hops ▸ ih)
    | shard k hk h => cases h <;> exact ih
    | sum h => cases h <;> exact ih
    | stages h => cases h <;> exact ih

end Reachable

end SumScheme

end SslaRt
