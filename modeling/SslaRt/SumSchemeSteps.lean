import SslaRt.SumSchemeInv
import Mathlib.Algebra.Order.BigOperators.Group.Finset

namespace SslaRt

namespace SumScheme

open Bag

variable {R : Type*} {p : SumScheme R} {ops : List (ProducerOp R)} {s s' : State R}

section Line

/-- An element goes from the front of a list to the end of the list before it. -/
theorem filterMap_shift {α β γ : Type*} {f : α → Option γ} {g : β → Option γ} {a : α} {b : β}
    (h : f a = g b) (l : List α) (r : List β) :
    (l ++ [a]).filterMap f ++ r.filterMap g = l.filterMap f ++ (b :: r).filterMap g := by
  rw [List.filterMap_append, List.append_assoc, List.filterMap_cons, List.filterMap_cons, ← h]
  cases f a <;> rfl

theorem producerStep_line (h : p.ProducerStep s s') : s'.line = s.line := by
  cases h with
  | push_meta m ops hops hroom =>
    unfold State.line State.unread
    rw [hops, ← filterMap_shift (show MetaMsg.item m = ProducerOp.item (.push_meta m) from rfl)]
    rfl
  | push_l0 k m ops hops hroom =>
    unfold State.line State.unread
    rw [hops]
    rfl
  | wait_marker seq ops hops hdone =>
    unfold State.line State.unread
    rw [hops]
    rfl
  | set_done ops hops =>
    unfold State.line State.unread
    rw [hops]
    rfl

theorem stagesStep_line (h : StagesStep s s') : s'.line = s.line := by
  cases h <;> rfl

variable [CommRing R]

theorem shardStep_line {k : Nat} (h : p.ShardStep k s s') : s'.line = s.line := by
  cases h <;> rfl

theorem tryMatch_items {pending pending' : List (Pending R)} {pm : PartialMsg R}
    (h : tryMatch pending pm = some pending') : pending'.map Pending.item = pending.map Pending.item := by
  unfold tryMatch at h
  split at h
  · obtain rfl := Option.some.inj h
    rw [List.map_map]
    refine List.map_congr_left fun pe _ => ?_
    simp only [Function.comp_apply]
    split <;> rfl
  · cases h

theorem setMatched_items {l : Layer} {pm : PartialMsg R} {pending : List (Pending R)}
    (h : tryMatch (s.pending l) pm = some pending) (l' : Layer) :
    ((setMatched s l pm pending).pending l').map Pending.item = (s.pending l').map Pending.item := by
  unfold setMatched
  dsimp only
  by_cases hl : l' = l
  · subst hl
    rw [Function.update_self, tryMatch_items h]
  · rw [Function.update_of_ne hl]

theorem sumStep_line (h : p.SumStep s s') : s'.line = s.line := by
  have hmatch : ∀ {l pm pending}, tryMatch (s.pending l) pm = some pending →
      (setMatched s l pm pending).line = s.line := by
    intro l pm pending hm
    unfold State.line State.forwarded
    rw [setMatched_items hm, setMatched_items hm]
    rfl
  cases h with
  | popEvent m q hpc hq => simp [State.line, State.forwarded, State.received, State.unread, hq, MetaMsg.item, Pending.item, Pending.ofMeta]
  | popMarker seq q hpc hq => simp [State.line, State.forwarded, State.received, State.unread, hq, MetaMsg.item, Pending.item, Pending.ofMarker]
  | popEof q hpc hq =>
    unfold State.line State.unread
    rw [hq]
    rfl
  | popNone hpc hq => rfl
  | pushEof k hpc hk hroom => rfl
  | pushLastEof hpc hroom => simp [State.line, State.forwarded, State.received, State.unread, StageInMsg.item]
  | retryHit l i pm ds pending hpc hd hm => exact hmatch hm
  | retryMiss l i pm ds hpc hd hm => rfl
  | retryEnd l hpc => rfl
  | drainHit k l pm q pending hpc hk hq hm => exact hmatch hm
  | drainMiss k l pm q hpc hk hq hm => rfl
  | drainNone k l hpc hk hq => rfl
  | drainEnd hpc => rfl
  | cascadeMarker0 pe rest hpc hp hm => simp [State.line, State.forwarded, State.received, State.unread, hp, Pending.item, Pending.ofMarker, hm]
  | cascadeEvent0 pe rest hpc hp hm hall => simp [State.line, State.forwarded, State.received, State.unread, hp, Pending.item, Pending.ofJob, Pending.finalised, hm]
  | cascadeEnd0 hpc hwait => rfl
  | dispatchSkip k d ds hpc hk hd hneed => rfl
  | dispatchPush k d ds hpc hk hd hneed hroom => rfl
  | dispatchFull k d ds hpc hk hd hneed hfull => rfl
  | dispatchPop d ds hpc hd => rfl
  | dispatchEnd hpc hd => rfl
  | cascadeMarker1 pe rest hpc hp hm => simp [State.line, State.forwarded, State.received, State.unread, hp, Pending.item, StageInMsg.item, hm]
  | cascadeEvent1 pe rest hpc hp hm hall => simp [State.line, State.forwarded, State.received, State.unread, hp, Pending.item, StageInMsg.item, Pending.toStages, hm]
  | cascadeEnd1 hpc hwait => rfl
  | emit m ms hpc hm hroom =>
    unfold State.line State.forwarded State.received
    simp only [List.append_assoc, hm]
    rw [← List.append_assoc (List.filterMap _ (s.sent ++ [m])), filterMap_shift rfl, List.append_assoc]
    rfl
  | emitEnd hpc h => rfl
  | again hpc h => rfl
  | giveUp hpc hwork hdone hp0 hp1 hd hs hd0 hd1 => rfl

theorem step_line (h : p.Step s s') : s'.line = s.line := by
  cases h with
  | producer h => exact producerStep_line h
  | shard k hk h => exact shardStep_line h
  | sum h => exact sumStep_line h
  | stages h => exact stagesStep_line h

end Line

section Forward

variable [CommRing R]

theorem eventSeqs_append (a b : List Item) : eventSeqs (a ++ b) = eventSeqs a ++ eventSeqs b :=
  List.filterMap_append ..

/-- What a step adds to the items whose layer 0 is complete. -/
inductive Forwards (p : SumScheme R) (s s' : State R) : Prop
  | same (hf : s'.forwarded = s.forwarded) (hd : s'.dispatched = s.dispatched)
  | marker (seq : Nat) (hf : s'.forwarded = s.forwarded ++ [.marker seq])
      (hd : s'.dispatched = s.dispatched)
  | event (pe : Pending R) (rest : List (Pending R)) (hp : s.pending .l0 = pe :: rest)
      (hm : pe.is_marker = false) (hall : pe.expected ≤ pe.received)
      (hf : s'.forwarded = s.forwarded ++ [.event pe.seq])
      (hd : s'.dispatched = s.dispatched ++ [pe.finalised p])

theorem sumStep_forwards (h : p.SumStep s s') : Forwards p s s' := by
  have hmatch : ∀ {l pm pending}, tryMatch (s.pending l) pm = some pending →
      (setMatched s l pm pending).forwarded = s.forwarded := by
    intro l pm pending hm
    unfold State.forwarded
    rw [setMatched_items hm]
    rfl
  cases h with
  | popEvent m q hpc hq => exact .same (by simp [State.forwarded, State.received]) rfl
  | popMarker seq q hpc hq => exact .same (by simp [State.forwarded, State.received]) rfl
  | popEof q hpc hq => exact .same rfl rfl
  | popNone hpc hq => exact .same rfl rfl
  | pushEof k hpc hk hroom => exact .same rfl rfl
  | pushLastEof hpc hroom =>
    exact .same (by simp [State.forwarded, State.received, StageInMsg.item]) rfl
  | retryHit l i pm ds pending hpc hd hm => exact .same (hmatch hm) rfl
  | retryMiss l i pm ds hpc hd hm => exact .same rfl rfl
  | retryEnd l hpc => exact .same rfl rfl
  | drainHit k l pm q pending hpc hk hq hm => exact .same (hmatch hm) rfl
  | drainMiss k l pm q hpc hk hq hm => exact .same rfl rfl
  | drainNone k l hpc hk hq => exact .same rfl rfl
  | drainEnd hpc => exact .same rfl rfl
  | cascadeMarker0 pe rest hpc hp hm =>
    exact .marker pe.seq (by simp [State.forwarded, State.received, Pending.item, Pending.ofMarker]) rfl
  | cascadeEvent0 pe rest hpc hp hm hall =>
    exact .event pe rest hp hm hall (by simp [State.forwarded, State.received, Pending.item,
      Pending.ofJob, Pending.finalised]) rfl
  | cascadeEnd0 hpc hwait => exact .same rfl rfl
  | dispatchSkip k d ds hpc hk hd hneed => exact .same rfl rfl
  | dispatchPush k d ds hpc hk hd hneed hroom => exact .same rfl rfl
  | dispatchFull k d ds hpc hk hd hneed hfull => exact .same rfl rfl
  | dispatchPop d ds hpc hd => exact .same rfl rfl
  | dispatchEnd hpc hd => exact .same rfl rfl
  | cascadeMarker1 pe rest hpc hp hm =>
    exact .same (by simp [State.forwarded, State.received, hp, Pending.item, StageInMsg.item, hm]) rfl
  | cascadeEvent1 pe rest hpc hp hm hall =>
    exact .same (by simp [State.forwarded, State.received, hp, Pending.item, StageInMsg.item,
      Pending.toStages, hm]) rfl
  | cascadeEnd1 hpc hwait => exact .same rfl rfl
  | emit m ms hpc hm hroom =>
    refine .same ?_ rfl
    unfold State.forwarded State.received
    rw [hm, ← List.append_assoc, filterMap_shift rfl, List.append_assoc]
  | emitEnd hpc h => exact .same rfl rfl
  | again hpc h => exact .same rfl rfl
  | giveUp hpc hwork hdone hp0 hp1 hd hs hd0 hd1 => exact .same rfl rfl

theorem step_forwards (h : p.Step s s') : Forwards p s s' := by
  cases h with
  | producer h => cases h <;> exact .same rfl rfl
  | shard k hk h => cases h <;> exact .same rfl rfl
  | sum h => exact sumStep_forwards h
  | stages h => cases h <;> exact .same rfl rfl

theorem Dispatched.step (hs : Dispatched s) (h : p.Step s s') : Dispatched s' := by
  unfold Dispatched at *
  cases step_forwards h with
  | same hf hd => rw [hf, hd, hs]
  | marker seq hf hd => simp [hf, hd, hs, eventSeqs]
  | event pe rest hp hm hall hf hd => simp [hf, hd, hs, eventSeqs, Pending.finalised]

end Forward

section Work

variable [CommRing R]

theorem set2_apply {β : Type*} (q : Layer → Nat → β) (l l' : Layer) (k k' : Nat) (v : β) :
    set2 q l k v l' k' = if l' = l ∧ k' = k then v else q l' k' := by
  unfold set2
  by_cases hl : l' = l
  · subst hl
    rw [Function.update_self]
    by_cases hk : k' = k
    · subst hk
      simp
    · simp [hk]
  · simp [hl]

omit [CommRing R] in
/-- A change of one queue that keeps what is on its way to its shard. -/
theorem toShard_set2 {l : Layer} {k : Nat} {q : List (ShardMsg R)} (hq : s'.q_in = set2 s.q_in l k q)
    (hself : q.filterMap ShardMsg.work ++ s'.upstream p l k = s.toShard p l k)
    (hrest : ∀ l' k', ¬ (l' = l ∧ k' = k) → s'.upstream p l' k' = s.upstream p l' k')
    (l' : Layer) (k' : Nat) : s'.toShard p l' k' = s.toShard p l' k' := by
  by_cases h : l' = l ∧ k' = k
  · obtain ⟨rfl, rfl⟩ := h
    rw [← hself]
    unfold State.toShard
    rw [hq, set2_apply, if_pos ⟨rfl, rfl⟩]
  · unfold State.toShard
    rw [hq, set2_apply, if_neg h, hrest l' k' h]

/-- What a step does to the work of the shards. -/
inductive Works (p : SumScheme R) (s s' : State R) : Prop
  | same (hto : ∀ l k, s'.toShard p l k = s.toShard p l k) (hlog : s'.log = s.log)
      (hd : s'.dispatched = s.dispatched)
  | take (l : Layer) (k : Nat) (hk : k < p.num_shards) (w : ShardWork R) (pm : PartialMsg R)
      (hseq : pm.seq = w.seq) (hto : s.toShard p l k = w :: s'.toShard p l k)
      (hrest : ∀ l' k', ¬ (l' = l ∧ k' = k) → s'.toShard p l' k' = s.toShard p l' k')
      (hlog : s'.log = set2 s.log l k (s.log l k ++ [(w, pm)])) (hd : s'.dispatched = s.dispatched)
  | issue (j : Job R) (hto : ∀ k, s'.toShard p .l1 k = s.toShard p .l1 k ++ (p.workAt k j).toList)
      (hto0 : ∀ k, s'.toShard p .l0 k = s.toShard p .l0 k) (hlog : s'.log = s.log)
      (hd : s'.dispatched = s.dispatched ++ [j])

omit [CommRing R] in
theorem producerStep_works (h : p.ProducerStep s s') : Works p s s' := by
  have hnone : ∀ {op rest}, s.ops = op :: rest → (∀ k, ProducerOp.workOf k op = none) →
      ∀ k, rest.filterMap (ProducerOp.workOf k) = s.ops.filterMap (ProducerOp.workOf k) := by
    intro op rest hops hop k
    rw [hops, List.filterMap_cons_none (hop k)]
  cases h with
  | push_meta m ops hops hroom =>
    refine .same (fun l k => ?_) rfl rfl
    cases l with
    | l0 => exact congrArg (_ ++ ·) (hnone hops (fun _ => rfl) k)
    | l1 => rfl
  | push_l0 k m ops hops hroom =>
    refine .same (toShard_set2 rfl ?_ ?_) rfl rfl
    · unfold State.toShard State.upstream
      rw [hops]
      refine filterMap_shift ?_ (s.q_in .l0 k) ops
      cases m with
      | event w => exact (if_pos rfl).symm
      | eof => rfl
    · intro l' k' hne
      cases l' with
      | l1 => rfl
      | l0 =>
        have hk : k ≠ k' := fun hk => hne ⟨rfl, hk.symm⟩
        unfold State.upstream
        dsimp only
        rw [hops]
        cases m with
        | event w =>
          have hwork : ProducerOp.workOf k' (.push_l0 k (.event w)) = none := if_neg hk
          exact (List.filterMap_cons_none hwork).symm
        | eof => rfl
  | wait_marker seq ops hops hdone =>
    refine .same (fun l k => ?_) rfl rfl
    cases l with
    | l0 => exact congrArg (_ ++ ·) (hnone hops (fun _ => rfl) k)
    | l1 => rfl
  | set_done ops hops =>
    refine .same (fun l k => ?_) rfl rfl
    cases l with
    | l0 => exact congrArg (_ ++ ·) (hnone hops (fun _ => rfl) k)
    | l1 => rfl

theorem shardStep_works {k : Nat} (hk : k < p.num_shards) (h : p.ShardStep k s s') : Works p s s' := by
  cases h with
  | take l w q hpc hq =>
    refine .take l k hk w ⟨w.seq, (p.shardLayerForward l s.hidden w).2⟩ rfl ?_ ?_ rfl rfl
    · unfold State.toShard
      simp only [set2_apply, hq]
      rfl
    · intro l' k' hne
      unfold State.toShard
      simp only [set2_apply, if_neg hne]
      rfl
  | takeEof l q hpc hq =>
    refine .same (toShard_set2 rfl ?_ fun _ _ _ => rfl) rfl rfl
    unfold State.toShard
    rw [hq]
    rfl
  | miss l hpc hq => exact .same (fun _ _ => rfl) rfl rfl
  | push l pm hpc hroom => exact .same (fun _ _ => rfl) rfl rfl
  | decide hpc => exact .same (fun _ _ => rfl) rfl rfl

omit [CommRing R] in
theorem needs_delivered {d : L1Dispatch R} {k i : Nat} (hk : k < 16) :
    L1Dispatch.Needs { d with delivered_mask := d.delivered_mask ||| 1#16 <<< k } i ↔
      d.Needs i ∧ i ≠ k := by
  unfold L1Dispatch.Needs
  simp only [BitVec.getLsbD_or, getLsbD_one_shiftLeft, Bool.or_eq_false_iff, decide_eq_false_iff_not]
  constructor
  · rintro ⟨hm, hd, hne⟩
    exact ⟨⟨hm, hd⟩, fun h => hne ⟨hk, h.symm⟩⟩
  · rintro ⟨⟨hm, hd⟩, hne⟩
    exact ⟨hm, hd, fun h => hne h.2.symm⟩

omit [CommRing R] in
theorem workFor_delivered {d : L1Dispatch R} {k k' : Nat} (hk : k < p.num_shards) (hne : k' ≠ k) :
    L1Dispatch.workFor p k' { d with delivered_mask := d.delivered_mask ||| 1#16 <<< k } =
      d.workFor p k' := by
  have hiff := needs_delivered (d := d) (i := k') (hk.trans_le p.shards_le)
  unfold L1Dispatch.workFor
  by_cases h : k' < p.num_shards ∧ d.Needs k'
  · rw [if_pos h, if_pos ⟨h.1, hiff.mpr ⟨h.2, hne⟩⟩]
    rfl
  · rw [if_neg h, if_neg fun h' => h ⟨h'.1, (hiff.mp h'.2).1⟩]

omit [CommRing R] in
theorem workFor_ofJob (j : Job R) (k : Nat) : (L1Dispatch.ofJob p j).workFor p k = p.workAt k j := by
  have hiff : (L1Dispatch.ofJob p j).Needs k ↔ (p.shardMask j.x).getLsbD k = true := by
    simp [L1Dispatch.Needs, L1Dispatch.ofJob]
  unfold L1Dispatch.workFor workAt
  simp only [hiff]
  rfl

theorem sumStep_works (hinv : Dispatching s) (h : p.SumStep s s') : Works p s s' := by
  cases h with
  | popEvent m q hpc hq => exact .same (fun _ _ => rfl) rfl rfl
  | popMarker seq q hpc hq => exact .same (fun _ _ => rfl) rfl rfl
  | popEof q hpc hq => exact .same (fun _ _ => rfl) rfl rfl
  | popNone hpc hq => exact .same (fun _ _ => rfl) rfl rfl
  | pushEof k hpc hk hroom =>
    refine .same (toShard_set2 rfl ?_ fun _ _ _ => rfl) rfl rfl
    unfold State.toShard
    rw [List.filterMap_append]
    exact congrArg (· ++ _) (List.append_nil _)
  | pushLastEof hpc hroom => exact .same (fun _ _ => rfl) rfl rfl
  | retryHit l i pm ds pending hpc hd hm => exact .same (fun _ _ => rfl) rfl rfl
  | retryMiss l i pm ds hpc hd hm => exact .same (fun _ _ => rfl) rfl rfl
  | retryEnd l hpc => exact .same (fun _ _ => rfl) rfl rfl
  | drainHit k l pm q pending hpc hk hq hm => exact .same (fun _ _ => rfl) rfl rfl
  | drainMiss k l pm q hpc hk hq hm => exact .same (fun _ _ => rfl) rfl rfl
  | drainNone k l hpc hk hq => exact .same (fun _ _ => rfl) rfl rfl
  | drainEnd hpc => exact .same (fun _ _ => rfl) rfl rfl
  | cascadeMarker0 pe rest hpc hp hm => exact .same (fun _ _ => rfl) rfl rfl
  | cascadeEvent0 pe rest hpc hp hm hall =>
    refine .issue (pe.finalised p) (fun k => ?_) (fun _ => rfl) rfl rfl
    unfold State.toShard State.upstream
    dsimp only
    rw [List.filterMap_append, List.append_assoc, List.filterMap_cons, workFor_ofJob]
    cases p.workAt k (pe.finalised p) <;> rfl
  | cascadeEnd0 hpc hwait => exact .same (fun _ _ => rfl) rfl rfl
  | dispatchSkip k d ds hpc hk hd hneed => exact .same (fun _ _ => rfl) rfl rfl
  | dispatchPush k d ds hpc hk hd hneed hroom =>
    -- the work of shard `k` goes from the dispatch to its queue
    refine .same (toShard_set2 rfl ?_ ?_) rfl rfl
    · have hwork : d.workFor p k = some (d.job.work p k) := if_pos ⟨hk, hneed⟩
      have hdone : L1Dispatch.workFor p k
          { d with delivered_mask := d.delivered_mask ||| 1#16 <<< k } = none :=
        if_neg fun h => ((needs_delivered (hk.trans_le p.shards_le)).mp h.2).2 rfl
      unfold State.toShard State.upstream
      dsimp only
      rw [hd, List.filterMap_cons_none hdone]
      exact filterMap_shift (f := ShardMsg.work) (a := .event (d.job.work p k)) hwork.symm _ _
    · intro l' k' hne
      cases l' with
      | l0 => rfl
      | l1 =>
        have hk' : k' ≠ k := fun h => hne ⟨rfl, h⟩
        unfold State.upstream
        dsimp only
        rw [hd, List.filterMap_cons, List.filterMap_cons, workFor_delivered hk hk']
  | dispatchFull k d ds hpc hk hd hneed hfull => exact .same (fun _ _ => rfl) rfl rfl
  | dispatchPop d ds hpc hd =>
    refine .same (fun l k => ?_) rfl rfl
    cases l with
    | l0 => rfl
    | l1 =>
      have hnone : d.workFor p k = none := if_neg fun h => hinv _ d ds hpc hd k h.1 h.2
      unfold State.toShard State.upstream
      dsimp only
      rw [hd, List.filterMap_cons_none hnone]
  | dispatchEnd hpc hd => exact .same (fun _ _ => rfl) rfl rfl
  | cascadeMarker1 pe rest hpc hp hm => exact .same (fun _ _ => rfl) rfl rfl
  | cascadeEvent1 pe rest hpc hp hm hall => exact .same (fun _ _ => rfl) rfl rfl
  | cascadeEnd1 hpc hwait => exact .same (fun _ _ => rfl) rfl rfl
  | emit m ms hpc hm hroom => exact .same (fun _ _ => rfl) rfl rfl
  | emitEnd hpc h => exact .same (fun _ _ => rfl) rfl rfl
  | again hpc h => exact .same (fun _ _ => rfl) rfl rfl
  | giveUp hpc hwork hdone hp0 hp1 hd hs hd0 hd1 => exact .same (fun _ _ => rfl) rfl rfl

theorem step_works (hinv : Dispatching s) (h : p.Step s s') : Works p s s' := by
  cases h with
  | producer h => exact producerStep_works h
  | shard k hk h => exact shardStep_works hk h
  | sum h => exact sumStep_works hinv h
  | stages h => cases h <;> exact .same (fun _ _ => rfl) rfl rfl

theorem Working.step (hs : Working p ops s) (h : Works p s s') : Working p ops s' := by
  intro l k
  cases h with
  | same hto hlog hd =>
    rw [hlog, hto, hs l k]
    cases l with
    | l0 => rfl
    | l1 =>
      unfold issued
      rw [hd]
  | take l' k' hk w pm hseq hto hrest hlog hd =>
    have hissued : issued ops s' l = issued ops s l := by
      cases l with
      | l0 => rfl
      | l1 => exact hd
    rw [hlog, set2_apply, hissued, ← hs l k]
    by_cases h : l = l' ∧ k = k'
    · obtain ⟨rfl, rfl⟩ := h
      rw [if_pos ⟨rfl, rfl⟩, hto]
      simp
    · rw [if_neg h, hrest l k h]
  | issue j hto hto0 hlog hd =>
    rw [hlog]
    cases l with
    | l0 => rw [hto0, hs .l0 k]; rfl
    | l1 =>
      rw [hto, ← List.append_assoc, hs .l1 k]
      unfold issued
      rw [hd, List.filterMap_append]
      cases hj : p.workAt k j <;> simp [hj]

end Work

section Dispatch

variable [CommRing R]

/-- The shards that the loop has passed have got the work at the front. -/
theorem sumStep_dispatching (hs : Dispatching s) (h : p.SumStep s s') : Dispatching s' := by
  intro n d ds hsum hd k hk
  have hother : ∀ {pc}, s.sum = pc → s.sum = .dispatch n → (∀ m, pc ≠ .dispatch m) → ¬ d.Needs k :=
    fun hpc hsum hpc' => absurd (hpc.symm.trans hsum) (hpc' n)
  cases h with
  | cascadeEnd0 hpc hwait =>
    obtain rfl : 0 = n := SumPc.dispatch.inj hsum
    exact absurd hk (Nat.not_lt_zero k)
  | dispatchSkip i d' ds' hpc hi hd' hneed =>
    obtain rfl : i + 1 = n := SumPc.dispatch.inj hsum
    obtain ⟨rfl, rfl⟩ := List.cons.inj (hd'.symm.trans hd)
    rcases Nat.lt_succ_iff_lt_or_eq.mp hk with hlt | rfl
    · exact hs i d' ds' hpc hd' k hlt
    · exact hneed
  | dispatchPush i d' ds' hpc hi hd' hneed hroom =>
    obtain rfl : i + 1 = n := SumPc.dispatch.inj hsum
    obtain ⟨rfl, rfl⟩ := List.cons.inj hd
    rw [needs_delivered (hi.trans_le p.shards_le)]
    rcases Nat.lt_succ_iff_lt_or_eq.mp hk with hlt | rfl
    · exact fun h => hs i d' ds' hpc hd' k hlt h.1
    · exact fun h => h.2 rfl
  | dispatchPop d' ds' hpc hd' =>
    obtain rfl : 0 = n := SumPc.dispatch.inj hsum
    exact absurd hk (Nat.not_lt_zero k)
  | popEvent m q hpc hq => exact hother hpc hsum fun _ => SumPc.noConfusion
  | popMarker seq q hpc hq => exact hother hpc hsum fun _ => SumPc.noConfusion
  | drainHit k l pm q pending hpc hk hq hm => exact hother hpc hsum fun _ => SumPc.noConfusion
  | drainMiss k l pm q hpc hk hq hm => exact hother hpc hsum fun _ => SumPc.noConfusion
  | cascadeMarker0 pe rest hpc hp hm => exact hother hpc hsum fun _ => SumPc.noConfusion
  | cascadeEvent0 pe rest hpc hp hm hall => exact hother hpc hsum fun _ => SumPc.noConfusion
  | cascadeMarker1 pe rest hpc hp hm => exact hother hpc hsum fun _ => SumPc.noConfusion
  | cascadeEvent1 pe rest hpc hp hm hall => exact hother hpc hsum fun _ => SumPc.noConfusion
  | emit m ms hpc hm hroom => exact hother hpc hsum fun _ => SumPc.noConfusion
  | retryEnd l hpc => cases l <;> cases hsum
  | drainNone k l hpc hk hq => cases l <;> cases hsum
  | _ => cases hsum

theorem Dispatching.step (hs : Dispatching s) (h : p.Step s s') : Dispatching s' := by
  cases h with
  | producer h => cases h <;> exact hs
  | shard k hk h => cases h <;> exact hs
  | sum h => exact sumStep_dispatching hs h
  | stages h => cases h <;> exact hs

end Dispatch

section Flow

variable [CommRing R]

theorem Metas.step (hs : Metas ops s) (h : p.Step s s') : Metas ops s' := by
  obtain ⟨hq, hops⟩ := hs
  cases h with
  | producer h =>
    cases h with
    | push_meta m ops' hops' hroom =>
      have hrest : ∀ m' ∈ eventMetas ops', m' ∈ eventMetas s.ops := by
        intro m' hm'
        rw [hops']
        obtain ⟨op, hop, hev⟩ := List.mem_filterMap.mp hm'
        exact List.mem_filterMap.mpr ⟨op, List.mem_cons_of_mem _ hop, hev⟩
      refine ⟨fun m' hm' => ?_, fun m' hm' => hops m' (hrest m' hm')⟩
      rcases List.mem_append.mp hm' with hm' | hm'
      · exact hq m' hm'
      · obtain rfl := List.mem_singleton.mp hm'
        exact hops m' (by simp [eventMetas, hops', ProducerOp.event])
    | push_l0 k m ops' hops' hroom => exact ⟨hq, fun m' hm' => hops m' (by rw [hops']; exact hm')⟩
    | wait_marker seq ops' hops' hdone => exact ⟨hq, fun m' hm' => hops m' (by rw [hops']; exact hm')⟩
    | set_done ops' hops' => exact ⟨hq, fun m' hm' => hops m' (by rw [hops']; exact hm')⟩
  | shard k hk h => cases h <;> exact ⟨hq, hops⟩
  | sum h =>
    cases h with
    | popEvent m q hpc hm => exact ⟨fun m' hm' => hq m' (hm ▸ List.mem_cons_of_mem _ hm'), hops⟩
    | popMarker seq q hpc hm => exact ⟨fun m' hm' => hq m' (hm ▸ List.mem_cons_of_mem _ hm'), hops⟩
    | popEof q hpc hm => exact ⟨fun m' hm' => hq m' (hm ▸ List.mem_cons_of_mem _ hm'), hops⟩
    | _ => exact ⟨hq, hops⟩
  | stages h => cases h <;> exact ⟨hq, hops⟩

omit [CommRing R] in
theorem Numbered.step (hs : Numbered s) (h : Works p s s') : Numbered s' := by
  unfold Numbered at *
  cases h with
  | same hto hlog hd => rwa [hlog]
  | issue j hto hto0 hlog hd => rwa [hlog]
  | take l k hk w pm hseq hto hrest hlog hd =>
    intro l' k' e he
    rw [hlog, set2_apply] at he
    split at he
    · rename_i h
      obtain ⟨rfl, rfl⟩ := h
      rcases List.mem_append.mp he with he | he
      · exact hs _ _ e he
      · rw [List.mem_singleton.mp he]
        exact hseq
    · exact hs _ _ e he

omit [CommRing R] in
theorem held_after (l l' : Layer) : (ShardPc.after (R := R) l).held l' = [] := by
  cases l <;> rfl

omit [CommRing R] in
theorem inFlight_shard (l : Layer) {k : Nat} {pc : ShardPc R} {d : Bool}
    (hq : s'.q_partials = s.q_partials) (hsh : s'.shard = Function.update s.shard k ⟨pc, d⟩) :
    s'.inFlight l = Function.update (s.inFlight l) k (s.q_partials l k ++ pc.held l) := by
  funext j
  unfold State.inFlight
  rw [hq, hsh]
  by_cases hj : j = k
  · subst hj
    rw [Function.update_self, Function.update_self]
  · rw [Function.update_of_ne hj, Function.update_of_ne hj]

omit [CommRing R] in
/-- A shard that goes on with nothing in its hands before and after. -/
theorem inFlight_idle (l : Layer) {k : Nat} {pc : ShardPc R} {d : Bool}
    (hq : s'.q_partials = s.q_partials) (hsh : s'.shard = Function.update s.shard k ⟨pc, d⟩)
    (hpc : pc.held l = (s.shard k).pc.held l) : s'.inFlight l = s.inFlight l := by
  rw [inFlight_shard l hq hsh, hpc]
  exact Function.update_eq_self k (s.inFlight l)

omit [CommRing R] in
theorem computed_snoc {l : Layer} {k : Nat} {w : ShardWork R} {pm : PartialMsg R}
    (hlog : s'.log = set2 s.log l k (s.log l k ++ [(w, pm)])) (l' : Layer) :
    s'.computed l' = if l' = l then Function.update (s.computed l) k (s.computed l k ++ [pm])
      else s.computed l' := by
  funext j
  unfold State.computed
  rw [hlog, set2_apply]
  by_cases hl : l' = l
  · subst hl
    rw [if_pos rfl]
    by_cases hj : j = k
    · subst hj
      simp
    · simp [hj]
  · rw [if_neg fun h => hl h.1, if_neg hl]

omit [CommRing R] in
theorem Partials.same (hs : Partials p s) (hm : s'.matched = s.matched)
    (hd : s'.deferred_partials = s.deferred_partials) (hlog : s'.log = s.log)
    (hf : ∀ l, s'.inFlight l = s.inFlight l) : Partials p s' := by
  intro l
  unfold State.computed
  rw [hm, hd, hlog, hf]
  exact hs l

omit [CommRing R] in
theorem Partials.take (hs : Partials p s) {l : Layer} {k : Nat} (hk : k < p.num_shards)
    {w : ShardWork R} {pm : PartialMsg R} (hm : s'.matched = s.matched)
    (hd : s'.deferred_partials = s.deferred_partials)
    (hlog : s'.log = set2 s.log l k (s.log l k ++ [(w, pm)]))
    (hf : ∀ l', s'.inFlight l' = Function.update (s.inFlight l') k
      (s.inFlight l' k ++ ShardPc.held l' (.holding l pm))) : Partials p s' := by
  intro l'
  have hmem := Finset.mem_range.mpr hk
  rw [hm, hd, hf, computed_snoc hlog]
  by_cases hl : l' = l
  · subst hl
    rw [if_pos rfl, show ShardPc.held l' (.holding l' pm) = [pm] from if_pos rfl, bag_snoc hmem,
      bag_snoc hmem, ← hs l', ← add_assoc]
  · rw [if_neg hl, show ShardPc.held l' (.holding l pm) = [] from if_neg (Ne.symm hl), List.append_nil,
      Function.update_eq_self]
    exact hs l'

theorem shardStep_partials {k : Nat} (hk : k < p.num_shards) (hs : Partials p s)
    (h : p.ShardStep k s s') : Partials p s' := by
  cases h with
  | take l w q hpc hq =>
    refine hs.take hk rfl rfl rfl fun l' => ?_
    have hheld : s.inFlight l' k = s.q_partials l' k := by
      unfold State.inFlight
      rw [hpc]
      exact List.append_nil _
    rw [hheld]
    exact inFlight_shard l' rfl rfl
  | takeEof l q hpc hq =>
    refine hs.same rfl rfl rfl fun l' => inFlight_idle l' rfl rfl ?_
    rw [hpc]
    split <;> rfl
  | miss l hpc hq =>
    refine hs.same rfl rfl rfl fun l' => inFlight_idle l' rfl rfl ?_
    rw [hpc, held_after]
    rfl
  | push l pm hpc hroom =>
    refine hs.same rfl rfl rfl fun l' => funext fun j => ?_
    unfold State.inFlight setShard
    dsimp only
    rw [set2_apply]
    by_cases hj : j = k
    · subst hj
      rw [Function.update_self, held_after, List.append_nil, hpc]
      by_cases hl : l' = l
      · subst hl
        rw [if_pos ⟨rfl, rfl⟩]
        exact congrArg _ (if_pos rfl).symm
      · rw [if_neg fun h => hl h.1]
        exact (List.append_nil _).symm.trans (congrArg _ (if_neg (Ne.symm hl)).symm)
    · rw [if_neg fun h => hj h.2, Function.update_of_ne hj]
  | decide hpc =>
    refine hs.same rfl rfl rfl fun l' => inFlight_idle l' rfl rfl ?_
    rw [hpc]
    split <;> rfl

omit [CommRing R] in
/-- A partial leaves the front of a queue of partials. -/
theorem inFlight_tail {l : Layer} {k : Nat} {pm : PartialMsg R} {q : List (PartialMsg R)} {t : State R}
    (hk : k < p.num_shards) (hq : s.q_partials l k = pm :: q)
    (hq' : t.q_partials = set2 s.q_partials l k q) (hsh : t.shard = s.shard) :
    bag (Finset.range p.num_shards) (t.inFlight l) + {pm} =
        bag (Finset.range p.num_shards) (s.inFlight l) ∧
      ∀ l' ≠ l, t.inFlight l' = s.inFlight l' := by
  constructor
  · have hflight : t.inFlight l = Function.update (s.inFlight l) k (q ++ (s.shard k).pc.held l) := by
      funext j
      unfold State.inFlight
      rw [hq', hsh, set2_apply]
      by_cases hj : j = k
      · subst hj
        rw [if_pos ⟨rfl, rfl⟩, Function.update_self]
      · rw [if_neg fun h => hj h.2, Function.update_of_ne hj]
    rw [hflight]
    refine bag_tail (Finset.mem_range.mpr hk) ?_
    unfold State.inFlight
    rw [hq]
    rfl
  · intro l' hl
    funext j
    unfold State.inFlight
    rw [hq', hsh, set2_apply, if_neg fun h => hl h.1]

theorem sumStep_partials (hs : Partials p s) (h : p.SumStep s s') : Partials p s' := by
  intro l'
  have hh := hs l'
  cases h with
  | retryHit l i pm ds pending hpc hd hm =>
    unfold setMatched
    dsimp only
    by_cases hl : l' = l
    · subst hl
      rw [hd, ← Multiset.cons_coe, ← Multiset.singleton_add, ← add_assoc] at hh
      rw [Function.update_self, Function.update_self, ← Multiset.coe_add]
      exact hh
    · rw [Function.update_of_ne hl, Function.update_of_ne hl]
      exact hh
  | retryMiss l i pm ds hpc hd hm =>
    dsimp only
    by_cases hl : l' = l
    · subst hl
      rw [hd, ← Multiset.cons_coe, ← Multiset.singleton_add, add_comm {pm} (ds : Multiset _)] at hh
      rw [Function.update_self, ← Multiset.coe_add]
      exact hh
    · rw [Function.update_of_ne hl]
      exact hh
  | drainHit k l pm q pending hpc hk hq hm =>
    obtain ⟨htail, hrest⟩ := inFlight_tail (t := { setMatched s l pm pending with
      q_partials := set2 s.q_partials l k q }) hk hq rfl rfl
    by_cases hl : l' = l
    · subst hl
      rw [← htail] at hh
      unfold setMatched at *
      dsimp only at *
      rw [Function.update_self, ← Multiset.coe_add, Multiset.coe_singleton]
      refine Eq.trans ?_ hh
      ac_rfl
    · rw [hrest l' hl]
      unfold setMatched
      dsimp only
      rw [Function.update_of_ne hl]
      exact hh
  | drainMiss k l pm q hpc hk hq hm =>
    obtain ⟨htail, hrest⟩ := inFlight_tail (t := { s with
      q_partials := set2 s.q_partials l k q
      deferred_partials := Function.update s.deferred_partials l (s.deferred_partials l ++ [pm])
      did_work := true }) hk hq rfl rfl
    by_cases hl : l' = l
    · subst hl
      rw [← htail] at hh
      dsimp only at *
      rw [Function.update_self, ← Multiset.coe_add, Multiset.coe_singleton]
      refine Eq.trans ?_ hh
      ac_rfl
    · rw [hrest l' hl]
      dsimp only
      rw [Function.update_of_ne hl]
      exact hh
  | _ => exact hh

end Flow

section Collect

variable [CommRing R]

omit [CommRing R] in
theorem workAt_seq {k : Nat} {j : Job R} {w : ShardWork R} (h : p.workAt k j = some w) :
    w = j.work p k := by
  unfold workAt at h
  split at h
  · exact (Option.some.inj h).symm
  · cases h

omit [CommRing R] in
/-- Among jobs with different numbers, the work for one of them. -/
theorem filter_workAt {jobs : List (Job R)} (hnd : (jobs.map Job.seq).Nodup) {j : Job R} (hj : j ∈ jobs)
    (k : Nat) : ((jobs.filterMap (p.workAt k)).filter fun w => w.seq = j.seq) = (p.workAt k j).toList := by
  obtain ⟨a, b, rfl⟩ := List.append_of_mem hj
  rw [List.map_append, List.map_cons, List.nodup_middle, List.nodup_cons] at hnd
  have hnone : ∀ l : List (Job R), (∀ j' ∈ l, j'.seq ≠ j.seq) →
      ((l.filterMap (p.workAt k)).filter fun w => w.seq = j.seq) = [] := by
    intro l hl
    rw [List.filter_eq_nil_iff]
    intro w hw
    obtain ⟨j', hj', hwork⟩ := List.mem_filterMap.mp hw
    rw [workAt_seq hwork]
    exact fun h => hl j' hj' (of_decide_eq_true h)
  have hne : ∀ j' ∈ a ++ b, j'.seq ≠ j.seq := by
    intro j' hj' heq
    rw [← List.map_append] at hnd
    exact hnd.1 (heq ▸ List.mem_map_of_mem hj')
  rw [List.filterMap_append, List.filter_append, hnone a fun j' h => hne j' (List.mem_append_left _ h),
    List.nil_append, List.filterMap_cons]
  cases hj : p.workAt k j with
  | none => exact hnone b fun j' h => hne j' (List.mem_append_right _ h)
  | some w =>
    have hseq : w.seq = j.seq := by
      rw [workAt_seq hj]
      rfl
    rw [List.filter_cons_of_pos (by simp [hseq]),
      hnone b fun j' h => hne j' (List.mem_append_right _ h)]
    rfl

/-- What a shard has done of a job and what is on its way to it. -/
theorem Working.filter (hs : Working p ops s) {l : Layer} (hnd : ((issued ops s l).map Job.seq).Nodup)
    {j : Job R} (hj : j ∈ issued ops s l) {k : Nat} (hk : k < p.num_shards) :
    ((s.log l k).filter fun e => e.1.seq = j.seq).map Prod.fst ++
        ((s.toShard p l k).filter fun w => w.seq = j.seq) =
      if (p.shardMask j.x).getLsbD k then [j.work p k] else [] := by
  have hwork : (p.workAt k j).toList = if (p.shardMask j.x).getLsbD k then [j.work p k] else [] := by
    unfold workAt
    simp only [hk, true_and]
    split <;> rfl
  rw [← hwork, ← filter_workAt hnd hj k, ← hs l k, List.filter_append, List.filter_map]
  rfl

omit [CommRing R] in
theorem sum_affected (x : Nat) : ∑ k ∈ Finset.range p.num_shards,
    (if (p.shardMask x).getLsbD k then 1 else 0) = p.expectedCount x := by
  unfold expectedCount
  rw [Finset.sum_ite, Finset.sum_const_zero, add_zero, Finset.sum_const, smul_eq_mul, mul_one,
    List.countP_eq_length_filter, ← List.toFinset_card_of_nodup (List.nodup_range.filter _)]
  congr 1
  ext k
  simp

section Entry

variable (hw : Working p ops s) {l : Layer} (hnd : ((issued ops s l).map Job.seq).Nodup) {j : Job R}
  (hj : j ∈ issued ops s l) {k : Nat} (hk : k < p.num_shards)

include hw hnd hj hk

theorem log_count_le : ((s.log l k).countP fun e => e.1.seq = j.seq) ≤
    if (p.shardMask j.x).getLsbD k then 1 else 0 := by
  have hlen := congrArg List.length (hw.filter hnd hj hk)
  rw [List.length_append, List.length_map, ← List.countP_eq_length_filter] at hlen
  by_cases hbit : (p.shardMask j.x).getLsbD k = true
  · simp only [hbit, if_true, List.length_singleton] at hlen ⊢
    omega
  · simp only [hbit, Bool.false_eq_true, if_false, List.length_nil] at hlen ⊢
    omega

theorem log_of_count (hn : Numbered s) (hc : ((s.log l k).countP fun e => e.1.seq = j.seq) =
    if (p.shardMask j.x).getLsbD k then 1 else 0) :
    ((s.log l k).filter fun e => e.1.seq = j.seq) = if (p.shardMask j.x).getLsbD k then
      [(j.work p k, ⟨j.seq, (((s.log l k).filter fun e => e.1.seq = j.seq).map
        fun e => e.2.partial_feat).sum⟩)] else [] := by
  have hfilter := hw.filter hnd hj hk
  rw [List.countP_eq_length_filter] at hc
  by_cases hbit : (p.shardMask j.x).getLsbD k = true
  · simp only [hbit, if_true] at hfilter hc ⊢
    obtain ⟨e, he⟩ := List.length_eq_one_iff.mp hc
    have hmem : e ∈ (s.log l k).filter fun e => e.1.seq = j.seq := he ▸ List.mem_singleton_self e
    have hseq := of_decide_eq_true (List.mem_filter.mp hmem).2
    have hnum := hn l k e (List.mem_filter.mp hmem).1
    rw [he] at hfilter ⊢
    obtain ⟨hfst, -⟩ := List.cons.inj hfilter
    simp only [List.map_cons, List.map_nil, List.sum_cons, List.sum_nil, add_zero]
    refine congrArg (fun e => [e]) (Prod.ext hfst ?_)
    rw [← hseq, ← hnum]
  · simp only [hbit, Bool.false_eq_true, if_false] at hc ⊢
    exact List.length_eq_zero_iff.mp hc

end Entry

omit [CommRing R] in
/-- The partials with a number are those of the work with this number. -/
theorem computed_filter (hn : Numbered s) (l : Layer) (k seq : Nat) :
    ((s.computed l k).filter fun pm => decide (pm.seq = seq)) =
      ((s.log l k).filter fun e => e.1.seq = seq).map Prod.snd := by
  unfold State.computed
  rw [List.filter_map]
  refine congrArg (List.map Prod.snd) (List.filter_congr fun e hmem => ?_)
  simp only [Function.comp_apply, hn l k e hmem]

omit [CommRing R] in
theorem computed_countP (hn : Numbered s) (l : Layer) (k seq : Nat) :
    ((s.computed l k).countP fun pm => decide (pm.seq = seq)) =
      (s.log l k).countP fun e => e.1.seq = seq := by
  rw [List.countP_eq_length_filter, computed_filter hn, List.length_map, ← List.countP_eq_length_filter]

/-- An entry that has received what it expects: every affected shard has computed its
partial once, and none of them is deferred or in flight. -/
theorem counts_of_entry (hw : Working p ops s) (hp : Partials p s) (hn : Numbered s) {l : Layer}
    (hnd : ((issued ops s l).map Job.seq).Nodup) {pe : Pending R}
    (he : Entry p (issued ops s l) (s.matched l) pe) (hall : pe.expected ≤ pe.received) :
    (∀ k ∈ Finset.range p.num_shards, ((s.log l k).countP fun e => e.1.seq = pe.seq) =
        if (p.shardMask pe.x).getLsbD k then 1 else 0) ∧
      (s.deferred_partials l : Multiset (PartialMsg R)).countP (fun pm => pm.seq = pe.seq) = 0 ∧
      (bag (Finset.range p.num_shards) (s.inFlight l)).countP (fun pm => pm.seq = pe.seq) = 0 := by
  have hle : ∀ k ∈ Finset.range p.num_shards, ((s.log l k).countP fun e => e.1.seq = pe.seq) ≤
      if (p.shardMask pe.x).getLsbD k then 1 else 0 :=
    fun k hk => log_count_le hw hnd he.job (Finset.mem_range.mp hk)
  have hcount := congrArg (Multiset.countP fun pm => pm.seq = pe.seq) (hp l)
  rw [Multiset.countP_add, Multiset.countP_add, countP_bag (fun pm => pm.seq = pe.seq) (f := s.computed l),
    Finset.sum_congr rfl fun k _ => computed_countP hn l k pe.seq] at hcount
  have hmatched : (s.matched l : Multiset (PartialMsg R)).countP (fun pm => pm.seq = pe.seq) =
      pe.received := by
    rw [he.received, Multiset.coe_countP]
  have hsum := Finset.sum_le_sum hle
  rw [sum_affected, ← he.expected] at hsum
  refine ⟨(Finset.sum_eq_sum_iff_of_le hle).mp ?_, ?_, ?_⟩
  · rw [sum_affected, ← he.expected]
    omega
  · omega
  · omega

/-- The partials of such an entry, as the shards have computed them, are its sum. -/
theorem collected_of_entry (hw : Working p ops s) (hp : Partials p s) (hn : Numbered s) {l : Layer}
    (hnd : ((issued ops s l).map Job.seq).Nodup) {pe : Pending R}
    (he : Entry p (issued ops s l) (s.matched l) pe) (hall : pe.expected ≤ pe.received) :
    Collected p (s.log l) ⟨pe.seq, pe.x, pe.y, pe.feat_in_residual⟩ pe.partial_sum := by
  let ofEvent : PartialMsg R → Prop := fun pm => pm.seq = pe.seq
  obtain ⟨hone, hdeferred, hflight⟩ := counts_of_entry hw hp hn hnd he hall
  have hlog : ∀ k ∈ Finset.range p.num_shards, _ := fun k hk =>
    log_of_count hw hnd he.job (Finset.mem_range.mp hk) hn (hone k hk)
  refine ⟨fun k => (((s.log l k).filter fun e => e.1.seq = pe.seq).map fun e => e.2.partial_feat).sum,
    ?_, fun k hk => hlog k (Finset.mem_range.mpr hk)⟩
  -- so all partials of the event are among the matched ones
  have hfilter := congrArg (Multiset.filter ofEvent) (hp l)
  rw [Multiset.filter_add, Multiset.filter_add, filter_bag ofEvent (f := s.computed l)] at hfilter
  rw [Multiset.countP_eq_card_filter, Multiset.card_eq_zero] at hdeferred hflight
  rw [hdeferred, hflight, add_zero, add_zero, Multiset.filter_coe] at hfilter
  have hvalue := congrArg (fun m => (m.map PartialMsg.partial_feat).sum) hfilter
  simp only [sum_map_bag, Multiset.map_coe, Multiset.sum_coe] at hvalue
  rw [he.partial_sum]
  refine hvalue.trans (Finset.sum_congr rfl fun k hk => ?_)
  rw [computed_filter hn, List.map_map]
  by_cases hbit : (p.shardMask pe.x).getLsbD k = true
  · rw [if_pos hbit]
    rfl
  · have hnone := hlog k hk
    dsimp only at hnone
    rw [if_neg hbit] at hnone
    rw [if_neg hbit, hnone]
    rfl

/-- What is collected stays: no shard gets the same work again. -/
theorem Collected.step (hw : Working p ops s) {l : Layer} (hnd : ((issued ops s l).map Job.seq).Nodup)
    {j : Job R} (hj : j ∈ issued ops s l) {v : Fin kC0 → R} (hc : Collected p (s.log l) j v)
    (h : Works p s s') : Collected p (s'.log l) j v := by
  cases h with
  | same hto hlog hd => rwa [hlog]
  | issue j' hto hto0 hlog hd => rwa [hlog]
  | take l' k' hk' w pm hseq hto hrest hlog hd =>
    obtain ⟨f, hv, hf⟩ := hc
    refine ⟨f, hv, fun k hk => ?_⟩
    rw [← hf k hk, hlog, set2_apply]
    by_cases h : l = l' ∧ k = k'
    · obtain ⟨rfl, rfl⟩ := h
      rw [if_pos ⟨rfl, rfl⟩, List.filter_append]
      by_cases hw' : w.seq = j.seq
      · have hfilter := hw.filter hnd hj hk
        rw [hf k hk, hto, List.filter_cons_of_pos (by simpa using hw')] at hfilter
        have hlen := congrArg List.length hfilter
        by_cases hbit : (p.shardMask j.x).getLsbD k = true
        · simp [hbit] at hlen
        · simp [hbit] at hlen
      · simp [hw']
    · rw [if_neg h]

end Collect

section Numbers

variable [CommRing R]

omit [CommRing R] in
theorem eventSeqs_items (ops : List (ProducerOp R)) :
    eventSeqs (ops.filterMap ProducerOp.item) = (eventMetas ops).map EventMeta.seq := by
  unfold eventSeqs eventMetas
  rw [List.filterMap_filterMap, List.map_filterMap]
  refine List.filterMap_congr fun op _ => ?_
  cases op with
  | push_meta m => cases m <;> rfl
  | push_l0 k m => rfl
  | wait_marker seq => rfl
  | set_done => rfl

omit [CommRing R] in
theorem line_nodup (hp : ((eventMetas ops).map EventMeta.seq).Nodup) (hs : InLine ops s) :
    (eventSeqs s.line).Nodup := by
  rwa [hs, eventSeqs_items]

theorem issued_nodup (hp : ((eventMetas ops).map EventMeta.seq).Nodup) (hs : InLine ops s)
    (hd : Dispatched s) (l : Layer) : ((issued ops s l).map Job.seq).Nodup := by
  cases l with
  | l0 =>
    unfold issued
    rw [List.map_map]
    exact hp
  | l1 =>
    have hline := line_nodup hp hs
    unfold State.line at hline
    rw [eventSeqs_append] at hline
    exact (show s.dispatched.map Job.seq = _ from hd) ▸ hline.of_append_left

/-- Reading goes on at the front. -/
theorem step_unread (h : p.Step s s') : s'.unread <:+ s.unread := by
  cases h with
  | producer h =>
    cases h with
    | push_meta m ops hops hroom =>
      unfold State.unread
      rw [hops, ← filterMap_shift (show MetaMsg.item m = ProducerOp.item (.push_meta m) from rfl)]
    | push_l0 k m ops hops hroom =>
      unfold State.unread
      rw [hops]
      exact List.suffix_rfl
    | wait_marker seq ops hops hdone =>
      unfold State.unread
      rw [hops]
      exact List.suffix_rfl
    | set_done ops hops =>
      unfold State.unread
      rw [hops]
      exact List.suffix_rfl
  | shard k hk h => cases h <;> exact List.suffix_rfl
  | sum h =>
    cases h with
    | popEvent m q hpc hq =>
      unfold State.unread
      rw [hq]
      exact List.suffix_cons _ _
    | popMarker seq q hpc hq =>
      unfold State.unread
      rw [hq]
      exact List.suffix_cons _ _
    | popEof q hpc hq =>
      unfold State.unread
      rw [hq]
      rfl
    | _ => exact List.suffix_rfl
  | stages h => cases h <;> exact List.suffix_rfl

theorem known_mono (h : p.Step s s') (l : Layer) {q : Nat} (hq : q ∈ known s l) : q ∈ known s' l := by
  cases l with
  | l1 =>
    unfold known at *
    cases step_forwards h with
    | same hf hd => rwa [hd]
    | marker seq hf hd => rwa [hd]
    | event pe rest hp hm hall hf hd =>
      rw [hd, List.map_append]
      exact List.mem_append_left _ hq
  | l0 =>
    obtain ⟨x, hx⟩ := step_unread h
    have hline := step_line h
    unfold State.line at hline
    rw [← hx, ← List.append_assoc, ← List.append_assoc, ← List.append_assoc] at hline
    unfold known at *
    rw [List.append_cancel_right hline, eventSeqs_append]
    exact List.mem_append_left _ hq

end Numbers

section Match

variable [CommRing R]

omit [CommRing R] in
theorem mem_eventSeqs {items : List Item} {q : Nat} : q ∈ eventSeqs items ↔ .event q ∈ items := by
  unfold eventSeqs
  rw [List.mem_filterMap]
  constructor
  · rintro ⟨i, hi, h⟩
    cases i with
    | event seq => exact Option.some.inj h ▸ hi
    | marker seq => cases h
  · exact fun h => ⟨_, h, rfl⟩

omit [CommRing R] in
/-- An entry of an event is known. -/
theorem known_of_pending (hd : Dispatched s) {l : Layer} {pe : Pending R} (hpe : pe ∈ s.pending l)
    (hm : pe.is_marker = false) : pe.seq ∈ known s l := by
  have hitem : Item.event pe.seq ∈ (s.pending l).map Pending.item :=
    List.mem_map.mpr ⟨pe, hpe, by simp [Pending.item, hm]⟩
  cases l with
  | l0 => exact mem_eventSeqs.mpr (List.mem_append_right _ hitem)
  | l1 =>
    have hmem : Item.event pe.seq ∈ s.forwarded :=
      List.mem_append_right _ (List.mem_append_right _ hitem)
    unfold known Dispatched at *
    rw [hd]
    exact mem_eventSeqs.mpr hmem

/-- What a step adds to the partials that are matched. -/
inductive Matches (s s' : State R) : Prop
  | same (hm : s'.matched = s.matched)
  | hit (l : Layer) (pm : PartialMsg R) (pending : List (Pending R))
      (htry : tryMatch (s.pending l) pm = some pending)
      (hm : s'.matched = Function.update s.matched l (s.matched l ++ [pm]))
      (hp : s'.pending = Function.update s.pending l pending) (hd : s'.dispatched = s.dispatched)

theorem step_matches (h : p.Step s s') : Matches s s' := by
  cases h with
  | producer h => cases h <;> exact .same rfl
  | shard k hk h => cases h <;> exact .same rfl
  | sum h =>
    cases h with
    | retryHit l i pm ds pending hpc hd hm => exact .hit l pm pending hm rfl rfl rfl
    | drainHit k l pm q pending hpc hk hq hm => exact .hit l pm pending hm rfl rfl rfl
    | _ => exact .same rfl
  | stages h => cases h <;> exact .same rfl

theorem tryMatch_indexed {pending pending' : List (Pending R)} {pm : PartialMsg R}
    (h : tryMatch pending pm = some pending') : (∃ pe ∈ pending, pe.Indexed pm.seq) ∧
      pending' = pending.map fun pe => if pe.Indexed pm.seq then pe.add pm else pe := by
  unfold tryMatch at h
  split at h
  · rename_i hex
    exact ⟨hex, (Option.some.inj h).symm⟩
  · cases h

theorem MatchedKnown.step (hs : MatchedKnown s) (hd : Dispatched s) (h : p.Step s s') :
    MatchedKnown s' := by
  intro l pm hpm
  refine known_mono h l ?_
  cases step_matches h with
  | same hm => exact hs l pm (hm ▸ hpm)
  | hit l' pm' pending htry hm hp hd' =>
    rw [hm] at hpm
    by_cases hl : l = l'
    · subst hl
      rw [Function.update_self] at hpm
      rcases List.mem_append.mp hpm with hpm | hpm
      · exact hs l pm hpm
      · obtain rfl := List.mem_singleton.mp hpm
        obtain ⟨⟨pe, hpe, hmark, hseq⟩, -⟩ := tryMatch_indexed htry
        exact hseq ▸ known_of_pending hd hpe hmark
    · rw [Function.update_of_ne hl] at hpm
      exact hs l pm hpm

end Match

end SumScheme

end SslaRt
