import SslaRt.SumSchemeProgram

/-! The end of a run: nothing is closed before all events have reached the stages. -/

namespace SslaRt

namespace SumScheme

variable {R : Type*} [CommRing R] {p : SumScheme R} {s s' : State R} {events : List (Event R)}

/-- What a step of the sum thread sends to the stages. -/
inductive Emits (s s' : State R) : Prop
  | quiet (hmeta : s'.q_meta_l0 <:+ s.q_meta_l0) (hqueue : s'.q_to_stages = s.q_to_stages)
      (hsent : s'.sent = s.sent) (hstaged : .eof ∈ s'.stage_dispatch_pending → .eof ∈ s.stage_dispatch_pending)
      (hrun : s.sum ≠ .stopped)
      (hend : ∀ k, s'.sum = .ending k → .eof ∈ s.q_meta_l0 ∨ ∃ j, s.sum = .ending j)
  | emit (m : StageInMsg R) (ms : List (StageInMsg R)) (hm : s.stage_dispatch_pending = m :: ms)
      (hmeta : s'.q_meta_l0 = s.q_meta_l0) (hqueue : s'.q_to_stages = s.q_to_stages ++ [m])
      (hsent : s'.sent = s.sent ++ [m]) (hstaged : s'.stage_dispatch_pending = ms)
      (hsum : s.sum = .emitting) (hsum' : s'.sum = .emitting)
  | eof (k : Nat) (hmeta : s'.q_meta_l0 = s.q_meta_l0) (hqueue : s'.q_to_stages = s.q_to_stages ++ [.eof])
      (hsent : s'.sent = s.sent ++ [.eof])
      (hstaged : s'.stage_dispatch_pending = s.stage_dispatch_pending) (hsum : s.sum = .ending k)
      (hsum' : s'.sum = .stopped)

theorem sumStep_emits (h : p.SumStep s s') : Emits s s' := by
  have hgo : ∀ {a b : SumPc}, s.sum = a → a ≠ .stopped → s'.sum = b → (∀ k, b ≠ .ending k) →
      s.sum ≠ .stopped ∧ ∀ k, s'.sum = .ending k → .eof ∈ s.q_meta_l0 ∨ ∃ j, s.sum = .ending j :=
    fun ha hna hb hnb => ⟨ha ▸ hna, fun k hk => absurd (hb.symm.trans hk) (hnb k)⟩
  cases h with
  | popEvent m q hpc hq =>
    have := hgo hpc (by simp) hpc (by simp)
    exact .quiet (hq ▸ List.suffix_cons _ _) rfl rfl id this.1 this.2
  | popMarker seq q hpc hq =>
    have := hgo hpc (by simp) hpc (by simp)
    exact .quiet (hq ▸ List.suffix_cons _ _) rfl rfl id this.1 this.2
  | popEof q hpc hq =>
    exact .quiet (hq ▸ List.suffix_cons _ _) rfl rfl id (by simp [hpc]) fun _ _ => .inl (by simp [hq])
  | pushEof k hpc hk hroom =>
    exact .quiet List.suffix_rfl rfl rfl id (by simp [hpc]) fun _ _ => .inr ⟨k, hpc⟩
  | pushLastEof hpc hroom => exact .eof _ rfl rfl rfl rfl hpc rfl
  | cascadeMarker1 pe rest hpc hp hm =>
    have := hgo hpc (by simp) hpc (by simp)
    exact .quiet List.suffix_rfl rfl rfl (by simp) this.1 this.2
  | cascadeEvent1 pe rest hpc hp hm hall =>
    have := hgo hpc (by simp) hpc (by simp)
    exact .quiet List.suffix_rfl rfl rfl (by simp [Pending.toStages]) this.1 this.2
  | emit m ms hpc hm hroom => exact .emit m ms hm rfl rfl rfl rfl hpc hpc
  | retryEnd l hpc =>
    exact .quiet List.suffix_rfl rfl rfl id (by simp [hpc]) fun k hk => by cases l <;> cases hk
  | drainNone k l hpc hk hq =>
    exact .quiet List.suffix_rfl rfl rfl id (by simp [hpc]) fun k hk => by cases l <;> cases hk
  | _ =>
    refine .quiet List.suffix_rfl rfl rfl id (by simp [*]) fun k hk => ?_
    simp_all [setMatched]

/-- All events in bounds have been sent to the stages. -/
def AllSent (p : SumScheme R) (events : List (Event R)) (s : State R) : Prop :=
  ∀ e ∈ p.keptSeqs 0 events, .event e ∈ s.received

structure Closing (p : SumScheme R) (events : List (Event R)) (s : State R) : Prop where
  ops : (∃ body, s.ops = body ++ .wait_marker events.length :: p.closing ∧ ∀ op ∈ body, ¬ op.Closes) ∨
    AllSent p events s ∧ s.ops <:+ p.closing
  q_meta : .eof ∈ s.q_meta_l0 → AllSent p events s
  ending : ∀ k, s.sum = .ending k → AllSent p events s
  staged : .eof ∉ s.stage_dispatch_pending
  eof : .eof ∉ s.sent ∨ AllSent p events s ∧ s.sum = .stopped ∧ ∃ a, s.sent = a ++ [.eof] ∧ .eof ∉ a
  queued : ∀ m ∈ s.q_to_stages, m ∈ s.sent
  storing : ∀ q, s.stages = .storing q → .marker q ∈ s.received
  done : s.marker_done_stages = 0 ∨ .marker s.marker_done_stages ∈ s.received

omit [CommRing R] in
theorem AllSent.mono (h : AllSent p events s) (hs : s.sent <+: s'.sent) : AllSent p events s' :=
  fun e he => (hs.filterMap StageInMsg.item).subset (h e he)

theorem step_sent (h : p.Step s s') : s.sent <+: s'.sent := by
  cases h with
  | producer h => cases h <;> exact List.prefix_rfl
  | shard k hk h => cases h <;> exact List.prefix_rfl
  | stages h => cases h <;> exact List.prefix_rfl
  | sum h =>
    cases sumStep_emits h with
    | quiet hmeta hqueue hsent hstaged hrun hend => rw [hsent]
    | emit m ms hm hmeta hqueue hsent hstaged hsum hsum' =>
      rw [hsent]
      exact List.prefix_append _ _
    | eof k hmeta hqueue hsent hstaged hsum hsum' =>
      rw [hsent]
      exact List.prefix_append _ _

omit [CommRing R] in
theorem mem_received {m : StageInMsg R} {i : Item} (hm : m ∈ s.sent) (hi : m.item = some i) :
    i ∈ s.received := List.mem_filterMap.mpr ⟨m, hm, hi⟩

omit [CommRing R] in
theorem closing_items : (p.closing).filterMap ProducerOp.item = [] := by
  unfold closing
  refine List.filterMap_eq_nil_iff.mpr fun op hop => ?_
  simp only [List.cons_append, List.mem_cons, List.mem_append, List.mem_map, List.not_mem_nil,
    or_false] at hop
  rcases hop with rfl | ⟨k, -, rfl⟩ | rfl <;> rfl

omit [CommRing R] in
theorem program_items {body : List (ProducerOp R)} {total : Nat} :
    (body ++ .wait_marker total :: p.closing).filterMap ProducerOp.item =
      body.filterMap ProducerOp.item := by
  rw [List.filterMap_append, List.filterMap_cons_none rfl, closing_items, List.append_nil]

section Waiting

variable {body : List (ProducerOp R)} (hb : Body p events body)
  (hline : InLine (body ++ .wait_marker events.length :: p.closing) s)
include hb hline

theorem line_placed : Placed 0 events.length s.line := by
  rw [show s.line = _ from hline, program_items]
  exact hb.placed

theorem line_seqs : eventSeqs s.line = p.keptSeqs 0 events := by
  rw [show s.line = _ from hline, program_items]
  exact hb.seqs

/-- No event is behind a marker of the number of all events. -/
theorem allSent_of_marker {q : Nat} (hq : .marker q ∈ s.received) (hle : events.length ≤ q) :
    AllSent p events s := by
  intro e he
  rw [← line_seqs hb hline, mem_eventSeqs] at he
  have hplaced := line_placed hb hline
  unfold State.line State.forwarded at he hplaced
  rw [List.append_assoc, List.mem_append] at he
  rw [List.append_assoc] at hplaced
  rcases he with he | he
  · exact he
  · have horder : q ≤ e := (List.pairwise_append.mp hplaced.order).2.2 _ hq _ he
    have hrange : e + 1 ≤ events.length := (hplaced.range _ (List.mem_append_right _ he)).2
    omega

/-- The last wait is over when all events have been sent. -/
theorem allSent_of_wait (hs : Closing p events s) (hdone : events.length ≤ s.marker_done_stages) :
    AllSent p events s := by
  rcases hs.done with h0 | hmem
  · intro e he
    rw [← line_seqs hb hline, mem_eventSeqs] at he
    have hrange : e + 1 ≤ events.length := ((line_placed hb hline).range _ he).2
    omega
  · exact allSent_of_marker hb hline hmem hdone

end Waiting

omit [CommRing R] in
/-- What the producer may do next. -/
theorem Closing.next (hs : Closing p events s) {op : ProducerOp R} {ops : List (ProducerOp R)}
    (hops : s.ops = op :: ops) : (op = .wait_marker events.length ∧ ops = p.closing) ∨
      (¬ op.Closes ∧ ∃ body, ops = body ++ .wait_marker events.length :: p.closing ∧
        ∀ op ∈ body, ¬ op.Closes) ∨ AllSent p events s ∧ ops <:+ p.closing := by
  rcases hs.ops with ⟨body, heq, hopen⟩ | ⟨hall, hsuf⟩
  · rw [hops] at heq
    cases body with
    | nil =>
      obtain ⟨h₁, h₂⟩ := List.cons.inj heq
      exact .inl ⟨h₁, h₂⟩
    | cons op' body =>
      obtain ⟨rfl, h₂⟩ := List.cons.inj heq
      exact .inr (.inl ⟨hopen op List.mem_cons_self, body, h₂, fun op' h => hopen op' (List.mem_cons_of_mem _ h)⟩)
  · rw [hops] at hsuf
    exact .inr (.inr ⟨hall, (List.suffix_cons _ _).trans hsuf⟩)

/-- Nothing changes but the operations and the meta queue. -/
theorem Closing.producer_step {body : List (ProducerOp R)} (hb : Body p events body)
    (hline : InLine (body ++ .wait_marker events.length :: p.closing) s) (hs : Closing p events s)
    (h : p.ProducerStep s s') : Closing p events s' := by
  have hrest : ∀ {op : ProducerOp R} {ops : List (ProducerOp R)}, s.ops = op :: ops →
      (op = .wait_marker events.length → events.length ≤ s.marker_done_stages) →
      (∃ body, ops = body ++ .wait_marker events.length :: p.closing ∧ ∀ op ∈ body, ¬ op.Closes) ∨
        AllSent p events s ∧ ops <:+ p.closing := by
    intro op ops hops hwait
    rcases hs.next hops with ⟨rfl, rfl⟩ | ⟨-, hbody⟩ | hall
    · exact .inr ⟨allSent_of_wait hb hline hs (hwait rfl), List.suffix_rfl⟩
    · exact .inl hbody
    · exact .inr hall
  cases h with
  | push_meta m ops hops hroom =>
    refine ⟨hrest hops (by simp), fun hmem => ?_, hs.ending, hs.staged, hs.eof, hs.queued, hs.storing,
      hs.done⟩
    rw [List.mem_append, List.mem_singleton] at hmem
    rcases hmem with hmem | rfl
    · exact hs.q_meta hmem
    · rcases hs.next hops with ⟨h, -⟩ | ⟨h, -⟩ | ⟨h, -⟩
      · cases h
      · exact absurd trivial h
      · exact h
  | push_l0 k m ops hops hroom =>
    exact ⟨hrest hops (by simp), hs.q_meta, hs.ending, hs.staged, hs.eof, hs.queued, hs.storing, hs.done⟩
  | wait_marker seq ops hops hdone =>
    refine ⟨hrest hops fun h => ?_, hs.q_meta, hs.ending, hs.staged, hs.eof, hs.queued, hs.storing, hs.done⟩
    obtain rfl := ProducerOp.wait_marker.inj h
    exact hdone
  | set_done ops hops =>
    exact ⟨hrest hops (by simp), hs.q_meta, hs.ending, hs.staged, hs.eof, hs.queued, hs.storing, hs.done⟩

theorem Closing.sum_step (hs : Closing p events s) (hsame : s'.ops = s.ops)
    (hstages : s'.stages = s.stages) (hdone : s'.marker_done_stages = s.marker_done_stages)
    (h : p.SumStep s s') : Closing p events s' := by
  have hpre : s.sent <+: s'.sent := step_sent (.sum h)
  have hmono : AllSent p events s → AllSent p events s' := fun hall => hall.mono hpre
  have hmem : ∀ i ∈ s.received, i ∈ s'.received := fun i hi => (hpre.filterMap _).subset hi
  have hops : (∃ body, s'.ops = body ++ .wait_marker events.length :: p.closing ∧ ∀ op ∈ body, ¬ op.Closes) ∨
      AllSent p events s' ∧ s'.ops <:+ p.closing := by
    rw [hsame]
    exact hs.ops.imp_right fun hall => ⟨hmono hall.1, hall.2⟩
  have hstoring : ∀ q, s'.stages = .storing q → .marker q ∈ s'.received := fun q hq =>
    hmem _ (hs.storing q (hstages ▸ hq))
  have hdone' : s'.marker_done_stages = 0 ∨ .marker s'.marker_done_stages ∈ s'.received := by
    rw [hdone]
    exact hs.done.imp_right (hmem _)
  cases sumStep_emits h with
  | quiet hmeta hqueue hsent hstaged hrun hend =>
    refine ⟨hops, fun hm => hmono (hs.q_meta (hmeta.subset hm)), fun k hk => ?_,
      fun hm => hs.staged (hstaged hm), ?_, fun m hm => hpre.subset (hs.queued m (hqueue ▸ hm)), hstoring, hdone'⟩
    · rcases hend k hk with hm | ⟨j, hj⟩
      · exact hmono (hs.q_meta hm)
      · exact hmono (hs.ending j hj)
    · rcases hs.eof with hno | ⟨-, hstop, -⟩
      · exact .inl (hsent ▸ hno)
      · exact absurd hstop hrun
  | emit m ms hm hmeta hqueue hsent hstaged hsum hsum' =>
    have hne : .eof ≠ m := fun he => hs.staged (he ▸ hm ▸ List.mem_cons_self)
    refine ⟨hops, fun hm => hmono (hs.q_meta (hmeta ▸ hm)), fun k hk => ?_, fun hmem => ?_, ?_,
      fun m' hm' => ?_, hstoring, hdone'⟩
    · rw [hsum'] at hk
      cases hk
    · rw [hstaged] at hmem
      exact hs.staged (hm ▸ List.mem_cons_of_mem _ hmem)
    · rcases hs.eof with hno | ⟨-, hstop, -⟩
      · refine .inl fun hmem => ?_
        rw [hsent, List.mem_append, List.mem_singleton] at hmem
        exact hmem.elim hno hne
      · rw [hsum] at hstop
        cases hstop
    · rw [hqueue, List.mem_append] at hm'
      rw [hsent, List.mem_append]
      exact hm'.imp_left (hs.queued m')
  | eof k hmeta hqueue hsent hstaged hsum hsum' =>
    have hall := hmono (hs.ending k hsum)
    refine ⟨hops, fun _ => hall, fun j hj => hall, fun hmem => hs.staged (hstaged ▸ hmem), ?_,
      fun m' hm' => ?_, hstoring, hdone'⟩
    · rcases hs.eof with hno | ⟨-, hstop, -⟩
      · exact .inr ⟨hall, hsum', s.sent, hsent, hno⟩
      · rw [hsum] at hstop
        cases hstop
    · rw [hqueue, List.mem_append] at hm'
      rw [hsent, List.mem_append]
      exact hm'.imp_left (hs.queued m')

omit [CommRing R] in
theorem Closing.stages_step (hs : Closing p events s) (h : StagesStep s s') : Closing p events s' := by
  cases h with
  | popEvent seq x y feat q hpc hq =>
    refine ⟨hs.ops, hs.q_meta, hs.ending, hs.staged, hs.eof, fun m hm => ?_, hs.storing, hs.done⟩
    exact hs.queued m (hq ▸ List.mem_cons_of_mem _ hm)
  | popMarker seq q hpc hq =>
    refine ⟨hs.ops, hs.q_meta, hs.ending, hs.staged, hs.eof, fun m hm => ?_, fun m hm => ?_, hs.done⟩
    · exact hs.queued m (hq ▸ List.mem_cons_of_mem _ hm)
    · obtain rfl := StagesPc.storing.inj hm
      exact mem_received (hs.queued _ (hq ▸ List.mem_cons_self)) rfl
  | popEof q hpc hq =>
    refine ⟨hs.ops, hs.q_meta, hs.ending, hs.staged, hs.eof, fun m hm => ?_, by simp, hs.done⟩
    exact hs.queued m (hq ▸ List.mem_cons_of_mem _ hm)
  | miss hpc hq =>
    exact ⟨hs.ops, hs.q_meta, hs.ending, hs.staged, hs.eof, hs.queued, by simp, hs.done⟩
  | retry hpc =>
    refine ⟨hs.ops, hs.q_meta, hs.ending, hs.staged, hs.eof, hs.queued, fun q hq => ?_, hs.done⟩
    dsimp only at hq
    split at hq <;> cases hq
  | store seq hpc =>
    exact ⟨hs.ops, hs.q_meta, hs.ending, hs.staged, hs.eof, hs.queued, by simp, .inr (hs.storing seq hpc)⟩

theorem Closing.init {body : List (ProducerOp R)} (hb : Body p events body) :
    Closing p events (SumScheme.init (body ++ .wait_marker events.length :: p.closing)) where
  ops := .inl ⟨body, rfl, hb.matching.opened⟩
  q_meta := fun hm => absurd hm List.not_mem_nil
  ending := fun _ hsum => SumPc.noConfusion hsum
  staged := List.not_mem_nil
  eof := .inl List.not_mem_nil
  queued := fun _ hm => absurd hm List.not_mem_nil
  storing := fun _ h => StagesPc.noConfusion h
  done := .inl rfl

theorem Closing.step {body : List (ProducerOp R)} (hb : Body p events body)
    (hline : InLine (body ++ .wait_marker events.length :: p.closing) s) (hs : Closing p events s)
    (h : p.Step s s') : Closing p events s' := by
  cases h with
  | producer h => exact hs.producer_step hb hline h
  | shard k hk h =>
    cases h <;>
      exact ⟨hs.ops, hs.q_meta, hs.ending, hs.staged, hs.eof, hs.queued, hs.storing, hs.done⟩
  | sum h => exact hs.sum_step (by cases h <;> rfl) (by cases h <;> rfl) (by cases h <;> rfl) h
  | stages h => exact hs.stages_step h

theorem program_driven {body : List (ProducerOp R)} (hb : Body p events body) :
    Driven p (body ++ .wait_marker events.length :: p.closing) := by
  have hmetas : eventMetas (p.closing) = [] := by
    refine List.filterMap_eq_nil_iff.mpr fun op hop => ?_
    simp only [closing, List.cons_append, List.mem_cons, List.mem_append, List.mem_map,
      List.not_mem_nil, or_false] at hop
    rcases hop with rfl | ⟨k, -, rfl⟩ | rfl <;> rfl
  have hwork : ∀ k, (p.closing).filterMap (ProducerOp.workOf k) = [] := by
    intro k
    refine List.filterMap_eq_nil_iff.mpr fun op hop => ?_
    simp only [closing, List.cons_append, List.mem_cons, List.mem_append, List.mem_map,
      List.not_mem_nil, or_false] at hop
    rcases hop with rfl | ⟨k, -, rfl⟩ | rfl <;> rfl
  have hall : eventMetas (body ++ .wait_marker events.length :: p.closing) = eventMetas body := by
    rw [eventMetas_append, show eventMetas (ProducerOp.wait_marker _ :: p.closing) = eventMetas p.closing
      from rfl, hmetas, List.append_nil]
  refine ⟨?_, fun m hm => hb.matching.expected m (hall ▸ hm), fun k => ?_⟩
  · rw [hall, ← eventSeqs_items]
    exact hb.placed.nodup
  · rw [hall, List.filterMap_append, List.filterMap_cons_none rfl, hwork, List.append_nil,
      hb.matching.work]

theorem reachable_closing {body : List (ProducerOp R)} (hb : Body p events body)
    (h : p.Reachable (body ++ .wait_marker events.length :: p.closing) s) : Closing p events s := by
  induction h with
  | refl => exact Closing.init hb
  | tail hr hst ih => exact ih.step hb (reachable_inv (program_driven hb) hr).line hst

end SumScheme

end SslaRt
