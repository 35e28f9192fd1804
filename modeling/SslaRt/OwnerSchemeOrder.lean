import SslaRt.OwnerScheme

/-! The messages of a shard of scheme 4 come in the order of their numbers, and
`next_emit_seq` is below everything that the shard has not yet pushed. -/

namespace SslaRt

namespace OwnerScheme

variable {p : OwnerScheme} {R : Type*}

/-- The number of the first event that may follow. -/
def Msg.stop : Msg → Nat
  | .event seq => seq + 1
  | .marker seq => seq

theorem Msg.seq_le_stop (m : Msg) : m.seq ≤ m.stop := by
  cases m with
  | event seq => exact Nat.le_succ seq
  | marker seq => exact Nat.le_refl seq

def PendingEvent.msg (pe : PendingEvent) : Msg :=
  if pe.is_marker then .marker pe.seq else .event pe.seq

@[simp] theorem PendingEvent.msg_seq (pe : PendingEvent) : pe.msg.seq = pe.seq := by
  unfold PendingEvent.msg
  split <;> rfl

def OwnMsg.msg : OwnMsg → Option Msg
  | .event seq _ _ _ => some (.event seq)
  | .marker seq => some (.marker seq)
  | .eof => none

/-- No more messages will be pushed to shard `k`. -/
def ProducerPc.Closed (k : Nat) : ProducerPc → Prop
  | .ending j => k < j
  | .ended => True
  | _ => False

namespace State

variable (s : State)

/-- What shard `k` has still to push to the stage thread. -/
def unsent (k : Nat) : List Msg := (s.shard k).pending.map (·.msg) ++ (s.q_own k).filterMap OwnMsg.msg

/-- What the stage thread has still to take from shard `k`. -/
def later (k : Nat) : List Msg := s.q_to_stage k ++ s.unsent k

def line (k : Nat) : List Msg := (s.cache k).toList ++ s.later k

/-- Shard `k` will push nothing with a number below `c`. -/
structure Ahead (k : Nat) (c : WithTop Nat) : Prop where
  unsent : ∀ m ∈ s.unsent k, c ≤ m.seq
  next : ¬ s.producer.Closed k → c ≤ s.next

end State

def ShardPc.Over : ShardPc → Prop
  | .exiting => True
  | .exited => True
  | _ => False

/-- A shard with its queue. -/
structure ShardInv (closed : Prop) (q_own : List OwnMsg) (sh : Shard) : Prop where
  eof : .eof ∈ q_own ∨ sh.got_eof = true → closed
  last : q_own.Pairwise fun m _ => m ≠ .eof
  got_eof : sh.got_eof = true → q_own = []
  ended : sh.pc.Over → sh.got_eof = true ∧ sh.pending = []

structure Inv (p : OwnerScheme) (s : State) : Prop where
  sorted : ∀ k, (s.line k).Pairwise fun a b => a.stop ≤ b.seq
  bound : ∀ k, ∀ m ∈ s.line k, m.stop ≤ s.next
  marking : ∀ seq last k, s.producer = .marking seq last k → seq = s.next
  awaiting : ∀ seq last, s.producer = .waiting seq last → seq = s.next
  shard : ∀ k, ShardInv (s.producer.Closed k) (s.q_own k) (s.shard k)
  published : ∀ k, s.Ahead k (s.next_emit_seq k)
  scanned : ∀ j c min_k, s.stage = .scanning j c min_k →
    (∀ i < j, s.Ahead i c) ∧ ∀ k, min_k = some k → k < p.num_shards ∧
      ∃ m, s.cache k = some m ∧ c = m.seq

variable {s s' : State} {k : Nat}

theorem mem_line_of_unsent {m : Msg} (h : m ∈ s.unsent k) : m ∈ s.line k :=
  List.mem_append_right _ (List.mem_append_right _ h)

theorem inv_init : Inv p init where
  sorted _ := .nil
  bound _ _ := nofun
  marking _ _ _ := nofun
  awaiting _ _ := nofun
  shard _ := ⟨fun h => by simp [init] at h, .nil, nofun, nofun⟩
  published _ := ⟨nofun, fun _ => by simp [init]⟩
  scanned _ _ _ := nofun

/-- What may happen to the unsent messages in a step. -/
structure Moves (s s' : State) : Prop where
  next : s.next ≤ s'.next
  closed : ∀ k, s.producer.Closed k → s'.producer.Closed k
  unsent : ∀ k, ∀ m ∈ s'.unsent k, m ∈ s.unsent k ∨ ¬ s.producer.Closed k ∧ s.next ≤ m.seq

theorem Moves.same (hproducer : s'.producer = s.producer) (hnext : s'.next = s.next)
    (hshard : s'.shard = s.shard) (hq : s'.q_own = s.q_own) : Moves s s' where
  next := hnext.ge
  closed _ hc := by rwa [hproducer]
  unsent j m hm := by
    rw [State.unsent, hshard, hq] at hm
    exact .inl hm

theorem State.Ahead.moves {c : WithTop Nat} (h : s.Ahead k c) (hm : Moves s s') : s'.Ahead k c where
  unsent m hmem := by
    rcases hm.unsent k m hmem with hold | ⟨hopen, hnew⟩
    · exact h.unsent m hold
    · exact (h.next hopen).trans (by exact_mod_cast hnew)
  next hopen := (h.next fun hc => hopen (hm.closed k hc)).trans (by exact_mod_cast hm.next)

/-- A step of shard `k` leaves the other threads alone. -/
structure OnlyShard (k : Nat) (s s' : State) : Prop where
  producer : s'.producer = s.producer
  next : s'.next = s.next
  cache : s'.cache = s.cache
  stage : s'.stage = s.stage
  marker_done_stages : s'.marker_done_stages = s.marker_done_stages
  emitted : s'.emitted = s.emitted
  shard : ∀ j ≠ k, s'.shard j = s.shard j
  q_own : ∀ j ≠ k, s'.q_own j = s.q_own j
  q_to_stage : ∀ j ≠ k, s'.q_to_stage j = s.q_to_stage j
  next_emit_seq : ∀ j ≠ k, s'.next_emit_seq j = s.next_emit_seq j

section OnlyShard

theorem OnlyShard.unsent (h : OnlyShard k s s') {j : Nat} (hj : j ≠ k) : s'.unsent j = s.unsent j := by
  unfold State.unsent
  rw [h.shard j hj, h.q_own j hj]

theorem OnlyShard.line (h : OnlyShard k s s') (hline : s'.later k = s.later k) (j : Nat) :
    s'.line j = s.line j := by
  unfold State.line
  rw [h.cache]
  rcases eq_or_ne j k with rfl | hj
  · rw [hline]
  · unfold State.later
    rw [h.unsent hj, h.q_to_stage j hj]

theorem OnlyShard.moves (h : OnlyShard k s s') (hunsent : s'.unsent k ⊆ s.unsent k) : Moves s s' where
  next := h.next.ge
  closed _ hc := by rwa [h.producer]
  unsent j m hm := by
    rcases eq_or_ne j k with rfl | hj
    · exact .inl (hunsent hm)
    · exact .inl (h.unsent hj ▸ hm)

end OnlyShard

theorem Inv.only_shard (h : Inv p s) (ho : OnlyShard k s s') (hlater : s'.later k = s.later k)
    (hunsent : s'.unsent k ⊆ s.unsent k)
    (hshard : ShardInv (s.producer.Closed k) (s'.q_own k) (s'.shard k))
    (hpub : s'.Ahead k (s'.next_emit_seq k)) : Inv p s' := by
  have hmoves := ho.moves hunsent
  refine ⟨fun j => ?_, fun j => ?_, ?_, ?_, fun j => ?_, fun j => ?_, fun j c min_k hj => ?_⟩
  · rw [ho.line hlater]
    exact h.sorted j
  · rw [ho.line hlater, ho.next]
    exact h.bound j
  · rw [ho.producer, ho.next]
    exact h.marking
  · rw [ho.producer, ho.next]
    exact h.awaiting
  · rw [ho.producer]
    rcases eq_or_ne j k with rfl | hj
    · exact hshard
    · rw [ho.shard j hj, ho.q_own j hj]
      exact h.shard j
  · rcases eq_or_ne j k with rfl | hj
    · exact hpub
    · rw [ho.next_emit_seq j hj]
      exact (h.published j).moves hmoves
  · rw [ho.stage] at hj
    obtain ⟨hahead, hmin⟩ := h.scanned j c min_k hj
    rw [ho.cache]
    exact ⟨fun i hi => (hahead i hi).moves hmoves, hmin⟩

section Local

variable {sh : Shard} {n ok t owner : Nat} {d : Bool} {pm : PartialMsg} {cm : ContribMsg}

/-- The same messages are pending, and the shard goes on. -/
structure Shard.Same (sh sh' : Shard) : Prop where
  pending : sh'.pending.map (·.msg) = sh.pending.map (·.msg)
  got_eof : sh'.got_eof = sh.got_eof
  running : ¬ sh'.pc.Over

theorem PendingEvent.receive_msg (pe : PendingEvent) (pm : PartialMsg) : (pe.receive pm).msg = pe.msg := by
  unfold PendingEvent.receive
  split <;> rfl

theorem Shard.matchPartial_pending (sh : Shard) (pm : PartialMsg) :
    (sh.matchPartial pm).pending.map (·.msg) = sh.pending.map (·.msg) := by
  unfold Shard.matchPartial
  split
  · rw [List.map_map]
    refine List.map_congr_left fun pe _ => ?_
    dsimp only [Function.comp]
    split
    · exact pe.receive_msg pm
    · rfl
  · rfl

theorem Shard.matchPartial_got_eof (sh : Shard) (pm : PartialMsg) :
    (sh.matchPartial pm).got_eof = sh.got_eof := by
  unfold Shard.matchPartial
  split <;> rfl

theorem Shard.foldl_matchPartial (pms : List PartialMsg) (sh : Shard) :
    (pms.foldl Shard.matchPartial sh).pending.map (·.msg) = sh.pending.map (·.msg) ∧
      (pms.foldl Shard.matchPartial sh).got_eof = sh.got_eof := by
  induction pms generalizing sh with
  | nil => exact ⟨rfl, rfl⟩
  | cons pm pms ih =>
    obtain ⟨hpend, heof⟩ := ih (sh.matchPartial pm)
    exact ⟨hpend.trans (sh.matchPartial_pending pm), heof.trans (sh.matchPartial_got_eof pm)⟩

theorem Shard.afterContrib_same (res : Option (Option (Unit → ContribMsg))) (h : sh.pc = .contrib n d) :
    sh.Same (sh.afterContrib n d res) := by
  rcases res with _ | _ | cm
  · exact ⟨rfl, rfl, h ▸ not_false⟩
  · exact ⟨rfl, rfl, not_false⟩
  · exact ⟨rfl, rfl, not_false⟩

theorem Shard.afterAnswer_same (res : Option Bool) (h : sh.pc = .answering n owner pm) :
    sh.Same (sh.afterAnswer n owner pm res) := by
  rcases res with _ | _ | _
  · exact ⟨rfl, rfl, h ▸ not_false⟩
  · exact ⟨rfl, rfl, not_false⟩
  · exact ⟨rfl, rfl, not_false⟩

theorem Shard.afterPartial_same (res : Option (Option (Unit → PartialMsg))) (h : sh.pc = .partials n d) :
    sh.Same (sh.afterPartial n d res) := by
  rcases res with _ | _ | pm
  · exact ⟨rfl, rfl, h ▸ not_false⟩
  · exact ⟨rfl, rfl, not_false⟩
  · exact ⟨sh.matchPartial_pending (pm ()), sh.matchPartial_got_eof (pm ()), not_false⟩

theorem Shard.afterPartialBacklog_same (todo : List PartialMsg) (res : Option Bool)
    (h : sh.pc = .partialBacklog ok d) : sh.Same (sh.afterPartialBacklog ok d todo res) := by
  rcases res with _ | _ | _
  · exact ⟨rfl, rfl, h ▸ not_false⟩
  · exact ⟨rfl, rfl, not_false⟩
  · exact ⟨rfl, rfl, not_false⟩

theorem Shard.afterContribBacklog_same (todo : List ContribMsg) (res : Option Bool)
    (h : sh.pc = .contribBacklog ok d) : sh.Same (sh.afterContribBacklog ok d todo res) := by
  rcases res with _ | _ | _
  · exact ⟨rfl, rfl, h ▸ not_false⟩
  · exact ⟨rfl, rfl, not_false⟩
  · exact ⟨rfl, rfl, not_false⟩

theorem Shard.afterRequest_same (todo : List (Nat × ContribMsg)) (res : Option Bool)
    (h : sh.pc = .requesting ((t, cm) :: todo)) : sh.Same (sh.afterRequest t cm todo res) := by
  rcases res with _ | _ | _
  · exact ⟨rfl, rfl, h ▸ not_false⟩
  · exact ⟨rfl, rfl, not_false⟩
  · exact ⟨rfl, rfl, not_false⟩

end Local

theorem ShardStep.only (hs : p.ShardStep k s s') : OnlyShard k s s' := by
  cases hs <;> refine ⟨rfl, rfl, rfl, rfl, rfl, rfl, ?_, ?_, ?_, ?_⟩ <;> intro j hj <;>
    first | rfl | exact Function.update_of_ne hj ..

/-- What a step of shard `k` does to its messages. -/
inductive ShardMove (k : Nat) (s s' : State) : Prop
  | same (sh : Shard) (hsh : s'.shard k = sh) (hq : s'.q_own = s.q_own)
      (hout : s'.q_to_stage = s.q_to_stage) (hemit : s'.next_emit_seq = s.next_emit_seq)
      (hsame : (s.shard k).Same sh) : ShardMove k s s'
  | take (n : Nat) (m : OwnMsg) (q : List OwnMsg) (hq : s.q_own k = m :: q)
      (hsh : s'.shard k = (s.shard k).takeOwn n m) (hq' : s'.q_own k = q)
      (hout : s'.q_to_stage = s.q_to_stage) (hemit : s'.next_emit_seq = s.next_emit_seq) :
      ShardMove k s s'
  | push (pe : PendingEvent) (rest : List PendingEvent) (hp : (s.shard k).pending = pe :: rest)
      (hsh : s'.shard k = { s.shard k with pc := .cascade true, pending := rest })
      (hq : s'.q_own = s.q_own)
      (hout : s'.q_to_stage = Function.update s.q_to_stage k (s.q_to_stage k ++ [pe.msg]))
      (hemit : s'.next_emit_seq = s.next_emit_seq) : ShardMove k s s'
  | store (pc : ShardPc) (hsh : s'.shard k = { s.shard k with pc := pc })
      (hover : pc.Over →
        (s.shard k).pc.Over ∨ (s.shard k).got_eof = true ∧ (s.shard k).pending = [])
      (hq : s'.q_own = s.q_own) (hout : s'.q_to_stage = s.q_to_stage)
      (hemit : s'.next_emit_seq k = (s.shard k).publish (s.next_emit_seq k) ∨
        s'.next_emit_seq k = ⊤ ∧ (s.shard k).pc.Over) : ShardMove k s s'

theorem Shard.afterPublish_spec (sh : Shard) (n : Nat) (d : Bool) :
    ∃ pc, sh.afterPublish n d = { sh with pc := pc } ∧
      (pc.Over → sh.got_eof = true ∧ sh.pending = []) := by
  unfold Shard.afterPublish
  split
  · rename_i hcond
    simp only [Bool.and_eq_true, List.isEmpty_iff] at hcond
    exact ⟨_, rfl, fun _ => ⟨hcond.2.1.1.1, hcond.2.1.1.2⟩⟩
  · exact ⟨_, rfl, fun hover => hover.elim⟩

theorem ShardStep.move (hs : p.ShardStep k s s') : ShardMove k s s' := by
  cases hs with
  | popOwn n d m q hpc hn hq =>
    exact .take n m q hq (Function.update_self ..) (Function.update_self ..) rfl rfl
  | endOwn n d hpc hend =>
    exact .same _ (Function.update_self ..) rfl rfl rfl ⟨rfl, rfl, not_false⟩
  | popContrib n d res r hpc hn hst =>
    exact .same _ (Function.update_self ..) rfl rfl rfl (Shard.afterContrib_same res hpc)
  | endContrib n d hpc hn =>
    exact .same _ (Function.update_self ..) rfl rfl rfl ⟨rfl, rfl, not_false⟩
  | answer n owner pm res r hpc hst =>
    exact .same _ (Function.update_self ..) rfl rfl rfl (Shard.afterAnswer_same res hpc)
  | popPartial n d res r hpc hn hst =>
    exact .same _ (Function.update_self ..) rfl rfl rfl (Shard.afterPartial_same res hpc)
  | endPartials n d hpc hn =>
    exact .same _ (Function.update_self ..) rfl rfl rfl ⟨rfl, rfl, not_false⟩
  | retryDeferred d hpc =>
    obtain ⟨hpend, heof⟩ :=
      Shard.foldl_matchPartial (s.shard k).deferred_partials { s.shard k with deferred_partials := [] }
    exact .same _ (Function.update_self ..) rfl rfl rfl ⟨hpend, heof, not_false⟩
  | partialBacklogEmpty ok d hpc hok he =>
    exact .same _ (Function.update_self ..) rfl rfl rfl ⟨rfl, rfl, not_false⟩
  | partialBacklog ok d pm todo res r hpc hok he hst =>
    exact .same _ (Function.update_self ..) rfl rfl rfl (Shard.afterPartialBacklog_same todo res hpc)
  | contribBacklogEmpty ok d hpc hok he =>
    exact .same _ (Function.update_self ..) rfl rfl rfl ⟨rfl, rfl, not_false⟩
  | contribBacklog ok d cm todo res r hpc hok he hst =>
    exact .same _ (Function.update_self ..) rfl rfl rfl (Shard.afterContribBacklog_same todo res hpc)
  | endBacklog d hpc =>
    exact .same _ (Function.update_self ..) rfl rfl rfl ⟨rfl, rfl, not_false⟩
  | forwardMarker d pe rest hpc hp hm hroom =>
    have hmsg : pe.msg = .marker pe.seq := if_pos hm
    exact .push pe rest hp (Function.update_self ..) rfl (hmsg ▸ rfl) rfl
  | finalizeL0 d pe rest hpc hp hm hl hr =>
    exact .same _ (Function.update_self ..) rfl rfl rfl ⟨by rw [hp]; rfl, rfl, not_false⟩
  | request t cm todo res r hpc hst =>
    exact .same _ (Function.update_self ..) rfl rfl rfl (Shard.afterRequest_same todo res hpc)
  | endRequest hpc =>
    exact .same _ (Function.update_self ..) rfl rfl rfl ⟨rfl, rfl, not_false⟩
  | forward d pe rest hpc hp hm hl hr hroom =>
    have hmsg : pe.msg = .event pe.seq := if_neg (by rw [hm]; exact Bool.false_ne_true)
    exact .push pe rest hp (Function.update_self ..) rfl (hmsg ▸ rfl) rfl
  | stall d hpc hs =>
    exact .same _ (Function.update_self ..) rfl rfl rfl ⟨rfl, rfl, not_false⟩
  | publish d hpc =>
    obtain ⟨pc, hpc', hover⟩ := (s.shard k).afterPublish_spec p.num_shards d
    exact .store pc ((Function.update_self ..).trans hpc') (fun h => .inr (hover h)) rfl rfl
      (.inl (Function.update_self ..))
  | exit hpc =>
    have hover : (s.shard k).pc.Over := hpc ▸ trivial
    exact .store .exited (Function.update_self ..) (fun _ => .inl hover) rfl rfl
      (.inr ⟨Function.update_self .., hover⟩)

/-- The messages of a shard stay in line; it only pushes the first one on. -/
theorem ShardMove.line (hm : ShardMove k s s') :
    s'.later k = s.later k ∧ s'.unsent k ⊆ s.unsent k := by
  have hsame : s'.unsent k = s.unsent k → s'.q_to_stage = s.q_to_stage →
      s'.later k = s.later k ∧ s'.unsent k ⊆ s.unsent k := fun hunsent hout =>
    ⟨by rw [State.later, State.later, hunsent, hout], fun m hm => hunsent ▸ hm⟩
  cases hm with
  | same sh hsh hq hout hemit hs =>
    refine hsame ?_ hout
    rw [State.unsent, State.unsent, hsh, hq, hs.pending]
  | take n m q hq hsh hq' hout hemit =>
    refine hsame ?_ hout
    rw [State.unsent, State.unsent, hsh, hq', hq]
    cases m with
    | eof => rfl
    | marker seq => simp [Shard.takeOwn, OwnMsg.msg, PendingEvent.msg]
    | event seq x need_left need_right => simp [Shard.takeOwn, OwnMsg.msg, PendingEvent.msg]
  | push pe rest hp hsh hq hout hemit =>
    have hunsent : s.unsent k = pe.msg :: s'.unsent k := by
      rw [State.unsent, State.unsent, hsh, hq, hp]
      rfl
    refine ⟨?_, ?_⟩
    · rw [State.later, State.later, hunsent, hout, Function.update_self, List.append_assoc]
      rfl
    · rw [hunsent]
      exact List.subset_cons_self _ _
  | store pc hsh hover hq hout hemit =>
    refine hsame ?_ hout
    rw [State.unsent, State.unsent, hsh, hq]

theorem Inv.pairwise_unsent (h : Inv p s) : (s.unsent k).Pairwise fun a b => a.stop ≤ b.seq :=
  (h.sorted k).sublist ((List.sublist_append_right _ _).trans (List.sublist_append_right _ _))

/-- The first of what a shard has still to push is the oldest of it. -/
theorem Inv.ahead_first (h : Inv p s) {pe : PendingEvent} {rest : List PendingEvent}
    (hp : (s.shard k).pending = pe :: rest) : s.Ahead k pe.seq := by
  have hunsent : s.unsent k = pe.msg :: (rest.map (·.msg) ++ (s.q_own k).filterMap OwnMsg.msg) := by
    unfold State.unsent
    rw [hp]
    rfl
  have hle : pe.seq ≤ pe.msg.stop := pe.msg_seq ▸ pe.msg.seq_le_stop
  refine ⟨fun m hm => ?_, fun _ => ?_⟩
  · have hsorted := h.pairwise_unsent (k := k)
    rw [hunsent] at hsorted hm
    rcases List.mem_cons.mp hm with rfl | hm
    · rw [pe.msg_seq]
    · exact_mod_cast hle.trans ((List.pairwise_cons.mp hsorted).1 m hm)
  · have hbound := h.bound k pe.msg (mem_line_of_unsent (hunsent ▸ List.mem_cons_self))
    exact_mod_cast hle.trans hbound

/-- A shard that has seen the end and has nothing pending pushes nothing more. -/
theorem Inv.ahead_top (h : Inv p s) (he : (s.shard k).got_eof = true) (hp : (s.shard k).pending = []) :
    s.Ahead k ⊤ := by
  have hsh := h.shard k
  have hunsent : s.unsent k = [] := by
    unfold State.unsent
    rw [hp, hsh.got_eof he]
    rfl
  refine ⟨fun m hm => ?_, fun hopen => absurd (hsh.eof (.inr he)) hopen⟩
  rw [hunsent] at hm
  exact absurd hm List.not_mem_nil

theorem Inv.ahead_publish (h : Inv p s) : s.Ahead k ((s.shard k).publish (s.next_emit_seq k)) := by
  unfold Shard.publish
  split
  · exact h.ahead_first ‹_›
  · split
    · exact h.ahead_top ‹_› ‹_›
    · exact h.published k

theorem Inv.shard_step (h : Inv p s) (hs : p.ShardStep k s s') : Inv p s' := by
  have ho := hs.only
  have hmove := hs.move
  obtain ⟨hlater, hsub⟩ := hmove.line
  have hmoves := ho.moves hsub
  have hsh := h.shard k
  cases hmove with
  | same sh hsh' hq hout hemit hsame =>
    refine h.only_shard ho hlater hsub ?_ ?_
    · rw [hsh', hq]
      exact ⟨hsame.got_eof ▸ hsh.eof, hsh.last, hsame.got_eof ▸ hsh.got_eof,
        fun hover => absurd hover hsame.running⟩
    · rw [hemit]
      exact (h.published k).moves hmoves
  | take n m q hq hsh' hq' hout hemit =>
    have hlast := hsh.last
    rw [hq] at hlast
    obtain ⟨hm, hlast⟩ := List.pairwise_cons.mp hlast
    have hgot : (s.shard k).got_eof = true → False := fun he => by
      have hnil := hsh.got_eof he
      rw [hq] at hnil
      exact List.cons_ne_nil _ _ hnil
    have hfull : ((s.shard k).takeOwn n m).got_eof = true → m = .eof := by
      cases m with
      | eof => exact fun _ => rfl
      | event _ _ _ _ => exact fun he => (hgot he).elim
      | marker _ => exact fun he => (hgot he).elim
    refine h.only_shard ho hlater hsub ?_ ?_
    · rw [hsh', hq']
      refine ⟨fun he => hsh.eof (.inl ?_), hlast, fun he => ?_, fun hover => ?_⟩
      · rw [hq]
        rcases he with he | he
        · exact List.mem_cons_of_mem _ he
        · exact hfull he ▸ List.mem_cons_self
      · exact List.eq_nil_iff_forall_not_mem.mpr fun m' hm' => hm m' hm' (hfull he)
      · cases m <;> exact hover.elim
    · rw [hemit]
      exact (h.published k).moves hmoves
  | push pe rest hp hsh' hq hout hemit =>
    refine h.only_shard ho hlater hsub ?_ ?_
    · rw [hsh', hq]
      exact ⟨hsh.eof, hsh.last, hsh.got_eof, fun hover => hover.elim⟩
    · rw [hemit]
      exact (h.published k).moves hmoves
  | store pc hsh' hover hq hout hemit =>
    refine h.only_shard ho hlater hsub ?_ ?_
    · rw [hsh', hq]
      exact ⟨hsh.eof, hsh.last, hsh.got_eof, fun ho => (hover ho).elim hsh.ended id⟩
    · rcases hemit with hemit | ⟨hemit, hover⟩
      · rw [hemit]
        exact h.ahead_publish.moves hmoves
      · rw [hemit]
        exact (h.ahead_top (hsh.ended hover).1 (hsh.ended hover).2).moves hmoves

section PushOwn

variable (m : OwnMsg) (producer : ProducerPc) (next : Nat) (requested : List (Nat × ContribMsg))

theorem unsent_push_own (j : Nat) :
    State.unsent { pushOwn s k m with producer := producer, next := next, requested := requested } j =
      if j = k then s.unsent k ++ m.msg.toList else s.unsent j := by
  rcases eq_or_ne j k with rfl | hj
  · simp only [State.unsent, pushOwn, Function.update_self, if_true, List.filterMap_append,
      List.append_assoc]
    cases hm : m.msg <;> simp [hm]
  · simp [State.unsent, pushOwn, hj]

theorem line_push_own (j : Nat) :
    State.line { pushOwn s k m with producer := producer, next := next, requested := requested } j =
      if j = k then s.line k ++ m.msg.toList else s.line j := by
  rw [State.line, State.later, unsent_push_own]
  split
  · rename_i hj
    simp [State.line, State.later, pushOwn, hj]
  · rfl

variable {producer next requested}

theorem moves_push_own (hopen : ¬ s.producer.Closed k)
    (hclosed : ∀ j, s.producer.Closed j → producer.Closed j) (hnext : s.next ≤ next)
    (hmsg : ∀ a, m.msg = some a → s.next ≤ a.seq) :
    Moves s { pushOwn s k m with producer := producer, next := next, requested := requested } := by
  refine ⟨hnext, hclosed, fun j a ha => ?_⟩
  rw [unsent_push_own] at ha
  split at ha
  · rename_i hj
    subst hj
    rcases List.mem_append.mp ha with ha | ha
    · exact .inl ha
    · exact .inr ⟨hopen, hmsg a (Option.mem_toList.mp ha)⟩
  · exact .inl ha

end PushOwn

/-- A message with the next number comes into `q_own`. -/
theorem Inv.push_own (h : Inv p s) (m : OwnMsg) {producer : ProducerPc} {next : Nat}
    {requested : List (Nat × ContribMsg)} (hopen : ¬ s.producer.Closed k)
    (hclosed : ∀ j, s.producer.Closed j → producer.Closed j) (heof : m = .eof → producer.Closed k)
    (hnext : s.next ≤ next) (hmsg : ∀ a, m.msg = some a → s.next ≤ a.seq ∧ a.stop ≤ next)
    (hmarking : ∀ seq last j, producer = .marking seq last j → seq = next)
    (hwaiting : ∀ seq last, producer = .waiting seq last → seq = next) :
    Inv p { pushOwn s k m with producer := producer, next := next, requested := requested } := by
  have hline := line_push_own (s := s) (k := k) m producer next requested
  set s' : State := { pushOwn s k m with producer := producer, next := next, requested := requested }
  have hmoves : Moves s s' := moves_push_own m hopen hclosed hnext fun a ha => (hmsg a ha).1
  refine ⟨fun j => ?_, fun j a ha => ?_, hmarking, hwaiting, fun j => ?_,
    fun j => (h.published j).moves hmoves, fun j c min_k hj => ?_⟩
  · rw [hline]
    split
    · refine List.pairwise_append.mpr ⟨h.sorted k, ?_, fun a ha b hb => ?_⟩
      · cases m.msg with
        | none => exact .nil
        | some a => exact List.pairwise_singleton ..
      · exact (h.bound k a ha).trans (hmsg b (Option.mem_toList.mp hb)).1
    · exact h.sorted j
  · rw [hline] at ha
    split at ha
    · rcases List.mem_append.mp ha with ha | ha
      · exact (h.bound k a ha).trans hnext
      · exact (hmsg a (Option.mem_toList.mp ha)).2
    · exact (h.bound j a ha).trans hnext
  · have hsh := h.shard j
    rcases eq_or_ne j k with rfl | hj
    · have hq : s'.q_own j = s.q_own j ++ [m] := Function.update_self ..
      have hgot : (s.shard j).got_eof = true → False := fun he => hopen (hsh.eof (.inr he))
      rw [hq]
      refine ⟨fun he => ?_, ?_, fun he => (hgot he).elim, hsh.ended⟩
      · rcases he with he | he
        · rcases List.mem_append.mp he with he | he
          · exact absurd (hsh.eof (.inl he)) hopen
          · exact heof (List.mem_singleton.mp he).symm
        · exact (hgot he).elim
      · refine List.pairwise_append.mpr ⟨hsh.last, List.pairwise_singleton .., fun a ha _ _ hae => ?_⟩
        exact hopen (hsh.eof (.inl (hae ▸ ha)))
    · have hq : s'.q_own j = s.q_own j := Function.update_of_ne hj ..
      rw [hq]
      exact ⟨fun he => hclosed j (hsh.eof he), hsh.last, hsh.got_eof, hsh.ended⟩
  · obtain ⟨hahead, hmin⟩ := h.scanned j c min_k hj
    exact ⟨fun i hi => (hahead i hi).moves hmoves, hmin⟩

/-- The producer alone moves on. -/
theorem Inv.producer_local (h : Inv p s) {producer : ProducerPc} {next : Nat}
    {q_contrib : Nat → SharedRing Thread Unit ContribMsg} (hnext : s.next ≤ next)
    (hclosed : ∀ j, s.producer.Closed j → producer.Closed j)
    (hmarking : ∀ seq last j, producer = .marking seq last j → seq = next)
    (hwaiting : ∀ seq last, producer = .waiting seq last → seq = next) :
    Inv p { s with producer := producer, next := next, q_contrib := q_contrib } := by
  have hmoves : Moves s { s with producer := producer, next := next, q_contrib := q_contrib } :=
    ⟨hnext, hclosed, fun _ _ hm => .inl hm⟩
  refine ⟨h.sorted, fun j a ha => (h.bound j a ha).trans hnext, hmarking, hwaiting, fun j => ?_,
    fun j => (h.published j).moves hmoves, fun j c min_k hj => ?_⟩
  · have hsh := h.shard j
    exact ⟨fun he => hclosed j (hsh.eof he), hsh.last, hsh.got_eof, hsh.ended⟩
  · obtain ⟨hahead, hmin⟩ := h.scanned j c min_k hj
    exact ⟨fun i hi => (hahead i hi).moves hmoves, hmin⟩

theorem Inv.event_step (h : Inv p s) (hs : p.EventStep (R := R) s s') : Inv p s' := by
  cases hs with
  | outOfBounds e hpc he =>
    refine h.producer_local (Nat.le_succ _) (fun _ hc => hc) (fun _ _ _ hj => ?_) (fun _ _ hj => ?_)
    · simp [hpc] at hj
    · simp [hpc] at hj
  | inBounds e x hpc he hroom =>
    refine h.push_own _ ?_ ?_ nofun (Nat.le_succ _) (fun a ha => ?_) nofun nofun
    · rw [hpc]
      exact not_false
    · rw [hpc]
      exact fun _ hc => hc.elim
    · obtain rfl : Msg.event s.next = a := Option.some.inj ha
      exact ⟨le_rfl, le_rfl⟩

theorem Inv.producer_step (h : Inv p s) (hs : p.ProducerStep s s') : Inv p s' := by
  cases hs with
  | send t cm todo res r hpc hst =>
    refine h.producer_local le_rfl (fun j hc => ?_) (fun _ _ _ hj => ?_) (fun _ _ hj => ?_)
    · rw [hpc] at hc
      exact hc.elim
    · split at hj <;> simp [hpc] at hj
    · split at hj <;> simp [hpc] at hj
  | sent hpc =>
    refine h.producer_local le_rfl (fun j hc => ?_) nofun nofun
    rw [hpc] at hc
    exact hc.elim
  | beginMarker last hpc =>
    refine h.producer_local le_rfl (fun j hc => ?_) (fun seq _ _ hj => ?_) nofun
    · rw [hpc] at hc
      exact hc.elim
    · injection hj with hj
      exact hj.symm
  | pushMarker seq last k hpc hk hroom =>
    obtain rfl := h.marking seq last k hpc
    refine h.push_own _ ?_ ?_ nofun le_rfl (fun a ha => ?_) (fun seq' _ _ hj => ?_) nofun
    · rw [hpc]
      exact not_false
    · rw [hpc]
      exact fun _ hc => hc.elim
    · obtain rfl : Msg.marker s.next = a := Option.some.inj ha
      exact ⟨le_rfl, le_rfl⟩
    · injection hj with hj
      exact hj.symm
  | endMarker seq last hpc =>
    obtain rfl := h.marking seq last _ hpc
    refine h.producer_local le_rfl (fun j hc => ?_) nofun (fun seq' _ hj => ?_)
    · rw [hpc] at hc
      exact hc.elim
    · injection hj with hj
      exact hj.symm
  | wait seq last hpc hdone =>
    refine h.producer_local le_rfl (fun j hc => ?_) (fun _ _ _ hj => ?_) (fun _ _ hj => ?_)
    · rw [hpc] at hc
      exact hc.elim
    · split at hj <;> simp at hj
    · split at hj <;> simp at hj
  | pushEof k hpc hk hroom =>
    refine h.push_own _ ?_ ?_ (fun _ => Nat.lt_succ_self k) le_rfl nofun nofun nofun
    · rw [hpc]
      exact Nat.lt_irrefl k
    · rw [hpc]
      exact fun _ hc => Nat.lt_succ_of_lt hc
  | endEof hpc => exact h.producer_local le_rfl (fun _ _ => trivial) nofun nofun

/-- The stage thread alone moves on. -/
theorem Inv.stage_local (h : Inv p s) {stage : StagePc}
    (hscanned : ∀ j c min_k, stage = .scanning j c min_k → (∀ i < j, s.Ahead i c) ∧
      ∀ k, min_k = some k → k < p.num_shards ∧ ∃ m, s.cache k = some m ∧ c = m.seq) :
    Inv p { s with stage := stage } := by
  have hmoves : Moves s { s with stage := stage } := .same rfl rfl rfl rfl
  exact ⟨h.sorted, h.bound, h.marking, h.awaiting, h.shard, fun j => (h.published j).moves hmoves,
    fun j c min_k hj => ⟨fun i hi => ((hscanned j c min_k hj).1 i hi).moves hmoves,
      (hscanned j c min_k hj).2⟩⟩

/-- The candidate of a shard is below what the shard has still to push. -/
theorem Inv.ahead_candidate (h : Inv p s) (k : Nat) : s.Ahead k (candidate s k) := by
  cases hc : s.cache k with
  | none =>
    have hcand : candidate s k = s.next_emit_seq k := by rw [candidate, hc]
    exact hcand ▸ h.published k
  | some m =>
    have hcand : candidate s k = m.seq := by rw [candidate, hc]
    rw [hcand]
    have hline : s.line k = m :: s.later k := by
      rw [State.line, hc]
      rfl
    have hle := m.seq_le_stop
    refine ⟨fun a ha => ?_, fun _ => ?_⟩
    · have hsorted := h.sorted k
      rw [hline] at hsorted
      exact_mod_cast hle.trans ((List.pairwise_cons.mp hsorted).1 a (List.mem_append_right _ ha))
    · exact_mod_cast hle.trans (h.bound k m (hline ▸ List.mem_cons_self))

theorem State.Ahead.mono {c c' : WithTop Nat} (h : s.Ahead k c) (hc : c' ≤ c) : s.Ahead k c' :=
  ⟨fun m hm => hc.trans (h.unsent m hm), fun hopen => hc.trans (h.next hopen)⟩

theorem Inv.stage_step (h : Inv p s) (hs : p.StageStep s s') : Inv p s' := by
  cases hs with
  | fill k m q hpc hk hc hq =>
    have hline : State.line { s with
        cache := Function.update s.cache k (some m)
        q_to_stage := Function.update s.q_to_stage k q
        stage := .filling (k + 1) } = s.line := by
      funext j
      rcases eq_or_ne j k with rfl | hj
      · simp [State.line, State.later, State.unsent, hc, hq]
      · simp [State.line, State.later, State.unsent, hj]
    refine ⟨?_, ?_, h.marking, h.awaiting, h.shard,
      fun j => (h.published j).moves (.same rfl rfl rfl rfl), nofun⟩
    · rw [hline]
      exact h.sorted
    · rw [hline]
      exact h.bound
  | skip k hpc hk hc => exact h.stage_local nofun
  | beginScan hpc =>
    refine h.stage_local fun j c min_k hj => ?_
    injection hj with hj hc hm
    subst hj hm
    exact ⟨fun i hi => absurd hi i.not_lt_zero, nofun⟩
  | scan k c min_k hpc hk =>
    obtain ⟨hahead, hmin⟩ := h.scanned k c min_k hpc
    refine h.stage_local fun j c' min_k' hj => ?_
    have hcand := h.ahead_candidate k
    split at hj
    · rename_i hlt
      injection hj with hj hc' hm
      subst hj hc' hm
      refine ⟨fun i hi => ?_, fun k' hk' => ?_⟩
      · rcases Nat.lt_succ_iff_lt_or_eq.mp hi with hi | rfl
        · exact (hahead i hi).mono hlt.le
        · exact hcand
      · split at hk'
        · rename_i hsome
          obtain rfl : k = k' := Option.some.inj hk'
          obtain ⟨m, hm⟩ := Option.isSome_iff_exists.mp hsome
          exact ⟨hk, m, hm, by rw [candidate, hm]⟩
        · simp at hk'
    · rename_i hge
      injection hj with hj hc' hm
      subst hj hc' hm
      refine ⟨fun i hi => ?_, hmin⟩
      rcases Nat.lt_succ_iff_lt_or_eq.mp hi with hi | rfl
      · exact hahead i hi
      · exact hcand.mono (not_lt.mp hge)
  | stop min_k hpc => exact h.stage_local nofun
  | wait c hpc hc => exact h.stage_local nofun
  | emit c k m hpc hc hm =>
    have hsub : ∀ j, (State.line { s with
        cache := Function.update s.cache k none
        stage := .filling 0
        marker_done_stages := markerDone s.marker_done_stages m
        emitted := s.emitted ++ [m] } j).Sublist (s.line j) := by
      intro j
      rcases eq_or_ne j k with rfl | hj
      · simp [State.line, State.later, State.unsent]
      · simp [State.line, State.later, State.unsent, hj]
    exact ⟨fun j => (h.sorted j).sublist (hsub j), fun j a ha => h.bound j a ((hsub j).subset ha),
      h.marking, h.awaiting, h.shard, fun j => (h.published j).moves (.same rfl rfl rfl rfl), nofun⟩

theorem Inv.step (h : Inv p s) {a : Mover} (hs : p.Step R s a s') : Inv p s' := by
  cases hs with
  | event hs => exact h.event_step hs
  | producer hs => exact h.producer_step hs
  | shard k hk hs => exact h.shard_step hs
  | stages hs => exact h.stage_step hs

/-- The stage thread stands still; a new message in line has the next number. -/
structure Lines (s s' : State) : Prop extends Moves s s' where
  stage : s'.stage = s.stage
  marker_done_stages : s'.marker_done_stages = s.marker_done_stages
  emitted : s'.emitted = s.emitted
  line : ∀ k, ∀ m ∈ s'.line k, m ∈ s.line k ∨ ¬ s.producer.Closed k ∧ s.next ≤ m.seq

theorem ShardStep.lines (hs : p.ShardStep k s s') : Lines s s' := by
  have ho := hs.only
  obtain ⟨hlater, hsub⟩ := hs.move.line
  have hline := ho.line hlater
  exact ⟨ho.moves hsub, ho.stage, ho.marker_done_stages, ho.emitted, fun j m hm => .inl (hline j ▸ hm)⟩

theorem lines_push_own (m : OwnMsg) {producer : ProducerPc} {next : Nat}
    {requested : List (Nat × ContribMsg)} (hopen : ¬ s.producer.Closed k)
    (hclosed : ∀ j, s.producer.Closed j → producer.Closed j) (hnext : s.next ≤ next)
    (hmsg : ∀ a, m.msg = some a → s.next ≤ a.seq) :
    Lines s { pushOwn s k m with producer := producer, next := next, requested := requested } := by
  refine ⟨moves_push_own m hopen hclosed hnext hmsg, rfl, rfl, rfl, fun j a ha => ?_⟩
  rw [line_push_own] at ha
  split at ha
  · rename_i hj
    rcases List.mem_append.mp ha with ha | ha
    · exact .inl (hj ▸ ha)
    · exact .inr ⟨hj ▸ hopen, hmsg a (Option.mem_toList.mp ha)⟩
  · exact .inl ha

/-- The producer moves on without a push into `q_own`. -/
theorem lines_producer {producer : ProducerPc} {next : Nat}
    {q_contrib : Nat → SharedRing Thread Unit ContribMsg} (hnext : s.next ≤ next)
    (hclosed : ∀ j, s.producer.Closed j → producer.Closed j) :
    Lines s { s with producer := producer, next := next, q_contrib := q_contrib } :=
  ⟨⟨hnext, hclosed, fun _ _ hm => .inl hm⟩, rfl, rfl, rfl, fun _ _ hm => .inl hm⟩

theorem EventStep.lines (hs : p.EventStep (R := R) s s') : Lines s s' := by
  cases hs with
  | outOfBounds e hpc he => exact lines_producer (Nat.le_succ _) fun _ hc => hc
  | inBounds e x hpc he hroom =>
    refine lines_push_own _ ?_ (fun j hc => ?_) (Nat.le_succ _) fun a ha => ?_
    · rw [hpc]
      exact not_false
    · rw [hpc] at hc
      exact hc.elim
    · obtain rfl : Msg.event s.next = a := Option.some.inj ha
      exact le_rfl

theorem Inv.producer_lines (h : Inv p s) (hs : p.ProducerStep s s') : Lines s s' := by
  cases hs with
  | pushMarker seq last k hpc hk hroom =>
    obtain rfl := h.marking seq last k hpc
    refine lines_push_own _ ?_ (fun j hc => ?_) le_rfl fun a ha => ?_
    · rw [hpc]
      exact not_false
    · rw [hpc] at hc
      exact hc.elim
    · obtain rfl : Msg.marker s.next = a := Option.some.inj ha
      exact le_rfl
  | pushEof k hpc hk hroom =>
    refine lines_push_own _ ?_ (fun j hc => ?_) le_rfl nofun
    · rw [hpc]
      exact Nat.lt_irrefl k
    · rw [hpc] at hc
      exact Nat.lt_succ_of_lt hc
  | send t cm todo res r hpc hst => exact lines_producer le_rfl fun j hc => (hpc ▸ hc).elim
  | sent hpc => exact lines_producer le_rfl fun j hc => (hpc ▸ hc).elim
  | beginMarker last hpc => exact lines_producer le_rfl fun j hc => (hpc ▸ hc).elim
  | endMarker seq last hpc => exact lines_producer le_rfl fun j hc => (hpc ▸ hc).elim
  | wait seq last hpc hdone => exact lines_producer le_rfl fun j hc => (hpc ▸ hc).elim
  | endEof hpc => exact lines_producer le_rfl fun _ _ => trivial

end OwnerScheme

end SslaRt
