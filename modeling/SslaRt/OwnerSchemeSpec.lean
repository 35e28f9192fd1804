import SslaRt.OwnerSchemeConserve
import SslaRt.OwnerSchemeMerge
import Mathlib.Tactic.IntervalCases

/-! Scheme 4 conserves its messages as long as the pushes into its shared queues do
not overlap. -/

namespace SslaRt

namespace OwnerScheme

open Finset

variable {p : OwnerScheme} {R : Type*} {s s' : State} {k : Nat}

section Over

def ProducerPc.Over : ProducerPc → Prop
  | .ending _ => True
  | .ended => True
  | _ => False

/-- When the producer has seen its last marker come through, only markers are left. -/
structure Finished (p : OwnerScheme) (s : State) : Prop where
  done_le : s.marker_done_stages ≤ s.next
  done : ∀ k < p.num_shards, s.Ahead k s.marker_done_stages
  ended : s.producer.Over → ∀ k < p.num_shards, ∀ m ∈ s.unsent k, s.next ≤ m.seq

theorem finished_init : Finished p init where
  done_le := le_rfl
  done _ _ := ⟨nofun, fun _ => le_rfl⟩
  ended := nofun

theorem Finished.lines (h : Finished p s) (hl : Lines s s')
    (hover : s'.producer.Over →
      s'.next = s.next ∧ (s.producer.Over ∨ s.next ≤ s.marker_done_stages)) : Finished p s' := by
  refine ⟨?_, fun k hk => ?_, fun ho k hk m hm => ?_⟩
  · rw [hl.marker_done_stages]
    exact h.done_le.trans hl.next
  · rw [hl.marker_done_stages]
    exact (h.done k hk).moves hl.toMoves
  · obtain ⟨hnext, hwas⟩ := hover ho
    rw [hnext]
    rcases hl.unsent k m hm with hold | ⟨-, hnew⟩
    · rcases hwas with hwas | hdone
      · exact h.ended hwas k hk m hold
      · exact hdone.trans (by exact_mod_cast (h.done k hk).unsent m hold)
    · exact hnew

theorem Finished.event_step (h : Finished p s) (hs : p.EventStep (R := R) s s') : Finished p s' := by
  refine h.lines hs.lines fun ho => ?_
  cases hs with
  | outOfBounds e hpc he => exact (hpc ▸ ho : ProducerPc.idle.Over).elim
  | inBounds e x hpc he hroom => exact ho.elim

theorem Finished.producer_step (h : Finished p s) (hinv : Inv p s) (hs : p.ProducerStep s s') :
    Finished p s' := by
  refine h.lines (hinv.producer_lines hs) fun ho => ?_
  cases hs with
  | send t cm todo res r hpc hst =>
    dsimp only at ho
    split at ho
    · exact ho.elim
    · rw [hpc] at ho
      exact ho.elim
  | sent hpc => exact ho.elim
  | beginMarker last hpc => exact ho.elim
  | pushMarker seq last k hpc hk hroom => exact ho.elim
  | endMarker seq last hpc => exact ho.elim
  | wait seq last hpc hdone =>
    obtain rfl := hinv.awaiting seq last hpc
    exact ⟨rfl, .inr hdone⟩
  | pushEof k hpc hk hroom => exact ⟨rfl, .inl (hpc ▸ trivial)⟩
  | endEof hpc => exact ⟨rfl, .inl (hpc ▸ trivial)⟩

theorem Finished.shard_step (h : Finished p s) (hs : p.ShardStep k s s') : Finished p s' := by
  have ho := hs.only
  exact h.lines hs.lines fun hover => ⟨ho.next, .inl (ho.producer ▸ hover)⟩

theorem Finished.stage_step (h : Finished p s) (hinv : Inv p s) (hs : p.StageStep s s') :
    Finished p s' := by
  have hsame : ∀ {t : State}, t.producer = s.producer → t.next = s.next → t.shard = s.shard →
      t.q_own = s.q_own → t.marker_done_stages = s.marker_done_stages → Finished p t := by
    intro t hproducer hnext hshard hq hdone
    refine ⟨?_, fun k hk => ?_, ?_⟩
    · rw [hdone, hnext]
      exact h.done_le
    · rw [hdone]
      exact (h.done k hk).moves (.same hproducer hnext hshard hq)
    · unfold State.unsent
      rw [hproducer, hnext, hshard, hq]
      exact h.ended
  cases hs with
  | fill k m q hpc hk hc hq => exact hsame rfl rfl rfl rfl rfl
  | skip k hpc hk hc => exact hsame rfl rfl rfl rfl rfl
  | beginScan hpc => exact hsame rfl rfl rfl rfl rfl
  | scan k c min_k hpc hk => exact hsame rfl rfl rfl rfl rfl
  | stop min_k hpc => exact hsame rfl rfl rfl rfl rfl
  | wait c hpc hc => exact hsame rfl rfl rfl rfl rfl
  | emit c k m hpc hc hm =>
    cases m with
    | event seq => exact hsame rfl rfl rfl rfl rfl
    | marker seq =>
      obtain ⟨hahead, hmin⟩ := hinv.scanned _ _ _ hpc
      obtain ⟨-, m, hm', hcm⟩ := hmin k rfl
      obtain rfl : Msg.marker seq = m := Option.some.inj (hm.symm.trans hm')
      have hmem : Msg.marker seq ∈ s.line k := by
        rw [State.line, hm]
        exact List.mem_cons_self
      refine ⟨hinv.bound k _ hmem, fun j hj => ?_, h.ended⟩
      exact (hcm ▸ hahead j hj).moves (.same rfl rfl rfl rfl)

/-- Then no event expects anything more. -/
theorem Finished.owed (h : Finished p s) (hinv : Inv p s) (hover : s.producer.Over) : s.owed p = 0 := by
  refine Multiset.eq_zero_iff_forall_notMem.mpr fun κ hκ => ?_
  obtain ⟨k, hk, hin⟩ := Multiset.mem_sum.mp hκ
  have hevent : ∀ seq, Msg.event seq ∉ s.unsent k := by
    intro seq hmem
    have hle : s.next ≤ seq := h.ended hover k (mem_range.mp hk) _ hmem
    have hlt : seq + 1 ≤ s.next := hinv.bound k _ (mem_line_of_unsent hmem)
    omega
  rcases Multiset.mem_add.mp hin with hin | hin
  · obtain ⟨pe, hpe, hin⟩ := mem_sum_map.mp hin
    have hm := (PendingEvent.mem_owed hin).1
    have hmsg : pe.msg = .event pe.seq := if_neg (by rw [hm]; exact Bool.false_ne_true)
    exact hevent pe.seq (List.mem_append_left _ (List.mem_map.mpr ⟨pe, hpe, hmsg⟩))
  · obtain ⟨m, hm, hin⟩ := mem_sum_map.mp hin
    cases m with
    | event seq x need_left need_right =>
      exact hevent seq (List.mem_append_right _ (List.mem_filterMap.mpr ⟨_, hm, rfl⟩))
    | marker seq => exact absurd hin (Multiset.notMem_zero _)
    | eof => exact absurd hin (Multiset.notMem_zero _)

end Over

section Runs

theorem held_init {M : Type} (p : OwnerScheme) (buf : Nat → Unit → M) :
    p.Held (fun _ => (SharedRing.init buf : SharedRing Thread Unit M)) ∧
      p.ringBag (fun _ => (SharedRing.init buf : SharedRing Thread Unit M)) = 0 := by
  have hkeeps : (SharedRing.init buf : SharedRing Thread Unit M).Keeps p.ring [] :=
    SharedRing.keeps_init p.ring buf
  refine ⟨fun k => ?_, Finset.sum_eq_zero fun k _ => ?_⟩
  · rwa [hkeeps.waiting_eq]
  · rw [ringItems, hkeeps.waiting_eq]
    rfl

theorem ledger_init : Ledger p init := by
  have hc : init.contribs p = 0 := by
    simp [State.contribs, init, (held_init p _).2, Shard.contribs, ShardPc.todo, ProducerPc.todo,
      backlogItems]
  have hp : init.partials p = 0 := by
    simp [State.partials, init, (held_init p _).2, Shard.partials, ShardPc.answer, backlogItems]
  refine ⟨(held_init p _).1, (held_init p _).1, ?_, ?_, ?_, ?_, rfl, ?_,
    fun _ _ hm => absurd hm List.not_mem_nil, fun _ _ hpe => absurd hpe List.not_mem_nil,
    fun _ _ hpe => absurd hpe List.not_mem_nil⟩
  · rw [hc]
    exact fun m hm => absurd hm (Multiset.notMem_zero _)
  · rw [hp]
    exact fun m hm => absurd hm (Multiset.notMem_zero _)
  · rw [hc]
    rfl
  · rw [hp]
    rfl
  · rw [State.flight, hc, hp]
    simp [State.deferred, State.owed, Shard.deferred, Shard.owed, init]

theorem inv_run (hfit : p.OwnersFit) (h : Relation.ReflTransGen (p.ApartStep R) init s) :
    Inv p s ∧ Ledger p s ∧ Finished p s := by
  induction h with
  | refl => exact ⟨inv_init, ledger_init, finished_init⟩
  | tail _ hs ih =>
    obtain ⟨hinv, hledger, hfinished⟩ := ih
    obtain ⟨a, hstep, ha⟩ := hs
    refine ⟨hinv.step hstep, ?_⟩
    cases hstep with
    | event hs => exact ⟨hledger.event_step hfit hs, hfinished.event_step hs⟩
    | producer hs => exact ⟨hledger.producer_step hs ha, hfinished.producer_step hinv hs⟩
    | shard k hk hs => exact ⟨hledger.shard_step hinv hfit hk hs ha, hfinished.shard_step hs⟩
    | stages hs => exact ⟨hledger.stage_step hs, hfinished.stage_step hinv hs⟩

/-- All queues and backlogs between the shards are empty. -/
structure Drained (p : OwnerScheme) (s : State) : Prop where
  producer : s.producer.todo = []
  q_own : ∀ k < p.num_shards, s.q_own k = []
  q_contrib : ∀ k < p.num_shards, (s.q_contrib k).waiting p.ring = []
  q_partial_in : ∀ k < p.num_shards, (s.q_partial_in k).waiting p.ring = []
  in_hand : ∀ k < p.num_shards, (s.shard k).pc.todo = [] ∧ (s.shard k).pc.answer = []
  deferred : ∀ k < p.num_shards, (s.shard k).deferred_partials = []
  outgoing : ∀ k < p.num_shards, ∀ ok < p.num_shards,
    (s.shard k).outgoing_contribs ok = [] ∧ (s.shard k).outgoing_partials ok = []

theorem Drained.contribs (h : Drained p s) : s.contribs p = 0 := by
  have hrings : p.ringBag s.q_contrib = 0 := Finset.sum_eq_zero fun k hk => by
    rw [ringItems, h.q_contrib k (mem_range.mp hk)]
    rfl
  have hheld : ∀ k ∈ range p.num_shards, (s.shard k).contribs p.num_shards = 0 := by
    intro k hk
    have hout : ∀ ok ∈ range p.num_shards, backlogItems ok ((s.shard k).outgoing_contribs ok) = 0 := by
      intro ok hok
      rw [(h.outgoing k (mem_range.mp hk) ok (mem_range.mp hok)).1]
      rfl
    rw [Shard.contribs, (h.in_hand k (mem_range.mp hk)).1, Finset.sum_eq_zero hout]
    rfl
  rw [State.contribs, h.producer, hrings, Finset.sum_eq_zero hheld]
  rfl

theorem Drained.partials (h : Drained p s) : s.partials p = 0 := by
  have hrings : p.ringBag s.q_partial_in = 0 := Finset.sum_eq_zero fun k hk => by
    rw [ringItems, h.q_partial_in k (mem_range.mp hk)]
    rfl
  have hheld : ∀ k ∈ range p.num_shards, (s.shard k).partials p.num_shards = 0 := by
    intro k hk
    have hout : ∀ ok ∈ range p.num_shards, backlogItems ok ((s.shard k).outgoing_partials ok) = 0 := by
      intro ok hok
      rw [(h.outgoing k (mem_range.mp hk) ok (mem_range.mp hok)).2]
      rfl
    rw [Shard.partials, (h.in_hand k (mem_range.mp hk)).2, Finset.sum_eq_zero hout]
    rfl
  rw [State.partials, hrings, Finset.sum_eq_zero hheld]
  rfl

/-- In a drained state a pending event has what it expects. -/
theorem Ledger.drained (h : Ledger p s) (hd : Drained p s) (hk : k < p.num_shards) {pe : PendingEvent}
    (hpe : pe ∈ (s.shard k).pending) (hm : pe.is_marker = false) :
    pe.received_l0 = pe.expected_l0 ∧ pe.received_l1 = pe.expected_l1 := by
  have hdeferred : s.deferred p = 0 := Finset.sum_eq_zero fun j hj => by
    rw [Shard.deferred, hd.deferred j (mem_range.mp hj)]
    rfl
  have howed : s.owed p = 0 := by
    rw [← h.flight, State.flight, hd.contribs, hd.partials, hdeferred]
    rfl
  have hnone : ∀ κ, κ ∉ pe.owed k := by
    intro κ hκ
    have hin : κ ∈ s.owed p := Multiset.mem_sum.mpr
      ⟨k, mem_range.mpr hk, Multiset.mem_add.mpr (.inl (mem_sum_map.mpr ⟨pe, hpe, hκ⟩))⟩
    rw [howed] at hin
    exact Multiset.notMem_zero _ hin
  have hc := h.pending k pe hpe hm
  have hzero := Multiset.eq_zero_of_forall_notMem hnone
  rw [PendingEvent.owed, if_neg (by rw [hm]; exact Bool.false_ne_true), add_eq_zero] at hzero
  have hl0 := congrArg Multiset.card hzero.1
  have hl1 := congrArg Multiset.card hzero.2
  rw [Multiset.card_replicate, Multiset.card_zero] at hl0 hl1
  exact ⟨le_antisymm hc.l0 (Nat.sub_eq_zero_iff_le.mp hl0),
    le_antisymm hc.l1 (Nat.sub_eq_zero_iff_le.mp hl1)⟩

/-- Then the cascade of a shard waits for no partial. -/
theorem Ledger.not_stalled (h : Ledger p s) (hd : Drained p s) (hk : k < p.num_shards)
    (hs : (s.shard k).stalled True) : (s.shard k).pending = [] := by
  unfold Shard.stalled at hs
  cases hp : (s.shard k).pending with
  | nil => rfl
  | cons pe rest =>
    rw [hp] at hs
    dsimp only at hs
    cases hm : pe.is_marker with
    | true => simp [hm] at hs
    | false =>
      obtain ⟨hl0, hl1⟩ := h.drained hd hk (hp ▸ List.mem_cons_self) hm
      simp [hm, hl0, hl1] at hs

theorem contribs_eq_zero (h : s.flight p = 0) : s.contribs p = 0 ∧ s.partials p = 0 := by
  rw [State.flight, add_eq_zero, add_eq_zero] at h
  exact ⟨Multiset.map_eq_zero.mp h.1.1, Multiset.map_eq_zero.mp h.1.2⟩

/-- A shard ends its loop after all requests and partials have been taken, its own and
those of the others. -/
theorem exited_settled (hfit : p.OwnersFit) (h : Relation.ReflTransGen (p.ApartStep R) init s)
    (hpc : (s.shard k).pc = .exited) : s.contribs p = 0 ∧ s.partials p = 0 := by
  obtain ⟨hinv, hledger, hfinished⟩ := inv_run hfit h
  have hsh := hinv.shard k
  have hclosed := hsh.eof (.inr (hsh.ended (hpc ▸ trivial)).1)
  have hover : s.producer.Over := by
    cases hp : s.producer with
    | ending j => trivial
    | ended => trivial
    | idle => exact (hp ▸ hclosed : ProducerPc.idle.Closed k).elim
    | requesting todo => exact (hp ▸ hclosed : (ProducerPc.requesting todo).Closed k).elim
    | marking seq last j => exact (hp ▸ hclosed : (ProducerPc.marking seq last j).Closed k).elim
    | waiting seq last => exact (hp ▸ hclosed : (ProducerPc.waiting seq last).Closed k).elim
  exact contribs_eq_zero (hledger.flight.trans (hfinished.owed hinv hover))

/-- In a run whose pushes into the shared queues do not overlap, no request and no partial
is lost or duplicated, and no event waits for one when none is on its way. -/
theorem contributions_conserved (p : OwnerScheme) (R : Type*) (hfit : p.OwnersFit) (s : State)
    (h : Relation.ReflTransGen (p.ApartStep R) init s) :
    ((s.requested : Multiset (Nat × ContribMsg)) = s.worked + s.contribs p ∧
      (s.answered : Multiset (Nat × PartialMsg)) = s.received + s.partials p ∧
      s.answered = s.worked.map fun m => Shard.answerOf m.2) ∧
    (∀ k, ∀ pe ∈ s.forwarded k,
      pe.received_l0 = pe.expected_l0 ∧ pe.received_l1 = pe.expected_l1) ∧
    (Drained p s → s.requested.Perm s.worked ∧ s.answered.Perm s.received ∧
      ∀ k < p.num_shards,
        (∀ pe ∈ (s.shard k).pending, pe.is_marker = false →
          pe.received_l0 = pe.expected_l0 ∧ pe.received_l1 = pe.expected_l1) ∧
        ((s.shard k).stalled True → (s.shard k).pending = [])) := by
  obtain ⟨hinv, hledger, -⟩ := inv_run hfit h
  refine ⟨⟨hledger.requested, hledger.answered, hledger.replied⟩, hledger.forwarded, fun hd => ?_⟩
  refine ⟨?_, ?_, fun k hk => ⟨fun pe hpe hm => hledger.drained hd hk hpe hm,
    hledger.not_stalled hd hk⟩⟩
  · have hrequested := hledger.requested
    rw [hd.contribs, add_zero] at hrequested
    exact Multiset.coe_eq_coe.mp hrequested
  · have hanswered := hledger.answered
    rw [hd.partials, add_zero] at hanswered
    exact Multiset.coe_eq_coe.mp hanswered

end Runs

section Border

open Relation

theorem twoStrips_ownersFit : twoStrips.OwnersFit := by
  intro x _
  exact (owner_lt twoStrips x).trans (by decide)

/-- An event at the border gets both partials of its neighbour and is handed over. -/
theorem contributions_conserved_border : ∃ s t : State,
    (ReflTransGen (twoStrips.ApartStep ℤ) init s ∧ ReflTransGen (twoStrips.ApartStep ℤ) init t ∧
      Drained twoStrips s ∧ (s.shard 0).pending = [⟨false, 0, 7, 2, 2, 2, 2, true⟩] ∧
      s.worked.length = 2 ∧ t.forwarded 0 = [⟨false, 0, 7, 2, 2, 2, 2, true⟩]) ∧
    ((t.requested : Multiset (Nat × ContribMsg)) = t.worked + t.contribs twoStrips ∧
      (t.answered : Multiset (Nat × PartialMsg)) = t.received + t.partials twoStrips ∧
      t.answered = t.worked.map fun m => Shard.answerOf m.2) ∧
    (∀ pe ∈ t.forwarded 0, pe.received_l0 = pe.expected_l0 ∧ pe.received_l1 = pe.expected_l1) ∧
    s.requested.Perm s.worked ∧ s.answered.Perm s.received ∧
    (∀ pe ∈ (s.shard 0).pending, pe.is_marker = false →
      pe.received_l0 = pe.expected_l0 ∧ pe.received_l1 = pe.expected_l1) ∧
    ¬ (s.shard 0).stalled True := by
  have h0 : 0 < twoStrips.num_shards := Nat.two_pos
  have h1 : 1 < twoStrips.num_shards := Nat.one_lt_two
  have n0 : 0 < kPerIterCap := by decide
  have n1 : 1 < kPerIterCap := by decide
  have n2 : 2 < kPerIterCap := by decide
  have hs : ReflTransGen (twoStrips.ApartStep ℤ) init _ := .refl
  replace hs := hs.tail ⟨_, .event (.inBounds (eventAt 7) 7 rfl (by decide) (by decide)), trivial⟩
  replace hs := hs.tail ⟨_,
    .producer (.send 1 ⟨0, 0, 0, 7⟩ [] none _ rfl (.loadHead rfl)), .send rfl fun _ _ _ => rfl⟩
  replace hs := hs.tail ⟨_,
    .producer (.send 1 ⟨0, 0, 0, 7⟩ [] none _ rfl (.loadTail _ rfl (by decide))), .send rfl nofun⟩
  replace hs := hs.tail ⟨_,
    .producer (.send 1 ⟨0, 0, 0, 7⟩ [] none _ rfl (.write _ _ () rfl (Finset.mem_univ _))), .send rfl nofun⟩
  replace hs := hs.tail ⟨_,
    .producer (.send 1 ⟨0, 0, 0, 7⟩ [] (some true) _ rfl (.storeHead _ rfl)), .send rfl nofun⟩
  -- Shard 1 answers the request for layer 0.
  replace hs := hs.tail ⟨_, .shard 1 h1 (.endOwn 0 false rfl fun _ => rfl), .quiet rfl⟩
  replace hs := hs.tail ⟨_,
    .shard 1 h1 (.popContrib 0 false none _ rfl n0 (.loadTail (fun _ => ⟨0, 0, 0, 0⟩) rfl)), .quiet rfl⟩
  replace hs := hs.tail ⟨_,
    .shard 1 h1 (.popContrib 0 false none _ rfl n0 (.loadHead _ _ rfl (by decide))), .quiet rfl⟩
  replace hs := hs.tail ⟨_,
    .shard 1 h1 (.popContrib 0 false none _ rfl n0 (.read _ _ _ () rfl (Finset.mem_univ _))), .quiet rfl⟩
  replace hs := hs.tail ⟨_,
    .shard 1 h1 (.popContrib 0 false (some (some _)) _ rfl n0 (.storeTail _ _ rfl)), .quiet rfl⟩
  replace hs := hs.tail ⟨_,
    .shard 1 h1 (.answer 1 0 ⟨0, 0⟩ none _ rfl (.loadHead rfl)), .push rfl fun _ _ _ => rfl⟩
  replace hs := hs.tail ⟨_,
    .shard 1 h1 (.answer 1 0 ⟨0, 0⟩ none _ rfl (.loadTail _ rfl (by decide))), .push rfl nofun⟩
  replace hs := hs.tail ⟨_,
    .shard 1 h1 (.answer 1 0 ⟨0, 0⟩ none _ rfl (.write _ _ () rfl (Finset.mem_univ _))), .push rfl nofun⟩
  replace hs := hs.tail ⟨_,
    .shard 1 h1 (.answer 1 0 ⟨0, 0⟩ (some true) _ rfl (.storeHead _ rfl)), .push rfl nofun⟩
  -- Shard 0 matches the partial and asks for layer 1.
  replace hs := hs.tail ⟨_,
    .shard 0 h0 (.popOwn 0 false (.event 0 7 false true) [] rfl n0 rfl), .quiet rfl⟩
  replace hs := hs.tail ⟨_, .shard 0 h0 (.endOwn 1 true rfl fun _ => rfl), .quiet rfl⟩
  replace hs := hs.tail ⟨_,
    .shard 0 h0 (.popContrib 0 true none _ rfl n0 (.loadTail (fun _ => ⟨0, 0, 0, 0⟩) rfl)), .quiet rfl⟩
  replace hs := hs.tail ⟨_,
    .shard 0 h0 (.popContrib 0 true (some none) _ rfl n0 (.empty _ _ rfl rfl)), .quiet rfl⟩
  replace hs := hs.tail ⟨_,
    .shard 0 h0 (.popPartial 0 true none _ rfl n0 (.loadTail (fun _ => ⟨0, 0⟩) rfl)), .quiet rfl⟩
  replace hs := hs.tail ⟨_,
    .shard 0 h0 (.popPartial 0 true none _ rfl n0 (.loadHead _ _ rfl (by decide))), .quiet rfl⟩
  replace hs := hs.tail ⟨_,
    .shard 0 h0 (.popPartial 0 true none _ rfl n0 (.read _ _ _ () rfl (Finset.mem_univ _))), .quiet rfl⟩
  replace hs := hs.tail ⟨_,
    .shard 0 h0 (.popPartial 0 true (some (some _)) _ rfl n0 (.storeTail _ _ rfl)), .quiet rfl⟩
  replace hs := hs.tail ⟨_,
    .shard 0 h0 (.popPartial 1 true none _ rfl n1 (.loadTail (fun _ => ⟨0, 0⟩) rfl)), .quiet rfl⟩
  replace hs := hs.tail ⟨_,
    .shard 0 h0 (.popPartial 1 true (some none) _ rfl n1 (.empty _ _ rfl rfl)), .quiet rfl⟩
  replace hs := hs.tail ⟨_, .shard 0 h0 (.retryDeferred true rfl), .quiet rfl⟩
  replace hs := hs.tail ⟨_, .shard 0 h0 (.partialBacklogEmpty 0 true rfl h0 rfl), .quiet rfl⟩
  replace hs := hs.tail ⟨_, .shard 0 h0 (.contribBacklogEmpty 0 true rfl h0 rfl), .quiet rfl⟩
  replace hs := hs.tail ⟨_, .shard 0 h0 (.partialBacklogEmpty 1 true rfl h1 rfl), .quiet rfl⟩
  replace hs := hs.tail ⟨_, .shard 0 h0 (.contribBacklogEmpty 1 true rfl h1 rfl), .quiet rfl⟩
  replace hs := hs.tail ⟨_, .shard 0 h0 (.endBacklog true rfl), .quiet rfl⟩
  replace hs := hs.tail ⟨_,
    .shard 0 h0 (.finalizeL0 true ⟨false, 0, 7, 2, 2, 0, 0, false⟩ [] rfl rfl rfl rfl (by decide)),
    .quiet rfl⟩
  replace hs := hs.tail ⟨_,
    .shard 0 h0 (.request 1 ⟨1, 0, 0, 7⟩ [] none _ rfl (.loadHead rfl)),
    .push rfl fun _ j _ => by cases j <;> rfl⟩
  replace hs := hs.tail ⟨_,
    .shard 0 h0 (.request 1 ⟨1, 0, 0, 7⟩ [] none _ rfl (.loadTail _ rfl (by decide))), .push rfl nofun⟩
  replace hs := hs.tail ⟨_,
    .shard 0 h0 (.request 1 ⟨1, 0, 0, 7⟩ [] none _ rfl (.write _ _ () rfl (Finset.mem_univ _))),
    .push rfl nofun⟩
  replace hs := hs.tail ⟨_,
    .shard 0 h0 (.request 1 ⟨1, 0, 0, 7⟩ [] (some true) _ rfl (.storeHead _ rfl)), .push rfl nofun⟩
  replace hs := hs.tail ⟨_, .shard 0 h0 (.endRequest rfl), .quiet rfl⟩
  replace hs := hs.tail ⟨_, .shard 0 h0 (.stall true rfl (.inl (show 1 < 2 by decide))), .quiet rfl⟩
  replace hs := hs.tail ⟨_, .shard 0 h0 (.publish true rfl), .quiet rfl⟩
  replace hs := hs.tail ⟨_, .shard 0 h0 (.endOwn 0 false rfl fun _ => rfl), .quiet rfl⟩
  replace hs := hs.tail ⟨_,
    .shard 0 h0 (.popContrib 0 false none _ rfl n0 (.loadTail (fun _ => ⟨0, 0, 0, 0⟩) rfl)), .quiet rfl⟩
  replace hs := hs.tail ⟨_,
    .shard 0 h0 (.popContrib 0 false (some none) _ rfl n0 (.empty _ _ rfl rfl)), .quiet rfl⟩
  -- The same for layer 1.
  replace hs := hs.tail ⟨_,
    .shard 1 h1 (.popContrib 1 true none _ rfl n1 (.loadTail (fun _ => ⟨0, 0, 0, 0⟩) rfl)), .quiet rfl⟩
  replace hs := hs.tail ⟨_,
    .shard 1 h1 (.popContrib 1 true none _ rfl n1 (.loadHead _ _ rfl (by decide))), .quiet rfl⟩
  replace hs := hs.tail ⟨_,
    .shard 1 h1 (.popContrib 1 true none _ rfl n1 (.read _ _ _ () rfl (Finset.mem_univ _))), .quiet rfl⟩
  replace hs := hs.tail ⟨_,
    .shard 1 h1 (.popContrib 1 true (some (some _)) _ rfl n1 (.storeTail _ _ rfl)), .quiet rfl⟩
  replace hs := hs.tail ⟨_,
    .shard 1 h1 (.answer 2 0 ⟨1, 0⟩ none _ rfl (.loadHead rfl)),
    .push rfl fun _ j hj => (Function.update_of_ne hj ..).trans
      ((Function.update_of_ne hj ..).trans ((Function.update_of_ne hj ..).trans
        (Function.update_of_ne hj ..)))⟩
  replace hs := hs.tail ⟨_,
    .shard 1 h1 (.answer 2 0 ⟨1, 0⟩ none _ rfl (.loadTail _ rfl (by decide))), .push rfl nofun⟩
  replace hs := hs.tail ⟨_,
    .shard 1 h1 (.answer 2 0 ⟨1, 0⟩ none _ rfl (.write _ _ () rfl (Finset.mem_univ _))), .push rfl nofun⟩
  replace hs := hs.tail ⟨_,
    .shard 1 h1 (.answer 2 0 ⟨1, 0⟩ (some true) _ rfl (.storeHead _ rfl)), .push rfl nofun⟩
  replace hs := hs.tail ⟨_,
    .shard 0 h0 (.popPartial 0 false none _ rfl n0 (.loadTail (fun _ => ⟨0, 0⟩) rfl)), .quiet rfl⟩
  replace hs := hs.tail ⟨_,
    .shard 0 h0 (.popPartial 0 false none _ rfl n0 (.loadHead _ _ rfl (by decide))), .quiet rfl⟩
  replace hs := hs.tail ⟨_,
    .shard 0 h0 (.popPartial 0 false none _ rfl n0 (.read _ _ _ () rfl (Finset.mem_univ _))), .quiet rfl⟩
  replace hs := hs.tail ⟨_,
    .shard 0 h0 (.popPartial 0 false (some (some _)) _ rfl n0 (.storeTail _ _ rfl)), .quiet rfl⟩
  -- The event is handed over.
  have ht := hs
  replace ht := ht.tail ⟨_,
    .shard 0 h0 (.popPartial 1 true none _ rfl n1 (.loadTail (fun _ => ⟨0, 0⟩) rfl)), .quiet rfl⟩
  replace ht := ht.tail ⟨_,
    .shard 0 h0 (.popPartial 1 true (some none) _ rfl n1 (.empty _ _ rfl rfl)), .quiet rfl⟩
  replace ht := ht.tail ⟨_, .shard 0 h0 (.retryDeferred true rfl), .quiet rfl⟩
  replace ht := ht.tail ⟨_, .shard 0 h0 (.partialBacklogEmpty 0 true rfl h0 rfl), .quiet rfl⟩
  replace ht := ht.tail ⟨_, .shard 0 h0 (.contribBacklogEmpty 0 true rfl h0 rfl), .quiet rfl⟩
  replace ht := ht.tail ⟨_, .shard 0 h0 (.partialBacklogEmpty 1 true rfl h1 rfl), .quiet rfl⟩
  replace ht := ht.tail ⟨_, .shard 0 h0 (.contribBacklogEmpty 1 true rfl h1 rfl), .quiet rfl⟩
  replace ht := ht.tail ⟨_, .shard 0 h0 (.endBacklog true rfl), .quiet rfl⟩
  replace ht := ht.tail ⟨_,
    .shard 0 h0 (.forward true ⟨false, 0, 7, 2, 2, 2, 2, true⟩ [] rfl rfl rfl rfl (by decide) (by decide)),
    .quiet rfl⟩
  obtain ⟨-, -, hdrained⟩ := contributions_conserved twoStrips ℤ twoStrips_ownersFit _ hs
  obtain ⟨hconserved, hforwarded, -⟩ := contributions_conserved twoStrips ℤ twoStrips_ownersFit _ ht
  refine ⟨_, _, ⟨hs, ht, ?hd, rfl, rfl, rfl⟩, hconserved, hforwarded 0, (hdrained ?hd).1,
    (hdrained ?hd).2.1, ((hdrained ?hd).2.2 0 (by decide)).1,
    fun hstalled => absurd (((hdrained ?hd).2.2 0 (by decide)).2 hstalled) (List.cons_ne_nil _ _)⟩
  refine ⟨rfl, ?_, ?_, ?_, ?_, ?_, ?_⟩
  · intro k (hk : k < 2)
    interval_cases k <;> rfl
  · intro k (hk : k < 2)
    interval_cases k <;> rfl
  · intro k (hk : k < 2)
    interval_cases k <;> rfl
  · intro k (hk : k < 2)
    interval_cases k <;> exact ⟨rfl, rfl⟩
  · intro k (hk : k < 2)
    interval_cases k <;> rfl
  · intro k (hk : k < 2) ok _
    interval_cases k <;> exact ⟨rfl, rfl⟩

end Border

section Overlap

open Relation

def eightStrips : OwnerScheme := ⟨8, by decide, 8, 8, smallestRing⟩

theorem partial_lost : ∃ s : State, ReflTransGen (eightStrips.AnyStep ℤ) init s ∧
    Drained eightStrips s ∧ ¬ s.answered.Perm s.received ∧
      (s.shard 3).pending = [⟨false, 0, 3, 3, 2, 0, 0, false⟩] := by
  have h2 : 2 < eightStrips.num_shards := by decide
  have h3 : 3 < eightStrips.num_shards := by decide
  have h4 : 4 < eightStrips.num_shards := by decide
  have n0 : 0 < kPerIterCap := by decide
  have hs : ReflTransGen (eightStrips.AnyStep ℤ) init _ := .refl
  replace hs := hs.tail ⟨_, .event (.inBounds (eventAt 3) 3 rfl (by decide) (by decide))⟩
  replace hs := hs.tail ⟨_,
    .producer (.send 2 ⟨0, 3, 0, 3⟩ [(4, ⟨0, 3, 0, 3⟩)] none _ rfl (.loadHead rfl))⟩
  replace hs := hs.tail ⟨_,
    .producer (.send 2 ⟨0, 3, 0, 3⟩ [(4, ⟨0, 3, 0, 3⟩)] none _ rfl (.loadTail _ rfl (by decide)))⟩
  replace hs := hs.tail ⟨_,
    .producer (.send 2 ⟨0, 3, 0, 3⟩ [(4, ⟨0, 3, 0, 3⟩)] none _ rfl (.write _ _ () rfl (Finset.mem_univ _)))⟩
  replace hs := hs.tail ⟨_,
    .producer (.send 2 ⟨0, 3, 0, 3⟩ [(4, ⟨0, 3, 0, 3⟩)] (some true) _ rfl (.storeHead _ rfl))⟩
  replace hs := hs.tail ⟨_, .producer (.send 4 ⟨0, 3, 0, 3⟩ [] none _ rfl (.loadHead rfl))⟩
  replace hs := hs.tail ⟨_,
    .producer (.send 4 ⟨0, 3, 0, 3⟩ [] none _ rfl (.loadTail _ rfl (by decide)))⟩
  replace hs := hs.tail ⟨_,
    .producer (.send 4 ⟨0, 3, 0, 3⟩ [] none _ rfl (.write _ _ () rfl (Finset.mem_univ _)))⟩
  replace hs := hs.tail ⟨_, .producer (.send 4 ⟨0, 3, 0, 3⟩ [] (some true) _ rfl (.storeHead _ rfl))⟩
  -- Shard 2 has loaded the head of `q_partial_in[3]` when shard 4 pushes its partial there.
  replace hs := hs.tail ⟨_, .shard 2 h2 (.endOwn 0 false rfl fun _ => rfl)⟩
  replace hs := hs.tail ⟨_,
    .shard 2 h2 (.popContrib 0 false none _ rfl n0 (.loadTail (fun _ => ⟨0, 0, 0, 0⟩) rfl))⟩
  replace hs := hs.tail ⟨_,
    .shard 2 h2 (.popContrib 0 false none _ rfl n0 (.loadHead _ _ rfl (by decide)))⟩
  replace hs := hs.tail ⟨_,
    .shard 2 h2 (.popContrib 0 false none _ rfl n0 (.read _ _ _ () rfl (Finset.mem_univ _)))⟩
  replace hs := hs.tail ⟨_,
    .shard 2 h2 (.popContrib 0 false (some (some _)) _ rfl n0 (.storeTail _ _ rfl))⟩
  replace hs := hs.tail ⟨_, .shard 2 h2 (.answer 1 3 ⟨0, 0⟩ none _ rfl (.loadHead rfl))⟩
  replace hs := hs.tail ⟨_, .shard 2 h2 (.answer 1 3 ⟨0, 0⟩ none _ rfl (.loadTail _ rfl (by decide)))⟩
  replace hs := hs.tail ⟨_, .shard 4 h4 (.endOwn 0 false rfl fun _ => rfl)⟩
  replace hs := hs.tail ⟨_,
    .shard 4 h4 (.popContrib 0 false none _ rfl n0 (.loadTail (fun _ => ⟨0, 0, 0, 0⟩) rfl))⟩
  replace hs := hs.tail ⟨_,
    .shard 4 h4 (.popContrib 0 false none _ rfl n0 (.loadHead _ _ rfl (by decide)))⟩
  replace hs := hs.tail ⟨_,
    .shard 4 h4 (.popContrib 0 false none _ rfl n0 (.read _ _ _ () rfl (Finset.mem_univ _)))⟩
  replace hs := hs.tail ⟨_,
    .shard 4 h4 (.popContrib 0 false (some (some _)) _ rfl n0 (.storeTail _ _ rfl))⟩
  replace hs := hs.tail ⟨_, .shard 4 h4 (.answer 1 3 ⟨0, 0⟩ none _ rfl (.loadHead rfl))⟩
  replace hs := hs.tail ⟨_, .shard 4 h4 (.answer 1 3 ⟨0, 0⟩ none _ rfl (.loadTail _ rfl (by decide)))⟩
  replace hs := hs.tail ⟨_,
    .shard 4 h4 (.answer 1 3 ⟨0, 0⟩ none _ rfl (.write _ _ () rfl (Finset.mem_univ _)))⟩
  replace hs := hs.tail ⟨_, .shard 4 h4 (.answer 1 3 ⟨0, 0⟩ (some true) _ rfl (.storeHead _ rfl))⟩
  replace hs := hs.tail ⟨_,
    .shard 2 h2 (.answer 1 3 ⟨0, 0⟩ none _ rfl (.write _ _ () rfl (Finset.mem_univ _)))⟩
  replace hs := hs.tail ⟨_, .shard 2 h2 (.answer 1 3 ⟨0, 0⟩ (some true) _ rfl (.storeHead _ rfl))⟩
  -- Shard 3 finds one partial.
  replace hs := hs.tail ⟨_, .shard 3 h3 (.popOwn 0 false (.event 0 3 true true) [] rfl n0 rfl)⟩
  replace hs := hs.tail ⟨_, .shard 3 h3 (.endOwn 1 true rfl fun _ => rfl)⟩
  replace hs := hs.tail ⟨_,
    .shard 3 h3 (.popContrib 0 true none _ rfl n0 (.loadTail (fun _ => ⟨0, 0, 0, 0⟩) rfl))⟩
  replace hs := hs.tail ⟨_, .shard 3 h3 (.popContrib 0 true (some none) _ rfl n0 (.empty _ _ rfl rfl))⟩
  replace hs := hs.tail ⟨_,
    .shard 3 h3 (.popPartial 0 true none _ rfl n0 (.loadTail (fun _ => ⟨0, 0⟩) rfl))⟩
  replace hs := hs.tail ⟨_,
    .shard 3 h3 (.popPartial 0 true none _ rfl n0 (.loadHead _ _ rfl (by decide)))⟩
  replace hs := hs.tail ⟨_,
    .shard 3 h3 (.popPartial 0 true none _ rfl n0 (.read _ _ _ () rfl (Finset.mem_univ _)))⟩
  replace hs := hs.tail ⟨_,
    .shard 3 h3 (.popPartial 0 true (some (some _)) _ rfl n0 (.storeTail _ _ rfl))⟩
  refine ⟨_, hs, ⟨rfl, ?_, ?_, ?_, ?_, ?_, ?_⟩, fun hperm => ?_, rfl⟩
  · decide
  · intro k (hk : k < 8)
    interval_cases k <;> rfl
  · intro k (hk : k < 8)
    interval_cases k <;> rfl
  · intro k (hk : k < 8)
    interval_cases k <;> exact ⟨rfl, rfl⟩
  · intro k (hk : k < 8)
    interval_cases k <;> rfl
  · intro k (hk : k < 8) ok hok
    interval_cases k <;> exact ⟨rfl, rfl⟩
  · exact absurd hperm.length_eq (by decide)

end Overlap

end OwnerScheme

end SslaRt
