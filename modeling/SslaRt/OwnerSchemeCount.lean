import SslaRt.Bag
import SslaRt.OwnerSchemeMatch

/-! The steps of scheme 4 lose and duplicate no request and no partial as long as the
pushes into a shared queue do not overlap. -/

namespace SslaRt

namespace OwnerScheme

open Bag Finset SharedRing

variable {p : OwnerScheme} {R : Type*} {s s' : State} {k t : Nat}

section Rings

variable {M : Type*} {q : Nat → SharedRing Thread Unit M} {r : SharedRing Thread Unit M}
  {i : Thread} {m : M}

def sent {α : Type*} (res : Option Bool) (a : α) : Multiset α := if res = some true then {a} else 0

theorem Held.update (h : p.Held q) {l : List (Unit → M)} (hr : r.Keeps p.ring l) :
    p.Held (Function.update q t r) := by
  intro j
  by_cases hj : j = t
  · rw [hj, Function.update_self, hr.waiting_eq]
    exact hr
  · rw [Function.update_of_ne hj]
    exact h j

theorem Held.push (h : p.Held q) {res : Option Bool} (ht : t < p.num_shards)
    (hst : TryPush p.ring i (fun _ => m) (q t) res r) (hfree : (q t).pusher i = .idle → (q t).Alone i) :
    p.Held (Function.update q t r) ∧ p.ringBag (Function.update q t r) = p.ringBag q + sent res (t, m) := by
  have hkeeps := (h t).tryPush hst hfree
  refine ⟨h.update hkeeps, sum_update_gain (mem_range.mpr ht) p.ringItems q ?_⟩
  rw [ringItems, ringItems, hkeeps.waiting_eq, sent]
  split
  · rw [List.map_append, ← Multiset.coe_add]
    rfl
  · rw [add_zero]

theorem Held.pop (h : p.Held q) {res : Option (Option (Unit → M))} (hk : k < p.num_shards)
    (hst : TryPop p.ring (q k) res r) :
    p.Held (Function.update q k r) ∧
      p.ringBag (Function.update q k r) + ((res.bind id).toList.map fun m => (k, m ()) : List (Nat × M)) =
        p.ringBag q := by
  obtain ⟨l, hl, hkeeps⟩ := (h k).tryPop hst
  refine ⟨h.update hkeeps, sum_update_loss (mem_range.mpr hk) p.ringItems q ?_⟩
  rw [ringItems, ringItems, hkeeps.waiting_eq, hl, List.map_append, ← Multiset.coe_add, add_comm]

/-- A pop that returns nothing leaves the queues as they are. -/
theorem Held.pop_nothing (h : p.Held q) {res : Option (Option (Unit → M))} (hk : k < p.num_shards)
    (hst : TryPop p.ring (q k) res r) (hres : res.bind id = none) :
    p.Held (Function.update q k r) ∧ p.ringBag (Function.update q k r) = p.ringBag q + 0 := by
  obtain ⟨hheld, hring⟩ := h.pop hk hst
  rw [hres, Option.toList_none, List.map_nil, Multiset.coe_nil, add_zero] at hring
  exact ⟨hheld, hring.trans (add_zero _).symm⟩

end Rings

section Sends

/-- A shard hands over the requests `x` and the partials `y`; it matches nothing. -/
structure Shard.Sends (n : Nat) (sh sh' : Shard) (x : Multiset (Nat × ContribMsg))
    (y : Multiset (Nat × PartialMsg)) : Prop where
  pending : sh'.pending = sh.pending
  deferred : sh'.deferred_partials = sh.deferred_partials
  contribs : sh.contribs n = sh'.contribs n + x
  partials : sh.partials n = sh'.partials n + y

variable {sh : Shard} {n num_shards ok owner : Nat} {d : Bool} {pm : PartialMsg} {cm : ContribMsg}

theorem Shard.Sends.pc {pc : ShardPc} (htodo : pc.todo = sh.pc.todo) (hanswer : pc.answer = sh.pc.answer) :
    sh.Sends num_shards { sh with pc := pc } 0 0 := by
  refine ⟨rfl, rfl, ?_, ?_⟩
  · rw [Shard.contribs, Shard.contribs, htodo, add_zero]
  · rw [Shard.partials, Shard.partials, hanswer, add_zero]

theorem backlogItems_snoc {M : Type*} (ok : Nat) (l : List M) (m : M) :
    backlogItems ok (l ++ [m]) = backlogItems ok l + {(ok, m)} := by
  rw [backlogItems, List.map_append, ← Multiset.coe_add]
  rfl

theorem backlogItems_cons {M : Type*} (ok : Nat) (l : List M) (m : M) :
    backlogItems ok (m :: l) = backlogItems ok l + {(ok, m)} := by
  rw [backlogItems, List.map_cons, ← Multiset.cons_coe, ← Multiset.singleton_add, add_comm]
  rfl

theorem Shard.contribs_of_todo (num_shards : Nat) {l : List (Nat × ContribMsg)} (h : sh.pc.todo = l) :
    sh.contribs num_shards = l + ∑ ok ∈ range num_shards, backlogItems ok (sh.outgoing_contribs ok) := by
  rw [Shard.contribs, h]

theorem Shard.partials_of_answer (num_shards : Nat) {l : List (Nat × PartialMsg)}
    (h : sh.pc.answer = l) :
    sh.partials num_shards = l + ∑ ok ∈ range num_shards, backlogItems ok (sh.outgoing_partials ok) := by
  rw [Shard.partials, h]

theorem Shard.afterAnswer_sends (res : Option Bool) (hpc : sh.pc = .answering n owner pm)
    (howner : owner < num_shards) :
    sh.Sends num_shards (sh.afterAnswer n owner pm res) 0 (sent res (owner, pm)) := by
  have hcontribs := sh.contribs_of_todo num_shards (l := []) (hpc ▸ rfl)
  have hpartials := sh.partials_of_answer num_shards (l := [(owner, pm)]) (hpc ▸ rfl)
  rcases res with _ | _ | _
  · exact ⟨rfl, rfl, (add_zero _).symm, (add_zero _).symm⟩
  · refine ⟨rfl, rfl, hcontribs.trans (add_zero _).symm, ?_⟩
    have hsnoc := sum_update_gain (mem_range.mpr howner) backlogItems sh.outgoing_partials
      (backlogItems_snoc owner (sh.outgoing_partials owner) pm)
    rw [hpartials, add_comm]
    exact hsnoc.symm.trans ((zero_add _).symm.trans (add_zero _).symm)
  · refine ⟨rfl, rfl, hcontribs.trans (add_zero _).symm, ?_⟩
    rw [hpartials, add_comm]
    exact congrArg (· + _) (zero_add _).symm

theorem Shard.afterRequest_sends {todo : List (Nat × ContribMsg)} (res : Option Bool)
    (hpc : sh.pc = .requesting ((t, cm) :: todo)) (ht : t < num_shards) :
    sh.Sends num_shards (sh.afterRequest t cm todo res) (sent res (t, cm)) 0 := by
  have hcontribs := sh.contribs_of_todo num_shards (l := (t, cm) :: todo) (hpc ▸ rfl)
  have hpartials := sh.partials_of_answer num_shards (l := []) (hpc ▸ rfl)
  rw [← Multiset.cons_coe, ← Multiset.singleton_add] at hcontribs
  rcases res with _ | _ | _
  · exact ⟨rfl, rfl, (add_zero _).symm, (add_zero _).symm⟩
  · refine ⟨rfl, rfl, ?_, hpartials.trans (add_zero _).symm⟩
    have hsnoc := sum_update_gain (mem_range.mpr ht) backlogItems sh.outgoing_contribs
      (backlogItems_snoc t (sh.outgoing_contribs t) cm)
    rw [hcontribs, add_assoc, add_left_comm, add_comm {(t, cm)}, ← hsnoc]
    exact (add_zero _).symm
  · refine ⟨rfl, rfl, ?_, hpartials.trans (add_zero _).symm⟩
    rw [hcontribs, add_assoc, add_comm]
    rfl

theorem Shard.afterPartialBacklog_sends {todo : List PartialMsg} (res : Option Bool)
    (hpc : sh.pc = .partialBacklog ok d) (hok : ok < num_shards)
    (he : sh.outgoing_partials ok = pm :: todo) :
    sh.Sends num_shards (sh.afterPartialBacklog ok d todo res) 0 (sent res (ok, pm)) := by
  have hcontribs := sh.contribs_of_todo num_shards (l := []) (hpc ▸ rfl)
  have hpartials := sh.partials_of_answer num_shards (l := []) (hpc ▸ rfl)
  rcases res with _ | _ | _
  · exact ⟨rfl, rfl, (add_zero _).symm, (add_zero _).symm⟩
  · exact ⟨rfl, rfl, hcontribs.trans (add_zero _).symm, hpartials.trans (add_zero _).symm⟩
  · refine ⟨rfl, rfl, hcontribs.trans (add_zero _).symm, ?_⟩
    have htail := sum_update_loss (mem_range.mpr hok) backlogItems sh.outgoing_partials
      (he ▸ backlogItems_cons ok todo pm)
    rw [hpartials, ← htail, ← add_assoc]
    rfl

theorem Shard.afterContribBacklog_sends {todo : List ContribMsg} (res : Option Bool)
    (hpc : sh.pc = .contribBacklog ok d) (hok : ok < num_shards)
    (he : sh.outgoing_contribs ok = cm :: todo) :
    sh.Sends num_shards (sh.afterContribBacklog ok d todo res) (sent res (ok, cm)) 0 := by
  have hcontribs := sh.contribs_of_todo num_shards (l := []) (hpc ▸ rfl)
  have hpartials := sh.partials_of_answer num_shards (l := []) (hpc ▸ rfl)
  rcases res with _ | _ | _
  · exact ⟨rfl, rfl, (add_zero _).symm, (add_zero _).symm⟩
  · exact ⟨rfl, rfl, hcontribs.trans (add_zero _).symm, hpartials.trans (add_zero _).symm⟩
  · refine ⟨rfl, rfl, ?_, hpartials.trans (add_zero _).symm⟩
    have htail := sum_update_loss (mem_range.mpr hok) backlogItems sh.outgoing_contribs
      (he ▸ backlogItems_cons ok todo cm)
    rw [hcontribs, ← htail, ← add_assoc]
    rfl

end Sends

section Ledger

/-- What a step of shard `k` leaves as it is that only hands messages over. -/
structure Hands (k : Nat) (sh : Shard) (s s' : State) : Prop where
  producer : s'.producer = s.producer
  shard : s'.shard = Function.update s.shard k sh
  q_own : s'.q_own = s.q_own
  requested : s'.requested = s.requested
  worked : s'.worked = s.worked
  answered : s'.answered = s.answered
  received : s'.received = s.received
  forwarded : s'.forwarded = s.forwarded

theorem Ledger.hands (h : Ledger p s) (hk : k < p.num_shards) {b : Shard}
    {x : Multiset (Nat × ContribMsg)} {y : Multiset (Nat × PartialMsg)} (hh : Hands k b s s')
    (hsends : (s.shard k).Sends p.num_shards b x y)
    (hc : p.Held s'.q_contrib ∧ p.ringBag s'.q_contrib = p.ringBag s.q_contrib + x)
    (hp : p.Held s'.q_partial_in ∧ p.ringBag s'.q_partial_in = p.ringBag s.q_partial_in + y) :
    Ledger p s' := by
  have hmem := mem_range.mpr hk
  have hcontribs : s'.contribs p = s.contribs p := by
    have hloss := sum_update_loss hmem (fun _ sh => Shard.contribs p.num_shards sh) s.shard hsends.contribs
    rw [State.contribs, State.contribs, hh.producer, hh.shard, hc.2, ← hloss]
    abel
  have hpartials : s'.partials p = s.partials p := by
    have hloss := sum_update_loss hmem (fun _ sh => Shard.partials p.num_shards sh) s.shard hsends.partials
    rw [State.partials, State.partials, hh.shard, hp.2, ← hloss]
    abel
  have hdeferred : s'.deferred p = s.deferred p := by
    rw [State.deferred, State.deferred, hh.shard]
    exact sum_update_same (fun j sh => Shard.deferred j sh) s.shard
      (by rw [Shard.deferred, Shard.deferred, hsends.deferred])
  have howed : s'.owed p = s.owed p := by
    rw [State.owed, State.owed, hh.shard, hh.q_own]
    exact sum_update_same (fun j sh => Shard.owed j (s.q_own j) sh) s.shard
      (by rw [Shard.owed, Shard.owed, hsends.pending])
  refine ⟨hc.1, hp.1, ?_, ?_, ?_, ?_, ?_, ?_, ?_, fun j => ?_, ?_⟩
  · rw [hcontribs]
    exact h.target
  · rw [hpartials]
    exact h.owner
  · rw [hh.requested, hh.worked, hcontribs]
    exact h.requested
  · rw [hh.answered, hh.received, hpartials]
    exact h.answered
  · rw [hh.answered, hh.worked]
    exact h.replied
  · rw [State.flight, hcontribs, hpartials, hdeferred, howed]
    exact h.flight
  · rw [hh.q_own]
    exact h.own
  · rw [hh.shard]
    by_cases hj : j = k
    · rw [hj, Function.update_self, hsends.pending]
      exact h.pending k
    · rw [Function.update_of_ne hj]
      exact h.pending j
  · rw [hh.forwarded]
    exact h.forwarded

/-- A step of shard `k` that may take partials `z` from its queue and match some of its partials. -/
structure Matches (k : Nat) (sh : Shard) (q_own : List OwnMsg) (s s' : State) : Prop where
  producer : s'.producer = s.producer
  shard : s'.shard = Function.update s.shard k sh
  q_own : s'.q_own = Function.update s.q_own k q_own
  q_contrib : s'.q_contrib = s.q_contrib
  requested : s'.requested = s.requested
  worked : s'.worked = s.worked
  answered : s'.answered = s.answered

theorem Ledger.matches (h : Ledger p s) (hk : k < p.num_shards) {sh : Shard} {q : List OwnMsg}
    {z : Multiset (Nat × PartialMsg)} (hm : Matches k sh q s s')
    (hcontribs : sh.contribs p.num_shards = (s.shard k).contribs p.num_shards)
    (hpartials : sh.partials p.num_shards = (s.shard k).partials p.num_shards)
    (hring : p.Held s'.q_partial_in ∧ p.ringBag s'.q_partial_in + z = p.ringBag s.q_partial_in)
    (hreceived : (s'.received : Multiset (Nat × PartialMsg)) = s.received + z)
    (hbalance : sh.owed k q + (s.shard k).deferred k + z.map (fun m => m.2.key m.1) =
      (s.shard k).owed k (s.q_own k) + sh.deferred k)
    (hown : ∀ m ∈ q, m.Home p k)
    (hpending : ∀ pe ∈ sh.pending, pe.is_marker = false → pe.Counted p k)
    (hforwarded : ∀ j, ∀ pe ∈ s'.forwarded j,
      pe.received_l0 = pe.expected_l0 ∧ pe.received_l1 = pe.expected_l1) : Ledger p s' := by
  have hmem := mem_range.mpr hk
  have hc : s'.contribs p = s.contribs p := by
    rw [State.contribs, State.contribs, hm.producer, hm.shard, hm.q_contrib]
    exact congrArg (_ + ·) (sum_update_same (fun _ sh => Shard.contribs p.num_shards sh) s.shard hcontribs)
  have hp : s'.partials p + z = s.partials p := by
    rw [State.partials, State.partials, hm.shard, ← hring.2,
      sum_update_same (fun _ sh => Shard.partials p.num_shards sh) s.shard hpartials]
    exact add_right_comm _ _ _
  have hd : s'.deferred p + (s.shard k).deferred k = s.deferred p + sh.deferred k := by
    rw [State.deferred, State.deferred, hm.shard]
    exact sum_update hmem (fun j sh => Shard.deferred j sh) s.shard sh
  have ho : s'.owed p + (s.shard k).owed k (s.q_own k) = s.owed p + sh.owed k q := by
    have hpair : ∀ j, (Function.update s.shard k sh j).owed j (Function.update s.q_own k q j) =
        Shard.owed j (Function.update (fun j => (s.q_own j, s.shard j)) k (q, sh) j).1
          (Function.update (fun j => (s.q_own j, s.shard j)) k (q, sh) j).2 := by
      intro j
      by_cases hj : j = k
      · rw [hj, Function.update_self, Function.update_self, Function.update_self]
      · rw [Function.update_of_ne hj, Function.update_of_ne hj, Function.update_of_ne hj]
    rw [State.owed, State.owed, hm.shard, hm.q_own, Finset.sum_congr rfl fun j _ => hpair j]
    exact sum_update hmem (fun j (x : List OwnMsg × Shard) => Shard.owed j x.1 x.2)
      (fun j => (s.q_own j, s.shard j)) (q, sh)
  refine ⟨?_, hring.1, ?_, ?_, ?_, ?_, ?_, ?_, fun j => ?_, fun j => ?_, hforwarded⟩
  · rw [hm.q_contrib]
    exact h.q_contrib
  · rw [hc]
    exact h.target
  · exact fun m hm' => h.owner m (hp ▸ Multiset.mem_add.mpr (.inl hm'))
  · rw [hm.requested, hm.worked, hc]
    exact h.requested
  · rw [hm.answered, hreceived, h.answered, ← hp]
    abel
  · rw [hm.answered, hm.worked]
    exact h.replied
  · refine Multiset.ext.mpr fun κ => ?_
    have hflight := congrArg (Multiset.count κ) h.flight
    have hd' := congrArg (Multiset.count κ) hd
    have ho' := congrArg (Multiset.count κ) ho
    have hbalance' := congrArg (Multiset.count κ) hbalance
    have hp' := congrArg (fun m : Multiset (Nat × PartialMsg) =>
      Multiset.count κ (m.map fun m => m.2.key m.1)) hp
    simp only [State.flight, hc, Multiset.map_add, Multiset.count_add] at hflight hd' ho' hbalance' hp' ⊢
    omega
  · rw [hm.q_own]
    by_cases hj : j = k
    · rw [hj, Function.update_self]
      exact hown
    · rw [Function.update_of_ne hj]
      exact h.own j
  · rw [hm.shard]
    by_cases hj : j = k
    · rw [hj, Function.update_self]
      exact hpending
    · rw [Function.update_of_ne hj]
      exact h.pending j

/-- A shard takes a request and has the partial for its owner in hand. -/
theorem Ledger.take (h : Ledger p s) (hk : k < p.num_shards) {sh : Shard} {cm : ContribMsg}
    {q_contrib : Nat → SharedRing Thread Unit ContribMsg}
    (hpending : sh.pending = (s.shard k).pending)
    (hdeferred : sh.deferred_partials = (s.shard k).deferred_partials)
    (hcontribs : sh.contribs p.num_shards = (s.shard k).contribs p.num_shards)
    (hpartials : sh.partials p.num_shards =
      (s.shard k).partials p.num_shards + {Shard.answerOf cm})
    (hring : p.Held q_contrib ∧ p.ringBag q_contrib + {(k, cm)} = p.ringBag s.q_contrib) :
    Ledger p { setShard s k sh with
      q_contrib := q_contrib
      worked := s.worked ++ [(k, cm)]
      answered := s.answered ++ [Shard.answerOf cm] } := by
  have hmem := mem_range.mpr hk
  set s' : State := { setShard s k sh with
    q_contrib := q_contrib
    worked := s.worked ++ [(k, cm)]
    answered := s.answered ++ [Shard.answerOf cm] }
  have hrequested : s'.requested = s.requested := rfl
  have hworked : s'.worked = s.worked ++ [(k, cm)] := rfl
  have hanswered : s'.answered = s.answered ++ [Shard.answerOf cm] := rfl
  have hreceived : s'.received = s.received := rfl
  have hshard : s'.shard = Function.update s.shard k sh := rfl
  have hrings : s'.q_contrib = q_contrib := rfl
  have hproducer : s'.producer = s.producer := rfl
  have hc : s'.contribs p + {(k, cm)} = s.contribs p := by
    have hsum := sum_update_same (s := range p.num_shards)
      (fun _ sh => Shard.contribs p.num_shards sh) s.shard hcontribs
    rw [State.contribs, State.contribs, ← hring.2, ← hsum, hshard, hrings, hproducer]
    abel
  have hp : s'.partials p = s.partials p + {Shard.answerOf cm} := by
    have hsum := sum_update_gain hmem (fun _ sh => Shard.partials p.num_shards sh) s.shard hpartials
    rw [State.partials, State.partials, add_assoc, ← hsum]
    rfl
  have hd : s'.deferred p = s.deferred p :=
    sum_update_same (fun j sh => Shard.deferred j sh) s.shard
      (by rw [Shard.deferred, Shard.deferred, hdeferred])
  have ho : s'.owed p = s.owed p :=
    sum_update_same (fun j sh => Shard.owed j (s.q_own j) sh) s.shard
      (by rw [Shard.owed, Shard.owed, hpending])
  have htaken : (k, cm) ∈ s.contribs p := hc ▸ Multiset.mem_add.mpr (.inr (Multiset.mem_singleton_self _))
  refine ⟨hring.1, h.q_partial_in, fun m hm => ?_, fun m hm => ?_, ?_, ?_, ?_, ?_, h.own,
    fun j => ?_, h.forwarded⟩
  · exact h.target m (hc ▸ Multiset.mem_add.mpr (.inl hm))
  · rw [hp] at hm
    rcases Multiset.mem_add.mp hm with hm | hm
    · exact h.owner m hm
    · rw [Multiset.mem_singleton.mp hm]
      exact (h.target _ htaken).2
  · rw [hrequested, hworked, h.requested, ← hc, ← Multiset.coe_add, Multiset.coe_singleton]
    abel
  · rw [hp, hanswered, hreceived, ← Multiset.coe_add, h.answered, Multiset.coe_singleton]
    abel
  · rw [hanswered, hworked, List.map_append, ← h.replied]
    rfl
  · refine Multiset.ext.mpr fun κ => ?_
    have hflight := congrArg (Multiset.count κ) h.flight
    have hc' := congrArg (fun m : Multiset (Nat × ContribMsg) =>
      Multiset.count κ (m.map fun m => m.2.key)) hc
    simp only [State.flight, hp, hd, ho, Multiset.map_add, Multiset.count_add,
      Multiset.map_singleton] at hflight hc' ⊢
    have hkey : (Shard.answerOf cm).2.key (Shard.answerOf cm).1 = cm.key := rfl
    rw [hkey]
    omega
  · by_cases hj : j = k
    · rw [hshard, hj, Function.update_self, hpending]
      exact h.pending k
    · rw [hshard, Function.update_of_ne hj]
      exact h.pending j

/-- Requests are sent, and the events that they are for expect as many partials more. -/
theorem Ledger.request (h : Ledger p s) {l : List (Nat × ContribMsg)}
    (hcontribs : s'.contribs p = s.contribs p + l) (hpartials : s'.partials p = s.partials p)
    (hdeferred : s'.deferred p = s.deferred p)
    (howed : s'.owed p = s.owed p + (l : Multiset (Nat × ContribMsg)).map (·.2.key))
    (htarget : ∀ m ∈ l, m.1 < p.num_shards ∧ m.2.owner_shard.toNat < p.num_shards)
    (hq_contrib : p.Held s'.q_contrib) (hq_partial_in : p.Held s'.q_partial_in)
    (hrequested : s'.requested = s.requested ++ l) (hworked : s'.worked = s.worked)
    (hanswered : s'.answered = s.answered) (hreceived : s'.received = s.received)
    (hforwarded : s'.forwarded = s.forwarded) (hown : ∀ k, ∀ m ∈ s'.q_own k, m.Home p k)
    (hpending : ∀ k, ∀ pe ∈ (s'.shard k).pending, pe.is_marker = false → pe.Counted p k) :
    Ledger p s' := by
  refine ⟨hq_contrib, hq_partial_in, fun m hm => ?_, ?_, ?_, ?_, ?_, ?_,
    hown, hpending, ?_⟩
  · rw [hcontribs] at hm
    rcases Multiset.mem_add.mp hm with hm | hm
    · exact h.target m hm
    · exact htarget m hm
  · rw [hpartials]
    exact h.owner
  · rw [hrequested, hworked, hcontribs, ← Multiset.coe_add, h.requested]
    exact add_assoc _ _ _
  · rw [hanswered, hreceived, hpartials]
    exact h.answered
  · rw [hanswered, hworked]
    exact h.replied
  · have hflight := h.flight
    rw [State.flight] at hflight ⊢
    rw [hcontribs, hpartials, hdeferred, howed, ← hflight, Multiset.map_add]
    abel
  · rw [hforwarded]
    exact h.forwarded

end Ledger

end OwnerScheme

end SslaRt
