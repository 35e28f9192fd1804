import SslaRt.OwnerSchemeCount
import Mathlib.Algebra.Order.BigOperators.Group.Finset

/-! Every step of scheme 4 that begins no push beside another one keeps the ledger. -/

namespace SslaRt

namespace OwnerScheme

open Bag Finset SharedRing

variable {p : OwnerScheme} {R : Type*} {s s' : State} {k : Nat}

section Requests

variable {layer seq x : Nat}

theorem contribs_keys (hk : k < 256) :
    (p.contribs k layer seq x : Multiset (Nat × ContribMsg)).map (·.2.key) =
      Multiset.replicate ((p.needLeft k x).toNat + (p.needRight k x).toNat) (layer, k, seq) := by
  have hkey : (UInt8.ofNat k).toNat = k := by
    rw [UInt8.toNat_ofNat']
    exact Nat.mod_eq_of_lt hk
  unfold contribs
  cases p.needLeft k x <;> cases p.needRight k x <;>
    simp [ContribMsg.key, hkey, Multiset.replicate_succ]
  rfl

theorem contribs_target (hk : k < p.num_shards) (hk' : k < 256) :
    ∀ m ∈ p.contribs k layer seq x, m.1 < p.num_shards ∧ m.2.owner_shard.toNat < p.num_shards := by
  have hkey : (UInt8.ofNat k).toNat = k := by
    rw [UInt8.toNat_ofNat']
    exact Nat.mod_eq_of_lt hk'
  intro m hm
  rcases List.mem_append.mp hm with hm | hm
  · split at hm
    · rw [List.mem_singleton.mp hm]
      exact ⟨(Nat.sub_le k 1).trans_lt hk, hkey.symm ▸ hk⟩
    · exact absurd hm List.not_mem_nil
  · split at hm
    · rename_i hright
      have hlt : k < p.num_shards - 1 := by
        simp only [needRight, Bool.and_eq_true, decide_eq_true_eq] at hright
        exact hright.1
      rw [List.mem_singleton.mp hm]
      exact ⟨by omega, hkey.symm ▸ hk⟩
    · exact absurd hm List.not_mem_nil

end Requests

section Owed

variable {q_own : List OwnMsg} {sh : Shard} {κ : Key}

theorem Shard.mem_owed (h : κ ∈ sh.owed k q_own) : κ.2.1 = k := by
  rcases Multiset.mem_add.mp h with h | h
  · obtain ⟨pe, -, hin⟩ := mem_sum_map.mp h
    rcases (PendingEvent.mem_owed hin).2 with ⟨hκ, -⟩ | ⟨hκ, -⟩ <;> rw [hκ]
  · obtain ⟨m, -, hin⟩ := mem_sum_map.mp h
    exact (OwnMsg.mem_owed hin).1

theorem count_owed (hk : κ.2.1 < p.num_shards) :
    Multiset.count κ (s.owed p) = Multiset.count κ ((s.shard κ.2.1).owed κ.2.1 (s.q_own κ.2.1)) := by
  rw [State.owed, Multiset.count_sum']
  refine Finset.sum_eq_single_of_mem _ (mem_range.mpr hk) fun j _ hj => ?_
  exact Multiset.count_eq_zero_of_notMem fun hin => hj (Shard.mem_owed hin).symm

theorem Ledger.key_owed (h : Ledger p s) (hk : k < p.num_shards) {pm : PartialMsg}
    (hin : (k, pm) ∈ s.partials p) : pm.key k ∈ (s.shard k).owed k (s.q_own k) := by
  have hkey : pm.key k ∈ (s.partials p).map fun m => m.2.key m.1 := Multiset.mem_map_of_mem _ hin
  have hflight : pm.key k ∈ s.owed p := by
    rw [← h.flight]
    exact Multiset.mem_add.mpr (.inl (Multiset.mem_add.mpr (.inr hkey)))
  have hcount := count_owed (s := s) (κ := pm.key k) hk
  rw [← Multiset.count_pos] at hflight ⊢
  exact hcount ▸ hflight

theorem Ledger.deferred_le (h : Ledger p s) (hk : k < p.num_shards) :
    (s.shard k).deferred k ≤ (s.shard k).owed k (s.q_own k) := by
  refine Multiset.le_iff_count.mpr fun κ => ?_
  by_cases hκ : κ.2.1 = k
  · subst hκ
    have hone : Multiset.count κ ((s.shard κ.2.1).deferred κ.2.1) ≤
        Multiset.count κ (s.deferred p) := by
      rw [State.deferred, Multiset.count_sum']
      exact Finset.single_le_sum (f := fun j => Multiset.count κ ((s.shard j).deferred j))
        (fun _ _ => Nat.zero_le _) (mem_range.mpr hk)
    have hflight := congrArg (Multiset.count κ) h.flight
    rw [count_owed hk, State.flight, Multiset.count_add] at hflight
    omega
  · have hnot : κ ∉ (s.shard k).deferred k := by
      intro hin
      obtain ⟨pm, -, hpm⟩ := List.mem_map.mp (Multiset.mem_coe.mp hin)
      exact hκ (hpm ▸ rfl)
    rw [Multiset.count_eq_zero_of_notMem hnot]
    exact Nat.zero_le _

theorem Inv.sound (h : Inv p s) (hl : Ledger p s) (k : Nat) : (s.shard k).Sound p k (s.q_own k) :=
  ⟨h.pairwise_unsent, hl.pending k⟩

end Owed

section Shards

theorem mem_contribs (hk : k < p.num_shards) {m : Nat × ContribMsg}
    (hm : m ∈ (s.shard k).contribs p.num_shards) : m ∈ s.contribs p :=
  Multiset.mem_add.mpr (.inr (Multiset.mem_sum.mpr ⟨k, mem_range.mpr hk, hm⟩))

theorem mem_partials (hk : k < p.num_shards) {m : Nat × PartialMsg}
    (hm : m ∈ (s.shard k).partials p.num_shards) : m ∈ s.partials p :=
  Multiset.mem_add.mpr (.inr (Multiset.mem_sum.mpr ⟨k, mem_range.mpr hk, hm⟩))

/-- A step that only moves the shard on. -/
theorem Ledger.pc (h : Ledger p s) (hk : k < p.num_shards) {pc : ShardPc}
    (hh : Hands k { s.shard k with pc := pc } s s') (hc : s'.q_contrib = s.q_contrib)
    (hp : s'.q_partial_in = s.q_partial_in) (htodo : pc.todo = (s.shard k).pc.todo)
    (hanswer : pc.answer = (s.shard k).pc.answer) : Ledger p s' := by
  refine h.hands hk hh (Shard.Sends.pc htodo hanswer) ⟨?_, ?_⟩ ⟨?_, ?_⟩
  · rw [hc]
    exact h.q_contrib
  · rw [hc, add_zero]
  · rw [hp]
    exact h.q_partial_in
  · rw [hp, add_zero]

theorem Ledger.set_pc (h : Ledger p s) (hk : k < p.num_shards) {pc : ShardPc}
    (htodo : pc.todo = (s.shard k).pc.todo) (hanswer : pc.answer = (s.shard k).pc.answer) :
    Ledger p (setShard s k { s.shard k with pc := pc }) :=
  h.pc hk ⟨rfl, rfl, rfl, rfl, rfl, rfl, rfl, rfl⟩ rfl rfl htodo hanswer

theorem Shard.owed_takeOwn {sh : Shard} {q : List OwnMsg} (n : Nat) (m : OwnMsg) :
    (sh.takeOwn n m).owed k q = sh.owed k (m :: q) := by
  cases m with
  | eof =>
    rw [Shard.owed, Shard.owed, List.map_cons, List.sum_cons]
    exact congrArg (_ + ·) (zero_add _).symm
  | marker seq =>
    rw [Shard.owed, Shard.owed, List.map_cons, List.sum_cons, Shard.takeOwn, List.map_append,
      List.sum_append]
    exact (add_assoc _ _ _).trans (congrArg (_ + ·) (congrArg (· + _) (List.sum_singleton)))
  | event seq x need_left need_right =>
    have hentry : (⟨false, seq, x, 1 + need_left.toNat + need_right.toNat, 1, 0, 0, false⟩ :
        PendingEvent).owed k = (OwnMsg.event seq x need_left need_right).owed k := by
      have hsub : 1 + need_left.toNat + need_right.toNat - 1 = need_left.toNat + need_right.toNat := by omega
      simp [PendingEvent.owed, OwnMsg.owed, hsub]
    rw [Shard.owed, Shard.owed, List.map_cons, List.sum_cons, Shard.takeOwn, List.map_append,
      List.sum_append, List.map_singleton, List.sum_singleton, hentry]
    exact add_assoc _ _ _

theorem Ledger.take_own (h : Ledger p s) (hk : k < p.num_shards) {n : Nat} {d : Bool} {m : OwnMsg}
    {q : List OwnMsg} (hpc : (s.shard k).pc = .own n d) (hq : s.q_own k = m :: q) :
    Ledger p { setShard s k ((s.shard k).takeOwn n m) with q_own := Function.update s.q_own k q } := by
  have hsame : ((s.shard k).takeOwn n m).outgoing_contribs = (s.shard k).outgoing_contribs ∧
      ((s.shard k).takeOwn n m).outgoing_partials = (s.shard k).outgoing_partials ∧
      ((s.shard k).takeOwn n m).deferred_partials = (s.shard k).deferred_partials ∧
      ((s.shard k).takeOwn n m).pc = .own (n + 1) true := by
    cases m <;> exact ⟨rfl, rfl, rfl, rfl⟩
  have hhome := h.own k m (hq ▸ List.mem_cons_self)
  refine h.matches hk (z := 0) ⟨rfl, rfl, rfl, rfl, rfl, rfl, rfl⟩ ?_ ?_ ⟨h.q_partial_in, add_zero _⟩
    (add_zero _).symm ?_ (fun m' hm' => h.own k m' (hq ▸ List.mem_cons_of_mem _ hm'))
    (fun pe hpe hm => ?_) h.forwarded
  · rw [Shard.contribs, Shard.contribs, hsame.1, hsame.2.2.2, hpc]
    rfl
  · rw [Shard.partials, Shard.partials, hsame.2.1, hsame.2.2.2, hpc]
    rfl
  · rw [Shard.owed_takeOwn, ← hq, Shard.deferred, Shard.deferred, hsame.2.2.1]
    exact add_zero _
  · cases m with
    | eof => exact h.pending k pe hpe hm
    | marker seq =>
      rcases List.mem_append.mp hpe with hpe | hpe
      · exact h.pending k pe hpe hm
      · rw [List.mem_singleton.mp hpe] at hm
        exact absurd hm Bool.noConfusion
    | event seq x need_left need_right =>
      rcases List.mem_append.mp hpe with hpe | hpe
      · exact h.pending k pe hpe hm
      · rw [List.mem_singleton.mp hpe]
        exact ⟨hhome.1, hhome.2, by dsimp only; omega, le_rfl,
          fun hl => absurd hl Bool.false_ne_true, fun _ => ⟨rfl, rfl⟩⟩

theorem Ledger.pop_contrib (h : Ledger p s) (hk : k < p.num_shards) {n : Nat} {d : Bool}
    {res : Option (Option (Unit → ContribMsg))} {r : SharedRing Thread Unit ContribMsg}
    (hpc : (s.shard k).pc = .contrib n d) (hst : TryPop p.ring (s.q_contrib k) res r) :
    Ledger p { setContrib (setShard s k ((s.shard k).afterContrib n d res)) k r with
      worked := s.worked ++ (res.bind id).toList.map fun cm => (k, cm ())
      answered := s.answered ++ (res.bind id).toList.map fun cm => Shard.answerOf (cm ()) } := by
  have htodo : (s.shard k).pc.todo = [] := hpc ▸ rfl
  have hanswer : (s.shard k).pc.answer = [] := hpc ▸ rfl
  rcases res with _ | _ | cm
  · exact h.hands hk (b := s.shard k) (x := 0) (y := 0) ⟨rfl, rfl, rfl, rfl, List.append_nil _,
      List.append_nil _, rfl, rfl⟩ ⟨rfl, rfl, (add_zero _).symm, (add_zero _).symm⟩
      (h.q_contrib.pop_nothing hk hst rfl) ⟨h.q_partial_in, (add_zero _).symm⟩
  · exact h.hands hk (x := 0) (y := 0) ⟨rfl, rfl, rfl, rfl, List.append_nil _,
      List.append_nil _, rfl, rfl⟩ (Shard.Sends.pc htodo.symm hanswer.symm)
      (h.q_contrib.pop_nothing hk hst rfl) ⟨h.q_partial_in, (add_zero _).symm⟩
  · refine h.take hk rfl rfl ?_ ?_ (h.q_contrib.pop hk hst)
    · rw [Shard.contribs, Shard.contribs, htodo]
      rfl
    · rw [Shard.partials, Shard.partials, hanswer, Multiset.coe_nil, zero_add, add_comm]
      rfl

theorem Shard.matchPartial_outgoing (sh : Shard) (pm : PartialMsg) :
    (sh.matchPartial pm).outgoing_contribs = sh.outgoing_contribs ∧
      (sh.matchPartial pm).outgoing_partials = sh.outgoing_partials := by
  unfold Shard.matchPartial
  split <;> exact ⟨rfl, rfl⟩

theorem Ledger.pop_partial (h : Ledger p s) (hinv : Inv p s) (hk : k < p.num_shards) {n : Nat} {d : Bool}
    {res : Option (Option (Unit → PartialMsg))} {r : SharedRing Thread Unit PartialMsg}
    (hpc : (s.shard k).pc = .partials n d) (hst : TryPop p.ring (s.q_partial_in k) res r) :
    Ledger p { setPartial (setShard s k ((s.shard k).afterPartial n d res)) k r with
      received := s.received ++ (res.bind id).toList.map fun pm => (k, pm ()) } := by
  have htodo : (s.shard k).pc.todo = [] := hpc ▸ rfl
  have hanswer : (s.shard k).pc.answer = [] := hpc ▸ rfl
  rcases res with _ | _ | pm
  · exact h.hands hk (b := s.shard k) (x := 0) (y := 0) ⟨rfl, rfl, rfl, rfl, rfl, rfl,
      List.append_nil _, rfl⟩ ⟨rfl, rfl, (add_zero _).symm, (add_zero _).symm⟩
      ⟨h.q_contrib, (add_zero _).symm⟩ (h.q_partial_in.pop_nothing hk hst rfl)
  · exact h.hands hk (x := 0) (y := 0) ⟨rfl, rfl, rfl, rfl, rfl, rfl, List.append_nil _, rfl⟩
      (Shard.Sends.pc htodo.symm hanswer.symm) ⟨h.q_contrib, (add_zero _).symm⟩
      (h.q_partial_in.pop_nothing hk hst rfl)
  · have hpop := h.q_partial_in.pop hk hst
    have hin : (k, pm ()) ∈ s.partials p := by
      refine Multiset.mem_add.mpr (.inl ?_)
      rw [← hpop.2]
      exact Multiset.mem_add.mpr (.inr (Multiset.mem_singleton_self _))
    obtain ⟨hsound, hbalance⟩ := (hinv.sound h k).matchPartial (h.key_owed hk hin)
    obtain ⟨hcontribs, hpartials⟩ := (s.shard k).matchPartial_outgoing (pm ())
    refine h.matches hk (z := {(k, pm ())})
      ⟨rfl, rfl, (Function.update_eq_self ..).symm, rfl, rfl, rfl, rfl⟩ ?_ ?_ hpop ?_ hbalance
      (h.own k) hsound.counted h.forwarded
    · rw [Shard.contribs, Shard.contribs, htodo, ← hcontribs]
      rfl
    · rw [Shard.partials, Shard.partials, hanswer, ← hpartials]
      rfl
    · exact (Multiset.coe_add _ _).symm

theorem Shard.retryDeferred_outgoing (pms : List PartialMsg) (sh : Shard) :
    (pms.foldl Shard.matchPartial sh).outgoing_contribs = sh.outgoing_contribs ∧
      (pms.foldl Shard.matchPartial sh).outgoing_partials = sh.outgoing_partials := by
  induction pms generalizing sh with
  | nil => exact ⟨rfl, rfl⟩
  | cons pm pms ih =>
    obtain ⟨hcontribs, hpartials⟩ := sh.matchPartial_outgoing pm
    obtain ⟨hc, hp⟩ := ih (sh.matchPartial pm)
    exact ⟨hc.trans hcontribs, hp.trans hpartials⟩

theorem Ledger.retry_deferred (h : Ledger p s) (hinv : Inv p s) (hk : k < p.num_shards) {d d' : Bool}
    (hpc : (s.shard k).pc = .deferred d) :
    Ledger p (setShard s k { (s.shard k).retryDeferred with pc := .partialBacklog 0 d' }) := by
  have hsound : Shard.Sound p k (s.q_own k) { s.shard k with deferred_partials := [] } :=
    ⟨(hinv.sound h k).sorted, (hinv.sound h k).counted⟩
  obtain ⟨hsound', hbalance⟩ := hsound.foldl_matchPartial (s.shard k).deferred_partials
    (le_of_eq_of_le (add_zero _) (h.deferred_le hk))
  obtain ⟨hc, hp⟩ := Shard.retryDeferred_outgoing (s.shard k).deferred_partials
    { s.shard k with deferred_partials := [] }
  refine h.matches hk (z := 0) ⟨rfl, rfl, (Function.update_eq_self ..).symm, rfl, rfl, rfl, rfl⟩ ?_ ?_
    ⟨h.q_partial_in, add_zero _⟩ (add_zero _).symm ?_ (h.own k) hsound'.counted h.forwarded
  · rw [Shard.contribs, Shard.contribs, hpc]
    exact congrArg (fun f => _ + ∑ ok ∈ range p.num_shards, backlogItems ok (f ok)) hc
  · rw [Shard.partials, Shard.partials, hpc]
    exact congrArg (fun f => _ + ∑ ok ∈ range p.num_shards, backlogItems ok (f ok)) hp
  · have hnil : Shard.deferred k { s.shard k with deferred_partials := [] } = 0 := rfl
    rw [hnil, add_zero] at hbalance
    exact (add_zero _).trans hbalance

/-- A message that is owed nothing more goes to the stage thread. -/
theorem Ledger.push_stage (h : Ledger p s) (hk : k < p.num_shards) {d : Bool} {pe : PendingEvent}
    {rest : List PendingEvent} {out : Nat → List Msg} {forwarded : Nat → List PendingEvent}
    (hpc : (s.shard k).pc = .cascade d) (hp : (s.shard k).pending = pe :: rest)
    (howed : pe.owed k = 0)
    (hforwarded : ∀ j, ∀ pe ∈ forwarded j,
      pe.received_l0 = pe.expected_l0 ∧ pe.received_l1 = pe.expected_l1) :
    Ledger p { setShard s k { s.shard k with pc := .cascade true, pending := rest } with
      q_to_stage := out, forwarded := forwarded } := by
  refine h.matches hk (z := 0) (q := s.q_own k)
    ⟨rfl, rfl, (Function.update_eq_self ..).symm, rfl, rfl, rfl, rfl⟩ ?_ ?_
    ⟨h.q_partial_in, add_zero _⟩ (add_zero _).symm ?_ (h.own k) (fun pe' hpe' => ?_) hforwarded
  · rw [Shard.contribs, Shard.contribs, hpc]
    rfl
  · rw [Shard.partials, Shard.partials, hpc]
    rfl
  · rw [Shard.owed, Shard.owed, hp, List.map_cons, List.sum_cons, howed, zero_add]
    exact add_zero _
  · exact h.pending k pe' (hp ▸ List.mem_cons_of_mem _ hpe')

theorem PendingEvent.Counted.ready {pe : PendingEvent} (h : pe.Counted p k) (hl : pe.l0_done = true)
    (hr : ¬ pe.received_l1 < pe.expected_l1) :
    pe.received_l0 = pe.expected_l0 ∧ pe.received_l1 = pe.expected_l1 :=
  ⟨h.l0_done hl, le_antisymm h.l1 (not_lt.mp hr)⟩

theorem PendingEvent.owed_of_eq {pe : PendingEvent}
    (h : pe.received_l0 = pe.expected_l0 ∧ pe.received_l1 = pe.expected_l1) : pe.owed k = 0 := by
  rw [PendingEvent.owed, h.1, h.2, Nat.sub_self, Nat.sub_self]
  split <;> rfl

theorem Ledger.forward (h : Ledger p s) (hk : k < p.num_shards) {d : Bool} {pe : PendingEvent}
    {rest : List PendingEvent} {out : Nat → List Msg} (hpc : (s.shard k).pc = .cascade d)
    (hp : (s.shard k).pending = pe :: rest) (hm : pe.is_marker = false) (hl : pe.l0_done = true)
    (hr : ¬ pe.received_l1 < pe.expected_l1) :
    Ledger p { setShard s k { s.shard k with pc := .cascade true, pending := rest } with
      q_to_stage := out
      forwarded := Function.update s.forwarded k (s.forwarded k ++ [pe]) } := by
  have heq := (h.pending k pe (hp ▸ List.mem_cons_self) hm).ready hl hr
  refine h.push_stage hk hpc hp (PendingEvent.owed_of_eq heq) fun j pe' hpe' => ?_
  by_cases hj : j = k
  · rw [hj, Function.update_self] at hpe'
    rcases List.mem_append.mp hpe' with hpe' | hpe'
    · exact h.forwarded k pe' hpe'
    · exact List.mem_singleton.mp hpe' ▸ heq
  · rw [Function.update_of_ne hj] at hpe'
    exact h.forwarded j pe' hpe'

/-- The shard asks its neighbours for the partials of layer 1. -/
theorem Ledger.finalize (h : Ledger p s) (hfit : p.OwnersFit) (hk : k < p.num_shards) {d : Bool}
    {pe : PendingEvent} {rest : List PendingEvent} (hpc : (s.shard k).pc = .cascade d)
    (hp : (s.shard k).pending = pe :: rest) (hm : pe.is_marker = false) (hl : pe.l0_done = false)
    (hr : ¬ pe.received_l0 < pe.expected_l0) :
    Ledger p { setShard s k
        { s.shard k with
          pc := .requesting (p.contribs k 1 pe.seq pe.x)
          pending :=
            { pe with
              l0_done := true
              received_l1 := pe.received_l1 + 1
              expected_l1 := 1 + (p.needLeft k pe.x).toNat + (p.needRight k pe.x).toNat } :: rest } with
      requested := s.requested ++ p.contribs k 1 pe.seq pe.x } := by
  have hc := h.pending k pe (hp ▸ List.mem_cons_self) hm
  have hk' : k < 256 := hc.owner ▸ hfit pe.x hc.column
  obtain ⟨he, hr1⟩ := hc.l0_open hl
  set pe' : PendingEvent := { pe with
    l0_done := true
    received_l1 := pe.received_l1 + 1
    expected_l1 := 1 + (p.needLeft k pe.x).toNat + (p.needRight k pe.x).toNat } with hpe'
  have howed : pe'.owed k = pe.owed k +
      (p.contribs k 1 pe.seq pe.x : Multiset (Nat × ContribMsg)).map (·.2.key) := by
    have hsub : 1 + (p.needLeft k pe.x).toNat + (p.needRight k pe.x).toNat - (0 + 1) =
        (p.needLeft k pe.x).toNat + (p.needRight k pe.x).toNat := by omega
    rw [contribs_keys hk', hpe', PendingEvent.owed, PendingEvent.owed, he, hr1, hm, if_neg Bool.false_ne_true,
      if_neg Bool.false_ne_true, hsub, Nat.sub_zero, Multiset.replicate_zero, add_zero]
  have hmem := mem_range.mpr hk
  refine h.request (l := p.contribs k 1 pe.seq pe.x) ?_ ?_ ?_ ?_ (contribs_target hk hk') h.q_contrib
    h.q_partial_in rfl rfl rfl rfl rfl h.own fun j pe'' hpe'' hm'' => ?_
  · have hgain := sum_update_gain hmem (fun _ sh => Shard.contribs p.num_shards sh) s.shard
      (b := { s.shard k with pc := .requesting (p.contribs k 1 pe.seq pe.x), pending := pe' :: rest })
      (x := (p.contribs k 1 pe.seq pe.x : Multiset (Nat × ContribMsg))) ?_
    · exact (congrArg (_ + ·) hgain).trans (add_assoc _ _ _).symm
    · rw [Shard.contribs, Shard.contribs, hpc, add_comm]
      exact congrArg (· + _) (zero_add _).symm
  · refine congrArg (_ + ·) (sum_update_same (fun _ sh => Shard.partials p.num_shards sh) s.shard ?_)
    rw [Shard.partials, Shard.partials, hpc]
    rfl
  · exact sum_update_same (fun j sh => Shard.deferred j sh) s.shard rfl
  · refine sum_update_gain hmem (fun j sh => Shard.owed j (s.q_own j) sh) s.shard ?_
    rw [Shard.owed, Shard.owed, hp, List.map_cons, List.map_cons, List.sum_cons, List.sum_cons, howed]
    abel
  · dsimp only [setShard] at hpe''
    by_cases hj : j = k
    · rw [hj, Function.update_self] at hpe''
      rcases List.mem_cons.mp hpe'' with rfl | hpe''
      · rw [hj]
        exact ⟨hc.column, hc.owner, hc.l0, by rw [hpe']; dsimp only; omega,
          fun _ => le_antisymm hc.l0 (not_lt.mp hr), fun hl => absurd hl.symm Bool.false_ne_true⟩
      · exact hj ▸ h.pending k pe'' (hp ▸ List.mem_cons_of_mem _ hpe'') hm''
    · rw [Function.update_of_ne hj] at hpe''
      exact h.pending j pe'' hpe'' hm''

theorem Ledger.shard_step (h : Ledger p s) (hinv : Inv p s) (hfit : p.OwnersFit) (hk : k < p.num_shards)
    (hs : p.ShardStep k s s') (ha : Apart s (.shard k)) : Ledger p s' := by
  cases hs with
  | popOwn n d m q hpc hn hq => exact h.take_own hk hpc hq
  | endOwn n d hpc hend => exact h.set_pc hk (hpc ▸ rfl) (hpc ▸ rfl)
  | popContrib n d res r hpc hn hst => exact h.pop_contrib hk hpc hst
  | endContrib n d hpc hn => exact h.set_pc hk (hpc ▸ rfl) (hpc ▸ rfl)
  | answer n owner pm res r hpc hst =>
    have hin : (owner, pm) ∈ (s.shard k).partials p.num_shards := by
      rw [Shard.partials, hpc]
      exact Multiset.mem_add.mpr (.inl (Multiset.mem_singleton_self _))
    have howner := h.owner _ (mem_partials hk hin)
    have hfree := ha (.partialIn owner) (by rw [Shard.target, hpc])
    exact h.hands hk ⟨rfl, rfl, rfl, rfl, rfl, rfl, rfl, rfl⟩ (Shard.afterAnswer_sends res hpc howner)
      ⟨h.q_contrib, (add_zero _).symm⟩ (h.q_partial_in.push howner hst hfree)
  | popPartial n d res r hpc hn hst => exact h.pop_partial hinv hk hpc hst
  | endPartials n d hpc hn => exact h.set_pc hk (hpc ▸ rfl) (hpc ▸ rfl)
  | retryDeferred d hpc => exact h.retry_deferred hinv hk hpc
  | partialBacklogEmpty ok d hpc hok he => exact h.set_pc hk (hpc ▸ rfl) (hpc ▸ rfl)
  | partialBacklog ok d pm todo res r hpc hok he hst =>
    have hfree := ha (.partialIn ok) (by rw [Shard.target, hpc]; simp [he])
    exact h.hands hk ⟨rfl, rfl, rfl, rfl, rfl, rfl, rfl, rfl⟩
      (Shard.afterPartialBacklog_sends res hpc hok he) ⟨h.q_contrib, (add_zero _).symm⟩
      (h.q_partial_in.push hok hst hfree)
  | contribBacklogEmpty ok d hpc hok he => exact h.set_pc hk (hpc ▸ rfl) (hpc ▸ rfl)
  | contribBacklog ok d cm todo res r hpc hok he hst =>
    have hfree := ha (.contrib ok) (by rw [Shard.target, hpc]; simp [he])
    exact h.hands hk ⟨rfl, rfl, rfl, rfl, rfl, rfl, rfl, rfl⟩
      (Shard.afterContribBacklog_sends res hpc hok he) (h.q_contrib.push hok hst hfree)
      ⟨h.q_partial_in, (add_zero _).symm⟩
  | endBacklog d hpc => exact h.set_pc hk (hpc ▸ rfl) (hpc ▸ rfl)
  | forwardMarker d pe rest hpc hp hm hroom =>
    exact h.push_stage hk hpc hp (if_pos hm) h.forwarded
  | finalizeL0 d pe rest hpc hp hm hl hr => exact h.finalize hfit hk hpc hp hm hl hr
  | request t cm todo res r hpc hst =>
    have hin : (t, cm) ∈ (s.shard k).contribs p.num_shards := by
      rw [Shard.contribs, hpc]
      exact Multiset.mem_add.mpr (.inl (Multiset.mem_coe.mpr List.mem_cons_self))
    have ht := (h.target _ (mem_contribs hk hin)).1
    have hfree := ha (.contrib t) (by rw [Shard.target, hpc])
    exact h.hands hk ⟨rfl, rfl, rfl, rfl, rfl, rfl, rfl, rfl⟩ (Shard.afterRequest_sends res hpc ht)
      (h.q_contrib.push ht hst hfree) ⟨h.q_partial_in, (add_zero _).symm⟩
  | endRequest hpc => exact h.set_pc hk (hpc ▸ rfl) (hpc ▸ rfl)
  | forward d pe rest hpc hp hm hl hr hroom => exact h.forward hk hpc hp hm hl hr
  | stall d hpc hs => exact h.set_pc hk (hpc ▸ rfl) (hpc ▸ rfl)
  | publish d hpc =>
    obtain ⟨pc, hpc', htodo, hanswer⟩ : ∃ pc, (s.shard k).afterPublish p.num_shards d =
        { s.shard k with pc := pc } ∧ pc.todo = [] ∧ pc.answer = [] := by
      unfold Shard.afterPublish
      split <;> exact ⟨_, rfl, rfl, rfl⟩
    refine h.pc hk ⟨rfl, ?_, rfl, rfl, rfl, rfl, rfl, rfl⟩ rfl rfl (htodo.trans (hpc ▸ rfl))
      (hanswer.trans (hpc ▸ rfl))
    rw [← hpc']
    rfl
  | exit hpc =>
    exact h.pc hk ⟨rfl, rfl, rfl, rfl, rfl, rfl, rfl, rfl⟩ rfl rfl (hpc ▸ rfl) (hpc ▸ rfl)

end Shards

section Producer

/-- Nothing that the ledger is about changes. -/
theorem Ledger.frame (h : Ledger p s) (htodo : s'.producer.todo = s.producer.todo)
    (hc : s'.q_contrib = s.q_contrib) (hp : s'.q_partial_in = s.q_partial_in) (hsh : s'.shard = s.shard)
    (hrequested : s'.requested = s.requested) (hworked : s'.worked = s.worked)
    (hanswered : s'.answered = s.answered) (hreceived : s'.received = s.received)
    (hforwarded : s'.forwarded = s.forwarded)
    (howed : s'.owed p = s.owed p) (hown : ∀ k, ∀ m ∈ s'.q_own k, m.Home p k) : Ledger p s' := by
  have hcontribs : s'.contribs p = s.contribs p := by rw [State.contribs, State.contribs, htodo, hc, hsh]
  have hpartials : s'.partials p = s.partials p := by rw [State.partials, State.partials, hp, hsh]
  have hdeferred : s'.deferred p = s.deferred p := by rw [State.deferred, State.deferred, hsh]
  refine h.request (l := []) (hcontribs.trans (add_zero _).symm) hpartials hdeferred
    (howed.trans (add_zero _).symm) (fun _ hm => absurd hm List.not_mem_nil) (hc ▸ h.q_contrib)
    (hp ▸ h.q_partial_in) (hrequested.trans (List.append_nil _).symm) hworked hanswered hreceived
    hforwarded hown ?_
  rw [hsh]
  exact h.pending

/-- A message of the producer adds what it is owed. -/
theorem owed_pushOwn (hk : k < p.num_shards) (m : OwnMsg) :
    (pushOwn s k m).owed p = s.owed p + m.owed k := by
  refine sum_update_gain (mem_range.mpr hk) (fun j q => Shard.owed j q (s.shard j)) s.q_own ?_
  rw [Shard.owed, Shard.owed, List.map_append, List.sum_append, List.map_singleton, List.sum_singleton]
  exact (add_assoc _ _ _).symm

theorem home_pushOwn (h : ∀ k, ∀ m ∈ s.q_own k, m.Home p k) {m : OwnMsg} (hm : m.Home p k) :
    ∀ j, ∀ m' ∈ (pushOwn s k m).q_own j, m'.Home p j := by
  intro j m' hm'
  dsimp only [pushOwn] at hm'
  by_cases hj : j = k
  · rw [hj, Function.update_self] at hm'
    rcases List.mem_append.mp hm' with hm' | hm'
    · exact hj ▸ h k m' hm'
    · rw [hj, List.mem_singleton.mp hm']
      exact hm
  · rw [Function.update_of_ne hj] at hm'
    exact h j m' hm'

theorem column_lt {e : Event R} {x : Nat} (he : p.column e = some x) : x < p.W := by
  unfold column at he
  dsimp only at he
  split at he
  · exact nomatch he
  · obtain rfl := Option.some.inj he
    omega

theorem owner_lt (p : OwnerScheme) (x : Nat) : p.owner x < p.num_shards := by
  have hpos := p.shards_pos
  unfold owner shardOfCol
  dsimp only
  split <;> omega

theorem Ledger.event_step (h : Ledger p s) (hfit : p.OwnersFit) (hs : p.EventStep (R := R) s s') :
    Ledger p s' := by
  cases hs with
  | outOfBounds e hpc he =>
    exact h.frame rfl rfl rfl rfl rfl rfl rfl rfl rfl rfl h.own
  | inBounds e x hpc he hroom =>
    have hx := column_lt he
    have hk := owner_lt p x
    have hk' := hfit x hx
    refine h.request (l := p.contribs (p.owner x) 0 s.next x) ?_ rfl rfl ?_ (contribs_target hk hk')
      h.q_contrib h.q_partial_in rfl rfl rfl rfl rfl (home_pushOwn h.own ⟨hx, rfl⟩) h.pending
    · rw [State.contribs, State.contribs, hpc]
      change _ + _ + _ = 0 + _ + _ + _
      rw [zero_add, add_assoc, add_comm]
      rfl
    · rw [contribs_keys hk']
      exact owed_pushOwn hk _

theorem Ledger.producer_step (h : Ledger p s) (hs : p.ProducerStep s s') (ha : Apart s .producer) :
    Ledger p s' := by
  cases hs with
  | send t cm todo res r hpc hst =>
    have hin : (t, cm) ∈ s.contribs p := by
      rw [State.contribs, hpc]
      exact Multiset.mem_add.mpr (.inl (Multiset.mem_add.mpr (.inl
        (Multiset.mem_coe.mpr List.mem_cons_self))))
    have ht := (h.target _ hin).1
    have hfree := ha (.contrib t) (by rw [hpc]; rfl)
    obtain ⟨hheld, hring⟩ := h.q_contrib.push ht hst hfree
    have htodo : ((if res = some true then .requesting todo else s.producer : ProducerPc).todo :
        Multiset (Nat × ContribMsg)) + sent res (t, cm) = s.producer.todo := by
      rw [sent, hpc]
      split
      · exact (add_comm _ _).trans (Multiset.singleton_add _ _)
      · exact add_zero _
    refine h.request (l := []) ?_ rfl rfl (add_zero _).symm (fun _ hm => absurd hm List.not_mem_nil)
      hheld h.q_partial_in (List.append_nil _).symm rfl rfl rfl rfl h.own h.pending
    rw [State.contribs, State.contribs, ← htodo]
    dsimp only [setContrib]
    rw [hring, Multiset.coe_nil]
    abel
  | sent hpc => exact h.frame (by rw [hpc]; rfl) rfl rfl rfl rfl rfl rfl rfl rfl rfl h.own
  | beginMarker last hpc => exact h.frame (by rw [hpc]; rfl) rfl rfl rfl rfl rfl rfl rfl rfl rfl h.own
  | pushMarker seq last k hpc hk hroom =>
    exact h.frame (by rw [hpc]; rfl) rfl rfl rfl rfl rfl rfl rfl rfl
      ((owed_pushOwn hk _).trans (add_zero _)) (home_pushOwn h.own trivial)
  | endMarker seq last hpc => exact h.frame (by rw [hpc]; rfl) rfl rfl rfl rfl rfl rfl rfl rfl rfl h.own
  | wait seq last hpc hdone =>
    refine h.frame ?_ rfl rfl rfl rfl rfl rfl rfl rfl rfl h.own
    rw [hpc]
    dsimp only
    split <;> rfl
  | pushEof k hpc hk hroom =>
    exact h.frame (by rw [hpc]; rfl) rfl rfl rfl rfl rfl rfl rfl rfl
      ((owed_pushOwn hk _).trans (add_zero _)) (home_pushOwn h.own trivial)
  | endEof hpc => exact h.frame (by rw [hpc]; rfl) rfl rfl rfl rfl rfl rfl rfl rfl rfl h.own

theorem Ledger.stage_step (h : Ledger p s) (hs : p.StageStep s s') : Ledger p s' := by
  cases hs <;> exact h.frame rfl rfl rfl rfl rfl rfl rfl rfl rfl rfl h.own

end Producer

end OwnerScheme

end SslaRt
