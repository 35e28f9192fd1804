import SslaRt.ProbePipeline
import SslaRt.SumSchemeExact

/-! What the stages of scheme 3 receive: in every run the events in their order, and
with each the features of stage 0. -/

namespace SslaRt

namespace SumScheme

variable {R : Type*} [CommRing R] {p : SumScheme R} {s : State R} {events : List (Event R)}

/-- A message that carries the result of one of the events. -/
def Finalised (p : SumScheme R) (ops : List (ProducerOp R)) (s : State R) (m : StageInMsg R) : Prop :=
  ∃ em ∈ eventMetas ops, ∃ v₀ v₁,
    Collected p (s.log .l0) em.job v₀ ∧
    Collected p (s.log .l1)
      ⟨em.seq, em.x, em.y, featBuf (p.layerFinalize .l0 (featBuf em.feat_in) v₀)⟩ v₁ ∧
    m = .event em.seq em.x em.y
      (p.layerFinalize .l1 (featBuf (p.layerFinalize .l0 (featBuf em.feat_in) v₀)) v₁)

theorem Inv.finalised {ops : List (ProducerOp R)} (hinv : Inv p ops s) {seq x y : Nat}
    {feat : Fin kC0 → R} (hm : .event seq x y feat ∈ s.sent) :
    Finalised p ops s (.event seq x y feat) := by
  obtain ⟨j, hj, v₁, hc₁, rfl, rfl, rfl, rfl⟩ :=
    hinv.results seq x y feat (List.mem_append_left _ hm)
  obtain ⟨em, hem, v₀, hc₀, rfl⟩ := hinv.jobs j hj
  exact ⟨em, hem, v₀, v₁, hc₀, hc₁, rfl⟩

section Line

variable {body : List (ProducerOp R)} (hb : Body p events body)
  (hline : InLine (body ++ .wait_marker events.length :: p.closing) s)
include hb hline

theorem received_seqs : eventSeqs s.received <+: p.keptSeqs 0 events := by
  rw [← line_seqs hb hline]
  unfold State.line State.forwarded
  rw [List.append_assoc, eventSeqs_append]
  exact List.prefix_append _ _

/-- A marker has all smaller events before it and no other. -/
theorem received_marker {a b : List Item} {q : Nat} (heq : s.received = a ++ .marker q :: b) :
    eventSeqs a = (p.keptSeqs 0 events).filter (· < q) ∧ ∀ e ∈ eventSeqs b, q ≤ e := by
  have hplaced := line_placed hb hline
  have hseqs := line_seqs hb hline
  unfold State.line State.forwarded at hplaced hseqs
  rw [heq, List.append_assoc, List.append_assoc, List.cons_append] at hplaced hseqs
  obtain ⟨hbefore, hafter⟩ := hplaced.marker
  constructor
  · rw [← hseqs, eventSeqs_append, List.filter_append,
      List.filter_eq_self.mpr fun e he => by simpa using hbefore e he]
    rw [List.filter_eq_nil_iff.mpr fun e he => ?_, List.append_nil]
    simpa using hafter e he
  · intro e he
    refine hafter e ?_
    rw [eventSeqs_append]
    exact List.mem_append_left _ he

theorem received_all (hall : AllSent p events s) : eventSeqs s.received = p.keptSeqs 0 events := by
  obtain ⟨rest, hrest⟩ := received_seqs hb hline
  have hnd : (p.keptSeqs 0 events).Nodup := by
    rw [← line_seqs hb hline]
    exact (line_placed hb hline).nodup
  have hnil : rest = [] := by
    refine List.eq_nil_iff_forall_not_mem.mpr fun e he => ?_
    rw [← hrest] at hnd
    have hmem : e ∈ eventSeqs s.received :=
      mem_eventSeqs.mpr (hall e (hrest ▸ List.mem_append_right _ he))
    exact (List.nodup_append.mp hnd).2.2 e hmem e he rfl
  rw [← hrest, hnil, List.append_nil]

end Line

omit [CommRing R] in
/-- Once `main` has passed its last wait, all events have been sent on. -/
theorem closing_allSent (hc : Closing p events s) (hops : s.ops <:+ p.closing) : AllSent p events s := by
  rcases hc.ops with ⟨body, heq, -⟩ | ⟨hall, -⟩
  · have hmem : .wait_marker events.length ∈ s.ops := by
      rw [heq]
      exact List.mem_append_right _ List.mem_cons_self
    have hno := hops.subset hmem
    simp [closing] at hno
  · exact hall

theorem two_shards : 0 < 2 ∧ 2 ≤ 16 := by decide

/-- Two shards over a small grid, with queues of one element. -/
def probeScheme : SumScheme ℤ where
  toSslaSPipeline := probePipeline 8 8 1
  num_shards := 2
  shards_pos := two_shards.1
  shards_le := two_shards.2
  capacity := 1

/-- The second event is out of bounds. -/
def probeEvents : List (Event ℤ) := [⟨0, 1, 0, 1⟩, ⟨1, 9, 0, 1⟩, ⟨2, 4, 3, 1⟩]

theorem probe_kept : probeScheme.keptSeqs 0 probeEvents = [0, 2] := by decide

theorem probe_finishes : ∃ s, probeScheme.Reachable (probeScheme.program probeEvents 1 (some 1)) s ∧
    eventSeqs s.received = [0, 2] := by
  obtain ⟨body, hb, hprogram⟩ := probeScheme.program_body probeEvents 1 (some 1)
  rw [hprogram]
  obtain ⟨t, ht, hall⟩ := reachable_finishes hb Nat.one_pos Relation.ReflTransGen.refl
  exact ⟨t, ht, (received_all hb (reachable_line hb ht) hall).trans probe_kept⟩

/-- In every run the stages get the events in bounds once and in order, each marker behind
the events of smaller numbers and no other, the end behind all events, and all of them
before `main` leaves its last wait. An event comes with what layer 1 makes of one partial
of every affected shard for each layer. -/
theorem stages_receive (p : SumScheme R) (events : List (Event R)) (warmup : Nat)
    (oracle_every : Option Nat) (s : State R)
    (h : p.Reachable (p.program events warmup oracle_every) s) :
    eventSeqs s.received <+: p.keptSeqs 0 events ∧
      (∀ a q b, s.received = a ++ .marker q :: b →
        eventSeqs a = (p.keptSeqs 0 events).filter (· < q) ∧ ∀ e ∈ eventSeqs b, q ≤ e) ∧
      (s.ops <:+ p.closing → eventSeqs s.received = p.keptSeqs 0 events) ∧
      (.eof ∈ s.sent → eventSeqs s.received = p.keptSeqs 0 events ∧
        ∃ a, s.sent = a ++ [.eof] ∧ .eof ∉ a) ∧
      ∀ seq x y feat, .event seq x y feat ∈ s.sent →
        Finalised p (p.program events warmup oracle_every) s (.event seq x y feat) := by
  obtain ⟨body, hb, hprogram⟩ := p.program_body events warmup oracle_every
  rw [hprogram] at h ⊢
  have hinv := reachable_inv (program_driven hb) h
  have hclosing := reachable_closing hb h
  refine ⟨received_seqs hb hinv.line, fun a q b => received_marker hb hinv.line,
    fun hops => received_all hb hinv.line (closing_allSent hclosing hops), fun heof => ?_,
    fun seq x y feat => hinv.finalised⟩
  rcases hclosing.eof with hno | ⟨hall, -, hlast⟩
  · exact absurd heof hno
  · exact ⟨received_all hb hinv.line hall, hlast⟩

theorem stages_receive_probe : ∃ s : State ℤ, eventSeqs s.received = [0, 2] ∧
    ∀ a q b, s.received = a ++ .marker q :: b →
      eventSeqs a = ([0, 2] : List Nat).filter (· < q) ∧ ∀ e ∈ eventSeqs b, q ≤ e := by
  obtain ⟨s, hs, hseqs⟩ := probe_finishes
  have hh := (stages_receive probeScheme probeEvents 1 (some 1) s hs).2.1
  rw [probe_kept] at hh
  exact ⟨s, hseqs, hh⟩

/-- With room in the queues no run is stuck before the stages have all events. -/
theorem run_finishes (p : SumScheme R) (hcap : 0 < p.capacity) (events : List (Event R)) (warmup : Nat)
    (oracle_every : Option Nat) (s : State R)
    (h : p.Reachable (p.program events warmup oracle_every) s) :
    ∃ t, Relation.ReflTransGen p.Step s t ∧ eventSeqs t.received = p.keptSeqs 0 events := by
  obtain ⟨body, hb, hprogram⟩ := p.program_body events warmup oracle_every
  rw [hprogram] at h
  obtain ⟨t, ht, hall⟩ := reachable_finishes hb hcap h
  exact ⟨t, ht, received_all hb (reachable_line hb (h.trans ht)) hall⟩

theorem run_finishes_probe : ∃ t, Relation.ReflTransGen probeScheme.Step
    (init (probeScheme.program probeEvents 1 (some 1))) t ∧ eventSeqs t.received = [0, 2] := by
  rw [← probe_kept]
  exact run_finishes probeScheme Nat.one_pos probeEvents 1 (some 1) _ Relation.ReflTransGen.refl

/-- What the stages get does not depend on the interleaving: it is what the affected
shards of each event give one after the other. -/
theorem run_deterministic (p : SumScheme R) (events : List (Event R)) (warmup : Nat)
    (oracle_every : Option Nat) (s : State R)
    (h : p.Reachable (p.program events warmup oracle_every) s) :
    s.sent.filter StageInMsg.isEvent <+:
      Scan.outs p.shardedEvent 0 (eventMetas (p.program events warmup oracle_every)) := by
  obtain ⟨body, hb, hprogram⟩ := p.program_body events warmup oracle_every
  rw [hprogram] at h ⊢
  exact results_sharded (program_driven hb) h

theorem run_deterministic_probe : ∃ s : State ℤ, eventSeqs s.received = [0, 2] ∧
    s.sent.filter StageInMsg.isEvent <+: Scan.outs probeScheme.shardedEvent 0
      (eventMetas (probeScheme.program probeEvents 1 (some 1))) := by
  obtain ⟨s, hs, hseqs⟩ := probe_finishes
  exact ⟨s, hseqs, run_deterministic probeScheme probeEvents 1 (some 1) s hs⟩

end SumScheme

end SslaRt
