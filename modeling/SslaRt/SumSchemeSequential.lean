import SslaRt.SumSchemeSpec
import SslaRt.StageSpec

/-! Scheme 3 against stage 0 without shards: the same features for every event, as
long as none lies in the last column. -/

namespace SslaRt

namespace SumScheme

variable {R : Type*} [CommRing R] {p : SumScheme R} {s : State R} {events : List (Event R)}

/-- Stage 0 of the events one after the other, without shards. -/
def stage0Run (P : SslaSPipeline R) : PipeState R → Nat → List (Event R) → List (StageInMsg R)
  | _, _, [] => []
  | s, seq, e :: es =>
    let ex := castInt e.x
    let ey := castInt e.y
    if P.OutOfBounds ex ey then stage0Run P s (seq + 1) es
    else
      let r := P.preprocess s e
      let t := P.stageForward0 r.1 ex.toNat ey.toNat r.2
      .event seq ex.toNat ey.toNat t.2 :: stage0Run P t.1 (seq + 1) es

/-- The meta records that the producer pushes for a run of events. -/
def metasOf (p : SumScheme R) : PipeState R → Nat → List (Event R) → List (EventMeta R)
  | _, _, [] => []
  | s, seq, e :: es =>
    eventMetas (p.pushOne s seq e).2 ++ metasOf p (p.pushOne s seq e).1 (seq + 1) es

/-- The state of the producer after some events. -/
def stateAfter (p : SumScheme R) (s : PipeState R) (es : List (Event R)) : PipeState R :=
  es.foldl (fun s e => (p.pushOne s 0 e).1) s

theorem pushOne_state (s : PipeState R) (seq : Nat) (e : Event R) :
    (p.pushOne s seq e).1 = (p.pushOne s 0 e).1 := by
  unfold pushOne
  dsimp only
  split <;> rfl

theorem metasOf_append (a b : List (Event R)) (s : PipeState R) (seq : Nat) :
    p.metasOf s seq (a ++ b) = p.metasOf s seq a ++ p.metasOf (p.stateAfter s a) (seq + a.length) b := by
  induction a generalizing s seq with
  | nil => rfl
  | cons e a ih =>
    rw [List.cons_append, metasOf, metasOf, ih, List.append_assoc, pushOne_state, List.length_cons,
      show seq + 1 + a.length = seq + (a.length + 1) by omega]
    rfl

theorem pushEvents_metas {checkpoint : Nat → List (ProducerOp R)} (hc : Checkpoints p checkpoint)
    (es : List (Event R)) (s : PipeState R) (seq : Nat) :
    eventMetas (p.pushEvents checkpoint s seq es).2 = p.metasOf s seq es ∧
      (p.pushEvents checkpoint s seq es).1 = p.stateAfter s es := by
  induction es generalizing s seq with
  | nil => exact ⟨rfl, rfl⟩
  | cons e es ih =>
    have hnone : eventMetas (checkpoint seq) = [] := by
      have := hc.seqs seq
      rw [eventSeqs_items] at this
      exact List.map_eq_nil_iff.mp this
    obtain ⟨hmetas, hstate⟩ := ih (p.pushOne s seq e).1 (seq + 1)
    constructor
    · rw [pushEvents]
      dsimp only
      rw [eventMetas_append, eventMetas_append, hnone, List.nil_append, hmetas]
      rfl
    · rw [pushEvents]
      dsimp only
      rw [hstate, pushOne_state]
      rfl

omit [CommRing R] in
theorem closing_metas : eventMetas (p.closing) = [] := by
  have h := eventSeqs_items (p.closing)
  rw [closing_items] at h
  exact List.map_eq_nil_iff.mp h.symm

theorem program_metas (events : List (Event R)) (warmup : Nat) (oracle_every : Option Nat) :
    eventMetas (p.program events warmup oracle_every) = p.metasOf SslaSPipeline.reset 0 events := by
  have hlen : (events.take (min warmup events.length)).length = min warmup events.length := by
    rw [List.length_take]
    omega
  obtain ⟨h₁, hs⟩ := pushEvents_metas (p := p) checkpoints_none
    (events.take (min warmup events.length)) SslaSPipeline.reset 0
  obtain ⟨h₂, -⟩ := pushEvents_metas (p := p) (checkpoints_oracle (min warmup events.length) oracle_every)
    (events.drop (min warmup events.length))
    (p.pushEvents (fun _ => []) SslaSPipeline.reset 0 (events.take (min warmup events.length))).1
    (min warmup events.length)
  have hmark : ∀ q, eventMetas (markAndWait (R := R) q) = [] := fun _ => rfl
  unfold program
  dsimp only
  rw [eventMetas_append, eventMetas_append, eventMetas_append, eventMetas_append, h₁, h₂, hs, hmark,
    hmark, closing_metas, List.append_nil, List.append_nil, List.append_nil]
  conv_rhs => rw [← List.take_append_drop (min warmup events.length) events, metasOf_append, hlen,
    Nat.zero_add]

omit [CommRing R] in
theorem covered {num_pos x : Nat} (hx : x + 1 < p.W_) : ShardCovered num_pos x p.W_ p.num_shards :=
  ⟨(shardOfCol_lt p.shards_pos _).trans_le p.shards_le, fun _ => hx⟩

section Layers

variable (hp : p.Schema)
include hp

/-- The patches of the affected shards are all patches of the event, each once. -/
theorem sharded_layer0 (j : Job R) (hx : j.x + 1 < p.W_) (H_all : Nat → Fin kC0 → R) :
    ((p.sharded .l0 j H_all).1, p.layerFinalize .l0 j.feat (p.sharded .l0 j H_all).2) =
      p.layer0 j.x j.y (readFeat kInDim j.feat) H_all := by
  have hh := shardedLayer_eq p.ar kInDim kC0 (p.layers_ 0) j.x j.y (p.Hs_ 0) (p.Ws_ 0)
    (readFeat kInDim j.feat) p.num_shards p.shards_pos (by rw [Ws_zero]; exact covered hx)
    (List.Perm.refl _) H_all
  rw [layer0_eq hp]
  refine Eq.trans ?_ hh
  rw [Ws_zero]
  unfold sharded part
  rw [Ws_zero]
  rfl

theorem sharded_layer1 (j : Job R) (hx : j.x + 1 < p.W_) (H_all : Nat → Fin kC0 → R) :
    ((p.sharded .l1 j H_all).1, p.layerFinalize .l1 j.feat (p.sharded .l1 j H_all).2) =
      p.layer1 j.x j.y (readFeat kC0 j.feat) H_all := by
  have hh := shardedLayer_eq p.ar kC0 kC0 (p.layers_ 1) j.x j.y (p.Hs_ 0) (p.Ws_ 0)
    (readFeat kC0 j.feat) p.num_shards p.shards_pos (by rw [Ws_zero]; exact covered hx)
    (List.Perm.refl _) H_all
  rw [layer1_eq hp]
  refine Eq.trans ?_ hh
  rw [Ws_zero]
  unfold sharded part
  rw [Ws_zero]
  rfl

theorem layer0Event_eq (H_all : Nat → Fin kC0 → R) (m : EventMeta R) (hx : m.x + 1 < p.W_) :
    p.layer0Event H_all m = ((p.layer0 m.x m.y m.feat_in H_all).1,
      ⟨m.seq, m.x, m.y, featBuf (p.layer0 m.x m.y m.feat_in H_all).2⟩) := by
  have hh := sharded_layer0 hp m.job hx H_all
  rw [show readFeat kInDim m.job.feat = m.feat_in from readFeat_writeFeat _ _] at hh
  rw [show p.layer0 m.x m.y m.feat_in H_all = _ from hh.symm]
  rfl

theorem layer1Event_eq (H_all : Nat → Fin kC0 → R) (j : Job R) (hx : j.x + 1 < p.W_) :
    p.layer1Event H_all j = ((p.layer1 j.x j.y (readFeat kC0 j.feat) H_all).1,
      .event j.seq j.x j.y (p.layer1 j.x j.y (readFeat kC0 j.feat) H_all).2) := by
  rw [← sharded_layer1 hp j hx H_all]
  rfl

/-- One event of the sharded run on the hidden states of a pipeline. -/
theorem shardedEvent_eq (s : PipeState R) (m : EventMeta R) (hx : m.x + 1 < p.W_) :
    p.shardedEvent (s.hidden_0, s.hidden_1) m =
      let r := p.stageForward0 s m.x m.y m.feat_in
      ((r.1.hidden_0, r.1.hidden_1), .event m.seq m.x m.y r.2) := by
  unfold shardedEvent
  rw [stageForward0_eq, layer0Event_eq hp _ m hx]
  dsimp only
  rw [layer1Event_eq hp s.hidden_1 ⟨m.seq, m.x, m.y, featBuf (p.layer0 m.x m.y m.feat_in s.hidden_0).2⟩ hx]
  dsimp only
  rw [show readFeat kC0 (featBuf (p.layer0 m.x m.y m.feat_in s.hidden_0).2) = _ from readFeat_writeFeat _ _]

end Layers

/-- The producer keeps the times of the last events, and stage 0 does not look at them. -/
theorem preprocess_times {P : SslaSPipeline R} {s t : PipeState R} (ht : s.last_t_us_ = t.last_t_us_)
    (e : Event R) : (P.preprocess s e).2 = (P.preprocess t e).2 ∧
      (P.preprocess s e).1.last_t_us_ = (P.preprocess t e).1.last_t_us_ := by
  unfold SslaSPipeline.preprocess
  dsimp only
  split
  · exact ⟨rfl, ht⟩
  · rw [ht]
    exact ⟨rfl, rfl⟩

theorem stageForward0_times (P : SslaSPipeline R) (s : PipeState R) (x y : Nat) (feat_in : Fin kInDim → R) :
    (P.stageForward0 s x y feat_in).1.last_t_us_ = s.last_t_us_ := by
  rw [stageForward0_eq]

theorem preprocess_hidden (P : SslaSPipeline R) (s : PipeState R) (e : Event R) :
    (P.preprocess s e).1.hidden_0 = s.hidden_0 ∧ (P.preprocess s e).1.hidden_1 = s.hidden_1 := by
  unfold SslaSPipeline.preprocess
  dsimp only
  split
  · exact ⟨rfl, rfl⟩
  · exact ⟨rfl, rfl⟩

/-- No event in bounds lies in the last column. -/
def Inside (p : SumScheme R) (events : List (Event R)) : Prop :=
  ∀ e ∈ events, ¬ p.OutOfBounds (castInt e.x) (castInt e.y) → castInt e.x + 1 < p.W_

theorem pushOne_metas (s : PipeState R) (seq : Nat) (e : Event R) :
    eventMetas (p.pushOne s seq e).2 = if p.OutOfBounds (castInt e.x) (castInt e.y) then [] else
      [⟨p.expectedCount (castInt e.x).toNat, seq, (castInt e.x).toNat, (castInt e.y).toNat,
        (p.preprocess s e).2⟩] := by
  unfold pushOne
  by_cases hb : p.OutOfBounds (castInt e.x) (castInt e.y)
  · simp only [if_pos hb]
    rfl
  · simp only [if_neg hb]
    rw [show eventMetas (ProducerOp.push_meta _ :: _) = _ :: eventMetas _ from rfl, work_events]

theorem pushOne_times {s t : PipeState R} (ht : t.last_t_us_ = s.last_t_us_) (seq : Nat) (e : Event R)
    (hb : ¬ p.OutOfBounds (castInt e.x) (castInt e.y)) :
    (p.pushOne t seq e).1.last_t_us_ = (p.preprocess s e).1.last_t_us_ := by
  unfold pushOne
  simp only [if_neg hb]
  exact (preprocess_times ht e).2

/-- The features that the producer computes are those of the pipeline, whose hidden
states the sharded run follows. -/
theorem outs_metas (hp : p.Schema) {es : List (Event R)} (hin : Inside p es) {s t : PipeState R}
    (ht : t.last_t_us_ = s.last_t_us_) (seq : Nat) :
    Scan.outs p.shardedEvent (s.hidden_0, s.hidden_1) (p.metasOf t seq es) =
      stage0Run p.toSslaSPipeline s seq es := by
  induction es generalizing s t seq with
  | nil => rfl
  | cons e es ih =>
    have hrest : Inside p es := fun e' he' => hin e' (List.mem_cons_of_mem _ he')
    rw [metasOf, pushOne_metas, stage0Run]
    by_cases hb : p.OutOfBounds (castInt e.x) (castInt e.y)
    · have hsame : (p.pushOne t seq e).1 = t := by
        unfold pushOne
        simp only [if_pos hb]
      simp only [if_pos hb]
      rw [hsame, List.nil_append]
      exact ih hrest ht (seq + 1)
    · simp only [if_neg hb]
      have hlast := hin e List.mem_cons_self hb
      have hx : (castInt e.x).toNat + 1 < p.W_ := by
        unfold SslaSPipeline.OutOfBounds at hb
        omega
      have hfeat := (preprocess_times (P := p.toSslaSPipeline) ht e).1
      obtain ⟨h₀, h₁⟩ := preprocess_hidden p.toSslaSPipeline s e
      rw [List.cons_append, List.nil_append, Scan.outs, hfeat, ← h₀, ← h₁, shardedEvent_eq hp _ _ hx]
      refine congrArg _ (ih hrest ?_ (seq + 1))
      rw [stageForward0_times]
      exact pushOne_times ht seq e hb

theorem metasOf_seqs (es : List (Event R)) (s : PipeState R) (seq : Nat) :
    (p.metasOf s seq es).map EventMeta.seq = p.keptSeqs seq es := by
  induction es generalizing s seq with
  | nil => rfl
  | cons e es ih =>
    rw [metasOf, List.map_append, ih, keptSeqs_cons, pushOne_metas]
    split <;> rfl

/-- With weights of the schema and no event in the last column the stages get what
stage 0 gives without shards, in every run, and all of it before `main` leaves its
last wait. -/
theorem run_sequential (p : SumScheme R) (hp : p.Schema) (events : List (Event R)) (hin : Inside p events)
    (warmup : Nat) (oracle_every : Option Nat) (s : State R)
    (h : p.Reachable (p.program events warmup oracle_every) s) :
    s.sent.filter StageInMsg.isEvent <+: stage0Run p.toSslaSPipeline SslaSPipeline.reset 0 events ∧
      (s.ops <:+ p.closing →
        s.sent.filter StageInMsg.isEvent = stage0Run p.toSslaSPipeline SslaSPipeline.reset 0 events) := by
  obtain ⟨body, hb, hprogram⟩ := p.program_body events warmup oracle_every
  have hmetas := program_metas (p := p) events warmup oracle_every
  rw [hprogram] at h hmetas
  have hprefix := results_sharded (program_driven hb) h
  have hrun := outs_metas hp hin (s := SslaSPipeline.reset) (t := SslaSPipeline.reset) rfl 0
  rw [hmetas] at hprefix
  refine ⟨hrun ▸ hprefix, fun hops => ?_⟩
  have hline := reachable_line hb h
  have hseqs := received_all hb hline (closing_allSent (reachable_closing hb h) hops)
  unfold State.received at hseqs
  rw [← event_numbers, ← metasOf_seqs events SslaSPipeline.reset] at hseqs
  have hlen := congrArg List.length hseqs
  rw [List.length_map, List.length_map] at hlen
  rw [← hrun]
  exact hprefix.eq_of_length (by rw [hlen, Scan.outs_length])

theorem run_sequential_probe : ∃ s : State ℤ, eventSeqs s.received = [0, 2] ∧
    s.sent.filter StageInMsg.isEvent <+:
      stage0Run probeScheme.toSslaSPipeline SslaSPipeline.reset 0 probeEvents := by
  obtain ⟨s, hs, hseqs⟩ := probe_finishes
  have hin : Inside probeScheme probeEvents := by
    unfold Inside
    decide
  exact ⟨s, hseqs, (run_sequential probeScheme (probe_schema 8 8 1) probeEvents hin 1 (some 1) s hs).1⟩

end SumScheme

end SslaRt
