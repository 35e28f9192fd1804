import SslaRt.GpuRingProgress

/-! Runs of the ring. Within one lap of the consumer every record arrives
intact, in order and after a bounded number of the consumer's steps; nothing in
the code keeps the producers within it. -/

namespace SslaRt

open Transition

variable {P W : Type*} [DecidableEq P]

theorem ringInv_visited (cfg : RingConfig) (zero : W) (as : List (RingAction P W))
    (hroom : ∀ t ∈ visited (ringStep cfg) (GpuRing.init zero) as,
      t.claims.length ≤ t.consumed + cfg.capacity) :
    ∀ t ∈ visited (ringStep cfg) (GpuRing.init zero) as, RingInv cfg t := by
  refine visited_invariant (ringStep cfg) (fun s a t h _ hok hst => ?_) (ringInv_init cfg zero) hroom
  refine ringInv_step h (fun p payload ha => ?_) hst
  have c := claimStep_of_ringStep (ha ▸ hst)
  rw [c.length, c.consumed] at hok
  exact hok

/-- The consumer accepts the indices `0, 1, 2, ..` in this order, and holds for
each of them the payload of the producer that claimed it. It is never stuck, and
`batchSteps` of its steps for each published record are enough to accept them. -/
theorem ring_accepts_claimed_payloads (cfg : RingConfig) (zero : W) (as : List (RingAction P W))
    (hroom : ∀ t ∈ visited (ringStep cfg) (GpuRing.init zero) as,
      t.claims.length ≤ t.consumed + cfg.capacity) :
    (∀ t ∈ visited (ringStep cfg) (GpuRing.init zero) as,
      t.accepted.length ≤ t.claims.length ∧
      (∀ k < t.accepted.length, ∃ p payload,
        t.claims[k]? = some (p, payload) ∧
          t.accepted[k]? = some (UInt64.ofNat k, loadedRecord payload)) ∧
      ∃ a : RingAction P W, a.ofConsumer = true ∧ (ringStep cfg t a).isSome = true) ∧
    ∀ bs cs t u, bs ++ cs = as → run (ringStep cfg) (GpuRing.init zero) bs = some t →
      run (ringStep cfg) t cs = some u →
      t.claims = bs.filterMap RingAction.claimed ∧
      ∀ k, (∀ i < k, t.Published i) → batchSteps * k ≤ cs.countP RingAction.ofConsumer →
        k ≤ u.accepted.length := by
  have hinv := ringInv_visited cfg zero as hroom
  refine ⟨fun t ht => ⟨(hinv t ht).accepted_le_claims, fun k hk => ?_, consumer_enabled cfg t⟩, ?_⟩
  · obtain ⟨⟨p, payload⟩, hc, hr⟩ := (hinv t ht).accepted k _ (List.getElem?_eq_getElem hk)
    exact ⟨p, payload, hc, by rw [List.getElem?_eq_getElem hk, hr]⟩
  · rintro bs cs t u rfl hbs hcs
    refine ⟨by simpa [GpuRing.init] using claims_run hbs, fun k hk hcount => ?_⟩
    have hb := (batchInv_visited (fun v hv => hinv v (mem_visited_left _ cs hv)) trivial t
      (mem_visited_of_run _ hbs)).1
    exact accepted_of_countP (fun v hv => hinv v (mem_visited_append _ hbs hv)) hb hk hcs hcount

def pushActions (p : P) (payload : Field → W) : List (RingAction P W) :=
  .claim p payload :: Field.pushed.map (.write p) ++ [.publish p]

def drainActions (n : Nat) : List (RingAction P W) :=
  List.replicate (n + 1) .probe ++
    (List.range n).flatMap (fun e => Field.loaded.map (fun f => .copy e f)) ++ [.load, .advance]

/-- Producer 0 claims first, but producer 1 is the first to publish. -/
def overtakingPushes : List (RingAction (Fin 2) Nat) :=
  .claim 0 (fun _ => 7) :: pushActions 1 (fun _ => 9) ++ [.probe] ++
    Field.pushed.map (.write 0) ++ [.publish 0]

/-- The consumer takes both records and goes on polling. -/
def overtakenDrain : List (RingAction (Fin 2) Nat) :=
  drainActions 2 ++ List.replicate (batchSteps * 2) .probe

theorem overtakingPushes_isSome :
    (run (ringStep ⟨1, by decide⟩) (GpuRing.init 0) overtakingPushes).isSome := by decide +kernel

theorem overtakenDrain_isSome :
    (run (ringStep ⟨1, by decide⟩) (Option.get _ overtakingPushes_isSome) overtakenDrain).isSome := by
  decide +kernel

/-- Both records are accepted, in the order of the claims. -/
theorem ring_accepts_overtakingRun :
    (∀ t ∈ visited (ringStep ⟨1, by decide⟩) (GpuRing.init 0) (overtakingPushes ++ overtakenDrain),
      t.accepted.length ≤ t.claims.length) ∧
    ∃ t u, run (ringStep ⟨1, by decide⟩) (GpuRing.init 0) overtakingPushes = some t ∧
      run (ringStep ⟨1, by decide⟩) t overtakenDrain = some u ∧ 2 ≤ u.accepted.length ∧
      u.accepted.map (fun r => (r.1, r.2 .x)) = [(0, some 7), (1, some 9)] := by
  have hroom : ∀ t ∈ visited (ringStep ⟨1, by decide⟩) (GpuRing.init 0)
      (overtakingPushes ++ overtakenDrain),
      t.claims.length ≤ t.consumed + RingConfig.capacity ⟨1, by decide⟩ := by decide +kernel
  have hring := ring_accepts_claimed_payloads ⟨1, by decide⟩ 0 _ hroom
  have hpub : ∀ i < 2, (Option.get _ overtakingPushes_isSome).Published i := by
    unfold GpuRing.Published GpuRing.Pending
    decide +kernel
  have hpushes := (Option.some_get overtakingPushes_isSome).symm
  have hdrain := (Option.some_get overtakenDrain_isSome).symm
  refine ⟨fun t ht => (hring.1 t ht).1, _, _, hpushes, hdrain, ?_, by decide +kernel⟩
  exact (hring.2 _ _ _ _ rfl hpushes hdrain).2 2 hpub (by decide +kernel)

/-- What a flow-controlled ring promises in each state: the producers are at
most a lap ahead, nobody writes over a record that is not consumed yet, and the
record at the tail, once pushed, is found by the tag test. -/
structure FlowControl (cfg : RingConfig) (t : GpuRing P W) : Prop where
  lag : t.claims.length ≤ t.consumed + cfg.capacity
  no_overwrite : ∀ p slot i payload todo, t.producers p = .writing slot i payload todo →
    cfg.capacity ≤ i → i - cfg.capacity < t.consumed
  tag_at_tail : t.Published t.consumed →
    (t.ring_buf (cfg.position t.tail)).seq_done = t.tail + 1

omit [DecidableEq P] in
theorem RingInv.flowControl {cfg : RingConfig} {t : GpuRing P W} (h : RingInv cfg t) :
    FlowControl cfg t where
  lag := h.room
  no_overwrite p slot i payload todo hw _ := by
    have hroom := h.room
    obtain ⟨-, hlt, -⟩ := h.claim_of_held (p := p) (i := i) (by rw [hw]; rfl)
    omega
  tag_at_tail hp := by
    rw [h.tail, position_ofNat, ofNat_add_one]
    exact (h.ready _ _ le_rfl (List.getElem?_eq_getElem hp.1) hp.2).1

theorem length_claims_visited {cfg : RingConfig} {s : GpuRing P W} {as : List (RingAction P W)} :
    ∀ t ∈ visited (ringStep cfg) s as,
      t.claims.length ≤ s.claims.length + (as.filterMap RingAction.claimed).length := by
  induction as generalizing s with
  | nil => simp [visited]
  | cons a as ih =>
    have hcons : (as.filterMap RingAction.claimed).length + a.claimed.toList.length =
        ((a :: as).filterMap RingAction.claimed).length := by
      rw [List.filterMap_cons]
      cases a.claimed <;> simp
    intro t ht
    cases hst : ringStep cfg s a with
    | none =>
      simp only [visited, hst, List.mem_singleton] at ht
      rw [ht]
      exact Nat.le_add_right _ _
    | some u =>
      simp only [visited, hst, List.mem_cons] at ht
      rcases ht with rfl | ht
      · exact Nat.le_add_right _ _
      · have hle := ih t ht
        rw [claims_step hst, List.length_append] at hle
        omega

/-- While no more records are claimed than the ring has slots, nobody laps anybody. -/
theorem flowControl_of_few_claims {cfg : RingConfig} {zero : W} {as : List (RingAction P W)}
    (hfew : (as.filterMap RingAction.claimed).length ≤ cfg.capacity) :
    ∀ t ∈ visited (ringStep cfg) (GpuRing.init zero) as, FlowControl cfg t := by
  intro t ht
  refine (ringInv_visited cfg zero as (fun v hv => ?_) t ht).flowControl
  have hle := length_claims_visited v hv
  simp only [GpuRing.init, List.length_nil, Nat.zero_add] at hle
  omega

/-- The writes of one record leave the producer with nothing but the tag to write. -/
theorem run_writes (cfg : RingConfig) {s : GpuRing P W} {p : P} {slot : UInt64} {i : Nat}
    {payload : Field → W} {todo : List Field}
    (hp : s.producers p = .writing slot i payload todo) :
    ∃ t, run (ringStep cfg) s (todo.map (.write p)) = some t ∧
      t.producers p = .writing slot i payload [] ∧ t.claims = s.claims ∧ t.consumed = s.consumed := by
  induction todo generalizing s with
  | nil => exact ⟨s, rfl, hp, rfl, rfl⟩
  | cons f todo ih =>
    obtain ⟨u, hu, hup, huc, hud⟩ : ∃ u, ringStep cfg s (.write p f) = some u ∧
        u.producers p = .writing slot i payload todo ∧ u.claims = s.claims ∧
        u.consumed = s.consumed := by simp [ringStep, hp]
    obtain ⟨t, ht, htp, htc, htd⟩ := ih hup
    refine ⟨t, ?_, htp, htc.trans huc, htd.trans hud⟩
    rw [List.map_cons, run_cons, hu, Option.bind_some, ht]

theorem run_push (cfg : RingConfig) {s : GpuRing P W} {p : P} (payload : Field → W)
    (hp : s.producers p = .idle) :
    ∃ t, run (ringStep cfg) s (pushActions p payload) = some t ∧ t.producers p = .idle ∧
      t.claims.length = s.claims.length + 1 ∧ t.consumed = s.consumed := by
  obtain ⟨u, hu, hup, huc, hud⟩ : ∃ u, ringStep cfg s (.claim p payload) = some u ∧
      u.producers p = .writing s.ring_head s.claims.length payload Field.pushed ∧
      u.claims.length = s.claims.length + 1 ∧ u.consumed = s.consumed := by simp [ringStep, hp]
  obtain ⟨v, hv, hvp, hvc, hvd⟩ := run_writes cfg hup
  obtain ⟨t, ht, htp, htc, htd⟩ : ∃ t, ringStep cfg v (.publish p) = some t ∧
      t.producers p = .idle ∧ t.claims = v.claims ∧ t.consumed = v.consumed := by
    simp [ringStep, hvp]
  refine ⟨t, ?_, htp, by rw [htc, hvc, huc], htd.trans (hvd.trans hud)⟩
  rw [pushActions, List.cons_append, run_cons, hu, Option.bind_some, run_append, hv,
    Option.bind_some, run_cons, ht, Option.bind_some, run_nil]

/-- `n` pushes by one producer while the consumer is elsewhere. -/
theorem run_pushes (cfg : RingConfig) {s : GpuRing P W} {p : P} (payload : Field → W)
    (hp : s.producers p = .idle) (n : Nat) :
    ∃ t, run (ringStep cfg) s (List.replicate n (pushActions p payload)).flatten = some t ∧
      t.claims.length = s.claims.length + n ∧ t.consumed = s.consumed := by
  induction n generalizing s with
  | zero => exact ⟨s, rfl, rfl, rfl⟩
  | succ n ih =>
    obtain ⟨u, hu, hup, huc, hud⟩ := run_push cfg payload hp
    obtain ⟨t, ht, htc, htd⟩ := ih hup
    refine ⟨t, ?_, by omega, htd.trans hud⟩
    rw [List.replicate_succ, List.flatten_cons, run_append, hu, Option.bind_some, ht]

omit [DecidableEq P] in
theorem claimed_pushes (p : P) (payload : Field → W) (n : Nat) :
    ((List.replicate n (pushActions p payload)).flatten.filterMap RingAction.claimed).length = n := by
  induction n with
  | zero => rfl
  | succ n ih =>
    have hone : ((pushActions p payload).filterMap RingAction.claimed).length = 1 := rfl
    rw [List.replicate_succ, List.flatten_cons, List.filterMap_append, List.length_append, ih, hone]
    omega

/-- The runs with at most `n` pushes are all flow-controlled exactly if the ring has a slot
for each of them: the code holds no push back. -/
theorem flowControl_iff_pushes_le_capacity (cfg : RingConfig) (zero : W) (p : P) (n : Nat) :
    (∀ as : List (RingAction P W), (as.filterMap RingAction.claimed).length ≤ n →
      ∀ t ∈ visited (ringStep cfg) (GpuRing.init zero) as, FlowControl cfg t) ↔
        n ≤ cfg.capacity := by
  constructor
  · intro h
    by_contra hlt
    obtain ⟨t, ht, hc, hd⟩ := run_pushes cfg (s := GpuRing.init zero) (p := p) (fun _ => zero) rfl
      (cfg.capacity + 1)
    have hlag := (h _ (by rw [claimed_pushes]; omega) t (mem_visited_of_run _ ht)).lag
    rw [hc, hd] at hlag
    simp only [GpuRing.init, List.length_nil] at hlag
    omega
  · exact fun hn as has => flowControl_of_few_claims (has.trans hn)

/-- Three pushes into a ring of two slots while the consumer is elsewhere. -/
def lappingRun : List (RingAction (Fin 1) Nat) :=
  pushActions 0 (fun _ => 1) ++ pushActions 0 (fun _ => 2) ++ pushActions 0 (fun _ => 3)

theorem lappingRun_not_flowControlled :
    ¬ ∀ t ∈ visited (ringStep ⟨1, by decide⟩) (GpuRing.init 0) lappingRun,
      FlowControl ⟨1, by decide⟩ t := by
  intro h
  have hlag : ∀ t ∈ visited (ringStep ⟨1, by decide⟩) (GpuRing.init 0) lappingRun,
      t.claims.length ≤ t.consumed + RingConfig.capacity ⟨1, by decide⟩ :=
    fun t ht => (h t ht).lag
  revert hlag
  decide +kernel

end SslaRt
