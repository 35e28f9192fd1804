import SslaRt.GpuRingSteps

/-! Progress of the ring. A record at the tail that is published stays so until
the consumer takes it, and the consumer takes it within a bounded number of its
own steps, whatever the producers do meanwhile. -/

namespace SslaRt

open Transition

variable {P W : Type*}

def RingAction.ofConsumer : RingAction P W → Bool
  | .claim .. | .write .. | .publish .. => false
  | .probe | .copy .. | .load | .advance => true

/-- The producer and the payload of a claim. -/
def RingAction.claimed : RingAction P W → Option (P × (Field → W))
  | .claim p payload => some (p, payload)
  | _ => none

/-- More than the consumer's steps from one probe of the tail to the next: a full batch
is probed, copied field by field, loaded and passed. -/
def batchSteps : Nat := 3 + (Field.loaded.length + 1) * ringBatch

def BatchInv : Consumer W → Prop
  | .idle => True
  | .probing n => 1 ≤ n ∧ n ≤ ringBatch
  | .copying n todo _ => 1 ≤ n ∧ todo.length ≤ Field.loaded.length * ringBatch
  | .processing n => 1 ≤ n

/-- The consumer's steps that are left until it has accepted the indices below `k`. -/
def GpuRing.rank (s : GpuRing P W) (k : Nat) : Nat :=
  match s.consumer with
  | .idle => batchSteps * (k - s.accepted.length)
  | .probing n => batchSteps * (k - s.accepted.length) - n
  | .copying _ todo _ => batchSteps * (k - s.accepted.length - 1) + 2 + todo.length
  | .processing _ => batchSteps * (k - s.accepted.length) + 1

theorem length_copyList (n : Nat) :
    ((List.range n).flatMap (fun e => Field.loaded.map (fun f => (e, f)))).length =
      Field.loaded.length * n := by
  simp [List.length_flatMap, Nat.mul_comm]

theorem batchSteps_mul {m : Nat} (h : 0 < m) : batchSteps * m = batchSteps * (m - 1) + batchSteps := by
  rw [← Nat.mul_succ]
  congr 1
  omega

variable [DecidableEq P] {cfg : RingConfig} {s t : GpuRing P W}

/-- A producer's step leaves the consumer, its tail and its records alone. -/
structure ProducerStep (s t : GpuRing P W) : Prop where
  consumer : t.consumer = s.consumer
  accepted : t.accepted = s.accepted
  claims : s.claims.length ≤ t.claims.length
  published : ∀ i, s.Published i → t.Published i

omit [DecidableEq P] in
theorem ProducerStep.rank (h : ProducerStep s t) (k : Nat) : t.rank k = s.rank k := by
  simp only [GpuRing.rank, h.consumer, h.accepted]

theorem published_update {p : P} {w : Producer W} (hc : t.claims = s.claims)
    (hp : t.producers = Function.update s.producers p w)
    (hw : w.held = none ∨ w.held = (s.producers p).held) {i : Nat} (hi : s.Published i) :
    t.Published i := by
  refine ⟨hc ▸ hi.1, fun ⟨q, hq⟩ => hi.2 ?_⟩
  rw [hp, held_update] at hq
  split at hq
  · rcases hw with hw | hw
    · simp [hw] at hq
    · exact ⟨p, hw ▸ hq⟩
  · exact ⟨q, hq⟩

theorem producerStep_of_ringStep {a : RingAction P W} (ha : a.ofConsumer = false)
    (hst : ringStep cfg s a = some t) : ProducerStep s t := by
  cases a with
  | claim p payload =>
    have c := claimStep_of_ringStep hst
    refine ⟨by rw [← c.step], by rw [← c.step], by rw [c.length]; omega, fun i hi => ?_⟩
    exact ⟨by rw [c.length]; exact Nat.lt_succ_of_lt hi.1, mt (c.pending_old hi.1).mp hi.2⟩
  | write p f =>
    cases hp : s.producers p with
    | idle => simp [ringStep, hp] at hst
    | writing slot i payload todo =>
      simp only [ringStep, hp] at hst
      split at hst
      · have ht := Option.some.inj hst
        refine ⟨by rw [← ht], by rw [← ht], by rw [← ht], fun j hj => ?_⟩
        exact published_update (by rw [← ht]) (by rw [← ht]) (.inr (by rw [hp]; rfl)) hj
      · simp at hst
  | publish p =>
    cases hp : s.producers p with
    | idle => simp [ringStep, hp] at hst
    | writing slot i payload todo =>
      cases todo with
      | cons f todo => simp [ringStep, hp] at hst
      | nil =>
        simp only [ringStep, hp] at hst
        have ht := Option.some.inj hst
        refine ⟨by rw [← ht], by rw [← ht], by rw [← ht], fun j hj => ?_⟩
        exact published_update (by rw [← ht]) (by rw [← ht]) (.inl rfl) hj
  | probe => simp [RingAction.ofConsumer] at ha
  | copy e f => simp [RingAction.ofConsumer] at ha
  | load => simp [RingAction.ofConsumer] at ha
  | advance => simp [RingAction.ofConsumer] at ha

/-- What a step of the consumer does to the batch it works on and to what is left of
the records below `k`, as long as these are published. -/
structure ConsumerStep (s t : GpuRing P W) (k : Nat) : Prop where
  claims : t.claims = s.claims
  producers : t.producers = s.producers
  accepted : s.accepted.length ≤ t.accepted.length
  batch : BatchInv t.consumer
  rank : s.accepted.length < k → t.rank k < s.rank k

theorem consumerStep_probe (h : RingInv cfg s) (hb : BatchInv s.consumer) {k : Nat}
    (hk : ∀ i < k, s.Published i) (hst : ringStep cfg s .probe = some t) : ConsumerStep s t k := by
  have hcon := h.consumer
  cases hc : s.consumer with
  | idle =>
    rw [hc] at hcon
    simp only [ringStep, hc] at hst
    by_cases hlt : s.accepted.length < k
    · -- the tag at the tail is there, since the record is published
      have hpub := hk _ hlt
      have htag := (h.ready _ _ (le_of_eq hcon.symm) (List.getElem?_eq_getElem hpub.1) hpub.2).1
      rw [hcon] at htag
      rw [h.tail, position_ofNat, ofNat_add_one, if_pos htag] at hst
      obtain rfl := Option.some.inj hst
      refine ⟨rfl, rfl, le_rfl, ⟨le_rfl, by decide⟩, fun _ => ?_⟩
      have hmul := batchSteps_mul (m := k - s.accepted.length) (by omega)
      have hB : batchSteps = 235 := rfl
      simp only [GpuRing.rank, hc]
      omega
    · split at hst
      · obtain rfl := Option.some.inj hst
        exact ⟨rfl, rfl, le_rfl, ⟨le_rfl, by decide⟩, fun hlt' => absurd hlt' hlt⟩
      · obtain rfl := Option.some.inj hst
        exact ⟨rfl, rfl, le_rfl, hb, fun hlt' => absurd hlt' hlt⟩
  | probing n =>
    rw [hc] at hb
    obtain ⟨h1, h8⟩ := hb
    have hB : batchSteps = 235 := rfl
    have hL : Field.loaded.length = 28 := rfl
    have h8' : n ≤ 8 := h8
    simp only [ringStep, hc] at hst
    split at hst
    · next htag =>
      obtain rfl := Option.some.inj hst
      refine ⟨rfl, rfl, le_rfl, ⟨by omega, htag.1⟩, fun hlt => ?_⟩
      have hmul := batchSteps_mul (m := k - s.accepted.length) (by omega)
      simp only [GpuRing.rank, hc]
      omega
    · obtain rfl := Option.some.inj hst
      refine ⟨rfl, rfl, le_rfl, ⟨h1, ?_⟩, fun hlt => ?_⟩
      · rw [length_copyList]
        exact Nat.mul_le_mul_left _ h8
      · have hmul := batchSteps_mul (m := k - s.accepted.length) (by omega)
        simp only [GpuRing.rank, hc, length_copyList, hL]
        omega
  | copying n todo event_slots => simp [ringStep, hc] at hst
  | processing n => simp [ringStep, hc] at hst

theorem consumerStep_copy (hb : BatchInv s.consumer) {k e : Nat} {f : Field}
    (hst : ringStep cfg s (.copy e f) = some t) : ConsumerStep s t k := by
  cases hc : s.consumer with
  | idle => simp [ringStep, hc] at hst
  | probing n => simp [ringStep, hc] at hst
  | processing n => simp [ringStep, hc] at hst
  | copying n todo event_slots =>
    rw [hc] at hb
    simp only [ringStep, hc] at hst
    split at hst
    · next hmem =>
      have hlen := List.length_erase_of_mem hmem
      have hpos := List.length_pos_of_mem hmem
      obtain rfl := Option.some.inj hst
      refine ⟨rfl, rfl, le_rfl, ⟨hb.1, by rw [hlen]; exact (Nat.sub_le _ _).trans hb.2⟩,
        fun _ => ?_⟩
      simp only [GpuRing.rank, hc, hlen]
      omega
    · simp at hst

theorem consumerStep_load (hb : BatchInv s.consumer) {k : Nat}
    (hst : ringStep cfg s .load = some t) : ConsumerStep s t k := by
  cases hc : s.consumer with
  | idle => simp [ringStep, hc] at hst
  | probing n => simp [ringStep, hc] at hst
  | processing n => simp [ringStep, hc] at hst
  | copying n todo event_slots =>
    rw [hc] at hb
    have hn : 1 ≤ n := hb.1
    cases todo with
    | cons p todo => simp [ringStep, hc] at hst
    | nil =>
      simp only [ringStep, hc] at hst
      obtain rfl := Option.some.inj hst
      refine ⟨rfl, rfl, by simp, hn, fun hlt => ?_⟩
      have hle : batchSteps * (k - (s.accepted.length + n)) ≤
          batchSteps * (k - s.accepted.length - 1) := Nat.mul_le_mul_left _ (by omega)
      simp only [GpuRing.rank, hc, List.length_append, List.length_map, List.length_range,
        List.length_nil]
      omega

theorem consumerStep_advance {k : Nat} (hst : ringStep cfg s .advance = some t) :
    ConsumerStep s t k := by
  cases hc : s.consumer with
  | idle => simp [ringStep, hc] at hst
  | probing n => simp [ringStep, hc] at hst
  | copying n todo event_slots => simp [ringStep, hc] at hst
  | processing n =>
    simp only [ringStep, hc] at hst
    obtain rfl := Option.some.inj hst
    refine ⟨rfl, rfl, le_rfl, trivial, fun _ => ?_⟩
    simp only [GpuRing.rank, hc]
    omega

theorem consumerStep_of_ringStep (h : RingInv cfg s) (hb : BatchInv s.consumer) {k : Nat}
    (hk : ∀ i < k, s.Published i) {a : RingAction P W} (ha : a.ofConsumer = true)
    (hst : ringStep cfg s a = some t) : ConsumerStep s t k := by
  cases a with
  | claim p payload => simp [RingAction.ofConsumer] at ha
  | write p f => simp [RingAction.ofConsumer] at ha
  | publish p => simp [RingAction.ofConsumer] at ha
  | probe => exact consumerStep_probe h hb hk hst
  | copy e f => exact consumerStep_copy hb hst
  | load => exact consumerStep_load hb hst
  | advance => exact consumerStep_advance hst

theorem batchInv_step (h : RingInv cfg s) (hb : BatchInv s.consumer) {a : RingAction P W}
    (hst : ringStep cfg s a = some t) : BatchInv t.consumer := by
  cases ha : a.ofConsumer with
  | false => rw [(producerStep_of_ringStep ha hst).consumer]; exact hb
  | true => exact (consumerStep_of_ringStep (k := 0) h hb (by simp) ha hst).batch

theorem published_step (h : RingInv cfg s) (hb : BatchInv s.consumer) {a : RingAction P W}
    (hst : ringStep cfg s a = some t) {i : Nat} (hi : s.Published i) : t.Published i := by
  cases ha : a.ofConsumer with
  | false => exact (producerStep_of_ringStep ha hst).published i hi
  | true =>
    have c := consumerStep_of_ringStep (k := 0) h hb (by simp) ha hst
    simpa only [GpuRing.Published, GpuRing.Pending, c.claims, c.producers] using hi

theorem claims_step {a : RingAction P W} (hst : ringStep cfg s a = some t) :
    t.claims = s.claims ++ a.claimed.toList := by
  revert hst
  fun_cases ringStep cfg s a <;> intro hst <;> cases hst <;> simp [RingAction.claimed]

/-- In whatever state the consumer is, one of its steps can be taken. -/
theorem consumer_enabled (cfg : RingConfig) (s : GpuRing P W) :
    ∃ a : RingAction P W, a.ofConsumer = true ∧ (ringStep cfg s a).isSome = true := by
  cases hc : s.consumer with
  | idle => exact ⟨.probe, rfl, by simp only [ringStep, hc]; split <;> rfl⟩
  | probing n => exact ⟨.probe, rfl, by simp only [ringStep, hc]; split <;> rfl⟩
  | copying n todo event_slots =>
    cases todo with
    | nil => exact ⟨.load, rfl, by simp only [ringStep, hc]; rfl⟩
    | cons p todo => exact ⟨.copy p.1 p.2, rfl, by simp [ringStep, hc]⟩
  | processing n => exact ⟨.advance, rfl, by simp only [ringStep, hc]; rfl⟩

omit [DecidableEq P] in
theorem rank_pos {k : Nat} (hb : BatchInv s.consumer) (hk : s.accepted.length < k) :
    0 < s.rank k := by
  have hmul := batchSteps_mul (m := k - s.accepted.length) (by omega)
  have hB : batchSteps = 235 := rfl
  unfold GpuRing.rank
  cases hc : s.consumer with
  | idle => dsimp only; omega
  | probing n =>
    rw [hc] at hb
    have h8 : n ≤ 8 := hb.2
    dsimp only
    omega
  | copying n todo event_slots => dsimp only; omega
  | processing n => dsimp only; omega

omit [DecidableEq P] in
theorem rank_le {k : Nat} (h : RingInv cfg s) (hb : BatchInv s.consumer)
    (hk : s.accepted.length < k) : s.rank k ≤ batchSteps * k := by
  have hcon := h.consumer
  have hmul := batchSteps_mul (m := k - s.accepted.length) (by omega)
  have hle : batchSteps * (k - s.accepted.length) ≤ batchSteps * k :=
    Nat.mul_le_mul_left _ (Nat.sub_le _ _)
  have hB : batchSteps = 235 := rfl
  unfold GpuRing.rank
  cases hc : s.consumer with
  | idle => exact hle
  | probing n => exact (Nat.sub_le _ _).trans hle
  | copying n todo event_slots =>
    rw [hc] at hb
    have htodo : todo.length ≤ 28 * 8 := hb.2
    dsimp only
    omega
  | processing n =>
    -- a batch that is processed has been accepted, so fewer than `k` are left
    rw [hc] at hb hcon
    have hn : 1 ≤ n := hb
    have hlt : batchSteps * (k - s.accepted.length) ≤ batchSteps * (k - 1) :=
      Nat.mul_le_mul_left _ (by have := hcon.1; omega)
    have hk' := batchSteps_mul (m := k) (by omega)
    dsimp only
    omega

theorem accepted_mono (h : RingInv cfg s) (hb : BatchInv s.consumer) {a : RingAction P W}
    (hst : ringStep cfg s a = some t) : s.accepted.length ≤ t.accepted.length := by
  cases ha : a.ofConsumer with
  | false => rw [(producerStep_of_ringStep ha hst).accepted]
  | true => exact (consumerStep_of_ringStep (k := 0) h hb (by simp) ha hst).accepted

theorem batchInv_visited {as : List (RingAction P W)}
    (hvis : ∀ v ∈ visited (ringStep cfg) s as, RingInv cfg v) (hb : BatchInv s.consumer) :
    ∀ v ∈ visited (ringStep cfg) s as,
      BatchInv v.consumer ∧ s.accepted.length ≤ v.accepted.length := by
  refine visited_invariant (ringStep cfg) (fun v a w hv hok _ hst => ?_) ⟨hb, le_rfl⟩ hvis
  exact ⟨batchInv_step hok hv.1 hst, hv.2.trans (accepted_mono hok hv.1 hst)⟩

/-- Over a run that ends before index `k` is accepted, each step of the consumer
lowers the rank. -/
theorem rank_run {as : List (RingAction P W)} {u : GpuRing P W} {k : Nat}
    (hvis : ∀ v ∈ visited (ringStep cfg) s as, RingInv cfg v) (hb : BatchInv s.consumer)
    (hk : ∀ i < k, s.Published i) (hrun : run (ringStep cfg) s as = some u)
    (hu : u.accepted.length < k) :
    u.rank k + as.countP RingAction.ofConsumer ≤ s.rank k := by
  induction as generalizing s with
  | nil =>
    obtain rfl := Option.some.inj hrun
    exact le_rfl
  | cons a as ih =>
    have h := hvis s (mem_visited_self _ _ _)
    have hacc := (batchInv_visited hvis hb u (mem_visited_of_run _ hrun)).2
    cases hst : ringStep cfg s a with
    | none => simp [hst] at hrun
    | some t =>
      rw [run_cons, hst, Option.bind_some] at hrun
      have hih := ih (fun v hv => hvis v (mem_visited_cons _ hst hv)) (batchInv_step h hb hst)
        (fun i hi => published_step h hb hst (hk i hi)) hrun
      cases ha : a.ofConsumer with
      | false =>
        rw [(producerStep_of_ringStep ha hst).rank] at hih
        rw [List.countP_cons_of_neg (by simp [ha])]
        exact hih
      | true =>
        have hlt := (consumerStep_of_ringStep h hb hk ha hst).rank (by omega)
        rw [List.countP_cons_of_pos ha]
        omega

/-- A consumer that takes `batchSteps` steps for each of the `k` published records
has accepted them. -/
theorem accepted_of_countP {as : List (RingAction P W)} {u : GpuRing P W} {k : Nat}
    (hvis : ∀ v ∈ visited (ringStep cfg) s as, RingInv cfg v) (hb : BatchInv s.consumer)
    (hk : ∀ i < k, s.Published i) (hrun : run (ringStep cfg) s as = some u)
    (hcount : batchSteps * k ≤ as.countP RingAction.ofConsumer) : k ≤ u.accepted.length := by
  by_contra hlt
  have hu : u.accepted.length < k := by omega
  have hmem := mem_visited_of_run (ringStep cfg) hrun
  have hacc := batchInv_visited hvis hb u hmem
  have hpos := rank_pos (hacc.1) hu
  have hle := rank_le (hvis s (mem_visited_self _ _ _)) hb (k := k) (by omega)
  have hrank := rank_run hvis hb hk hrun hu
  omega

/-- The claims of a run are those of its claim actions. -/
theorem claims_run {as : List (RingAction P W)} {u : GpuRing P W}
    (hrun : run (ringStep cfg) s as = some u) :
    u.claims = s.claims ++ as.filterMap RingAction.claimed := by
  induction as generalizing s with
  | nil =>
    obtain rfl := Option.some.inj hrun
    simp
  | cons a as ih =>
    cases hst : ringStep cfg s a with
    | none => simp [hst] at hrun
    | some t =>
      rw [run_cons, hst, Option.bind_some] at hrun
      rw [ih hrun, claims_step hst, List.filterMap_cons]
      cases a.claimed <;> simp

end SslaRt
