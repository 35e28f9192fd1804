import SslaRt.LockedScheme
import SslaRt.ShardLayerSpec

/-! What holds in scheme 5 as long as its reads are timely. -/

namespace SslaRt

namespace LockedScheme

variable {p : LockedScheme} {R : Type*}

/-- Before an event there are only events with smaller numbers. -/
def Before (a b : Msg) : Prop := ∀ q, b = .event q → ∃ r, a = .event r ∧ r < q

def ShardPc.inhand : ShardPc → List Msg
  | .pushing m => [m]
  | _ => []

def ProducerPc.closed : ProducerPc → Prop
  | .ending _ => True
  | .ended => True
  | _ => False

namespace State

variable (s : State)

/-- More events may come. -/
def Open : Prop := s.marked = false ∧ ¬ s.producer.closed

/-- What shard `k` has still to push. -/
def waiting (k : Nat) : List Msg := (s.shard k).pc.inhand ++ s.q_own k

def pending (k : Nat) : List Msg := (s.cache k).toList ++ (s.q_to_stage k ++ s.waiting k)

/-- Shard `k` will hand over nothing older than `m`. -/
def Clear (k m : Nat) : Prop :=
  m ≤ s.committed_seq k ∧ ∀ q, .event q ∈ s.q_to_stage k → m ≤ q

end State

section Shard

variable (n : Nat) (isOpen closed : Prop)

/-- A watermark that a shard may store: it is below every event to come. -/
structure Fair (q_own : List Msg) (seq : Nat) : Prop where
  le : seq ≤ n
  below : ∀ q, .event q ∈ q_own → seq < q
  bound : isOpen → seq < n

/-- After `n` events: a shard with its queue and its watermark. -/
structure ShardInv (sh : Shard) (q_own : List Msg) (watermark : WithTop Nat) : Prop where
  fresh : ∀ q, .event q ∈ sh.pc.inhand ++ q_own → sh.last_seq = 0 ∨ sh.last_seq < q
  le : sh.last_seq ≤ n
  bound : isOpen → sh.last_seq = 0 ∨ sh.last_seq < n
  storing : ∀ q, sh.pc = .committing q ∨ sh.pc = .jumping q → sh.last_seq ≤ q ∧ Fair n isOpen q_own q
  not_eof : sh.pc ≠ .pushing .eof
  eof : sh.got_eof = true → closed ∧ ∀ q, .event q ∉ sh.pc.inhand ++ q_own
  exiting : sh.pc = .exiting ∨ sh.pc = .exited → sh.got_eof = true
  committed : sh.pc ≠ .exited → watermark = (sh.last_seq : WithTop Nat)
  exited : sh.pc = .exited → watermark = ⊤

end Shard

structure Inv (p : LockedScheme) (s : State) : Prop where
  max_le : s.pushed_seq_max ≤ s.routes.length + 1 ∧ (s.Open → s.pushed_seq_max ≤ s.routes.length)
  storing : ∀ v, s.producer = .storing v →
    v ≤ s.routes.length + 1 ∧ (s.Open → v ≤ s.routes.length)
  marking : ∀ q k, s.producer = .marking q k → q = s.routes.length ∧ s.marked = true
  marker : ∀ k q, .marker q ∈ s.pending k → q = s.routes.length ∧ s.marked = true
  eof : ∀ k, .eof ∈ s.pending k → s.producer.closed
  sorted : ∀ k, (s.pending k).Pairwise Before
  routed : ∀ k q, .event q ∈ s.pending k → s.routes[q]? = some (some k)
  owned : ∀ q k, s.routes[q]? = some (some k) → k < p.num_shards ∧
    (q ∈ s.pushed k ∨ .event q ∈ s.waiting k)
  later : ∀ k q, .event q ∈ s.pending k → ∀ e ∈ s.processed, e < q
  processed_lt : ∀ e ∈ s.processed, e < s.routes.length
  processed_sorted : s.processed.Pairwise (· < ·)
  candidate : ∀ j k m, s.stage = .checking j k m → s.cache k = some m ∧
    (∀ i m', i < p.num_shards → s.cache i = some m' → m.seq ≤ m'.seq) ∧
    ∀ i < j, i ≠ k → s.cache i = none → s.Clear i m.seq
  shard : ∀ k, ShardInv s.routes.length s.Open s.producer.closed (s.shard k) (s.q_own k)
    (s.committed_seq k)

variable {s s' : State} {k : Nat}

theorem mem_pending_of_waiting {m : Msg} (h : m ∈ s.waiting k) : m ∈ s.pending k :=
  List.mem_append_right _ (List.mem_append_right _ h)

theorem Inv.lt_length (h : Inv p s) {q : Nat} (hq : .event q ∈ s.pending k) : q < s.routes.length := by
  have hroute := h.routed k q hq
  exact (List.getElem?_eq_some_iff.mp hroute).1

/-- Nothing but events is under way before a marker or an end. -/
theorem Inv.event_of_open (h : Inv p s) (ho : s.Open) {m : Msg} (hm : m ∈ s.pending k) :
    ∃ q, m = .event q := by
  cases m with
  | event q => exact ⟨q, rfl⟩
  | marker q => exact absurd (h.marker k q hm).2 (by simp [ho.1])
  | eof => exact absurd (h.eof k hm) ho.2

theorem inv_init : Inv p init := by
  have hnil : ∀ k, init.pending k = [] := fun _ => rfl
  refine ⟨⟨Nat.zero_le _, fun _ => Nat.le_refl _⟩, nofun, nofun, ?_, ?_, ?_, ?_, nofun, ?_, nofun,
    .nil, nofun, fun k => ⟨?_, Nat.le_refl _, fun _ => .inl rfl, ?_, nofun, nofun, ?_, fun _ => rfl, nofun⟩⟩
  · intro k q hq
    simp [hnil] at hq
  · intro k hq
    simp [hnil] at hq
  · intro k
    rw [hnil]
    exact .nil
  · intro k q hq
    simp [hnil] at hq
  · intro k q hq
    simp [hnil] at hq
  · intro q hq
    simp [init, ShardPc.inhand] at hq
  · rintro q (hq | hq) <;> simp [init] at hq
  · rintro (hq | hq) <;> simp [init] at hq

/-- A step of shard `k` leaves the other threads alone. -/
structure OnlyShard (k : Nat) (s s' : State) : Prop where
  producer : s'.producer = s.producer
  pushed_seq_max : s'.pushed_seq_max = s.pushed_seq_max
  routes : s'.routes = s.routes
  marked : s'.marked = s.marked
  cache : s'.cache = s.cache
  stage : s'.stage = s.stage
  processed : s'.processed = s.processed
  shard : ∀ j ≠ k, s'.shard j = s.shard j
  q_own : ∀ j ≠ k, s'.q_own j = s.q_own j
  committed_seq : ∀ j ≠ k, s'.committed_seq j = s.committed_seq j
  q_to_stage : ∀ j ≠ k, s'.q_to_stage j = s.q_to_stage j
  pushed : ∀ j ≠ k, s'.pushed j = s.pushed j

theorem OnlyShard.isOpen (h : OnlyShard k s s') : s'.Open ↔ s.Open := by
  unfold State.Open
  rw [h.marked, h.producer]

theorem OnlyShard.waiting (h : OnlyShard k s s') {j : Nat} (hj : j ≠ k) : s'.waiting j = s.waiting j := by
  unfold State.waiting
  rw [h.shard j hj, h.q_own j hj]

theorem OnlyShard.pending (h : OnlyShard k s s') {j : Nat} (hj : j ≠ k) : s'.pending j = s.pending j := by
  unfold State.pending
  rw [h.cache, h.q_to_stage j hj, h.waiting hj]

theorem OnlyShard.clear (h : OnlyShard k s s') {j : Nat} (hj : j ≠ k) (m : Nat) :
    s'.Clear j m ↔ s.Clear j m := by
  unfold State.Clear
  rw [h.committed_seq j hj, h.q_to_stage j hj]

theorem Inv.only_shard (h : Inv p s) (ho : OnlyShard k s s')
    (hpend : (s'.pending k).Sublist (s.pending k))
    (hown : ∀ q, q ∈ s.pushed k ∨ .event q ∈ s.waiting k → q ∈ s'.pushed k ∨ .event q ∈ s'.waiting k)
    (hclear : ∀ m, s.Clear k m → s'.Clear k m)
    (hshard : ShardInv s.routes.length s.Open s.producer.closed (s'.shard k) (s'.q_own k)
      (s'.committed_seq k)) : Inv p s' := by
  have hsub : ∀ j, (s'.pending j).Sublist (s.pending j) := by
    intro j
    rcases eq_or_ne j k with rfl | hj
    · exact hpend
    · rw [ho.pending hj]
  refine ⟨?_, ?_, ?_, ?_, ?_, ?_, ?_, ?_, ?_, ?_, ?_, ?_, ?_⟩
  · rw [ho.pushed_seq_max, ho.routes, ho.isOpen]
    exact h.max_le
  · rw [ho.producer, ho.routes, ho.isOpen]
    exact h.storing
  · rw [ho.producer, ho.routes, ho.marked]
    exact h.marking
  · rw [ho.routes, ho.marked]
    exact fun j q hq => h.marker j q ((hsub j).subset hq)
  · rw [ho.producer]
    exact fun j hq => h.eof j ((hsub j).subset hq)
  · exact fun j => (h.sorted j).sublist (hsub j)
  · rw [ho.routes]
    exact fun j q hq => h.routed j q ((hsub j).subset hq)
  · rw [ho.routes]
    intro q j hq
    obtain ⟨hj, hcover⟩ := h.owned q j hq
    refine ⟨hj, ?_⟩
    rcases eq_or_ne j k with rfl | hjk
    · exact hown q hcover
    · rwa [ho.pushed j hjk, ho.waiting hjk]
  · rw [ho.processed]
    exact fun j q hq => h.later j q ((hsub j).subset hq)
  · rw [ho.processed, ho.routes]
    exact h.processed_lt
  · rw [ho.processed]
    exact h.processed_sorted
  · rw [ho.stage, ho.cache]
    intro j min_k m hj
    obtain ⟨hcache, hmin, hcl⟩ := h.candidate j min_k m hj
    refine ⟨hcache, hmin, fun i hi hne hnone => ?_⟩
    rcases eq_or_ne i k with rfl | hik
    · exact hclear _ (hcl i hi hne hnone)
    · exact (ho.clear hik _).mpr (hcl i hi hne hnone)
  · intro j
    rw [ho.routes, ho.isOpen, ho.producer]
    rcases eq_or_ne j k with rfl | hj
    · exact hshard
    · rw [ho.shard j hj, ho.q_own j hj, ho.committed_seq j hj]
      exact h.shard j

end LockedScheme

end SslaRt
