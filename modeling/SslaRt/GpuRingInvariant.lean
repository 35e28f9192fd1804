import SslaRt.GpuRing
import Mathlib.Order.Interval.Finset.Nat

/-! The invariant of the ring as long as the producers stay within one lap of
the consumer: in the window of `capacity` indices from the tail on, a
published index has its tag and its payload in the slot, and every other index
finds the tag of the previous lap. -/

namespace SslaRt

theorem position_ofNat (cfg : RingConfig) (i : Nat) :
    cfg.position (UInt64.ofNat i) = i % cfg.capacity := by
  have hdvd : cfg.capacity ∣ 2 ^ 64 := Nat.pow_dvd_pow 2 (Nat.le_of_lt cfg.log2_lt)
  have hlt : cfg.capacity - 1 < 2 ^ 64 :=
    (Nat.sub_le _ _).trans_lt (Nat.pow_lt_pow_right (by decide) cfg.log2_lt)
  rw [RingConfig.position, RingConfig.ring_mask, UInt64.toNat_and, UInt64.toNat_ofNat',
    UInt64.toNat_ofNat', Nat.mod_eq_of_lt hlt, RingConfig.capacity, Nat.and_two_pow_sub_one_eq_mod]
  exact Nat.mod_mod_of_dvd _ hdvd

theorem RingConfig.capacity_pos (cfg : RingConfig) : 0 < cfg.capacity := Nat.two_pow_pos _

theorem RingConfig.capacity_lt (cfg : RingConfig) : cfg.capacity < 2 ^ 64 :=
  Nat.pow_lt_pow_right (by decide) cfg.log2_lt

theorem ofNat_add_ofNat (i j : Nat) : UInt64.ofNat i + UInt64.ofNat j = UInt64.ofNat (i + j) :=
  (UInt64.ofNat_add i j).symm

theorem ofNat_add_one (i : Nat) : UInt64.ofNat i + 1 = UInt64.ofNat (i + 1) := ofNat_add_ofNat i 1

theorem ofNat_ne {i j : Nat} (h : i < j) (hj : j < i + 2 ^ 64) :
    UInt64.ofNat i ≠ UInt64.ofNat j := by
  intro he
  have hh := congrArg UInt64.toNat he
  rw [UInt64.toNat_ofNat', UInt64.toNat_ofNat'] at hh
  omega

theorem position_inj {c n i j : Nat} (hi : n ≤ i) (hi' : i < n + c) (hj : n ≤ j) (hj' : j < n + c)
    (h : i % c = j % c) : i = j :=
  Nat.mod_injOn_Ico n c (by simp [hi, hi']) (by simp [hj, hj']) h

theorem Field.mem_pushed (f : Field) : f ∈ Field.pushed := by
  cases f <;> simp [Field.pushed]

def loadedRecord {W : Type*} (payload : Field → W) (f : Field) : Option W :=
  if f ∈ Field.loaded then some (payload f) else none

variable {P W : Type*}

def Producer.held : Producer W → Option Nat
  | .idle => none
  | .writing _ i _ _ => some i

def GpuRing.Pending (s : GpuRing P W) (i : Nat) : Prop := ∃ p, (s.producers p).held = some i

def GpuRing.Published (s : GpuRing P W) (i : Nat) : Prop := i < s.claims.length ∧ ¬ s.Pending i

/-- The tag that the slot of index `i` has before `i` is published. -/
def staleTag (cfg : RingConfig) (i : Nat) : UInt64 :=
  if i < cfg.capacity then 0 else UInt64.ofNat (i + 1 - cfg.capacity)

theorem staleTag_ne (cfg : RingConfig) (i : Nat) : staleTag cfg i ≠ UInt64.ofNat (i + 1) := by
  have hpos := cfg.capacity_pos
  have hlt := cfg.capacity_lt
  unfold staleTag
  split
  · exact ofNat_ne (i := 0) (by omega) (by omega)
  · exact ofNat_ne (by omega) (by omega)

def ConsumerInv (cfg : RingConfig) (s : GpuRing P W) : Consumer W → Prop
  | .idle => s.accepted.length = s.consumed
  | .probing n => s.accepted.length = s.consumed ∧ n ≤ cfg.capacity ∧
      ∀ e < n, s.Published (s.consumed + e)
  | .copying n todo event_slots => s.accepted.length = s.consumed ∧ n ≤ cfg.capacity ∧
      (∀ e < n, s.Published (s.consumed + e)) ∧
      (∀ p ∈ todo, p.1 < n ∧ p.2 ∈ Field.loaded) ∧
      ∀ e < n, ∀ c, s.claims[s.consumed + e]? = some c →
        ∀ f, (e, f) ∉ todo → event_slots e f = loadedRecord c.2 f
  | .processing n => s.accepted.length = s.consumed + n ∧ n ≤ cfg.capacity ∧
      ∀ e < n, s.Published (s.consumed + e)

structure RingInv (cfg : RingConfig) (s : GpuRing P W) : Prop where
  head : s.ring_head = UInt64.ofNat s.claims.length
  tail : s.tail = UInt64.ofNat s.consumed
  room : s.claims.length ≤ s.consumed + cfg.capacity
  writer : ∀ p slot i payload todo, s.producers p = .writing slot i payload todo →
    slot = UInt64.ofNat i ∧ s.claims[i]? = some (p, payload) ∧ s.consumed ≤ i ∧
      ∀ f, f ∉ todo → (s.ring_buf (i % cfg.capacity)).fields f = payload f
  ready : ∀ i c, s.consumed ≤ i → s.claims[i]? = some c → ¬ s.Pending i →
    (s.ring_buf (i % cfg.capacity)).seq_done = UInt64.ofNat (i + 1) ∧
      (s.ring_buf (i % cfg.capacity)).fields = c.2
  stale : ∀ i, s.consumed ≤ i → i < s.consumed + cfg.capacity →
    (s.claims.length ≤ i ∨ s.Pending i) →
      (s.ring_buf (i % cfg.capacity)).seq_done = staleTag cfg i
  consumer : ConsumerInv cfg s s.consumer
  accepted : ∀ (k : Nat) r, s.accepted[k]? = some r →
    ∃ c, s.claims[k]? = some c ∧ r = (UInt64.ofNat k, loadedRecord c.2)

theorem ringInv_init (cfg : RingConfig) (zero : W) : RingInv cfg (GpuRing.init zero : GpuRing P W) where
  head := rfl
  tail := rfl
  room := Nat.zero_le _
  writer := by simp [GpuRing.init]
  ready := by simp [GpuRing.init]
  stale i _ hi _ := by
    simp only [GpuRing.init, Nat.zero_add] at hi ⊢
    rw [staleTag, if_pos hi]
  consumer := rfl
  accepted := by simp [GpuRing.init]

namespace RingInv

variable {cfg : RingConfig} {s : GpuRing P W}

theorem claim_of_held (h : RingInv cfg s) {p : P} {i : Nat} (hp : (s.producers p).held = some i) :
    s.consumed ≤ i ∧ i < s.claims.length ∧ ∃ payload, s.claims[i]? = some (p, payload) := by
  cases hw : s.producers p with
  | idle => simp [hw, Producer.held] at hp
  | writing slot j payload todo =>
    obtain rfl : j = i := by simpa [hw, Producer.held] using hp
    obtain ⟨-, hc, hle, -⟩ := h.writer p slot j payload todo hw
    exact ⟨hle, (List.getElem?_eq_some_iff.mp hc).1, payload, hc⟩

theorem held_inj (h : RingInv cfg s) {p q : P} {i : Nat} (hp : (s.producers p).held = some i)
    (hq : (s.producers q).held = some i) : p = q := by
  obtain ⟨-, -, a, ha⟩ := h.claim_of_held hp
  obtain ⟨-, -, b, hb⟩ := h.claim_of_held hq
  simpa using congrArg (Option.map Prod.fst) (ha.symm.trans hb)

theorem consumed_le_accepted (h : RingInv cfg s) : s.consumed ≤ s.accepted.length := by
  have hc := h.consumer
  unfold ConsumerInv at hc
  split at hc
  · omega
  · omega
  · omega
  · omega

theorem accepted_le_claims (h : RingInv cfg s) : s.accepted.length ≤ s.claims.length := by
  by_contra hlt
  have hk : s.claims.length < s.accepted.length := by omega
  obtain ⟨c, hc, -⟩ := h.accepted _ _ (List.getElem?_eq_getElem hk)
  simp at hc

theorem consumed_le_claims (h : RingInv cfg s) : s.consumed ≤ s.claims.length :=
  h.consumed_le_accepted.trans h.accepted_le_claims

theorem published_of_tag (h : RingInv cfg s) {i : Nat} (hi : s.consumed ≤ i)
    (hi' : i < s.consumed + cfg.capacity)
    (ht : (s.ring_buf (i % cfg.capacity)).seq_done = UInt64.ofNat (i + 1)) : s.Published i := by
  by_contra hp
  have hst := h.stale i hi hi' (by
    by_cases hl : i < s.claims.length
    · exact Or.inr (by_contra fun hn => hp ⟨hl, hn⟩)
    · exact Or.inl (Nat.le_of_not_lt hl))
  exact staleTag_ne cfg i (hst.symm.trans ht)

theorem tag_ne_of_lap (h : RingInv cfg s) (hp : s.Published s.consumed) :
    (s.ring_buf ((s.consumed + cfg.capacity) % cfg.capacity)).seq_done ≠
      UInt64.ofNat (s.consumed + cfg.capacity + 1) := by
  have hpos := cfg.capacity_pos
  have hlt := cfg.capacity_lt
  rw [Nat.add_mod_right, (h.ready _ _ le_rfl (List.getElem?_eq_getElem hp.1) hp.2).1]
  exact ofNat_ne (by omega) (by omega)

end RingInv

end SslaRt
