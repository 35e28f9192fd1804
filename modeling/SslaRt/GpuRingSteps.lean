import SslaRt.GpuRingInvariant

/-! Every step of a party preserves the ring invariant, provided a claim is
made only while the producers are less than a lap ahead. -/

namespace SslaRt

variable {P W : Type*} [DecidableEq P] {cfg : RingConfig} {s t : GpuRing P W}

omit [DecidableEq P] in
theorem ConsumerInv.mono {c : Consumer W} (h : ConsumerInv cfg s c)
    (ha : t.accepted = s.accepted) (hc : t.consumed = s.consumed)
    (hl : ∀ i, s.Published i → t.Published i ∧ t.claims[i]? = s.claims[i]?) :
    ConsumerInv cfg t c := by
  cases c with
  | idle => simpa only [ConsumerInv, ha, hc] using h
  | probing n =>
    obtain ⟨h1, h2, h3⟩ := h
    exact ⟨by rw [ha, hc, h1], h2, fun e he => by rw [hc]; exact (hl _ (h3 e he)).1⟩
  | copying n todo event_slots =>
    obtain ⟨h1, h2, h3, h4, h5⟩ := h
    refine ⟨by rw [ha, hc, h1], h2, fun e he => by rw [hc]; exact (hl _ (h3 e he)).1, h4, ?_⟩
    intro e he c hcl
    rw [hc, (hl _ (h3 e he)).2] at hcl
    exact h5 e he c hcl
  | processing n =>
    obtain ⟨h1, h2, h3⟩ := h
    exact ⟨by rw [ha, hc, h1], h2, fun e he => by rw [hc]; exact (hl _ (h3 e he)).1⟩

theorem held_update (f : P → Producer W) (p q : P) (w : Producer W) :
    (Function.update f p w q).held = if q = p then w.held else (f q).held := by
  by_cases hq : q = p
  · subst hq
    simp
  · simp [hq]

/-- A producer that holds another index before and after is of no concern. -/
theorem pending_update {p : P} {w : Producer W} (ht : t.producers = Function.update s.producers p w)
    {i : Nat} (hw : w.held ≠ some i) (hp : (s.producers p).held ≠ some i) :
    t.Pending i ↔ s.Pending i := by
  refine exists_congr fun q => ?_
  rw [ht, held_update]
  split
  · next hq =>
    rw [hq]
    exact iff_of_false hw hp
  · rfl

section Claim

/-- The idle producer `p` claims the next index. -/
structure ClaimStep (s t : GpuRing P W) (p : P) (payload : Field → W) : Prop where
  idle : s.producers p = .idle
  step : { s with
    ring_head := s.ring_head + 1
    producers := Function.update s.producers p
      (.writing s.ring_head s.claims.length payload Field.pushed)
    claims := s.claims ++ [(p, payload)] } = t

theorem claimStep_of_ringStep {p : P} {payload : Field → W}
    (hst : ringStep cfg s (.claim p payload) = some t) : ClaimStep s t p payload := by
  cases hp : s.producers p with
  | writing => simp [ringStep, hp] at hst
  | idle =>
    simp only [ringStep, hp, Option.some.injEq] at hst
    exact ⟨hp, hst⟩

namespace ClaimStep

variable {p : P} {payload : Field → W} (c : ClaimStep s t p payload)

include c

theorem producers : t.producers = Function.update s.producers p
    (.writing s.ring_head s.claims.length payload Field.pushed) := by rw [← c.step]

theorem ring_buf : t.ring_buf = s.ring_buf := by rw [← c.step]

theorem consumed : t.consumed = s.consumed := by rw [← c.step]

theorem length : t.claims.length = s.claims.length + 1 := by simp [← c.step]

theorem claims_old {i : Nat} (hi : i < s.claims.length) : t.claims[i]? = s.claims[i]? := by
  rw [← c.step]
  exact List.getElem?_append_left hi

theorem claims_new : t.claims[s.claims.length]? = some (p, payload) := by simp [← c.step]

theorem pending_old {i : Nat} (hi : i < s.claims.length) : t.Pending i ↔ s.Pending i := by
  refine pending_update c.producers ?_ ?_
  · exact fun he => absurd (Option.some.inj he) (by omega)
  · rw [c.idle]
    exact nofun

theorem pending_new : t.Pending s.claims.length :=
  ⟨p, by rw [c.producers, held_update, if_pos rfl]; rfl⟩

theorem writer (h : RingInv cfg s) {q : P} {slot : UInt64} {i : Nat} {pl : Field → W}
    {todo : List Field} (hw : t.producers q = .writing slot i pl todo) :
    slot = UInt64.ofNat i ∧ t.claims[i]? = some (q, pl) ∧ t.consumed ≤ i ∧
      ∀ f, f ∉ todo → (t.ring_buf (i % cfg.capacity)).fields f = pl f := by
  rw [c.producers] at hw
  rw [c.consumed, c.ring_buf]
  by_cases hq : q = p
  · subst hq
    rw [Function.update_self] at hw
    cases hw
    exact ⟨h.head, c.claims_new, h.consumed_le_claims, fun f hf => absurd (Field.mem_pushed f) hf⟩
  · rw [Function.update_of_ne hq] at hw
    obtain ⟨h1, h2, h3⟩ := h.writer q slot i pl todo hw
    exact ⟨h1, (c.claims_old (List.getElem?_eq_some_iff.mp h2).1).trans h2, h3⟩

theorem ready (h : RingInv cfg s) {i : Nat} {cl : P × (Field → W)} (hi : t.consumed ≤ i)
    (hc : t.claims[i]? = some cl) (hn : ¬ t.Pending i) :
    (t.ring_buf (i % cfg.capacity)).seq_done = UInt64.ofNat (i + 1) ∧
      (t.ring_buf (i % cfg.capacity)).fields = cl.2 := by
  have hlt := (List.getElem?_eq_some_iff.mp hc).1
  have hne : i ≠ s.claims.length := fun he => hn (he ▸ c.pending_new)
  have hil : i < s.claims.length := by
    rw [c.length] at hlt
    omega
  rw [c.ring_buf]
  exact h.ready i cl (c.consumed ▸ hi) ((c.claims_old hil).symm.trans hc) (mt (c.pending_old hil).mpr hn)

theorem stale (h : RingInv cfg s) {i : Nat} (hi : t.consumed ≤ i) (hi' : i < t.consumed + cfg.capacity)
    (hor : t.claims.length ≤ i ∨ t.Pending i) :
    (t.ring_buf (i % cfg.capacity)).seq_done = staleTag cfg i := by
  rw [c.consumed] at hi hi'
  rw [c.length] at hor
  rw [c.ring_buf]
  refine h.stale i hi hi' ?_
  by_cases hil : i < s.claims.length
  · exact .inr ((c.pending_old hil).mp (hor.resolve_left (by omega)))
  · exact .inl (Nat.le_of_not_lt hil)

end ClaimStep

theorem ringInv_claim (h : RingInv cfg s) {p : P} {payload : Field → W}
    (hroom : s.claims.length < s.consumed + cfg.capacity)
    (hst : ringStep cfg s (.claim p payload) = some t) : RingInv cfg t := by
  have c := claimStep_of_ringStep hst
  have hacc : t.accepted = s.accepted := by rw [← c.step]
  have hcon : t.consumer = s.consumer := by rw [← c.step]
  refine
    { head := ?_
      tail := by rw [← c.step]; exact h.tail
      room := by rw [c.length, c.consumed]; exact hroom
      writer := fun _ _ _ _ _ hw => c.writer h hw
      ready := fun _ _ hi hc hn => c.ready h hi hc hn
      stale := fun _ hi hi' hor => c.stale h hi hi' hor
      consumer := ?_
      accepted := ?_ }
  · rw [c.length, ← ofNat_add_one, ← h.head, ← c.step]
  · rw [hcon]
    refine h.consumer.mono hacc c.consumed fun i hi => ⟨⟨?_, ?_⟩, c.claims_old hi.1⟩
    · rw [c.length]
      exact Nat.lt_succ_of_lt hi.1
    · exact mt (c.pending_old hi.1).mp hi.2
  · intro k r hk
    rw [hacc] at hk
    obtain ⟨cl, hc, hr⟩ := h.accepted k r hk
    exact ⟨cl, (c.claims_old (List.getElem?_eq_some_iff.mp hc).1).trans hc, hr⟩

end Claim

section Slot

/-- A step of the producer that holds `i₀`: it changes the slot of `i₀` only, and
the new slot and producer satisfy the producer's own part of the invariant. -/
structure SlotStep (cfg : RingConfig) (s t : GpuRing P W) (p : P) (i₀ : Nat) (slot₀ : RingSlot W)
    (w : Producer W) : Prop where
  held : (s.producers p).held = some i₀
  step : { s with
    ring_buf := Function.update s.ring_buf (i₀ % cfg.capacity) slot₀
    producers := Function.update s.producers p w } = t
  held_new : ∀ j, w.held = some j → j = i₀
  writer : ∀ slot i payload todo, w = .writing slot i payload todo →
    slot = UInt64.ofNat i ∧ s.claims[i]? = some (p, payload) ∧
      ∀ f, f ∉ todo → slot₀.fields f = payload f
  ready : w.held = none → ∀ c, s.claims[i₀]? = some c →
    slot₀.seq_done = UInt64.ofNat (i₀ + 1) ∧ slot₀.fields = c.2
  stale : w.held = some i₀ → slot₀.seq_done = (s.ring_buf (i₀ % cfg.capacity)).seq_done

namespace SlotStep

variable {p : P} {i₀ : Nat} {slot₀ : RingSlot W} {w : Producer W} (c : SlotStep cfg s t p i₀ slot₀ w)

include c

theorem producers : t.producers = Function.update s.producers p w := by rw [← c.step]

theorem claims : t.claims = s.claims := by rw [← c.step]

theorem consumed : t.consumed = s.consumed := by rw [← c.step]

theorem buf_self : t.ring_buf (i₀ % cfg.capacity) = slot₀ := by
  rw [← c.step]
  exact Function.update_self _ _ _

theorem buf_other (h : RingInv cfg s) {j : Nat} (hj : s.consumed ≤ j)
    (hj' : j < s.consumed + cfg.capacity) (hne : j ≠ i₀) :
    t.ring_buf (j % cfg.capacity) = s.ring_buf (j % cfg.capacity) := by
  obtain ⟨hle, hlt, -⟩ := h.claim_of_held c.held
  have hroom := h.room
  rw [← c.step]
  exact Function.update_of_ne (fun he => hne (position_inj hj hj' hle (by omega) he)) _ _

theorem pending_other {j : Nat} (hj : j ≠ i₀) : t.Pending j ↔ s.Pending j := by
  refine pending_update c.producers (fun hw => hj (c.held_new j hw)) fun hp => hj ?_
  exact Option.some.inj (hp.symm.trans c.held)

theorem held_of_pending (h : RingInv cfg s) (hp : t.Pending i₀) : w.held = some i₀ := by
  obtain ⟨q, hq⟩ := hp
  rw [c.producers, held_update] at hq
  split at hq
  · exact hq
  · next hne => exact absurd (h.held_inj hq c.held) hne

theorem pending_of_held {j : Nat} (hw : w.held = some j) : t.Pending j :=
  ⟨p, by rw [c.producers, held_update, if_pos rfl, hw]⟩

theorem writer_new (h : RingInv cfg s) {q : P} {slot : UInt64} {i : Nat} {payload : Field → W}
    {todo : List Field} (hw : t.producers q = .writing slot i payload todo) :
    slot = UInt64.ofNat i ∧ t.claims[i]? = some (q, payload) ∧ t.consumed ≤ i ∧
      ∀ f, f ∉ todo → (t.ring_buf (i % cfg.capacity)).fields f = payload f := by
  have hroom := h.room
  rw [c.claims, c.consumed]
  rw [c.producers] at hw
  by_cases hq : q = p
  · subst hq
    rw [Function.update_self] at hw
    obtain rfl : i = i₀ := c.held_new i (by rw [hw]; rfl)
    obtain ⟨h1, h2, h3⟩ := c.writer _ _ _ _ hw
    exact ⟨h1, h2, (h.claim_of_held c.held).1, by rw [c.buf_self]; exact h3⟩
  · rw [Function.update_of_ne hq] at hw
    have hqi : (s.producers q).held = some i := by rw [hw]; rfl
    obtain ⟨hqle, hqlt, -⟩ := h.claim_of_held hqi
    have hne : i ≠ i₀ := fun he => hq (h.held_inj hqi (he ▸ c.held))
    rw [c.buf_other h hqle (by omega) hne]
    exact h.writer q slot i payload todo hw

theorem ready_new (h : RingInv cfg s) {j : Nat} {cl : P × (Field → W)} (hj : t.consumed ≤ j)
    (hc : t.claims[j]? = some cl) (hn : ¬ t.Pending j) :
    (t.ring_buf (j % cfg.capacity)).seq_done = UInt64.ofNat (j + 1) ∧
      (t.ring_buf (j % cfg.capacity)).fields = cl.2 := by
  have hroom := h.room
  rw [c.consumed] at hj
  rw [c.claims] at hc
  have hjl : j < s.claims.length := (List.getElem?_eq_some_iff.mp hc).1
  by_cases hne : j = i₀
  · subst hne
    rw [c.buf_self]
    refine c.ready ?_ cl hc
    cases hw : w.held with
    | none => rfl
    | some j =>
      obtain rfl := c.held_new j hw
      exact absurd (c.pending_of_held hw) hn
  · rw [c.buf_other h hj (by omega) hne]
    exact h.ready j cl hj hc (mt (c.pending_other hne).mpr hn)

theorem stale_new (h : RingInv cfg s) {j : Nat} (hj : t.consumed ≤ j)
    (hj' : j < t.consumed + cfg.capacity) (hor : t.claims.length ≤ j ∨ t.Pending j) :
    (t.ring_buf (j % cfg.capacity)).seq_done = staleTag cfg j := by
  rw [c.consumed] at hj hj'
  rw [c.claims] at hor
  by_cases hne : j = i₀
  · subst hne
    have hlt := (h.claim_of_held c.held).2.1
    rw [c.buf_self, c.stale (c.held_of_pending h (hor.resolve_left (by omega)))]
    exact h.stale j hj hj' (.inr ⟨p, c.held⟩)
  · rw [c.buf_other h hj hj' hne]
    exact h.stale j hj hj' (hor.imp_right (c.pending_other hne).mp)

theorem ringInv (h : RingInv cfg s) : RingInv cfg t := by
  have hacc : t.accepted = s.accepted := by rw [← c.step]
  have hcon : t.consumer = s.consumer := by rw [← c.step]
  refine
    { head := by rw [c.claims, ← c.step]; exact h.head
      tail := by rw [c.consumed, ← c.step]; exact h.tail
      room := by rw [c.claims, c.consumed]; exact h.room
      writer := fun _ _ _ _ _ hw => c.writer_new h hw
      ready := fun _ _ hj hc hn => c.ready_new h hj hc hn
      stale := fun _ hj hj' hor => c.stale_new h hj hj' hor
      consumer := ?_
      accepted := by rw [hacc, c.claims]; exact h.accepted }
  rw [hcon]
  refine h.consumer.mono hacc c.consumed fun j hj => ⟨⟨?_, ?_⟩, by rw [c.claims]⟩
  · rw [c.claims]
    exact hj.1
  · have hne : j ≠ i₀ := fun he => hj.2 ⟨p, he ▸ c.held⟩
    exact mt (c.pending_other hne).mp hj.2

end SlotStep

end Slot

theorem ringInv_write (h : RingInv cfg s) {p : P} {f : Field}
    (hst : ringStep cfg s (.write p f) = some t) : RingInv cfg t := by
  cases hp : s.producers p with
  | idle => simp [ringStep, hp] at hst
  | writing slot i payload todo =>
    obtain ⟨hslot, hc, -, hf⟩ := h.writer p slot i payload todo hp
    simp only [ringStep, hp, GpuRing.setField, hslot, position_ofNat] at hst
    split at hst
    · refine SlotStep.ringInv ⟨by rw [hp]; rfl, Option.some.inj hst, fun j hj => ?_, ?_, ?_,
        fun _ => rfl⟩ h
      · exact (Option.some.inj hj).symm
      · intro slot' i' payload' todo' hw
        injection hw with h1 h2 h3 h4
        subst h1 h2 h3 h4
        refine ⟨rfl, hc, fun g hg => ?_⟩
        by_cases hgf : g = f
        · subst hgf
          exact Function.update_self _ _ _
        · exact (Function.update_of_ne hgf _ _).trans
            (hf g (fun hmem => hg ((List.mem_erase_of_ne hgf).mpr hmem)))
      · intro hw
        simp [Producer.held] at hw
    · simp at hst

theorem ringInv_publish (h : RingInv cfg s) {p : P}
    (hst : ringStep cfg s (.publish p) = some t) : RingInv cfg t := by
  cases hp : s.producers p with
  | idle => simp [ringStep, hp] at hst
  | writing slot i payload todo =>
    obtain ⟨hslot, hc, -, hf⟩ := h.writer p slot i payload todo hp
    cases todo with
    | cons f todo => simp [ringStep, hp] at hst
    | nil =>
      simp only [ringStep, hp, GpuRing.setTag, hslot, position_ofNat] at hst
      refine SlotStep.ringInv ⟨by rw [hp]; rfl, Option.some.inj hst, fun j hj => ?_, ?_, ?_, ?_⟩ h
      · simp [Producer.held] at hj
      · intro slot' i' payload' todo' hw
        simp at hw
      · intro _ c hc'
        obtain rfl := Option.some.inj (hc.symm.trans hc')
        exact ⟨ofNat_add_one i, funext fun f => hf f (by simp)⟩
      · intro hw
        simp [Producer.held] at hw

omit [DecidableEq P] in
theorem ringInv_consumer (h : RingInv cfg s) {c : Consumer W}
    (ht : { s with tail := UInt64.ofNat s.consumed, consumer := c } = t)
    (hc : ConsumerInv cfg s c) : RingInv cfg t := by
  subst ht
  exact { h with tail := rfl, consumer := hc.mono rfl rfl (fun i hi => ⟨hi, rfl⟩) }

theorem mem_copyList {n e : Nat} {f : Field} :
    (e, f) ∈ (List.range n).flatMap (fun e => Field.loaded.map (fun f => (e, f))) ↔
      e < n ∧ f ∈ Field.loaded := by
  simp

theorem ringInv_probe (h : RingInv cfg s) (hst : ringStep cfg s .probe = some t) :
    RingInv cfg t := by
  have hcon := h.consumer
  cases hc : s.consumer with
  | idle =>
    rw [hc] at hcon
    simp only [ringStep, hc, h.tail, ofNat_add_one, position_ofNat] at hst
    split at hst
    · next htag =>
      have hpos := cfg.capacity_pos
      refine ringInv_consumer h (Option.some.inj hst) ⟨hcon, hpos, fun e he => ?_⟩
      obtain rfl : e = 0 := by omega
      exact h.published_of_tag le_rfl (by omega) htag
    · exact Option.some.inj hst ▸ h
  | probing n =>
    rw [hc] at hcon
    obtain ⟨h1, h2, h3⟩ := hcon
    simp only [ringStep, hc, h.tail, ofNat_add_ofNat, ofNat_add_one, position_ofNat] at hst
    split at hst
    · next htag =>
      have hlt : n < cfg.capacity := by
        refine lt_of_le_of_ne h2 (fun he => ?_)
        have hp : s.Published s.consumed := h3 0 (he ▸ cfg.capacity_pos)
        exact h.tag_ne_of_lap hp (he ▸ htag.2)
      refine ringInv_consumer h (Option.some.inj hst) ⟨h1, hlt, fun e he => ?_⟩
      rcases Nat.lt_succ_iff_lt_or_eq.mp he with he | rfl
      · exact h3 e he
      · exact h.published_of_tag (Nat.le_add_right _ _) (by omega) htag.2
    · refine ringInv_consumer h (Option.some.inj hst) ⟨h1, h2, h3, ?_, ?_⟩
      · rintro ⟨e, f⟩ hp
        exact mem_copyList.mp hp
      · intro e he c _ f hf
        have hfl : f ∉ Field.loaded := fun hl => hf (mem_copyList.mpr ⟨he, hl⟩)
        rw [loadedRecord, if_neg hfl]
  | copying n todo event_slots => simp [ringStep, hc] at hst
  | processing n => simp [ringStep, hc] at hst

theorem ringInv_copy (h : RingInv cfg s) {e : Nat} {f : Field}
    (hst : ringStep cfg s (.copy e f) = some t) : RingInv cfg t := by
  have hcon := h.consumer
  cases hc : s.consumer with
  | idle => simp [ringStep, hc] at hst
  | probing n => simp [ringStep, hc] at hst
  | processing n => simp [ringStep, hc] at hst
  | copying n todo event_slots =>
    rw [hc] at hcon
    obtain ⟨h1, h2, h3, h4, h5⟩ := hcon
    simp only [ringStep, hc, h.tail, ofNat_add_ofNat, position_ofNat] at hst
    split at hst
    · next hmem =>
      refine ringInv_consumer h (Option.some.inj hst) ⟨h1, h2, h3, ?_, ?_⟩
      · exact fun p hp => h4 p (List.mem_of_mem_erase hp)
      · intro e' he' c hcl f' hf'
        by_cases he : e' = e
        · subst he
          rw [Function.update_self]
          by_cases hff : f' = f
          · subst hff
            have hready := h.ready _ c (Nat.le_add_right _ _) hcl (h3 e' he').2
            rw [Function.update_self, hready.2, loadedRecord, if_pos (h4 _ hmem).2]
          · rw [Function.update_of_ne hff]
            refine h5 e' he' c hcl f' (fun hm => hf' ((List.mem_erase_of_ne ?_).mpr hm))
            exact fun heq => hff (Prod.mk.inj heq).2
        · rw [Function.update_of_ne he]
          refine h5 e' he' c hcl f' (fun hm => hf' ((List.mem_erase_of_ne ?_).mpr hm))
          exact fun heq => he (Prod.mk.inj heq).1
    · simp at hst

theorem ringInv_load (h : RingInv cfg s) (hst : ringStep cfg s .load = some t) :
    RingInv cfg t := by
  have hcon := h.consumer
  cases hc : s.consumer with
  | idle => simp [ringStep, hc] at hst
  | probing n => simp [ringStep, hc] at hst
  | processing n => simp [ringStep, hc] at hst
  | copying n todo event_slots =>
    cases todo with
    | cons p todo => simp [ringStep, hc] at hst
    | nil =>
      rw [hc] at hcon
      obtain ⟨h1, h2, h3, -, h5⟩ := hcon
      simp only [ringStep, hc, h.tail, ofNat_add_ofNat, Option.some.injEq] at hst
      subst hst
      refine { h with tail := rfl, consumer := ⟨by simp [h1], h2, h3⟩, accepted := fun k r hk => ?_ }
      by_cases hlt : k < s.accepted.length
      · rw [List.getElem?_append_left hlt] at hk
        exact h.accepted k r hk
      · rw [List.getElem?_append_right (Nat.le_of_not_lt hlt), List.getElem?_map] at hk
        obtain ⟨e, he, rfl⟩ := Option.map_eq_some_iff.mp hk
        obtain ⟨hen, he'⟩ := List.getElem?_eq_some_iff.mp he
        rw [List.getElem_range] at he'
        rw [List.length_range] at hen
        have hk' : k = s.consumed + e := by omega
        have hpub := h3 e (by omega)
        have hcl := List.getElem?_eq_getElem hpub.1
        refine ⟨_, by rw [hk']; exact hcl, ?_⟩
        rw [hk']
        exact Prod.ext rfl (funext fun f => h5 e (by omega) _ hcl f (by simp))

theorem ringInv_advance (h : RingInv cfg s) (hst : ringStep cfg s .advance = some t) :
    RingInv cfg t := by
  have hcon := h.consumer
  cases hc : s.consumer with
  | idle => simp [ringStep, hc] at hst
  | probing n => simp [ringStep, hc] at hst
  | copying n todo event_slots => simp [ringStep, hc] at hst
  | processing n =>
    rw [hc] at hcon
    obtain ⟨h1, h2, h3⟩ := hcon
    simp only [ringStep, hc, h.tail, ofNat_add_ofNat, Option.some.injEq] at hst
    subst hst
    have hroom := h.room
    have hpast : ∀ i, s.consumed ≤ i → s.Pending i → s.consumed + n ≤ i := by
      intro i hi hp
      by_contra hlt
      have hpub := h3 (i - s.consumed) (by omega)
      rw [Nat.add_sub_cancel' hi] at hpub
      exact hpub.2 hp
    refine { h with tail := rfl, room := ?_, writer := ?_, ready := ?_, stale := ?_, consumer := h1 }
    · exact hroom.trans (by dsimp only; omega)
    · intro p slot i payload todo hw
      obtain ⟨g1, g2, g3, g4⟩ := h.writer p slot i payload todo hw
      exact ⟨g1, g2, hpast i g3 ⟨p, by rw [hw]; rfl⟩, g4⟩
    · exact fun i c hi => h.ready i c (by dsimp only at hi; omega)
    · intro i hi hi' hor
      dsimp only at hi hi' ⊢
      by_cases hlap : i < s.consumed + cfg.capacity
      · exact h.stale i (by omega) hlap hor
      · -- the slot still holds index `i - capacity`, which the consumer has just passed
        obtain ⟨j, rfl⟩ : ∃ j, i = j + cfg.capacity := ⟨i - cfg.capacity, by omega⟩
        have hpub := h3 (j - s.consumed) (by omega)
        rw [Nat.add_sub_cancel' (by omega)] at hpub
        rw [Nat.add_mod_right, (h.ready j _ (by omega) (List.getElem?_eq_getElem hpub.1) hpub.2).1,
          staleTag, if_neg (by omega)]
        congr 1
        omega

/-- Every step preserves the invariant, if a claim finds room. -/
theorem ringInv_step (h : RingInv cfg s) {a : RingAction P W}
    (hroom : ∀ p payload, a = .claim p payload → s.claims.length < s.consumed + cfg.capacity)
    (hst : ringStep cfg s a = some t) : RingInv cfg t := by
  cases a with
  | claim p payload => exact ringInv_claim h (hroom p payload rfl) hst
  | write p f => exact ringInv_write h hst
  | publish p => exact ringInv_publish h hst
  | probe => exact ringInv_probe h hst
  | copy e f => exact ringInv_copy h hst
  | load => exact ringInv_load h hst
  | advance => exact ringInv_advance h hst

end SslaRt
