import SslaRt.StageOrder
import SslaRt.Tally

/-! The counters of the CPU stage. What a counter is still to be raised by lies
in the lists of the shards; with that it agrees with the messages that the shards
have taken from their queues. -/

namespace SslaRt

open Tally (tally)

variable {R : Type*}

inductive Counter
  | total_owner (k : Nat)
  | total_halo (k : Nat)
  | pass_stage0 (k : Nat)
  | pass_stage1 (k : Nat)
  | ring_head (b : Nat)
  | n_pushed (b : Nat)

namespace Counter

def value (s : StageState R) : Counter → Nat
  | total_owner k => s.total_owner k
  | total_halo k => s.total_halo k
  | pass_stage0 k => s.pass_stage0 k
  | pass_stage1 k => s.pass_stage1 k
  | ring_head b => s.ring_head b
  | n_pushed b => s.n_pushed b

def raisedBy : Counter → Nat → StageOp R → Bool
  | total_owner j, k, .total_owner => k = j
  | total_halo j, k, .total_halo => k = j
  | pass_stage0 j, k, .pass_stage0 => k = j
  | pass_stage1 j, k, .pass_stage1 => k = j
  | ring_head b, _, .claim b' _ _ => b' = b
  | n_pushed b, _, .n_pushed b' => b' = b
  | _, _, _ => false

end Counter

/-- Block `b` gets a record of the event: it is one of the shard's own, passes
both stages, and its s2 cell is in the rectangle of the block. -/
def GpuRings.Gets (rings : GpuRings) (b : Nat) (x : ShardMsg R × MsgOutcome R) : Prop :=
  x.1.is_owner = true ∧ x.2.pass1 = true ∧
    rings.Takes b (x.1.ev.px / 2 / 2 : Nat) (x.1.ev.py / 2 / 2 : Nat)

instance (rings : GpuRings) (b : Nat) (s2x s2y : Int) : Decidable (rings.Takes b s2x s2y) :=
  inferInstanceAs (Decidable (_ ∧ _))

instance (rings : GpuRings) (b : Nat) (x : ShardMsg R × MsgOutcome R) :
    Decidable (rings.Gets b x) := inferInstanceAs (Decidable (_ ∧ _ ∧ _))

def Counter.dueTo (rings : GpuRings) : Counter → Nat → ShardMsg R × MsgOutcome R → Bool
  | total_owner j, k, x => k = j && x.1.is_owner
  | total_halo j, k, x => k = j && !x.1.is_owner
  | pass_stage0 j, k, x => k = j && (x.1.is_owner && x.2.pass0)
  | pass_stage1 j, k, x => k = j && (x.1.is_owner && x.2.pass1)
  | ring_head b, _, x => rings.Gets b x
  | n_pushed b, _, x => rings.Gets b x

def GpuRings.records (rings : GpuRings) (m : ShardMsg R) (o : MsgOutcome R) :
    List (Nat × HybridInputRec R) :=
  if o.pass1 then rings.push m.ev (m.ev.px / 2 / 2 : Nat) (m.ev.py / 2 / 2 : Nat) o.feat1 else []

section Issued

variable {rings : GpuRings} {m : ShardMsg R} {o : MsgOutcome R}

theorem records_count (b : Nat) (ho : m.is_owner = true) :
    ((rings.records m o).map Prod.fst).count b = (decide (rings.Gets b (m, o))).toNat := by
  unfold GpuRings.records
  by_cases hp : o.pass1 = true
  · have hmem : b ∈ (rings.push m.ev (m.ev.px / 2 / 2 : Nat) (m.ev.py / 2 / 2 : Nat) o.feat1).map
        Prod.fst ↔ rings.Gets b (m, o) := by
      rw [List.mem_map]
      constructor
      · rintro ⟨⟨b', record⟩, hpush, rfl⟩
        exact ⟨ho, hp, (GpuRings.mem_push.mp hpush).1⟩
      · rintro ⟨-, -, htakes⟩
        exact ⟨(b, _), GpuRings.mem_push.mpr ⟨htakes, rfl⟩, rfl⟩
    rw [if_pos hp, GpuRings.push_nodup.count]
    by_cases hg : rings.Gets b (m, o)
    · rw [if_pos (hmem.mpr hg), decide_eq_true hg]
      rfl
    · rw [if_neg (fun hb => hg (hmem.mp hb)), decide_eq_false hg]
      rfl
  · rw [if_neg hp, decide_eq_false (fun hg => hp hg.2.1)]
    rfl

theorem recs_countP (c : Counter) (k index : Nat) (recs : List (Nat × HybridInputRec R)) :
    (recs.flatMap fun r => [StageOp.claim r.1 index r.2, .n_pushed r.1]).countP (c.raisedBy k) =
      match c with
      | .ring_head b => (recs.map Prod.fst).count b
      | .n_pushed b => (recs.map Prod.fst).count b
      | _ => 0 := by
  induction recs with
  | nil => cases c <;> rfl
  | cons r recs ih =>
    rw [List.flatMap_cons, List.countP_append, ih]
    cases c with
    | ring_head b | n_pushed b =>
      simp only [Tally.countP_cons_toNat, Counter.raisedBy, List.countP_nil, List.map_cons,
        List.count_cons]
      by_cases hb : r.1 = b <;> simp [hb, Nat.add_comm]
    | total_owner j | total_halo j | pass_stage0 j | pass_stage1 j => rfl

theorem countP_guarded (p : StageOp R → Bool) (b : Bool) (op : StageOp R) :
    (if b then [op] else []).countP p = (b && p op).toNat := by
  cases b
  · rfl
  · exact (Tally.countP_cons_toNat p op []).trans (Nat.zero_add _)

/-- A message makes its shard raise the counters that are due to it, once each. -/
theorem messageOps_countP (P : SslaSPipeline R) (c : Counter) (k index : Nat)
    (hb : ¬ P.OutOfBounds (castInt m.ev.x) (castInt m.ev.y)) :
    (messageOps P index m o (rings.records m o)).countP (c.raisedBy k) =
      (c.dueTo rings k (m, o)).toNat := by
  unfold messageOps
  rw [if_neg hb]
  cases ho : m.is_owner with
  | false =>
    have hnot : ∀ b, ¬ rings.Gets b (m, o) := fun b hg => absurd (ho.symm.trans hg.1) (by decide)
    rw [if_neg Bool.false_ne_true, Tally.countP_cons_toNat, List.countP_nil, Nat.zero_add]
    cases c <;> simp [Counter.raisedBy, Counter.dueTo, ho, hnot]
  | true =>
    rw [if_pos rfl, List.countP_append, recs_countP, Tally.countP_cons_toNat, List.countP_append,
      countP_guarded, countP_guarded]
    cases c with
    | ring_head b | n_pushed b => simp [records_count b ho, Counter.raisedBy, Counter.dueTo]
    | total_owner j | total_halo j | pass_stage0 j | pass_stage1 j =>
      simp [Counter.raisedBy, Counter.dueTo, ho, Bool.and_comm]

end Issued

section Law

theorem fetchAdd_apply (f : Nat → Nat) (i j : Nat) :
    fetchAdd f i j = f j + (decide (i = j)).toNat := by
  unfold fetchAdd
  by_cases h : i = j
  · rw [h, Function.update_self, decide_eq_true rfl]
    rfl
  · rw [Function.update_of_ne (Ne.symm h), decide_eq_false h]
    rfl

theorem Counter.value_apply (c : Counter) (k : Nat) (s : StageState R) (op : StageOp R) :
    c.value (op.apply k s) = c.value s + (c.raisedBy k op).toNat := by
  cases c <;> cases op <;> first | rfl | exact fetchAdd_apply _ _ _

variable [CommRing R] {cfg : StageConfig R} {s t : StageState R}

def StageConfig.shards (cfg : StageConfig R) : Finset Nat := Finset.range cfg.handle.N

/-- What a shard does belongs to a message that it decided. -/
structure WellLogged (cfg : StageConfig R) (s : StageState R) : Prop where
  working : ∀ k, s.todo k ≠ [] → k ∈ cfg.shards
  passes : ∀ k, ∀ x ∈ s.log k, x.2.pass1 = true → x.2.pass0 = true

/-- A counter and what the shards are still to raise it by make up what is due to
the messages they decided. -/
def Counter.Balanced (cfg : StageConfig R) (c : Counter) (start : Nat) (s : StageState R) : Prop :=
  c.value s + tally c.raisedBy cfg.shards s.todo =
    start + tally (c.dueTo cfg.rings) cfg.shards s.log

omit [CommRing R] in
theorem RoutedTo.mem_shards {k : Nat} {m : ShardMsg R} (hm : RoutedTo cfg k m) : k ∈ cfg.shards :=
  Finset.mem_range.mpr hm.covers.1

omit [CommRing R] in
theorem WellLogged.working_update (h : WellLogged cfg s) {k : Nat} (hk : k ∈ cfg.shards)
    (ops : List (StageOp R)) : ∀ k', Function.update s.todo k ops k' ≠ [] → k' ∈ cfg.shards :=
  (Function.forall_update_iff s.todo fun k' ops => ops ≠ [] → k' ∈ cfg.shards).mpr
    ⟨fun _ => hk, fun k' _ => h.working k'⟩

theorem WellLogged.step (h : WellLogged cfg s) (hw : WellRouted cfg s) (hst : StageStep cfg s t) :
    WellLogged cfg t := by
  cases hst with
  | reject | submit | push | accept | eof => exact ⟨h.working, h.passes⟩
  | pop k m rest r hrun hidle hq heof hr =>
    have hm := hw.q_in k m (hq ▸ List.mem_cons_self)
    refine ⟨h.working_update hm.mem_shards _, (Function.forall_update_iff s.log fun _ l =>
      ∀ x ∈ l, x.2.pass1 = true → x.2.pass0 = true).mpr ⟨?_, fun k' _ => h.passes k'⟩⟩
    intro x hx hp
    rcases List.mem_append.mp hx with hx | hx
    · exact h.passes k x hx hp
    · obtain rfl := List.mem_singleton.mp hx
      have hspec := Stage01ToGpu.shardStep_spec cfg.P cfg.rings (s.workers k) m.2
      rw [← hr] at hspec
      rw [hspec.pass1, msgPass1, Bool.and_eq_true] at hp
      exact hspec.pass0.trans hp.1
  | exec k op rest ht =>
    have hworking := h.working_update (h.working k (ht ▸ List.cons_ne_nil op rest)) rest
    cases op <;> exact ⟨hworking, h.passes⟩

theorem reachable_wellLogged (buf : WorkerState R) (ring_head : Nat → Nat)
    (h : StageReachable cfg (stageInit buf ring_head) s) : WellLogged cfg s := by
  induction h with
  | refl => exact ⟨fun _ hk => absurd rfl hk, nofun⟩
  | tail hreach hst ih => exact ih.step (reachable_wellRouted buf ring_head hreach) hst

/-- A pop adds to both sides, a step of a shard moves from one term to the other. -/
theorem Counter.Balanced.step {c : Counter} {start : Nat} (h : c.Balanced cfg start s)
    (hw : WellRouted cfg s) (hl : WellLogged cfg s) (hst : StageStep cfg s t) :
    c.Balanced cfg start t := by
  have hkeep : ∀ u : StageState R, c.value u = c.value s → u.todo = s.todo → u.log = s.log →
      c.Balanced cfg start u := by
    intro u hv htodo hlog
    rw [Counter.Balanced, hv, htodo, hlog]
    exact h
  cases hst with
  | reject | submit | push | accept | eof => exact hkeep _ (by cases c <;> rfl) rfl rfl
  | pop k m rest r hrun hidle hq heof hr =>
    have hm := hw.q_in k m (hq ▸ List.mem_cons_self)
    have hrecs : r.2.2 = cfg.rings.records m.2 r.2.1 := by
      rw [hr]
      exact Stage01ToGpu.shardStep_push cfg.P cfg.rings (s.workers k) m.2
    have hops : (messageOps cfg.P m.1 m.2 r.2.1 (cfg.rings.records m.2 r.2.1)).countP (c.raisedBy k) =
        (c.dueTo cfg.rings k (m.2, r.2.1)).toNat := messageOps_countP cfg.P c k m.1 hm.inside
    have hvalue : c.value { s with
        q_in := Function.update s.q_in k rest
        workers := Function.update s.workers k r.1
        todo := Function.update s.todo k (messageOps cfg.P m.1 m.2 r.2.1 r.2.2)
        log := Function.update s.log k (s.log k ++ [(m.2, r.2.1)]) } = c.value s := by
      cases c <;> rfl
    unfold Counter.Balanced at h ⊢
    rw [hvalue, Tally.tally_fill hm.mem_shards hidle, hrecs, hops, Tally.tally_snoc hm.mem_shards,
      ← Nat.add_assoc, h, Nat.add_assoc]
  | exec k op rest ht =>
    have hk := hl.working k (ht ▸ List.cons_ne_nil op rest)
    have htodo : (op.apply k { s with todo := Function.update s.todo k rest }).todo =
        Function.update s.todo k rest := by cases op <;> rfl
    have hlog : (op.apply k { s with todo := Function.update s.todo k rest }).log = s.log := by
      cases op <;> rfl
    have hvalue : c.value { s with todo := Function.update s.todo k rest } = c.value s := by
      cases c <;> rfl
    have htail := Tally.tally_tail (p := c.raisedBy) hk ht
    unfold Counter.Balanced at h ⊢
    rw [Counter.value_apply, hvalue, htodo, hlog, ← h, ← htail]
    omega

theorem reachable_balanced (buf : WorkerState R) (ring_head : Nat → Nat) (c : Counter)
    (h : StageReachable cfg (stageInit buf ring_head) s) :
    c.Balanced cfg (c.value (stageInit buf ring_head)) s := by
  induction h with
  | refl => exact congrArg _ ((Tally.tally_nil fun _ => rfl).trans (Tally.tally_nil fun _ => rfl).symm)
  | tail hreach hst ih =>
    exact ih.step (reachable_wellRouted buf ring_head hreach)
      (reachable_wellLogged buf ring_head hreach) hst

end Law

end SslaRt
