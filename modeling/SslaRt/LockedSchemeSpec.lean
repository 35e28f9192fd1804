import SslaRt.LockedSchemeShards
import SslaRt.LockedSchemeProducer

/-! Every timely run of scheme 5 keeps its watermarks and its order of events. -/

namespace SslaRt

namespace LockedScheme

variable {p : LockedScheme} {R : Type*} {s s' t : State} {k : Nat}

section Stages

/-- The stage thread alone moves on. -/
theorem Inv.stage_local (h : Inv p s) {stage : StagePc}
    (hc : ∀ j k m, stage = .checking j k m → s.cache k = some m ∧
      (∀ i m', i < p.num_shards → s.cache i = some m' → m.seq ≤ m'.seq) ∧
      ∀ i < j, i ≠ k → s.cache i = none → s.Clear i m.seq) :
    Inv p { s with stage := stage } :=
  { h with candidate := hc }

/-- A message is cached at its shard and is at most as old as the others below `n`. -/
def Oldest (cache : Nat → Option Msg) (n : Nat) (best : Option (Nat × Msg)) : Prop :=
  (best = none → ∀ i < n, cache i = none) ∧
    ∀ k m, best = some (k, m) → cache k = some m ∧ ∀ i < n, ∀ m', cache i = some m' → m.seq ≤ m'.seq

/-- One round of the loop that picks the candidate. -/
theorem Oldest.next {cache : Nat → Option Msg} {n : Nat} {best : Option (Nat × Msg)} :
    Oldest cache n best → Oldest cache (n + 1) (match cache n, best with
      | none, best => best
      | some m, none => some (n, m)
      | some m, some b => if m.seq < b.2.seq then some (n, m) else some b) := by
  intro h
  cases hc : cache n with
  | none =>
    refine ⟨fun hb i hi => ?_, fun k m hb => ⟨(h.2 k m hb).1, fun i hi m' hm' => ?_⟩⟩
    · rcases Nat.lt_succ_iff_lt_or_eq.mp hi with hi | rfl
      · exact h.1 hb i hi
      · exact hc
    · rcases Nat.lt_succ_iff_lt_or_eq.mp hi with hi | rfl
      · exact (h.2 k m hb).2 i hi m' hm'
      · exact absurd (hc.symm.trans hm') (by simp)
  | some m =>
    cases best with
    | none =>
      refine ⟨nofun, fun k m' hb => ?_⟩
      obtain ⟨rfl, rfl⟩ : n = k ∧ m = m' := by simpa using hb
      refine ⟨hc, fun i hi m' hm' => ?_⟩
      rcases Nat.lt_succ_iff_lt_or_eq.mp hi with hi | rfl
      · exact absurd ((h.1 rfl i hi).symm.trans hm') (by simp)
      · rw [hc] at hm'
        injection hm' with hm'
        rw [hm']
    | some b =>
      dsimp only
      obtain ⟨hb, hle⟩ := h.2 b.1 b.2 rfl
      split
      · rename_i hlt
        refine ⟨nofun, fun k m' hb => ?_⟩
        obtain ⟨rfl, rfl⟩ : n = k ∧ m = m' := by simpa using hb
        refine ⟨hc, fun i hi m' hm' => ?_⟩
        rcases Nat.lt_succ_iff_lt_or_eq.mp hi with hi | rfl
        · exact hlt.le.trans (hle i hi m' hm')
        · rw [hc] at hm'
          injection hm' with hm'
          rw [hm']
      · rename_i hge
        refine ⟨nofun, fun k m' hb' => ?_⟩
        obtain rfl : b = (k, m') := by simpa using hb'
        refine ⟨hb, fun i hi m' hm' => ?_⟩
        rcases Nat.lt_succ_iff_lt_or_eq.mp hi with hi | rfl
        · exact hle i hi m' hm'
        · rw [hc] at hm'
          injection hm' with hm'
          rw [← hm']
          exact not_lt.mp hge

theorem pick_spec {cache : Nat → Option Msg} {min_k : Nat} {m : Msg}
    (h : p.pick cache = some (min_k, m)) :
    cache min_k = some m ∧ ∀ i m', i < p.num_shards → cache i = some m' → m.seq ≤ m'.seq := by
  have hold : Oldest cache p.num_shards (p.pick cache) := by
    unfold pick
    induction p.num_shards with
    | zero => exact ⟨fun _ i hi => absurd hi i.not_lt_zero, nofun⟩
    | succ n ih =>
      rw [List.range_succ, List.foldl_append]
      exact ih.next
  obtain ⟨hc, hle⟩ := hold.2 min_k m h
  exact ⟨hc, fun i m' hi hm' => hle i hi m' hm'⟩

theorem Inv.fill (h : Inv p s) {m : Msg} {q : List Msg} (hc : s.cache k = none)
    (hq : s.q_to_stage k = m :: q) :
    Inv p { s with
      cache := Function.update s.cache k (some m)
      q_to_stage := Function.update s.q_to_stage k q
      stage := .filling (k + 1) } := by
  have hpend : State.pending { s with
      cache := Function.update s.cache k (some m)
      q_to_stage := Function.update s.q_to_stage k q
      stage := .filling (k + 1) } = s.pending := by
    funext j
    rcases eq_or_ne j k with rfl | hj
    · simp [State.pending, State.waiting, hc, hq]
    · simp [State.pending, State.waiting, Function.update_of_ne hj]
  refine ⟨h.max_le, h.storing, h.marking, ?_, ?_, ?_, ?_, h.owned, ?_, h.processed_lt,
    h.processed_sorted, fun _ _ _ hpc => absurd hpc (by simp), h.shard⟩
  · rw [hpend]
    exact h.marker
  · rw [hpend]
    exact h.eof
  · rw [hpend]
    exact h.sorted
  · rw [hpend]
    exact h.routed
  · rw [hpend]
    exact h.later

/-- The candidate is older than every other event that is still to come. -/
theorem Inv.candidate_lt (h : Inv p s) {min_k m : Nat}
    (hpc : s.stage = .checking p.num_shards min_k (.event m)) {j q : Nat} (hj : j ≠ min_k)
    (hq : .event q ∈ s.pending j) : m < q := by
  obtain ⟨hcache, hmin, hclear⟩ := h.candidate _ _ _ hpc
  have hroute := h.routed j q hq
  have hm : .event m ∈ s.pending min_k := by
    rw [State.pending, hcache]
    exact List.mem_cons_self
  have hne : m ≠ q := by
    rintro rfl
    have hroute' := h.routed min_k m hm
    rw [hroute] at hroute'
    injection hroute' with hroute'
    injection hroute' with hroute'
    exact hj hroute'
  have hlt := (h.owned q j hroute).1
  suffices m ≤ q by omega
  cases hc : s.cache j with
  | none =>
    have hcl := hclear j hlt hj hc
    rw [State.pending, hc, Option.toList_none, List.nil_append] at hq
    rcases List.mem_append.mp hq with hq | hq
    · exact hcl.2 q hq
    · exact (h.shard j).le_fresh hcl.1 hq
  | some m' =>
    have hle : m ≤ m'.seq := hmin j m' hlt hc
    have hsorted := h.sorted j
    rw [State.pending, hc, Option.toList_some, List.singleton_append] at hq hsorted
    rcases List.mem_cons.mp hq with hq | hq
    · rw [← hq] at hle
      exact hle
    · obtain ⟨r, hr, hrq⟩ := (List.pairwise_cons.mp hsorted).1 _ hq q rfl
      rw [hr] at hle
      exact (Nat.lt_of_le_of_lt hle hrq).le

theorem Inv.emit (h : Inv p s) {min_k : Nat} {m : Msg} (done : Nat)
    (hpc : s.stage = .checking p.num_shards min_k m) :
    Inv p { s with
      cache := Function.update s.cache min_k none
      stage := .filling 0
      marker_done_stages := done
      processed := s.processed ++ eventSeq m } := by
  obtain ⟨hcache, -, -⟩ := h.candidate _ _ _ hpc
  have hself : s.pending min_k = m :: (s.q_to_stage min_k ++ s.waiting min_k) := by
    rw [State.pending, hcache]
    rfl
  have hpend : ∀ j, State.pending { s with
      cache := Function.update s.cache min_k none
      stage := .filling 0
      marker_done_stages := done
      processed := s.processed ++ eventSeq m } j =
        if j = min_k then s.q_to_stage min_k ++ s.waiting min_k else s.pending j := by
    intro j
    rcases eq_or_ne j min_k with rfl | hj
    · simp [State.pending, State.waiting]
    · simp [State.pending, State.waiting, hj]
  have hsub : ∀ j, (State.pending { s with
      cache := Function.update s.cache min_k none
      stage := .filling 0
      marker_done_stages := done
      processed := s.processed ++ eventSeq m } j).Sublist (s.pending j) := by
    intro j
    rw [hpend]
    split
    · rename_i hj
      rw [hj, hself]
      exact List.sublist_cons_self ..
    · exact .refl _
  have hm : ∀ e, e ∈ eventSeq m → m = .event e := by
    intro e he
    cases m with
    | event q => rw [List.mem_singleton.mp he]
    | marker q => exact absurd he List.not_mem_nil
    | eof => exact absurd he List.not_mem_nil
  have hmem : m ∈ s.pending min_k := by
    rw [hself]
    exact List.mem_cons_self
  refine ⟨h.max_le, h.storing, h.marking, fun j q hq => h.marker j q ((hsub j).subset hq),
    fun j hq => h.eof j ((hsub j).subset hq), fun j => (h.sorted j).sublist (hsub j),
    fun j q hq => h.routed j q ((hsub j).subset hq), h.owned, fun j q hq e he => ?_, fun e he => ?_, ?_,
    fun _ _ _ hpc => absurd hpc (by simp), h.shard⟩
  · rcases List.mem_append.mp he with he | he
    · exact h.later j q ((hsub j).subset hq) e he
    · obtain rfl := hm e he
      rw [hpend] at hq
      split at hq
      · have hsorted := h.sorted min_k
        rw [hself] at hsorted
        obtain ⟨r, hr, hlt⟩ := (List.pairwise_cons.mp hsorted).1 _ hq q rfl
        injection hr with hr
        exact hr ▸ hlt
      · rename_i hj
        exact h.candidate_lt hpc hj hq
  · rcases List.mem_append.mp he with he | he
    · exact h.processed_lt e he
    · obtain rfl := hm e he
      exact h.lt_length hmem
  · refine List.pairwise_append.mpr ⟨h.processed_sorted, ?_, fun a ha b hb => ?_⟩
    · cases m with
      | event q => exact List.pairwise_singleton ..
      | marker q => exact .nil
      | eof => exact .nil
    · obtain rfl := hm b hb
      exact h.later min_k b hmem a ha

theorem Inv.stage_step (h : Inv p s) (hs : p.StageStep s s') (ht : Timely s .stages) : Inv p s' := by
  cases hs with
  | fill k m q hpc hk hc hq => exact h.fill hc hq
  | skip k hpc hk hc => exact h.stage_local nofun
  | pickNone hpc hmin => exact h.stage_local nofun
  | pickSome min_k m hpc hmin =>
    refine h.stage_local fun j k m' hj => ?_
    injection hj with hj hk hm
    obtain ⟨hcache, hle⟩ := pick_spec hmin
    subst hj hk hm
    exact ⟨hcache, hle, fun i hi => absurd hi i.not_lt_zero⟩
  | poll k c hpc hk => exact h.stage_local nofun
  | pollEnd c hpc =>
    refine h.stage_local fun j k m hj => ?_
    split at hj <;> simp at hj
  | check k min_k m hpc hk =>
    refine h.stage_local fun j k' m' hj => ?_
    obtain ⟨hcache, hmin, hclear⟩ := h.candidate _ _ _ hpc
    split at hj
    · simp at hj
    · rename_i hgo
      injection hj with hj hk' hm
      subst hj hk' hm
      refine ⟨hcache, hmin, fun i hi hne hnone => ?_⟩
      rcases Nat.lt_succ_iff_lt_or_eq.mp hi with hi | rfl
      · exact hclear i hi hne hnone
      · have hle : (m.seq : WithTop Nat) ≤ s.committed_seq i := by
          by_contra hlt
          exact hgo ⟨hne, not_le.mp hlt⟩
        exact ⟨hle, ht i min_k m hpc hne hnone hle⟩
  | emit min_k m hpc => exact h.emit _ hpc

end Stages

section Runs

theorem Inv.step (h : Inv p s) (hs : p.TimelyStep R s s') : Inv p s' := by
  obtain ⟨a, hstep, ht⟩ := hs
  cases hstep with
  | event hs => exact h.event_step hs ht
  | producer hs => exact h.producer_step hs
  | shard k hk hs => exact h.shard_step hs ht
  | stages hs => exact h.stage_step hs ht

theorem inv_run (h : Relation.ReflTransGen (p.TimelyStep R) init s) : Inv p s := by
  induction h with
  | refl => exact inv_init
  | tail _ hs ih => exact ih.step hs

/-- What a shard pushes is over its watermark, which never goes down. -/
theorem Inv.shard_progress (h : Inv p s) (hs : p.ShardStep k s s') :
    s.committed_seq k ≤ s'.committed_seq k ∧
      ∃ later, s'.pushed k = s.pushed k ++ later ∧
        ∀ q ∈ later, ∀ S : Nat, 1 ≤ S → S ≤ s.committed_seq k → S < q := by
  have hsh := h.shard k
  have hcommit : ∀ seq d, ((s.shard k).pc = .committing seq ∨ (s.shard k).pc = .jumping seq) →
      s.committed_seq k ≤ (commit s k seq (.polling d)).committed_seq k := by
    intro seq d hpc
    have hne : (s.shard k).pc ≠ .exited := by
      rcases hpc with hpc | hpc <;> rw [hpc] <;> nofun
    rw [hsh.committed hne]
    change _ ≤ Function.update s.committed_seq k (seq : WithTop Nat) k
    rw [Function.update_self]
    exact_mod_cast (hsh.storing seq hpc).1
  cases hs with
  | pop d m q hpc hq hm => exact ⟨le_rfl, [], (List.append_nil _).symm, nofun⟩
  | popEof d q hpc hq => exact ⟨le_rfl, [], (List.append_nil _).symm, nofun⟩
  | popEmpty d hpc hq => exact ⟨le_rfl, [], (List.append_nil _).symm, nofun⟩
  | push m hpc hroom =>
    refine ⟨le_rfl, eventSeq m, Function.update_self .., fun q hq S hS hle => ?_⟩
    have hm : m = .event q := by
      cases m with
      | event r => rw [List.mem_singleton.mp hq]
      | marker r => exact absurd hq List.not_mem_nil
      | eof => exact absurd hq List.not_mem_nil
    have hfresh := hsh.fresh q (by rw [hpc, hm]; exact List.mem_cons_self)
    rw [hsh.committed (by rw [hpc]; nofun)] at hle
    have hle' : S ≤ (s.shard k).last_seq := by exact_mod_cast hle
    omega
  | commit seq hpc => exact ⟨hcommit seq true (.inl hpc), [], (List.append_nil _).symm, nofun⟩
  | load hpc => exact ⟨le_rfl, [], (List.append_nil _).symm, nofun⟩
  | jump seq hpc => exact ⟨hcommit seq false (.inr hpc), [], (List.append_nil _).symm, nofun⟩
  | exit hpc =>
    refine ⟨?_, [], (List.append_nil _).symm, nofun⟩
    dsimp only
    rw [Function.update_self]
    exact le_top

/-- The other threads leave the watermarks and the shards' outputs as they are. -/
theorem Inv.progress (h : Inv p s) (hs : p.TimelyStep R s s') (k : Nat) :
    s.committed_seq k ≤ s'.committed_seq k ∧
      ∃ later, s'.pushed k = s.pushed k ++ later ∧
        ∀ q ∈ later, ∀ S : Nat, 1 ≤ S → S ≤ s.committed_seq k → S < q := by
  have same : s'.committed_seq k = s.committed_seq k → s'.pushed k = s.pushed k →
      s.committed_seq k ≤ s'.committed_seq k ∧
        ∃ later, s'.pushed k = s.pushed k ++ later ∧
          ∀ q ∈ later, ∀ S : Nat, 1 ≤ S → S ≤ s.committed_seq k → S < q :=
    fun hc hp => ⟨hc.ge, [], by rw [hp, List.append_nil], nofun⟩
  obtain ⟨a, hstep, -⟩ := hs
  cases hstep with
  | event hs => cases hs <;> exact same rfl rfl
  | producer hs => cases hs <;> exact same rfl rfl
  | shard j hj hs =>
    rcases eq_or_ne k j with rfl | hkj
    · exact h.shard_progress hs
    · cases hs <;> refine same ?_ ?_ <;> first | rfl | exact Function.update_of_ne hkj ..
  | stages hs => cases hs <;> exact same rfl rfl

theorem Inv.run_progress (h : Inv p s) (hs : Relation.ReflTransGen (p.TimelyStep R) s t) {S : Nat}
    (hS : 1 ≤ S) (hle : S ≤ s.committed_seq k) :
    ∃ later, t.pushed k = s.pushed k ++ later ∧ ∀ q ∈ later, S < q := by
  have key : Inv p t ∧ S ≤ t.committed_seq k ∧
      ∃ later, t.pushed k = s.pushed k ++ later ∧ ∀ q ∈ later, S < q := by
    induction hs with
    | refl => exact ⟨h, hle, [], (List.append_nil _).symm, nofun⟩
    | tail _ hstep ih =>
      obtain ⟨hinv, hle, later, hlater, hover⟩ := ih
      obtain ⟨hmono, more, hmore, hover'⟩ := hinv.progress hstep k
      refine ⟨hinv.step hstep, hle.trans hmono, later ++ more, ?_, fun q hq => ?_⟩
      · rw [hmore, hlater, List.append_assoc]
      · rcases List.mem_append.mp hq with hq | hq
        · exact hover q hq
        · exact hover' q hq S hS hle
  exact key.2.2

/-- Every event that is routed and under the watermark has been pushed. -/
theorem Inv.pushed_of_le (h : Inv p s) {S q : Nat} (hS : S ≤ s.committed_seq k) (hq : 1 ≤ q) (hqS : q ≤ S)
    (hroute : s.routes[q]? = some (some k)) : q ∈ s.pushed k := by
  refine (h.owned q k hroute).2.resolve_right fun hw => ?_
  have hsh := h.shard k
  by_cases hpc : (s.shard k).pc = .exited
  · exact (hsh.eof (hsh.exiting (.inr hpc))).2 q hw
  · rw [hsh.committed hpc] at hS
    have hS' : S ≤ (s.shard k).last_seq := by exact_mod_cast hS
    have hfresh := hsh.fresh q hw
    omega

theorem watermark_sound (p : LockedScheme) (R : Type*) (s : State)
    (h : Relation.ReflTransGen (p.TimelyStep R) init s) :
    (∀ t k, p.TimelyStep R s t → s.committed_seq k ≤ t.committed_seq k) ∧
      (∀ k S : Nat, 1 ≤ S → S ≤ s.committed_seq k →
        (∀ q, 1 ≤ q → q ≤ S → s.routes[q]? = some (some k) → q ∈ s.pushed k) ∧
        ∀ t, Relation.ReflTransGen (p.TimelyStep R) s t →
          ∃ later, t.pushed k = s.pushed k ++ later ∧ ∀ q ∈ later, S < q) ∧
      s.processed.Pairwise (· < ·) := by
  have hinv := inv_run h
  exact ⟨fun t k hs => (hinv.progress hs k).1, fun k S hS hle => ⟨fun q hq hqS hr =>
    hinv.pushed_of_le hle hq hqS hr, fun t ht => hinv.run_progress ht hS hle⟩, hinv.processed_sorted⟩

end Runs

section TwoStrips

open Relation

def twoStrips : LockedScheme := ⟨2, Nat.two_pos, 16, 8, 4⟩

theorem twoStrips_left : twoStrips.route (⟨0, 3, 5, 0⟩ : Event ℤ) = some 0 := by decide

theorem twoStrips_right : twoStrips.route (⟨0, 9, 2, 0⟩ : Event ℤ) = some 1 := by decide

/-- Both shards have pushed and committed an event, and the stage thread has taken the first one. -/
theorem watermark_sound_two : ∃ s : State,
    (ReflTransGen (twoStrips.TimelyStep ℤ) init s ∧ s.committed_seq 1 = 1 ∧ s.pushed 1 = [1] ∧ s.processed = [0]) ∧
      (∀ t k, twoStrips.TimelyStep ℤ s t → s.committed_seq k ≤ t.committed_seq k) ∧
      ((∀ q, 1 ≤ q → q ≤ 1 → s.routes[q]? = some (some 1) → q ∈ s.pushed 1) ∧
        ∀ t, ReflTransGen (twoStrips.TimelyStep ℤ) s t →
          ∃ later, t.pushed 1 = s.pushed 1 ++ later ∧ ∀ q ∈ later, 1 < q) ∧
      s.processed.Pairwise (· < ·) := by
  have hs : ReflTransGen (twoStrips.TimelyStep ℤ) init _ := .refl
  replace hs := hs.tail ⟨_, .event (.inBounds ⟨0, 3, 5, 0⟩ 0 rfl twoStrips_left (by decide)), rfl⟩
  replace hs := hs.tail ⟨_, .producer (.store 1 rfl), trivial⟩
  replace hs := hs.tail ⟨_, .event (.inBounds ⟨0, 9, 2, 0⟩ 1 rfl twoStrips_right (by decide)), rfl⟩
  replace hs := hs.tail ⟨_, .producer (.store 2 rfl), trivial⟩
  replace hs := hs.tail ⟨_, .shard 0 (by decide) (.pop false (.event 0) [] rfl rfl nofun), nofun⟩
  replace hs := hs.tail ⟨_, .shard 0 (by decide) (.push (.event 0) rfl (by decide)), nofun⟩
  replace hs := hs.tail ⟨_, .shard 0 (by decide) (.commit 0 rfl), nofun⟩
  replace hs := hs.tail ⟨_, .shard 1 (by decide) (.pop false (.event 1) [] rfl rfl nofun), nofun⟩
  replace hs := hs.tail ⟨_, .shard 1 (by decide) (.push (.event 1) rfl (by decide)), nofun⟩
  replace hs := hs.tail ⟨_, .shard 1 (by decide) (.commit 1 rfl), nofun⟩
  replace hs := hs.tail ⟨_, .stages (.fill 0 (.event 0) [] rfl (by decide) rfl rfl), nofun⟩
  replace hs := hs.tail ⟨_, .stages (.fill 1 (.event 1) [] rfl (by decide) rfl rfl), nofun⟩
  replace hs := hs.tail ⟨_, .stages (.pickSome 0 (.event 0) rfl rfl), nofun⟩
  replace hs := hs.tail ⟨_, .stages (.check 0 0 (.event 0) rfl (by decide)), nofun⟩
  replace hs := hs.tail ⟨_, .stages (.check 1 0 (.event 0) rfl (by decide)), nofun⟩
  replace hs := hs.tail ⟨_, .stages (.emit 0 (.event 0) rfl), nofun⟩
  obtain ⟨hmono, hcover, hsorted⟩ := watermark_sound twoStrips ℤ _ hs
  exact ⟨_, ⟨hs, rfl, rfl, rfl⟩, hmono, hcover 1 1 le_rfl le_rfl, hsorted⟩

/-- A step that need not be timely. -/
def AnyStep (p : LockedScheme) (R : Type*) (s t : State) : Prop := ∃ a, p.Step R s a t

theorem watermark_race : ∃ s t u : State,
    ReflTransGen (twoStrips.AnyStep ℤ) init s ∧ twoStrips.AnyStep ℤ s t ∧
      ReflTransGen (twoStrips.AnyStep ℤ) t u ∧ u.marked = false ∧
      t.committed_seq 0 < s.committed_seq 0 ∧
      s.committed_seq 0 = 2 ∧ s.routes[1]? = some (some 0) ∧ 1 ∉ s.pushed 0 ∧
      u.processed = [2, 0] := by
  -- Shard 0 finds its queue empty and loads `pushed_seq_max` after three events.
  have hs : ReflTransGen (twoStrips.AnyStep ℤ) init _ := .refl
  replace hs := hs.tail ⟨_, .shard 0 (by decide) (.popEmpty false rfl rfl)⟩
  replace hs := hs.tail ⟨_, .event (.inBounds ⟨0, 3, 5, 0⟩ 0 rfl twoStrips_left (by decide))⟩
  replace hs := hs.tail ⟨_, .producer (.store 1 rfl)⟩
  replace hs := hs.tail ⟨_, .event (.inBounds ⟨0, 3, 5, 0⟩ 0 rfl twoStrips_left (by decide))⟩
  replace hs := hs.tail ⟨_, .producer (.store 2 rfl)⟩
  replace hs := hs.tail ⟨_, .event (.inBounds ⟨0, 9, 2, 0⟩ 1 rfl twoStrips_right (by decide))⟩
  replace hs := hs.tail ⟨_, .producer (.store 3 rfl)⟩
  replace hs := hs.tail ⟨_, .shard 0 (by decide) (.load rfl)⟩
  replace hs := hs.tail ⟨_, .shard 0 (by decide) (.jump 2 rfl)⟩
  -- The stage thread takes event 2 although shard 0 still has the events 0 and 1.
  replace hs := hs.tail ⟨_, .shard 1 (by decide) (.pop false (.event 2) [] rfl rfl nofun)⟩
  replace hs := hs.tail ⟨_, .shard 1 (by decide) (.push (.event 2) rfl (by decide))⟩
  replace hs := hs.tail ⟨_, .stages (.skip 0 rfl (by decide) fun _ => rfl)⟩
  replace hs := hs.tail ⟨_, .stages (.fill 1 (.event 2) [] rfl (by decide) rfl rfl)⟩
  replace hs := hs.tail ⟨_, .stages (.pickSome 1 (.event 2) rfl rfl)⟩
  replace hs := hs.tail ⟨_, .stages (.check 0 1 (.event 2) rfl (by decide))⟩
  replace hs := hs.tail ⟨_, .stages (.check 1 1 (.event 2) rfl (by decide))⟩
  replace hs := hs.tail ⟨_, .stages (.emit 1 (.event 2) rfl)⟩
  replace hs := hs.tail ⟨_, .shard 0 (by decide) (.pop false (.event 0) [.event 1] rfl rfl nofun)⟩
  replace hs := hs.tail ⟨_, .shard 0 (by decide) (.push (.event 0) rfl (by decide))⟩
  exact ⟨_, _, _, hs, ⟨_, .shard 0 (by decide) (.commit 0 rfl)⟩,
    .head ⟨_, .stages (.fill 0 (.event 0) [] rfl (by decide) rfl rfl)⟩ <|
    .head ⟨_, .stages (.skip 1 rfl (by decide) fun _ => rfl)⟩ <|
    .head ⟨_, .stages (.pickSome 0 (.event 0) rfl rfl)⟩ <|
    .head ⟨_, .stages (.check 0 0 (.event 0) rfl (by decide))⟩ <|
    .head ⟨_, .stages (.check 1 0 (.event 0) rfl (by decide))⟩ <|
    .head ⟨_, .stages (.emit 0 (.event 0) rfl)⟩ .refl,
    rfl, by decide, rfl, rfl, by decide, rfl⟩

end TwoStrips

end LockedScheme

end SslaRt
