import SslaRt.OwnerSchemeOrder

/-! The merger of scheme 4 emits in the order of the numbers as long as it reads
`next_emit_seq` only of shards with nothing older in their queue. -/

namespace SslaRt

namespace OwnerScheme

variable {p : OwnerScheme} {R : Type*} {s s' : State} {k : Nat}

/-- The stage thread found the queue of a shard empty before; when it now reads the
shard's `next_emit_seq`, nothing older has come into the queue. -/
def Timely (p : OwnerScheme) (s : State) : Mover → Prop
  | .stages => ∀ k c min_k, s.stage = .scanning k c min_k → k < p.num_shards → s.cache k = none →
      ∀ m ∈ s.q_to_stage k, s.next_emit_seq k ≤ m.seq
  | _ => True

def TimelyStep (p : OwnerScheme) (R : Type*) (s s' : State) : Prop :=
  ∃ a, p.Step R s a s' ∧ Timely p s a

/-- What has been emitted is below everything that is still in line. -/
structure Merged (p : OwnerScheme) (s : State) : Prop where
  emitted : s.emitted.Pairwise fun a b => a.seq ≤ b.seq
  bound : ∀ e ∈ s.emitted, e.seq ≤ s.next
  behind : ∀ e ∈ s.emitted, ∀ k < p.num_shards, ∀ m ∈ s.line k, e.seq ≤ m.seq
  scanned : ∀ j c min_k, s.stage = .scanning j c min_k → ∀ i < j, ∀ m ∈ s.line i, c ≤ m.seq

theorem merged_init : Merged p init where
  emitted := .nil
  bound _ := nofun
  behind _ := nofun
  scanned _ _ _ := nofun

theorem Merged.lines (h : Merged p s) (hinv : Inv p s) (hl : Lines s s') : Merged p s' := by
  refine ⟨?_, fun e he => ?_, fun e he k hk m hm => ?_, fun j c min_k hj i hi m hm => ?_⟩
  · rw [hl.emitted]
    exact h.emitted
  · rw [hl.emitted] at he
    exact (h.bound e he).trans hl.next
  · rw [hl.emitted] at he
    rcases hl.line k m hm with hold | ⟨-, hnew⟩
    · exact h.behind e he k hk m hold
    · exact (h.bound e he).trans hnew
  · rw [hl.stage] at hj
    rcases hl.line i m hm with hold | ⟨hopen, hnew⟩
    · exact h.scanned j c min_k hj i hi m hold
    · exact (((hinv.scanned j c min_k hj).1 i hi).next hopen).trans (by exact_mod_cast hnew)

/-- A timely candidate is below everything of its shard. -/
theorem Inv.candidate_le (h : Inv p s) {c : WithTop Nat} {min_k : Option Nat}
    (ht : Timely p s .stages) (hpc : s.stage = .scanning k c min_k) (hk : k < p.num_shards) :
    ∀ m ∈ s.line k, candidate s k ≤ m.seq := by
  intro a ha
  cases hc : s.cache k with
  | none =>
    have hcand : candidate s k = s.next_emit_seq k := by rw [candidate, hc]
    rw [hcand]
    rw [State.line, hc, Option.toList_none, List.nil_append] at ha
    rcases List.mem_append.mp ha with ha | ha
    · exact ht k c min_k hpc hk hc a ha
    · exact (h.published k).unsent a ha
  | some m =>
    have hcand : candidate s k = m.seq := by rw [candidate, hc]
    have hline : s.line k = m :: s.later k := by
      rw [State.line, hc]
      rfl
    have hsorted := h.sorted k
    rw [hline] at ha hsorted
    rw [hcand]
    rcases List.mem_cons.mp ha with rfl | ha
    · exact le_rfl
    · exact_mod_cast m.seq_le_stop.trans ((List.pairwise_cons.mp hsorted).1 a ha)

theorem Merged.stage_local (h : Merged p s) {stage : StagePc}
    (hscanned : ∀ j c min_k, stage = .scanning j c min_k → ∀ i < j, ∀ m ∈ s.line i, c ≤ m.seq) :
    Merged p { s with stage := stage } :=
  ⟨h.emitted, h.bound, h.behind, hscanned⟩

theorem Merged.emit (h : Merged p s) (hinv : Inv p s) {c : WithTop Nat} {m : Msg}
    (hpc : s.stage = .scanning p.num_shards c (some k)) (hm : s.cache k = some m) :
    Merged p { s with
      cache := Function.update s.cache k none
      stage := .filling 0
      marker_done_stages := markerDone s.marker_done_stages m
      emitted := s.emitted ++ [m] } := by
  obtain ⟨hk, m', hm', hc⟩ := (hinv.scanned _ _ _ hpc).2 k rfl
  obtain rfl : m = m' := Option.some.inj (hm.symm.trans hm')
  have hmem : m ∈ s.line k := by
    rw [State.line, hm]
    exact List.mem_cons_self
  have hsub : ∀ j, ∀ a ∈ State.line { s with
      cache := Function.update s.cache k none
      stage := .filling 0
      marker_done_stages := markerDone s.marker_done_stages m
      emitted := s.emitted ++ [m] } j, a ∈ s.line j := by
    intro j a ha
    rcases eq_or_ne j k with rfl | hj
    · simp only [State.line, Function.update_self] at ha
      exact List.mem_append_right _ ha
    · simpa [State.line, State.later, State.unsent, hj] using ha
  refine ⟨?_, fun e he => ?_, fun e he j hj a ha => ?_, fun _ _ _ hj => StagePc.noConfusion hj⟩
  · refine List.pairwise_append.mpr ⟨h.emitted, List.pairwise_singleton .., fun e he b hb => ?_⟩
    rw [List.mem_singleton.mp hb]
    exact h.behind e he k hk m hmem
  · rcases List.mem_append.mp he with he | he
    · exact h.bound e he
    · rw [List.mem_singleton.mp he]
      exact m.seq_le_stop.trans (hinv.bound k m hmem)
  · rcases List.mem_append.mp he with he | he
    · exact h.behind e he j hj a (hsub j a ha)
    · rw [List.mem_singleton.mp he]
      have hle := h.scanned _ _ _ hpc j hj a (hsub j a ha)
      rw [hc] at hle
      exact_mod_cast hle

theorem Merged.stage_step (h : Merged p s) (hinv : Inv p s) (hs : p.StageStep s s')
    (ht : Timely p s .stages) : Merged p s' := by
  cases hs with
  | fill k m q hpc hk hc hq =>
    refine ⟨h.emitted, h.bound, fun e he j hj a ha => h.behind e he j hj a ?_,
      fun _ _ _ hj => StagePc.noConfusion hj⟩
    rcases eq_or_ne j k with rfl | hjk
    · simpa [State.line, State.later, State.unsent, hc, hq] using ha
    · simpa [State.line, State.later, State.unsent, hjk] using ha
  | skip k hpc hk hc => exact h.stage_local fun _ _ _ hj => StagePc.noConfusion hj
  | beginScan hpc =>
    refine h.stage_local fun j c min_k hj i hi => ?_
    injection hj with hj
    exact absurd (hj ▸ hi) i.not_lt_zero
  | scan k c min_k hpc hk =>
    refine h.stage_local fun j c' min_k' hj i hi m hm => ?_
    have hcand := hinv.candidate_le ht hpc hk
    split at hj
    · rename_i hlt
      injection hj with hj hc' hm'
      subst hj hc'
      rcases Nat.lt_succ_iff_lt_or_eq.mp hi with hi | rfl
      · exact hlt.le.trans (h.scanned _ _ _ hpc i hi m hm)
      · exact hcand m hm
    · rename_i hge
      injection hj with hj hc' hm'
      subst hj hc'
      rcases Nat.lt_succ_iff_lt_or_eq.mp hi with hi | rfl
      · exact h.scanned _ _ _ hpc i hi m hm
      · exact (not_lt.mp hge).trans (hcand m hm)
  | stop min_k hpc => exact h.stage_local fun _ _ _ hj => StagePc.noConfusion hj
  | wait c hpc hc => exact h.stage_local fun _ _ _ hj => StagePc.noConfusion hj
  | emit c k m hpc hc hm => exact h.emit hinv hpc hm

theorem Merged.step (h : Merged p s) (hinv : Inv p s) (hs : p.TimelyStep R s s') : Merged p s' := by
  obtain ⟨a, hstep, ht⟩ := hs
  cases hstep with
  | event hs => exact h.lines hinv hs.lines
  | producer hs => exact h.lines hinv (hinv.producer_lines hs)
  | shard k hk hs => exact h.lines hinv hs.lines
  | stages hs => exact h.stage_step hinv hs ht

/-- In a run whose reads of `next_emit_seq` are timely, the stage thread emits the events
and markers in the order of their numbers. -/
theorem merge_in_order (p : OwnerScheme) (R : Type*) (s : State)
    (h : Relation.ReflTransGen (p.TimelyStep R) init s) :
    s.emitted.Pairwise fun a b => a.seq ≤ b.seq := by
  have key : Inv p s ∧ Merged p s := by
    induction h with
    | refl => exact ⟨inv_init, merged_init⟩
    | tail _ hs ih =>
      obtain ⟨a, hstep, _⟩ := id hs
      exact ⟨ih.1.step hstep, ih.2.step ih.1 hs⟩
  exact key.2.emitted

section TwoStrips

open Relation SharedRing

def twoStrips : OwnerScheme := ⟨2, Nat.two_pos, 16, 8, smallestRing⟩

/-- An event in the given column. -/
def eventAt (x : Nat) : Event ℤ := ⟨0, x, 5, 0⟩

theorem Timely.of_filling (h : ∀ k c min_k, s.stage ≠ .scanning k c min_k) : Timely p s .stages :=
  fun k c min_k hpc => absurd hpc (h k c min_k)

theorem Timely.of_scanning {c : WithTop Nat} {min_k : Option Nat} (h : s.stage = .scanning k c min_k)
    (hq : s.cache k = none → ∀ m ∈ s.q_to_stage k, s.next_emit_seq k ≤ m.seq) :
    Timely p s .stages := by
  intro j c' min_k' hpc _ hc
  rw [h] at hpc
  injection hpc with hj
  subst hj
  exact hq hc

/-- The stage thread reads the `next_emit_seq` of shard 0 once between its push and its
store, and once more when it waits for the partial of event 2. -/
theorem merge_in_order_two : ∃ s : State, (ReflTransGen (twoStrips.TimelyStep ℤ) init s ∧
    s.emitted = [.event 0, .event 1] ∧ s.next_emit_seq 0 = 2) ∧
      s.emitted.Pairwise fun a b => a.seq ≤ b.seq := by
  have h0 : 0 < twoStrips.num_shards := Nat.two_pos
  have h1 : 1 < twoStrips.num_shards := Nat.one_lt_two
  have n0 : 0 < kPerIterCap := by decide
  have n1 : 1 < kPerIterCap := by decide
  have hs : ReflTransGen (twoStrips.TimelyStep ℤ) init _ := .refl
  replace hs := hs.tail ⟨_, .event (.inBounds (eventAt 3) 3 rfl (by decide) (by decide)), trivial⟩
  replace hs := hs.tail ⟨_, .producer (.sent rfl), trivial⟩
  replace hs := hs.tail ⟨_, .event (.inBounds (eventAt 11) 11 rfl (by decide) (by decide)), trivial⟩
  replace hs := hs.tail ⟨_, .producer (.sent rfl), trivial⟩
  replace hs := hs.tail ⟨_, .event (.inBounds (eventAt 7) 7 rfl (by decide) (by decide)), trivial⟩
  replace hs := hs.tail ⟨_,
    .shard 1 h1 (.popOwn 0 false (.event 1 11 false false) [] rfl n0 rfl), trivial⟩
  replace hs := hs.tail ⟨_, .shard 1 h1 (.endOwn 1 true rfl fun _ => rfl), trivial⟩
  replace hs := hs.tail ⟨_,
    .shard 1 h1 (.popContrib 0 true none _ rfl n0 (.loadTail (fun _ => ⟨0, 0, 0, 0⟩) rfl)), trivial⟩
  replace hs := hs.tail ⟨_,
    .shard 1 h1 (.popContrib 0 true (some none) _ rfl n0 (.empty _ 0 rfl rfl)), trivial⟩
  replace hs := hs.tail ⟨_,
    .shard 1 h1 (.popPartial 0 true none _ rfl n0 (.loadTail (fun _ => ⟨0, 0⟩) rfl)), trivial⟩
  replace hs := hs.tail ⟨_,
    .shard 1 h1 (.popPartial 0 true (some none) _ rfl n0 (.empty _ 0 rfl rfl)), trivial⟩
  replace hs := hs.tail ⟨_, .shard 1 h1 (.retryDeferred true rfl), trivial⟩
  replace hs := hs.tail ⟨_, .shard 1 h1 (.partialBacklogEmpty 0 true rfl h0 rfl), trivial⟩
  replace hs := hs.tail ⟨_, .shard 1 h1 (.contribBacklogEmpty 0 true rfl h0 rfl), trivial⟩
  replace hs := hs.tail ⟨_, .shard 1 h1 (.partialBacklogEmpty 1 true rfl h1 rfl), trivial⟩
  replace hs := hs.tail ⟨_, .shard 1 h1 (.contribBacklogEmpty 1 true rfl h1 rfl), trivial⟩
  replace hs := hs.tail ⟨_, .shard 1 h1 (.endBacklog true rfl), trivial⟩
  replace hs := hs.tail ⟨_,
    .shard 1 h1 (.finalizeL0 true ⟨false, 1, 11, 1, 1, 0, 0, false⟩ [] rfl rfl rfl rfl (by decide)),
    trivial⟩
  replace hs := hs.tail ⟨_, .shard 1 h1 (.endRequest rfl), trivial⟩
  replace hs := hs.tail ⟨_,
    .shard 1 h1 (.forward true ⟨false, 1, 11, 1, 1, 1, 1, true⟩ [] rfl rfl rfl rfl (by decide) (by decide)),
    trivial⟩
  replace hs := hs.tail ⟨_, .stages (.skip 0 rfl h0 fun _ => rfl), .of_filling nofun⟩
  replace hs := hs.tail ⟨_, .stages (.fill 1 (.event 1) [] rfl h1 rfl rfl), .of_filling nofun⟩
  replace hs := hs.tail ⟨_, .stages (.beginScan rfl), .of_filling nofun⟩
  replace hs := hs.tail ⟨_,
    .shard 0 h0 (.popOwn 0 false (.event 0 3 false false) [.event 2 7 false true] rfl n0 rfl), trivial⟩
  replace hs := hs.tail ⟨_, .shard 0 h0 (.popOwn 1 true (.event 2 7 false true) [] rfl n1 rfl), trivial⟩
  replace hs := hs.tail ⟨_, .shard 0 h0 (.endOwn 2 true rfl fun _ => rfl), trivial⟩
  replace hs := hs.tail ⟨_,
    .shard 0 h0 (.popContrib 0 true none _ rfl n0 (.loadTail (fun _ => ⟨0, 0, 0, 0⟩) rfl)), trivial⟩
  replace hs := hs.tail ⟨_,
    .shard 0 h0 (.popContrib 0 true (some none) _ rfl n0 (.empty _ 0 rfl rfl)), trivial⟩
  replace hs := hs.tail ⟨_,
    .shard 0 h0 (.popPartial 0 true none _ rfl n0 (.loadTail (fun _ => ⟨0, 0⟩) rfl)), trivial⟩
  replace hs := hs.tail ⟨_,
    .shard 0 h0 (.popPartial 0 true (some none) _ rfl n0 (.empty _ 0 rfl rfl)), trivial⟩
  replace hs := hs.tail ⟨_, .shard 0 h0 (.retryDeferred true rfl), trivial⟩
  replace hs := hs.tail ⟨_, .shard 0 h0 (.partialBacklogEmpty 0 true rfl h0 rfl), trivial⟩
  replace hs := hs.tail ⟨_, .shard 0 h0 (.contribBacklogEmpty 0 true rfl h0 rfl), trivial⟩
  replace hs := hs.tail ⟨_, .shard 0 h0 (.partialBacklogEmpty 1 true rfl h1 rfl), trivial⟩
  replace hs := hs.tail ⟨_, .shard 0 h0 (.contribBacklogEmpty 1 true rfl h1 rfl), trivial⟩
  replace hs := hs.tail ⟨_, .shard 0 h0 (.endBacklog true rfl), trivial⟩
  replace hs := hs.tail ⟨_,
    .shard 0 h0 (.finalizeL0 true ⟨false, 0, 3, 1, 1, 0, 0, false⟩ _ rfl rfl rfl rfl (by decide)), trivial⟩
  replace hs := hs.tail ⟨_, .shard 0 h0 (.endRequest rfl), trivial⟩
  replace hs := hs.tail ⟨_,
    .shard 0 h0 (.forward true ⟨false, 0, 3, 1, 1, 1, 1, true⟩ _ rfl rfl rfl rfl (by decide) (by decide)),
    trivial⟩
  replace hs := hs.tail ⟨_, .stages (.scan 0 ⊤ none rfl h0),
    .of_scanning rfl fun _ => List.forall_mem_singleton.mpr le_rfl⟩
  replace hs := hs.tail ⟨_, .shard 0 h0 (.stall true rfl (show 1 < 2 by decide)), trivial⟩
  replace hs := hs.tail ⟨_, .shard 0 h0 (.publish true rfl), trivial⟩
  replace hs := hs.tail ⟨_, .stages (.scan 1 0 none rfl h1), .of_scanning rfl nofun⟩
  replace hs := hs.tail ⟨_, .stages (.wait 0 rfl (by decide)), .of_scanning rfl fun _ => nofun⟩
  replace hs := hs.tail ⟨_, .stages (.fill 0 (.event 0) [] rfl h0 rfl rfl), .of_filling nofun⟩
  replace hs := hs.tail ⟨_, .stages (.skip 1 rfl h1 nofun), .of_filling nofun⟩
  replace hs := hs.tail ⟨_, .stages (.beginScan rfl), .of_filling nofun⟩
  replace hs := hs.tail ⟨_, .stages (.scan 0 ⊤ none rfl h0), .of_scanning rfl nofun⟩
  replace hs := hs.tail ⟨_, .stages (.scan 1 0 (some 0) rfl h1), .of_scanning rfl nofun⟩
  replace hs := hs.tail ⟨_, .stages (.emit 0 0 (.event 0) rfl (by decide) rfl),
    .of_scanning rfl fun _ => nofun⟩
  replace hs := hs.tail ⟨_, .stages (.skip 0 rfl h0 fun _ => rfl), .of_filling nofun⟩
  replace hs := hs.tail ⟨_, .stages (.skip 1 rfl h1 nofun), .of_filling nofun⟩
  replace hs := hs.tail ⟨_, .stages (.beginScan rfl), .of_filling nofun⟩
  replace hs := hs.tail ⟨_, .stages (.scan 0 ⊤ none rfl h0), .of_scanning rfl fun _ => nofun⟩
  replace hs := hs.tail ⟨_, .stages (.scan 1 2 none rfl h1), .of_scanning rfl nofun⟩
  replace hs := hs.tail ⟨_, .stages (.emit 1 1 (.event 1) rfl (by decide) rfl),
    .of_scanning rfl fun _ => nofun⟩
  exact ⟨_, ⟨hs, rfl, rfl⟩, merge_in_order twoStrips ℤ _ hs⟩

theorem merge_race : ∃ s : State, ReflTransGen (twoStrips.AnyStep ℤ) init s ∧
    s.emitted = [.event 1, .event 0] ∧ ¬ s.emitted.Pairwise fun a b => a.seq ≤ b.seq := by
  have h0 : 0 < twoStrips.num_shards := Nat.two_pos
  have h1 : 1 < twoStrips.num_shards := Nat.one_lt_two
  have n0 : 0 < kPerIterCap := by decide
  have n1 : 1 < kPerIterCap := by decide
  have hs : ReflTransGen (twoStrips.AnyStep ℤ) init _ := .refl
  -- The events 0 and 2 are in the strip of shard 0, event 2 next to the border; event 1 is shard 1's.
  replace hs := hs.tail ⟨_, .event (.inBounds (eventAt 3) 3 rfl (by decide) (by decide))⟩
  replace hs := hs.tail ⟨_, .producer (.sent rfl)⟩
  replace hs := hs.tail ⟨_, .event (.inBounds (eventAt 11) 11 rfl (by decide) (by decide))⟩
  replace hs := hs.tail ⟨_, .producer (.sent rfl)⟩
  replace hs := hs.tail ⟨_, .event (.inBounds (eventAt 7) 7 rfl (by decide) (by decide))⟩
  -- Shard 1 hands over event 1; the stage thread finds the queue of shard 0 empty.
  replace hs := hs.tail ⟨_, .shard 1 h1 (.popOwn 0 false (.event 1 11 false false) [] rfl n0 rfl)⟩
  replace hs := hs.tail ⟨_, .shard 1 h1 (.endOwn 1 true rfl fun _ => rfl)⟩
  replace hs := hs.tail ⟨_,
    .shard 1 h1 (.popContrib 0 true none _ rfl n0 (.loadTail (fun _ => ⟨0, 0, 0, 0⟩) rfl))⟩
  replace hs := hs.tail ⟨_, .shard 1 h1 (.popContrib 0 true (some none) _ rfl n0 (.empty _ 0 rfl rfl))⟩
  replace hs := hs.tail ⟨_,
    .shard 1 h1 (.popPartial 0 true none _ rfl n0 (.loadTail (fun _ => ⟨0, 0⟩) rfl))⟩
  replace hs := hs.tail ⟨_, .shard 1 h1 (.popPartial 0 true (some none) _ rfl n0 (.empty _ 0 rfl rfl))⟩
  replace hs := hs.tail ⟨_, .shard 1 h1 (.retryDeferred true rfl)⟩
  replace hs := hs.tail ⟨_, .shard 1 h1 (.partialBacklogEmpty 0 true rfl h0 rfl)⟩
  replace hs := hs.tail ⟨_, .shard 1 h1 (.contribBacklogEmpty 0 true rfl h0 rfl)⟩
  replace hs := hs.tail ⟨_, .shard 1 h1 (.partialBacklogEmpty 1 true rfl h1 rfl)⟩
  replace hs := hs.tail ⟨_, .shard 1 h1 (.contribBacklogEmpty 1 true rfl h1 rfl)⟩
  replace hs := hs.tail ⟨_, .shard 1 h1 (.endBacklog true rfl)⟩
  replace hs := hs.tail ⟨_,
    .shard 1 h1 (.finalizeL0 true ⟨false, 1, 11, 1, 1, 0, 0, false⟩ [] rfl rfl rfl rfl (by decide))⟩
  replace hs := hs.tail ⟨_, .shard 1 h1 (.endRequest rfl)⟩
  replace hs := hs.tail ⟨_,
    .shard 1 h1 (.forward true ⟨false, 1, 11, 1, 1, 1, 1, true⟩ [] rfl rfl rfl rfl (by decide) (by decide))⟩
  replace hs := hs.tail ⟨_, .stages (.skip 0 rfl h0 fun _ => rfl)⟩
  -- Shard 0 hands over event 0, waits for the partial of event 2 and publishes its number.
  replace hs := hs.tail ⟨_,
    .shard 0 h0 (.popOwn 0 false (.event 0 3 false false) [.event 2 7 false true] rfl n0 rfl)⟩
  replace hs := hs.tail ⟨_, .shard 0 h0 (.popOwn 1 true (.event 2 7 false true) [] rfl n1 rfl)⟩
  replace hs := hs.tail ⟨_, .shard 0 h0 (.endOwn 2 true rfl fun _ => rfl)⟩
  replace hs := hs.tail ⟨_,
    .shard 0 h0 (.popContrib 0 true none _ rfl n0 (.loadTail (fun _ => ⟨0, 0, 0, 0⟩) rfl))⟩
  replace hs := hs.tail ⟨_, .shard 0 h0 (.popContrib 0 true (some none) _ rfl n0 (.empty _ 0 rfl rfl))⟩
  replace hs := hs.tail ⟨_,
    .shard 0 h0 (.popPartial 0 true none _ rfl n0 (.loadTail (fun _ => ⟨0, 0⟩) rfl))⟩
  replace hs := hs.tail ⟨_, .shard 0 h0 (.popPartial 0 true (some none) _ rfl n0 (.empty _ 0 rfl rfl))⟩
  replace hs := hs.tail ⟨_, .shard 0 h0 (.retryDeferred true rfl)⟩
  replace hs := hs.tail ⟨_, .shard 0 h0 (.partialBacklogEmpty 0 true rfl h0 rfl)⟩
  replace hs := hs.tail ⟨_, .shard 0 h0 (.contribBacklogEmpty 0 true rfl h0 rfl)⟩
  replace hs := hs.tail ⟨_, .shard 0 h0 (.partialBacklogEmpty 1 true rfl h1 rfl)⟩
  replace hs := hs.tail ⟨_, .shard 0 h0 (.contribBacklogEmpty 1 true rfl h1 rfl)⟩
  replace hs := hs.tail ⟨_, .shard 0 h0 (.endBacklog true rfl)⟩
  replace hs := hs.tail ⟨_,
    .shard 0 h0 (.finalizeL0 true ⟨false, 0, 3, 1, 1, 0, 0, false⟩ _ rfl rfl rfl rfl (by decide))⟩
  replace hs := hs.tail ⟨_, .shard 0 h0 (.endRequest rfl)⟩
  replace hs := hs.tail ⟨_,
    .shard 0 h0 (.forward true ⟨false, 0, 3, 1, 1, 1, 1, true⟩ _ rfl rfl rfl rfl (by decide) (by decide))⟩
  replace hs := hs.tail ⟨_, .shard 0 h0 (.stall true rfl (show 1 < 2 by decide))⟩
  replace hs := hs.tail ⟨_, .shard 0 h0 (.publish true rfl)⟩
  -- The number 2 lets event 1 pass although event 0 is in the queue.
  replace hs := hs.tail ⟨_, .stages (.fill 1 (.event 1) [] rfl h1 rfl rfl)⟩
  replace hs := hs.tail ⟨_, .stages (.beginScan rfl)⟩
  replace hs := hs.tail ⟨_, .stages (.scan 0 ⊤ none rfl h0)⟩
  replace hs := hs.tail ⟨_, .stages (.scan 1 2 none rfl h1)⟩
  replace hs := hs.tail ⟨_, .stages (.emit 1 1 (.event 1) rfl (by decide) rfl)⟩
  replace hs := hs.tail ⟨_, .stages (.fill 0 (.event 0) [] rfl h0 rfl rfl)⟩
  replace hs := hs.tail ⟨_, .stages (.skip 1 rfl h1 fun _ => rfl)⟩
  replace hs := hs.tail ⟨_, .stages (.beginScan rfl)⟩
  replace hs := hs.tail ⟨_, .stages (.scan 0 ⊤ none rfl h0)⟩
  replace hs := hs.tail ⟨_, .stages (.scan 1 0 (some 0) rfl h1)⟩
  exact ⟨_, hs.tail ⟨_, .stages (.emit 0 0 (.event 0) rfl (by decide) rfl)⟩, rfl, by decide⟩

end TwoStrips

end OwnerScheme

end SslaRt
