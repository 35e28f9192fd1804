import SslaRt.OwnerSchemeLedger
import Mathlib.Tactic.Abel

/-! A shard matches a partial with the one pending event that expects it, or defers it. -/

namespace SslaRt

namespace OwnerScheme

variable {p : OwnerScheme} {k : Nat} {pe : PendingEvent} {pm : PartialMsg}

theorem OwnMsg.mem_owed {m : OwnMsg} {κ : Key} (h : κ ∈ m.owed k) :
    κ.2.1 = k ∧ ∃ a, m.msg = some a ∧ a.seq = κ.2.2 := by
  cases m with
  | event seq x need_left need_right =>
    have hκ := Multiset.eq_of_mem_replicate h
    exact ⟨by rw [hκ], .event seq, rfl, by rw [hκ]; rfl⟩
  | marker seq => exact absurd h (Multiset.notMem_zero _)
  | eof => exact absurd h (Multiset.notMem_zero _)

theorem PendingEvent.mem_owed {κ : Key} (h : κ ∈ pe.owed k) :
    pe.is_marker = false ∧ (κ = (0, k, pe.seq) ∧ pe.received_l0 < pe.expected_l0 ∨
      κ = (1, k, pe.seq) ∧ pe.received_l1 < pe.expected_l1) := by
  unfold PendingEvent.owed at h
  split at h
  · exact absurd h (Multiset.notMem_zero _)
  · rename_i hm
    refine ⟨Bool.eq_false_iff.mpr hm, ?_⟩
    rcases Multiset.mem_add.mp h with h | h
    · obtain ⟨hn, hκ⟩ := Multiset.mem_replicate.mp h
      exact .inl ⟨hκ, by omega⟩
    · obtain ⟨hn, hκ⟩ := Multiset.mem_replicate.mp h
      exact .inr ⟨hκ, by omega⟩

theorem PendingEvent.owed_receive (h : pm.key k ∈ pe.owed k) :
    pe.owed k = (pe.receive pm).owed k + {pm.key k} := by
  obtain ⟨hm, hκ⟩ := PendingEvent.mem_owed h
  rcases hκ with ⟨hκ, hlt⟩ | ⟨hκ, hlt⟩
  · have hl : pm.layer = 0 := congrArg Prod.fst hκ
    obtain ⟨n, hn⟩ : ∃ n, pe.expected_l0 - pe.received_l0 = n + 1 :=
      ⟨_, (Nat.succ_pred (by omega)).symm⟩
    have hn' : pe.expected_l0 - (pe.received_l0 + 1) = n := by omega
    simp only [PendingEvent.owed, PendingEvent.receive, hm, hl, if_true, Bool.false_eq_true, if_false,
      hn, hn', hκ, Multiset.replicate_add, Multiset.replicate_one]
    exact add_right_comm _ _ _
  · have hl : pm.layer = 1 := congrArg Prod.fst hκ
    obtain ⟨n, hn⟩ : ∃ n, pe.expected_l1 - pe.received_l1 = n + 1 :=
      ⟨_, (Nat.succ_pred (by omega)).symm⟩
    have hn' : pe.expected_l1 - (pe.received_l1 + 1) = n := by omega
    simp only [PendingEvent.owed, PendingEvent.receive, hm, hl, one_ne_zero, Bool.false_eq_true, if_false,
      hn, hn', hκ, Multiset.replicate_add, Multiset.replicate_one]
    exact (add_assoc _ _ _).symm

theorem PendingEvent.Counted.receive (hc : pe.Counted p k) (h : pm.key k ∈ pe.owed k) :
    (pe.receive pm).Counted p k := by
  obtain ⟨-, hκ⟩ := PendingEvent.mem_owed h
  rcases hκ with ⟨hκ, hlt⟩ | ⟨hκ, hlt⟩
  · have hl : pm.layer = 0 := congrArg Prod.fst hκ
    rw [PendingEvent.receive, if_pos hl]
    exact ⟨hc.column, hc.owner, hlt, hc.l1, fun hd => absurd (hc.l0_done hd) hlt.ne, hc.l0_open⟩
  · have hl : pm.layer ≠ 0 := by
      rw [show pm.layer = 1 from congrArg Prod.fst hκ]
      exact one_ne_zero
    rw [PendingEvent.receive, if_neg hl]
    refine ⟨hc.column, hc.owner, hc.l0, hlt, hc.l0_done, fun ho => ?_⟩
    rw [(hc.l0_open ho).1] at hlt
    exact absurd hlt (Nat.not_lt_zero _)

theorem PendingEvent.hit_iff : pe.hit pm = true ↔ pe.is_marker = false ∧ pe.seq = pm.seq := by
  simp [PendingEvent.hit]

/-- A shard with its queue, whose messages are in line. -/
structure Shard.Sound (p : OwnerScheme) (k : Nat) (q_own : List OwnMsg) (sh : Shard) : Prop where
  sorted : (sh.pending.map (·.msg) ++ q_own.filterMap OwnMsg.msg).Pairwise fun a b => a.stop ≤ b.seq
  counted : ∀ pe ∈ sh.pending, pe.is_marker = false → pe.Counted p k

variable {q_own : List OwnMsg} {sh : Shard}

theorem mem_sum_map {α β : Type*} {f : α → Multiset β} {l : List α} {b : β} :
    b ∈ (l.map f).sum ↔ ∃ a ∈ l, b ∈ f a := by
  induction l with
  | nil => simp
  | cons a l ih => simp [ih]

/-- Nothing else in line has the number of a pending event. -/
theorem Shard.Sound.unique (h : sh.Sound p k q_own) {l l' : List PendingEvent}
    (hp : sh.pending = l ++ pe :: l') (hm : pe.is_marker = false) :
    (∀ pe' ∈ l, pe'.is_marker = false → pe'.seq < pe.seq) ∧
      (∀ pe' ∈ l', pe.seq < pe'.seq) ∧ ∀ a ∈ q_own.filterMap OwnMsg.msg, pe.seq < a.seq := by
  have hstop : ∀ pe : PendingEvent, pe.is_marker = false → pe.msg.stop = pe.seq + 1 := by
    intro pe hm
    rw [PendingEvent.msg, hm]
    rfl
  have hsorted := h.sorted
  rw [hp, List.map_append, List.map_cons, List.append_assoc, List.cons_append] at hsorted
  obtain ⟨-, hright, hleft⟩ := List.pairwise_append.mp hsorted
  obtain ⟨hright, -⟩ := List.pairwise_cons.mp hright
  refine ⟨fun pe' hpe' hm' => ?_, fun pe' hpe' => ?_, fun a ha => ?_⟩
  · have hle := hleft _ (List.mem_map_of_mem hpe') _ List.mem_cons_self
    rw [hstop pe' hm', pe.msg_seq] at hle
    exact hle
  · have hle := hright _ (List.mem_append_left _ (List.mem_map_of_mem hpe'))
    rw [hstop pe hm, pe'.msg_seq] at hle
    exact hle
  · have hle := hright a (List.mem_append_right _ ha)
    rw [hstop pe hm] at hle
    exact hle

/-- A partial that is owed goes to its event, or to the deferred ones. -/
theorem Shard.Sound.matchPartial (h : sh.Sound p k q_own) (hmem : pm.key k ∈ sh.owed k q_own) :
    (sh.matchPartial pm).Sound p k q_own ∧
      (sh.matchPartial pm).owed k q_own + sh.deferred k + {pm.key k} =
        sh.owed k q_own + (sh.matchPartial pm).deferred k := by
  have hsorted : ((sh.matchPartial pm).pending.map (·.msg) ++ q_own.filterMap OwnMsg.msg).Pairwise
      fun a b => a.stop ≤ b.seq := by
    rw [sh.matchPartial_pending]
    exact h.sorted
  by_cases hany : sh.pending.any (·.hit pm) = true
  · obtain ⟨pe, hpe, hhit⟩ := List.any_eq_true.mp hany
    obtain ⟨hm, hseq⟩ := PendingEvent.hit_iff.mp hhit
    obtain ⟨l, l', hp⟩ := List.append_of_mem hpe
    obtain ⟨hleft, hright, hown⟩ := h.unique hp hm
    have hother : ∀ pe' ∈ l ++ l', pe'.hit pm = false := by
      intro pe' hpe'
      rw [Bool.eq_false_iff]
      intro hhit'
      obtain ⟨hm', hseq'⟩ := PendingEvent.hit_iff.mp hhit'
      rcases List.mem_append.mp hpe' with hl | hl
      · exact (hleft pe' hl hm').ne (hseq'.trans hseq.symm)
      · exact (hright pe' hl).ne (hseq.trans hseq'.symm)
    have hnot : ∀ pe' ∈ l ++ l', pm.key k ∉ pe'.owed k := by
      intro pe' hpe' hin
      obtain ⟨hm', hκ⟩ := PendingEvent.mem_owed hin
      have hseq' : pe'.seq = pm.seq := by
        rcases hκ with ⟨hκ, -⟩ | ⟨hκ, -⟩ <;> exact (congrArg (fun κ : Key => κ.2.2) hκ).symm
      have hhit : pe'.hit pm = true := PendingEvent.hit_iff.mpr ⟨hm', hseq'⟩
      exact Bool.false_ne_true ((hother pe' hpe').symm.trans hhit)
    have hmap : ∀ l'' : List PendingEvent, (∀ pe' ∈ l'', pe' ∈ l ++ l') →
        l''.map (fun pe => if pe.hit pm then pe.receive pm else pe) = l'' := by
      intro l'' hsub
      refine (List.map_congr_left fun pe' hpe' => ?_).trans (List.map_id l'')
      rw [hother pe' (hsub pe' hpe')]
      rfl
    have hin : pm.key k ∈ pe.owed k := by
      rcases Multiset.mem_add.mp hmem with hmem | hmem
      · obtain ⟨pe', hpe', hin⟩ := mem_sum_map.mp hmem
        rw [hp] at hpe'
        rcases List.mem_append.mp hpe' with hl | hl
        · exact absurd hin (hnot pe' (List.mem_append_left _ hl))
        · rcases List.mem_cons.mp hl with rfl | hl
          · exact hin
          · exact absurd hin (hnot pe' (List.mem_append_right _ hl))
      · obtain ⟨m, hm', hin⟩ := mem_sum_map.mp hmem
        obtain ⟨-, a, ha, hseq'⟩ := OwnMsg.mem_owed hin
        exact absurd (hseq.trans hseq'.symm) (hown a (List.mem_filterMap.mpr ⟨m, hm', ha⟩)).ne
    have hpending : (sh.matchPartial pm).pending = l ++ pe.receive pm :: l' := by
      rw [Shard.matchPartial, if_pos hany]
      dsimp only
      rw [hp, List.map_append, List.map_cons, if_pos hhit,
        hmap l fun pe' hpe' => List.mem_append_left _ hpe',
        hmap l' fun pe' hpe' => List.mem_append_right _ hpe']
    have hdef : (sh.matchPartial pm).deferred_partials = sh.deferred_partials := by
      rw [Shard.matchPartial, if_pos hany]
    refine ⟨⟨hsorted, fun pe' hpe' hm' => ?_⟩, ?_⟩
    · rw [hpending] at hpe'
      rcases List.mem_append.mp hpe' with hl | hl
      · exact h.counted pe' (hp ▸ List.mem_append_left _ hl) hm'
      · rcases List.mem_cons.mp hl with rfl | hl
        · exact (h.counted pe hpe hm).receive hin
        · exact h.counted pe' (hp ▸ List.mem_append_right _ (List.mem_cons_of_mem _ hl)) hm'
    · have howed := PendingEvent.owed_receive hin
      rw [Shard.owed, Shard.owed, Shard.deferred, Shard.deferred, hpending, hdef, hp]
      simp only [List.map_append, List.map_cons, List.sum_append, List.sum_cons]
      rw [howed]
      abel
  · have hdef : sh.matchPartial pm = { sh with deferred_partials := sh.deferred_partials ++ [pm] } := by
      rw [Shard.matchPartial, if_neg hany]
    rw [hdef]
    refine ⟨⟨h.sorted, h.counted⟩, ?_⟩
    rw [Shard.owed, Shard.owed, Shard.deferred, Shard.deferred, List.map_append, ← Multiset.coe_add,
      add_assoc]
    rfl

/-- Every deferred partial is tried once. -/
theorem Shard.Sound.foldl_matchPartial (h : sh.Sound p k q_own) (pms : List PartialMsg)
    (hle : (pms.map (·.key k) : List Key) + sh.deferred k ≤ sh.owed k q_own) :
    (pms.foldl Shard.matchPartial sh).Sound p k q_own ∧
      (pms.foldl Shard.matchPartial sh).owed k q_own + sh.deferred k + (pms.map (·.key k) : List Key) =
        sh.owed k q_own + (pms.foldl Shard.matchPartial sh).deferred k := by
  induction pms generalizing sh with
  | nil => exact ⟨h, by simp⟩
  | cons pm pms ih =>
    rw [List.map_cons, ← Multiset.cons_coe, ← Multiset.singleton_add] at hle ⊢
    have hmem : pm.key k ∈ sh.owed k q_own := by
      refine Multiset.mem_of_le hle ?_
      rw [add_assoc]
      exact Multiset.mem_add.mpr (.inl (Multiset.mem_singleton_self _))
    obtain ⟨hsound, heq⟩ := h.matchPartial hmem
    have hle' : (pms.map (·.key k) : List Key) + (sh.matchPartial pm).deferred k ≤
        (sh.matchPartial pm).owed k q_own := by
      refine Multiset.le_iff_count.mpr fun κ => ?_
      have hcount := congrArg (Multiset.count κ) heq
      have hcount' := Multiset.le_iff_count.mp hle κ
      simp only [Multiset.count_add] at hcount hcount' ⊢
      omega
    obtain ⟨hsound', heq'⟩ := ih hsound hle'
    refine ⟨hsound', Multiset.ext.mpr fun κ => ?_⟩
    have hcount := congrArg (Multiset.count κ) heq
    have hcount' := congrArg (Multiset.count κ) heq'
    simp only [Multiset.count_add] at hcount hcount' ⊢
    rw [List.foldl_cons]
    omega

end OwnerScheme

end SslaRt
