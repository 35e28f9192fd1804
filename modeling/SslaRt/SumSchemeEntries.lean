import SslaRt.SumSchemeSteps

/-! The entries of the two lists of the sum thread: each holds what was matched for its
event, and an entry that is complete gives the job of layer 1 or the message for
the stages. -/

namespace SslaRt

namespace SumScheme

variable {R : Type*} [CommRing R] {p : SumScheme R} {ops : List (ProducerOp R)} {s s' : State R}

/-- What a step does to the two lists. -/
inductive Pends (p : SumScheme R) (s s' : State R) : Prop
  | kept (hp : ∀ l, ∀ pe ∈ s'.pending l, pe.is_marker = false → pe ∈ s.pending l)
      (hm : s'.matched = s.matched) (hd : s'.dispatched = s.dispatched)
  | hit (l : Layer) (pm : PartialMsg R) (pending : List (Pending R))
      (htry : tryMatch (s.pending l) pm = some pending)
      (hm : s'.matched = Function.update s.matched l (s.matched l ++ [pm]))
      (hp : s'.pending = Function.update s.pending l pending) (hd : s'.dispatched = s.dispatched)
  | read (m : EventMeta R) (q : List (MetaMsg R)) (hq : s.q_meta_l0 = .event m :: q)
      (hp : s'.pending = Function.update s.pending .l0 (s.pending .l0 ++ [.ofMeta m]))
      (hm : s'.matched = s.matched) (hd : s'.dispatched = s.dispatched)
  | cascade (pe : Pending R) (rest : List (Pending R)) (hfront : s.pending .l0 = pe :: rest)
      (hmark : pe.is_marker = false) (hall : pe.expected ≤ pe.received)
      (hp : s'.pending = Function.update (Function.update s.pending .l0 rest) .l1
        (s.pending .l1 ++ [.ofJob p (pe.finalised p)]))
      (hm : s'.matched = s.matched) (hd : s'.dispatched = s.dispatched ++ [pe.finalised p])

theorem step_pends (h : p.Step s s') : Pends p s s' := by
  have hsame : ∀ l, ∀ pe ∈ s.pending l, pe.is_marker = false → pe ∈ s.pending l := fun _ _ h _ => h
  cases h with
  | producer h => cases h <;> exact .kept hsame rfl rfl
  | shard k hk h => cases h <;> exact .kept hsame rfl rfl
  | stages h => cases h <;> exact .kept hsame rfl rfl
  | sum h =>
    cases h with
    | popEvent m q hpc hq => exact .read m q hq rfl rfl rfl
    | popMarker seq q hpc hq =>
      refine .kept (fun l pe hpe hmark => ?_) rfl rfl
      cases l with
      | l0 =>
        rcases List.mem_append.mp (show pe ∈ s.pending .l0 ++ [.ofMarker seq] from hpe) with h | h
        · exact h
        · rw [List.mem_singleton.mp h] at hmark
          cases hmark
      | l1 => exact hpe
    | retryHit l i pm ds pending hpc hd hm => exact .hit l pm pending hm rfl rfl rfl
    | drainHit k l pm q pending hpc hk hq hm => exact .hit l pm pending hm rfl rfl rfl
    | cascadeMarker0 pe rest hpc hp hm =>
      refine .kept (fun l pe' hpe hmark => ?_) rfl rfl
      cases l with
      | l0 => exact hp ▸ List.mem_cons_of_mem pe hpe
      | l1 =>
        rcases List.mem_append.mp hpe with h | h
        · exact h
        · rw [List.mem_singleton.mp h] at hmark
          cases hmark
    | cascadeEvent0 pe rest hpc hp hm hall => exact .cascade pe rest hp hm hall rfl rfl rfl
    | cascadeMarker1 pe rest hpc hp hm =>
      refine .kept (fun l pe' hpe hmark => ?_) rfl rfl
      cases l with
      | l0 => exact hpe
      | l1 => exact hp ▸ List.mem_cons_of_mem pe hpe
    | cascadeEvent1 pe rest hpc hp hm hall =>
      refine .kept (fun l pe' hpe hmark => ?_) rfl rfl
      cases l with
      | l0 => exact hpe
      | l1 => exact hp ▸ List.mem_cons_of_mem pe hpe
    | _ => exact .kept hsame rfl rfl

theorem issued_same (hd : s'.dispatched = s.dispatched) (l : Layer) : issued ops s' l = issued ops s l := by
  cases l with
  | l0 => rfl
  | l1 => exact hd

/-- A partial that is matched adds to the entry of its event. -/
theorem Entry.hit {jobs : List (Job R)} {matched : List (PartialMsg R)} {pe : Pending R}
    (he : Entry p jobs matched pe) (pm : PartialMsg R) (hmark : pe.is_marker = false) :
    Entry p jobs (matched ++ [pm]) (if pe.Indexed pm.seq then pe.add pm else pe) := by
  by_cases hseq : pm.seq = pe.seq
  · have hindexed : pe.Indexed pm.seq := ⟨hmark, hseq.symm⟩
    rw [if_pos hindexed]
    refine ⟨he.job, he.expected, ?_, ?_⟩
    · simp [Pending.add, he.received, hseq]
    · simp [Pending.add, he.partial_sum, hseq]
  · have hindexed : ¬ pe.Indexed pm.seq := fun h => hseq h.2.symm
    rw [if_neg hindexed]
    refine ⟨he.job, he.expected, ?_, ?_⟩
    · simp [he.received, hseq]
    · simp [he.partial_sum, hseq]

/-- A new entry of a job whose number nothing has been matched for. -/
theorem Entry.new {jobs : List (Job R)} {matched : List (PartialMsg R)} {pe : Pending R}
    (hjob : ⟨pe.seq, pe.x, pe.y, pe.feat_in_residual⟩ ∈ jobs) (hexp : pe.expected = p.expectedCount pe.x)
    (hzero : pe.received = 0 ∧ pe.partial_sum = 0) (hnew : ∀ pm ∈ matched, pm.seq ≠ pe.seq) :
    Entry p jobs matched pe := by
  refine ⟨hjob, hexp, ?_, ?_⟩
  · rw [hzero.1, eq_comm, List.countP_eq_zero]
    exact fun pm hpm h => hnew pm hpm (of_decide_eq_true h)
  · have hnil : (matched.filter fun pm => pm.seq = pe.seq) = [] :=
      List.filter_eq_nil_iff.mpr fun pm hpm h => hnew pm hpm (of_decide_eq_true h)
    rw [hzero.2, hnil]
    rfl

theorem Entry.mono {jobs jobs' : List (Job R)} {matched : List (PartialMsg R)} {pe : Pending R}
    (he : Entry p jobs matched pe) (h : jobs ⊆ jobs') : Entry p jobs' matched pe :=
  ⟨h he.job, he.expected, he.received, he.partial_sum⟩

/-- The numbers before a place of the line and after it are different. -/
theorem not_known_l0 (hp : Driven p ops) (hs : InLine ops s) {q : Nat} (hq : .event q ∈ s.unread) :
    q ∉ known s .l0 := by
  have hnd := line_nodup hp.nodup hs
  unfold State.line at hnd
  rw [← List.append_assoc, eventSeqs_append] at hnd
  exact fun h => (List.nodup_append.mp hnd).2.2 q h q (mem_eventSeqs.mpr hq) rfl

theorem not_known_l1 (hp : Driven p ops) (hs : InLine ops s) (hd : Dispatched s) {pe : Pending R}
    (hpe : pe ∈ s.pending .l0) (hmark : pe.is_marker = false) : pe.seq ∉ known s .l1 := by
  have hnd := line_nodup hp.nodup hs
  have hitem : Item.event pe.seq ∈ (s.pending .l0).map Pending.item :=
    List.mem_map.mpr ⟨pe, hpe, by simp [Pending.item, hmark]⟩
  unfold State.line at hnd
  rw [eventSeqs_append] at hnd
  unfold known Dispatched at *
  rw [hd]
  exact fun h => (List.nodup_append.mp hnd).2.2 _ h _
    (mem_eventSeqs.mpr (List.mem_append_left _ hitem)) rfl

theorem Entries.step (hp : Driven p ops) (hinv : Inv p ops s) (h : p.Step s s') : Entries p ops s' := by
  intro l pe hpe hmark
  cases step_pends h with
  | kept hpend hm hd =>
    rw [issued_same hd, hm]
    exact hinv.entries l pe (hpend l pe hpe hmark) hmark
  | hit l' pm pending htry hm hpend hd =>
    rw [issued_same hd, hm]
    rw [hpend] at hpe
    by_cases hl : l = l'
    · subst hl
      rw [Function.update_self] at hpe ⊢
      rw [(tryMatch_indexed htry).2] at hpe
      obtain ⟨pe', hpe', rfl⟩ := List.mem_map.mp hpe
      have hmark' : pe'.is_marker = false := by
        split at hmark <;> exact hmark
      exact (hinv.entries l pe' hpe' hmark').hit pm hmark'
    · rw [Function.update_of_ne hl] at hpe ⊢
      exact hinv.entries l pe hpe hmark
  | read m q hq hpend hm hd =>
    rw [issued_same hd, hm]
    rw [hpend] at hpe
    cases l with
    | l1 => exact hinv.entries .l1 pe hpe hmark
    | l0 =>
      rw [Function.update_self] at hpe
      rcases List.mem_append.mp hpe with hpe | hpe
      · exact hinv.entries .l0 pe hpe hmark
      · obtain rfl := List.mem_singleton.mp hpe
        have hmem : m ∈ eventMetas ops := hinv.metas.1 m (hq ▸ List.mem_cons_self)
        have hunread : Item.event m.seq ∈ s.unread := by
          unfold State.unread
          rw [hq]
          exact List.mem_cons_self
        refine Entry.new (List.mem_map_of_mem hmem) (hp.expected m hmem) ⟨rfl, rfl⟩ fun pm hpm heq => ?_
        have heq : pm.seq = m.seq := heq
        exact not_known_l0 hp hinv.line hunread (heq ▸ hinv.matched .l0 pm hpm)
  | cascade pe0 rest hfront hmark0 hall hpend hm hd =>
    rw [hm]
    rw [hpend] at hpe
    have hmem : pe0 ∈ s.pending .l0 := hfront ▸ List.mem_cons_self
    cases l with
    | l0 => exact hinv.entries .l0 pe (hfront ▸ List.mem_cons_of_mem pe0 hpe) hmark
    | l1 =>
      have hissued : issued ops s' .l1 = issued ops s .l1 ++ [pe0.finalised p] := hd
      rw [Function.update_self] at hpe
      rw [hissued]
      rcases List.mem_append.mp hpe with hpe | hpe
      · exact (hinv.entries .l1 pe hpe hmark).mono (List.subset_append_left _ _)
      · obtain rfl := List.mem_singleton.mp hpe
        refine Entry.new (List.mem_append_right _ List.mem_cons_self) rfl ⟨rfl, rfl⟩ fun pm hpm heq => ?_
        exact not_known_l1 hp hinv.line hinv.dispatched hmem hmark0 (heq ▸ hinv.matched .l1 pm hpm)

theorem Inv.nodup (hp : Driven p ops) (hinv : Inv p ops s) (l : Layer) :
    ((issued ops s l).map Job.seq).Nodup :=
  issued_nodup hp.nodup hinv.line hinv.dispatched l

theorem Inv.complete (hp : Driven p ops) (hinv : Inv p ops s) {l : Layer} {pe : Pending R}
    (hpe : pe ∈ s.pending l) (hmark : pe.is_marker = false) (hall : pe.expected ≤ pe.received) :
    Collected p (s.log l) ⟨pe.seq, pe.x, pe.y, pe.feat_in_residual⟩ pe.partial_sum :=
  collected_of_entry hinv.working hinv.partials hinv.numbered (hinv.nodup hp l)
    (hinv.entries l pe hpe hmark) hall

theorem Jobs.step (hp : Driven p ops) (hinv : Inv p ops s) (h : p.Step s s') : Jobs p ops s' := by
  have hworks := step_works hinv.dispatching h
  have hold : ∀ j ∈ s.dispatched, ∃ m ∈ eventMetas ops, ∃ v, Collected p (s'.log .l0) m.job v ∧
      j = ⟨m.seq, m.x, m.y, featBuf (p.layerFinalize .l0 (featBuf m.feat_in) v)⟩ := by
    intro j hj
    obtain ⟨m, hm, v, hc, heq⟩ := hinv.jobs j hj
    exact ⟨m, hm, v, hc.step hinv.working (hinv.nodup hp .l0) (List.mem_map_of_mem hm) hworks, heq⟩
  intro j hj
  cases step_pends h with
  | kept hpend hm hd => exact hold j (hd ▸ hj)
  | hit l pm pending htry hm hpend hd => exact hold j (hd ▸ hj)
  | read m q hq hpend hm hd => exact hold j (hd ▸ hj)
  | cascade pe rest hfront hmark hall hpend hm hd =>
    rw [hd] at hj
    rcases List.mem_append.mp hj with hj | hj
    · exact hold j hj
    · obtain rfl := List.mem_singleton.mp hj
      have hmem : pe ∈ s.pending .l0 := hfront ▸ List.mem_cons_self
      have hc := hinv.complete hp hmem hmark hall
      have hjob := (hinv.entries .l0 pe hmem hmark).job
      obtain ⟨m, hm, heq⟩ := List.mem_map.mp hjob
      obtain ⟨hseq, hx, hy, hfeat⟩ := Job.mk.inj heq
      refine ⟨m, hm, pe.partial_sum, ?_, ?_⟩
      · rw [heq]
        exact hc.step hinv.working (hinv.nodup hp .l0) hjob hworks
      · unfold Pending.finalised
        rw [hseq, hx, hy, hfeat]

/-- A message for the stages comes from a complete entry of layer 1. -/
theorem step_results (h : p.Step s s') {m : StageInMsg R}
    (hm : m ∈ s'.sent ++ s'.stage_dispatch_pending) (hitem : ∃ q, m.item = some (.event q)) :
    m ∈ s.sent ++ s.stage_dispatch_pending ∨ ∃ pe ∈ s.pending .l1, pe.is_marker = false ∧
      pe.expected ≤ pe.received ∧ m = pe.toStages p := by
  cases h with
  | producer h => cases h <;> exact .inl hm
  | shard k hk h => cases h <;> exact .inl hm
  | stages h => cases h <;> exact .inl hm
  | sum h =>
    cases h with
    | pushLastEof hpc hroom =>
      simp only [List.append_assoc, List.mem_append, List.mem_singleton] at hm
      rcases hm with hm | rfl | hm
      · exact .inl (List.mem_append_left _ hm)
      · obtain ⟨q, hq⟩ := hitem
        cases hq
      · exact .inl (List.mem_append_right _ hm)
    | cascadeMarker1 pe rest hpc hp hmark =>
      simp only [List.mem_append, List.mem_singleton] at hm
      rcases hm with hm | hm | rfl
      · exact .inl (List.mem_append_left _ hm)
      · exact .inl (List.mem_append_right _ hm)
      · obtain ⟨q, hq⟩ := hitem
        cases hq
    | cascadeEvent1 pe rest hpc hp hmark hall =>
      simp only [List.mem_append, List.mem_singleton] at hm
      rcases hm with hm | hm | rfl
      · exact .inl (List.mem_append_left _ hm)
      · exact .inl (List.mem_append_right _ hm)
      · exact .inr ⟨pe, hp ▸ List.mem_cons_self, hmark, hall, rfl⟩
    | emit m' ms hpc hms hroom =>
      rw [hms, List.append_cons]
      exact .inl hm
    | _ => exact .inl hm

theorem Results.step (hp : Driven p ops) (hinv : Inv p ops s) (h : p.Step s s') : Results p s' := by
  have hworks := step_works hinv.dispatching h
  have hmono : ∀ j ∈ s.dispatched, j ∈ s'.dispatched := by
    intro j hj
    cases step_forwards h with
    | same hf hd => rwa [hd]
    | marker seq hf hd => rwa [hd]
    | event pe rest hpend hm hall hf hd => exact hd ▸ List.mem_append_left _ hj
  intro seq x y feat hmem
  rcases step_results h hmem ⟨seq, rfl⟩ with hold | ⟨pe, hpe, hmark, hall, heq⟩
  · obtain ⟨j, hj, v, hc, hrest⟩ := hinv.results seq x y feat hold
    exact ⟨j, hmono j hj, v, hc.step hinv.working (hinv.nodup hp .l1) hj hworks, hrest⟩
  · have hjob := (hinv.entries .l1 pe hpe hmark).job
    have hc := (hinv.complete hp hpe hmark hall).step hinv.working (hinv.nodup hp .l1) hjob hworks
    obtain ⟨rfl, rfl, rfl, rfl⟩ := StageInMsg.event.inj heq
    exact ⟨_, hmono _ hjob, _, hc, rfl, rfl, rfl, rfl⟩

theorem Inv.init (hp : Driven p ops) : Inv p ops (SumScheme.init ops) where
  line := rfl
  dispatched := rfl
  metas := ⟨fun _ hm => absurd hm List.not_mem_nil, fun _ hm => hm⟩
  working := fun l k => by
    cases l with
    | l0 => exact hp.work k
    | l1 => rfl
  dispatching := fun _ _ _ hsum => SumPc.noConfusion hsum
  numbered := fun _ _ _ he => absurd he List.not_mem_nil
  partials := fun l => by
    have hflight : Bag.bag (Finset.range p.num_shards) ((SumScheme.init ops).inFlight l) = 0 :=
      Bag.bag_nil fun _ => rfl
    have hcomputed : Bag.bag (Finset.range p.num_shards) ((SumScheme.init ops).computed l) = 0 :=
      Bag.bag_nil fun _ => rfl
    rw [hflight, hcomputed]
    rfl
  entries := fun _ _ hpe => absurd hpe List.not_mem_nil
  matched := fun _ _ hpm => absurd hpm List.not_mem_nil
  jobs := fun _ hj => absurd hj List.not_mem_nil
  results := fun _ _ _ _ hm => absurd hm List.not_mem_nil

theorem Inv.step (hp : Driven p ops) (hinv : Inv p ops s) (h : p.Step s s') : Inv p ops s' where
  line := (step_line h).trans hinv.line
  dispatched := hinv.dispatched.step h
  metas := hinv.metas.step h
  working := hinv.working.step (step_works hinv.dispatching h)
  dispatching := hinv.dispatching.step h
  numbered := hinv.numbered.step (step_works hinv.dispatching h)
  partials := by
    cases h with
    | producer h => cases h <;> exact hinv.partials
    | shard k hk h => exact shardStep_partials hk hinv.partials h
    | sum h => exact sumStep_partials hinv.partials h
    | stages h => cases h <;> exact hinv.partials
  entries := Entries.step hp hinv h
  matched := hinv.matched.step hinv.dispatched h
  jobs := Jobs.step hp hinv h
  results := Results.step hp hinv h

theorem reachable_inv (hp : Driven p ops) (h : p.Reachable ops s) : Inv p ops s := by
  induction h with
  | refl => exact Inv.init hp
  | tail _ hst ih => exact ih.step hp hst

end SumScheme

end SslaRt
