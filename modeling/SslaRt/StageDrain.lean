import SslaRt.StageCounts
import SslaRt.CellOrder

/-! Whatever is submitted, the shards can work it off: for every sequence of
events there is a run to a state in which nothing is left to be done. -/

namespace SslaRt

variable {R : Type*} [CommRing R] {cfg : StageConfig R} {s t : StageState R}

/-- All queues are worked off, and nobody is in the middle of an event. -/
structure Drained (s : StageState R) : Prop where
  submitting : s.submitting = none
  q_in : ∀ k, s.q_in k = []
  todo : ∀ k, s.todo k = []

/-- The shards wait for messages. -/
structure Waiting (s : StageState R) : Prop where
  q_in : ∀ k, s.q_in k = []
  todo : ∀ k, s.todo k = []
  ended : ∀ k, s.ended k = false

variable (cfg) in
/-- The messages of an event are pushed and worked off one after the other. -/
theorem work_event {ms : List (Nat × Nat × ShardMsg R)} (hw : Waiting s)
    (hms : s.submitting = some ms) (heof : ∀ m ∈ ms, m.2.2.eof = false) :
    ∃ t, StageReachable cfg s t ∧ Waiting t ∧ t.submitting = none ∧ t.submitted = s.submitted := by
  induction ms generalizing s with
  | nil => exact ⟨_, .single (.accept hms), ⟨hw.q_in, hw.todo, hw.ended⟩, rfl, rfl⟩
  | cons m ms ih =>
    obtain ⟨k, m⟩ := m
    have hroom : (s.q_in k).length < cfg.shard_ring_cap := by
      rw [hw.q_in]
      exact Nat.lt_of_lt_of_le four_pos cfg.cap_ge
    have hpush := StageStep.push k m ms hms hroom
    have hqueue : (Function.update s.q_in k (s.q_in k ++ [m])) k = m :: [] := by simp [hw.q_in]
    obtain ⟨u, hu, hsame, htodo, hq, -⟩ := exists_processed cfg
      (s := { s with
        submitting := some ms
        q_in := Function.update s.q_in k (s.q_in k ++ [m]) })
      (hw.ended k) (hw.todo k) hqueue (heof (k, m) List.mem_cons_self)
    have hwu : Waiting u := by
      refine ⟨fun j => ?_, fun j => ?_, fun j => by rw [hsame.ended]; exact hw.ended j⟩
      · by_cases hj : j = k
        · rw [hj, hq]
        · exact (hsame.q_in j hj).trans ((Function.update_of_ne hj _ _).trans (hw.q_in j))
      · by_cases hj : j = k
        · rw [hj, htodo]
        · exact (hsame.todo j hj).trans (hw.todo j)
    obtain ⟨t, ht, hwt, hnone, htd⟩ := ih hwu hsame.submitting
      (fun m hm => heof m (List.mem_cons_of_mem _ hm))
    exact ⟨t, .head hpush (hu.trans ht), hwt, hnone, htd.trans hsame.submitted⟩

/-- Every sequence of events can be submitted and worked off. -/
theorem exists_worked_off (cfg : StageConfig R) (buf : WorkerState R) (ring_head : Nat → Nat)
    (es : List (Event R)) :
    ∃ s, StageReachable cfg (stageInit buf ring_head) s ∧ Drained s ∧ s.submitted = es := by
  suffices h : ∃ s, StageReachable cfg (stageInit buf ring_head) s ∧ Waiting s ∧
      s.submitting = none ∧ s.submitted = es by
    obtain ⟨s, hs, hw, hnone, hes⟩ := h
    exact ⟨s, hs, ⟨hnone, hw.q_in, hw.todo⟩, hes⟩
  induction es using List.reverseRecOn with
  | nil => exact ⟨_, .refl, ⟨fun _ => rfl, fun _ => rfl, fun _ => rfl⟩, rfl, rfl⟩
  | append_singleton es e ih =>
    obtain ⟨s, hs, hw, hnone, hes⟩ := ih
    by_cases hb : cfg.handle.OutOfBounds (castInt e.x) (castInt e.y)
    · exact ⟨_, hs.tail (.reject e hnone hb), ⟨hw.q_in, hw.todo, hw.ended⟩, hnone, by rw [← hes]⟩
    · have hsubmit := hs.tail (.submit e hnone hb)
      have heof : ∀ m ∈ (cfg.handle.covering e).map fun m => (m.1, s.submitted.length, m.2),
          m.2.2.eof = false := by
        intro m hm
        obtain ⟨m', hm', rfl⟩ := List.mem_map.mp hm
        exact (covering_routed hb hm').eof
      obtain ⟨t, ht, hwt, htnone, htd⟩ := work_event cfg
        (s := { s with
          submitting := some ((cfg.handle.covering e).map fun m => (m.1, s.submitted.length, m.2))
          submitted := s.submitted ++ [e] })
        ⟨hw.q_in, hw.todo, hw.ended⟩ rfl heof
      exact ⟨t, hsubmit.trans ht, hwt, htnone, by rw [htd, ← hes]⟩

/-- What a shard logs is what its loop decided. -/
theorem reachable_decided (buf : WorkerState R) (ring_head : Nat → Nat)
    (h : StageReachable cfg (stageInit buf ring_head) s) :
    ∀ k, ∀ x ∈ s.log k, ∃ w, x.2 = (Stage01ToGpu.shardStep cfg.P cfg.rings w x.1).2.1 := by
  induction h with
  | refl => exact nofun
  | tail _ hst ih =>
    cases hst with
    | reject | submit | push | accept | eof => exact ih
    | pop k m rest r hrun hidle hq heof hr =>
      refine (Function.forall_update_iff _ fun _ (l : List (ShardMsg R × MsgOutcome R)) => ∀ x ∈ l, ∃ w,
        x.2 = (Stage01ToGpu.shardStep cfg.P cfg.rings w x.1).2.1).mpr ⟨?_, fun j _ => ih j⟩
      intro x hx
      rcases List.mem_append.mp hx with hx | hx
      · exact ih k x hx
      · obtain rfl := List.mem_singleton.mp hx
        exact ⟨_, by rw [hr]⟩
    | exec k op rest ht => cases op <;> exact ih

variable (cfg) in
/-- A window of one lets every event of the owner pass. -/
theorem decided_passes (hwindow : cfg.P.tdrop_window_ ≤ 1) {w : WorkerState R} {m : ShardMsg R}
    (hb : ¬ cfg.P.OutOfBounds (castInt m.ev.x) (castInt m.ev.y)) (ho : m.is_owner = true) :
    (Stage01ToGpu.shardStep cfg.P cfg.rings w m).2.1.pass0 = true ∧
      (Stage01ToGpu.shardStep cfg.P cfg.rings w m).2.1.pass1 = true := by
  have hspec := Stage01ToGpu.shardStep_spec cfg.P cfg.rings w m
  have hskip : ¬ m.ev.Skipped cfg.P := hb
  have hdrop : ∀ (s : PipeState R) stage x y, (cfg.P.tdropCheckAt s stage x y).2 = true := by
    intro s stage x y
    unfold SslaSPipeline.tdropCheckAt
    split
    · rfl
    · exact if_pos hwindow
  have hpass0 : msgPass0 cfg.P w.pipe m = true := by simp [msgPass0, hskip, ho, evDrop0, hdrop]
  refine ⟨hspec.pass0.trans hpass0, hspec.pass1.trans ?_⟩
  simp [msgPass1, hpass0, evDrop1, hdrop]

end SslaRt
