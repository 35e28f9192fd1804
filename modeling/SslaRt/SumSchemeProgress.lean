import SslaRt.SumSchemeLeft

/-! No run is stuck: while an event is missing, the threads can go on until one of
them lowers the work that is left. -/

namespace SslaRt

namespace SumScheme

variable {R : Type*} [CommRing R] {p : SumScheme R} {s s' t : State R} {events : List (Event R)}
  {body : List (ProducerOp R)}

omit [CommRing R] in
theorem Idle.left (h : Idle s t) : t.left p = s.left p := by
  have hshard : ∀ k, t.shardLeft k = s.shardLeft k := by
    intro k
    simp only [State.shardLeft, h.q_in, h.q_partials, h.shard]
  simp only [State.left, h.ops, h.q_meta_l0, h.pending, h.dispatch_l1_pending,
    h.stage_dispatch_pending, h.q_to_stages, h.stages, (h.deferred_partials _).length_eq, hshard]

/-- A state from which the work that is left cannot be lowered. -/
structure Still (p : SumScheme R) (events : List (Event R)) (body : List (ProducerOp R)) (s : State R) :
    Prop where
  reach : p.Reachable (body ++ .wait_marker events.length :: p.closing) s
  stuck : ∀ t, Relation.ReflTransGen p.Step s t → ¬ AllSent p events t ∧ s.left p ≤ t.left p

/-- The sum thread gets to `pc` and nothing else happens. -/
def Comes (p : SumScheme R) (events : List (Event R)) (body : List (ProducerOp R)) (s : State R)
    (pc : SumPc) : Prop := ∃ t, Still p events body t ∧ Idle s t ∧ t.sum = pc

theorem Comes.trans {pc pc' : SumPc} (h : Comes p events body s pc)
    (h' : ∀ t, Still p events body t → Idle s t → t.sum = pc → Comes p events body t pc') :
    Comes p events body s pc' := by
  obtain ⟨t, ht, hidle, hpc⟩ := h
  obtain ⟨u, hu, hidle', hpc'⟩ := h' t ht hidle hpc
  exact ⟨u, hu, hidle.trans hidle', hpc'⟩

omit [CommRing R] in
theorem program_shards (hm : ∀ k m, .push_l0 k m ∈ body → k < p.num_shards) {total k : Nat} {m : ShardMsg R}
    (h : .push_l0 k m ∈ body ++ .wait_marker total :: p.closing) : k < p.num_shards := by
  rw [List.mem_append, List.mem_cons] at h
  rcases h with h | h | h
  · exact hm k m h
  · cases h
  · simp only [closing, List.cons_append, List.mem_cons, List.mem_append, List.mem_map, List.mem_range,
      List.not_mem_nil, or_false, reduceCtorEq, false_or, ProducerOp.push_l0.injEq] at h
    obtain ⟨j, hj, rfl, -⟩ := h
    exact hj

section Still

variable (hb : Body p events body) (h : Still p events body s)
include hb h

theorem Still.running : Running p s :=
  (reachable_running hb h.reach).resolve_left (h.stuck s .refl).1

theorem Still.step (hst : p.Step s t) : Still p events body t ∧ Idle s t := by
  have hle := (h.stuck t (.single hst)).2
  have hidle : Idle s t := by
    have hleft : Idle s t ∨ t.left p < s.left p := by
      cases hst with
      | producer h' =>
        refine .inr (producerStep_left (fun k m hm => ?_) h')
        exact program_shards hb.matching.shards ((reachable_ops h.reach).subset hm)
      | shard k hk h' => exact shardStep_left hk h'
      | sum h' => exact sumStep_left (h.running hb) h'
      | stages h' => exact stagesStep_left h'
    exact hleft.resolve_right (by omega)
  refine ⟨⟨h.reach.tail hst, fun u hu => ?_⟩, hidle⟩
  rw [hidle.left]
  exact h.stuck u (hu.head hst)

theorem Still.comes {pc : SumPc} (hst : p.SumStep s t) (hpc : t.sum = pc) : Comes p events body s pc :=
  ⟨t, (h.step hb (.sum hst)).1, (h.step hb (.sum hst)).2, hpc⟩

theorem Still.meta_empty (hpc : s.sum = .metas) : s.q_meta_l0 = [] := by
  cases hq : s.q_meta_l0 with
  | nil => rfl
  | cons m q =>
    exfalso
    cases m with
    | event m =>
      have hidle := (h.step hb (.sum (.popEvent m q hpc hq))).2.q_meta_l0
      simp [hq] at hidle
    | marker seq =>
      have hidle := (h.step hb (.sum (.popMarker seq q hpc hq))).2.q_meta_l0
      simp [hq] at hidle
    | eof =>
      have hidle := (h.step hb (.sum (.popEof q hpc hq))).2.q_meta_l0
      simp [hq] at hidle

theorem Still.deferred {l : Layer} {i : Nat} (hpc : s.sum = .deferred l i) :
    (∀ pm ∈ (s.deferred_partials l).take i, tryMatch (s.pending l) pm = none) ∧
      Comes p events body s (.deferred l 0) := by
  induction i generalizing s with
  | zero => exact ⟨by simp, s, h, .refl s, hpc⟩
  | succ i ih =>
    have hle := (h.running hb).sum
    rw [hpc] at hle
    cases hd : s.deferred_partials l with
    | nil => simp [SumPc.Within, hd] at hle
    | cons pm ds =>
      simp only [SumPc.Within, hd, List.length_cons] at hle
      cases hm : tryMatch (s.pending l) pm with
      | some pending =>
        have hidle := (h.step hb (.sum (.retryHit l i pm ds pending hpc hd hm))).2.deferred_partials l
        have := hidle.length_eq
        simp [hd] at this
      | none =>
        obtain ⟨hstill, hidle⟩ := h.step hb (.sum (.retryMiss l i pm ds hpc hd hm))
        obtain ⟨hall, t, ht, hidle', hpc'⟩ := ih hstill rfl
        refine ⟨fun pm' hpm' => ?_, t, ht, hidle.trans hidle', hpc'⟩
        rw [List.take_succ_cons, List.mem_cons] at hpm'
        rcases hpm' with rfl | hpm'
        · exact hm
        · refine hall pm' ?_
          dsimp only
          rw [Function.update_self, List.take_append_of_le_length (by omega)]
          exact hpm'

theorem Still.drained {k : Nat} {l : Layer} (hpc : s.sum = .draining k l) (hk : k < p.num_shards) :
    s.q_partials l k = [] := by
  cases hq : s.q_partials l k with
  | nil => rfl
  | cons pm q =>
    exfalso
    cases hm : tryMatch (s.pending l) pm with
    | some pending =>
      have hidle := (h.step hb (.sum (.drainHit k l pm q pending hpc hk hq hm))).2.q_partials
      have := congrFun (congrFun hidle l) k
      simp [set2_apply, hq] at this
    | none =>
      have hidle := (h.step hb (.sum (.drainMiss k l pm q hpc hk hq hm))).2.q_partials
      have := congrFun (congrFun hidle l) k
      simp [set2_apply, hq] at this

theorem Still.draining {k m : Nat} (hkm : k + m = p.num_shards) (hpc : s.sum = .draining k .l0) :
    (∀ j, k ≤ j → j < p.num_shards → ∀ l, s.q_partials l j = []) ∧ Comes p events body s .cascade0 := by
  induction m generalizing k s with
  | zero =>
    obtain rfl : k = p.num_shards := hkm
    exact ⟨fun j hj hlt => absurd hj (by omega), h.comes hb (.drainEnd hpc) rfl⟩
  | succ m ih =>
    have hk : k < p.num_shards := by omega
    have h0 := h.drained hb hpc hk
    obtain ⟨hstill, hidle⟩ := h.step hb (.sum (.drainNone k .l0 hpc hk h0))
    have h1 := hstill.drained hb rfl hk
    obtain ⟨hstill', hidle'⟩ := hstill.step hb (.sum (.drainNone k .l1 rfl hk h1))
    obtain ⟨hall, t, ht, hidle'', hpc'⟩ := ih hstill' (by omega) rfl
    refine ⟨fun j hj hlt l => ?_, t, ht, (hidle.trans hidle').trans hidle'', hpc'⟩
    rcases Nat.eq_or_lt_of_le hj with rfl | hj
    · cases l with
      | l0 => exact h0
      | l1 => exact h1
    · exact hall j hj hlt l

/-- The front of a list of pending events is not complete. -/
theorem Still.waits0 (hpc : s.sum = .cascade0) : Waits (s.pending .l0) := by
  intro pe rest hp
  have hm : pe.is_marker = false := by
    by_contra hm
    have hidle := (h.step hb (.sum (.cascadeMarker0 pe rest hpc hp (by simpa using hm)))).2.pending
    have := congrFun hidle .l0
    simp [hp] at this
  refine ⟨hm, ?_⟩
  by_contra hall
  have hidle := (h.step hb (.sum (.cascadeEvent0 pe rest hpc hp hm (by omega)))).2.pending
  have := congrFun hidle .l0
  simp [hp] at this

theorem Still.waits1 (hpc : s.sum = .cascade1) : Waits (s.pending .l1) := by
  intro pe rest hp
  have hm : pe.is_marker = false := by
    by_contra hm
    have hidle := (h.step hb (.sum (.cascadeMarker1 pe rest hpc hp (by simpa using hm)))).2.pending
    have := congrFun hidle .l1
    simp [hp] at this
  refine ⟨hm, ?_⟩
  by_contra hall
  have hidle := (h.step hb (.sum (.cascadeEvent1 pe rest hpc hp hm (by omega)))).2.pending
  have := congrFun hidle .l1
  simp [hp] at this

theorem Still.dispatch {k m : Nat} (hkm : k + m = p.num_shards) (hpc : s.sum = .dispatch k) :
    (s.dispatch_l1_pending = [] ∨ ∃ j < p.num_shards, p.capacity ≤ (s.q_in .l1 j).length) ∧
      Comes p events body s .cascade1 := by
  cases hd : s.dispatch_l1_pending with
  | nil =>
    have hle := (h.running hb).sum
    rw [hpc] at hle
    obtain rfl : k = 0 := hle.2.resolve_right (by simp [hd])
    exact ⟨.inl rfl, h.comes hb (.dispatchEnd hpc hd) rfl⟩
  | cons d ds =>
    induction m generalizing k s with
    | zero =>
      obtain rfl : k = p.num_shards := hkm
      have hidle := (h.step hb (.sum (.dispatchPop d ds hpc hd))).2.dispatch_l1_pending
      simp [hd] at hidle
    | succ m ih =>
      have hk : k < p.num_shards := by omega
      by_cases hneed : d.Needs k
      · by_cases hroom : (s.q_in .l1 k).length < p.capacity
        · have hidle := (h.step hb (.sum (.dispatchPush k d ds hpc hk hd hneed hroom))).2.q_in
          have := congrFun (congrFun hidle .l1) k
          simp [set2_apply] at this
        · exact ⟨.inr ⟨k, hk, by omega⟩,
            h.comes hb (.dispatchFull k d ds hpc hk hd hneed (by omega)) rfl⟩
      · obtain ⟨hstill, hidle⟩ := h.step hb (.sum (.dispatchSkip k d ds hpc hk hd hneed))
        obtain ⟨hblocked, t, ht, hidle', hpc'⟩ := ih hstill (by omega) rfl hd
        exact ⟨hblocked, t, ht, hidle.trans hidle', hpc'⟩

theorem Still.emitting (hpc : s.sum = .emitting) :
    (s.stage_dispatch_pending = [] ∨ p.capacity ≤ s.q_to_stages.length) ∧
      Comes p events body s .checking := by
  have hend : s.stage_dispatch_pending = [] ∨ p.capacity ≤ s.q_to_stages.length := by
    cases hm : s.stage_dispatch_pending with
    | nil => exact .inl rfl
    | cons m ms =>
      refine .inr ?_
      by_contra hroom
      have hidle := (h.step hb (.sum (.emit m ms hpc hm (by omega)))).2.stage_dispatch_pending
      simp [hm] at hidle
  exact ⟨hend, h.comes hb (.emitEnd hpc hend) rfl⟩

theorem Still.from_emitting (hpc : s.sum = .emitting) : Comes p events body s .metas :=
  (h.emitting hb hpc).2.trans fun _ ht _ hpc' =>
    ht.comes hb (.again hpc' (.inr (.inl (ht.running hb).done))) rfl

theorem Still.from_cascade1 (hpc : s.sum = .cascade1) : Comes p events body s .metas :=
  (h.comes hb (.cascadeEnd1 hpc (h.waits1 hb hpc)) rfl).trans fun _ ht _ hpc' => ht.from_emitting hb hpc'

theorem Still.from_dispatch {k : Nat} (hpc : s.sum = .dispatch k) : Comes p events body s .metas := by
  have hle := (h.running hb).sum
  rw [hpc] at hle
  obtain ⟨m, hm⟩ := Nat.exists_eq_add_of_le hle.1
  exact (h.dispatch hb hm.symm hpc).2.trans fun _ ht _ hpc' => ht.from_cascade1 hb hpc'

theorem Still.from_cascade0 (hpc : s.sum = .cascade0) : Comes p events body s .metas :=
  (h.comes hb (.cascadeEnd0 hpc (h.waits0 hb hpc)) rfl).trans fun _ ht _ hpc' => ht.from_dispatch hb hpc'

theorem Still.from_draining {k : Nat} {l : Layer} (hpc : s.sum = .draining k l) :
    Comes p events body s .metas := by
  have hle := (h.running hb).sum
  rw [hpc] at hle
  cases l with
  | l0 =>
    obtain ⟨m, hm⟩ := Nat.exists_eq_add_of_le (show k ≤ p.num_shards by rcases hle with h | ⟨h, -⟩ <;> omega)
    exact (h.draining hb hm.symm hpc).2.trans fun _ ht _ hpc' => ht.from_cascade0 hb hpc'
  | l1 =>
    have hk : k < p.num_shards := hle.resolve_right (by simp)
    obtain ⟨m, hm⟩ := Nat.exists_eq_add_of_le hk
    refine (h.comes hb (.drainNone k .l1 hpc hk (h.drained hb hpc hk)) rfl).trans fun _ ht _ hpc' => ?_
    exact (ht.draining hb hm.symm hpc').2.trans fun _ ht' _ hpc' => ht'.from_cascade0 hb hpc'

theorem Still.from_deferred {l : Layer} {i : Nat} (hpc : s.sum = .deferred l i) :
    Comes p events body s .metas := by
  have hlast : ∀ t : State R, Still p events body t → ∀ i, t.sum = .deferred .l1 i →
      Comes p events body t .metas := by
    intro t ht i hpc
    refine (ht.deferred hb hpc).2.trans fun u hu _ hpc' => ?_
    exact (hu.comes hb (.retryEnd .l1 hpc') rfl).trans fun _ hv _ hpc'' => hv.from_draining hb hpc''
  cases l with
  | l1 => exact hlast s h i hpc
  | l0 =>
    refine (h.deferred hb hpc).2.trans fun u hu _ hpc' => ?_
    exact (hu.comes hb (.retryEnd .l0 hpc') rfl).trans fun v hv _ hpc'' => hlast v hv _ hpc''

/-- The sum thread finishes its iteration. -/
theorem Still.metas : Comes p events body s .metas := by
  have hle := (h.running hb).sum
  cases hpc : s.sum with
  | metas => exact ⟨s, h, .refl s, hpc⟩
  | deferred l i => exact h.from_deferred hb hpc
  | draining k l => exact h.from_draining hb hpc
  | cascade0 => exact h.from_cascade0 hb hpc
  | dispatch k => exact h.from_dispatch hb hpc
  | cascade1 => exact h.from_cascade1 hb hpc
  | emitting => exact h.from_emitting hb hpc
  | checking => exact h.comes hb (.again hpc (.inr (.inl (h.running hb).done))) rfl
  | ending k =>
    rw [hpc] at hle
    exact hle.elim
  | stopped =>
    rw [hpc] at hle
    exact hle.elim

end Still

/-- What a whole iteration of the sum thread finds. -/
structure Quiet (p : SumScheme R) (s : State R) : Prop where
  q_meta_l0 : s.q_meta_l0 = []
  deferred : ∀ l, ∀ pm ∈ s.deferred_partials l, tryMatch (s.pending l) pm = none
  q_partials : ∀ k < p.num_shards, ∀ l, s.q_partials l k = []
  waits : ∀ l, Waits (s.pending l)
  dispatch : s.dispatch_l1_pending = [] ∨ ∃ k < p.num_shards, p.capacity ≤ (s.q_in .l1 k).length
  staged : s.stage_dispatch_pending = [] ∨ p.capacity ≤ s.q_to_stages.length

theorem Still.quiet (hb : Body p events body) (h : Still p events body s) : Quiet p s := by
  obtain ⟨t₀, h₀, hi₀, hpc₀⟩ := h.metas hb
  have hmeta := h₀.meta_empty hb hpc₀
  obtain ⟨t₁, h₁, hi₁, hpc₁⟩ := h₀.comes hb (.popNone hpc₀ hmeta) rfl
  obtain ⟨hd₀, t₂, h₂, hi₂, hpc₂⟩ := h₁.deferred hb hpc₁
  obtain ⟨t₃, h₃, hi₃, hpc₃⟩ := h₂.comes hb (.retryEnd .l0 hpc₂) rfl
  obtain ⟨hd₁, t₄, h₄, hi₄, hpc₄⟩ := h₃.deferred hb hpc₃
  obtain ⟨t₅, h₅, hi₅, hpc₅⟩ := h₄.comes hb (.retryEnd .l1 hpc₄) rfl
  obtain ⟨hpart, t₆, h₆, hi₆, hpc₆⟩ := h₅.draining hb (Nat.zero_add _) hpc₅
  have hw₀ := h₆.waits0 hb hpc₆
  obtain ⟨t₇, h₇, hi₇, hpc₇⟩ := h₆.comes hb (.cascadeEnd0 hpc₆ hw₀) rfl
  obtain ⟨hdisp, t₈, h₈, hi₈, hpc₈⟩ := h₇.dispatch hb (Nat.zero_add _) hpc₇
  have hw₁ := h₈.waits1 hb hpc₈
  obtain ⟨t₉, h₉, hi₉, hpc₉⟩ := h₈.comes hb (.cascadeEnd1 hpc₈ hw₁) rfl
  have hstaged := (h₉.emitting hb hpc₉).1
  have i₁ := hi₀.trans hi₁
  have i₃ := (i₁.trans hi₂).trans hi₃
  have i₅ := (i₃.trans hi₄).trans hi₅
  have i₇ := (i₅.trans hi₆).trans hi₇
  have i₈ := i₇.trans hi₈
  have i₉ := i₈.trans hi₉
  refine ⟨hi₀.q_meta_l0 ▸ hmeta, fun l pm hpm => ?_, fun k hk l => ?_, fun l => ?_, ?_, ?_⟩
  · cases l with
    | l0 =>
      rw [← i₁.pending]
      refine hd₀ pm ?_
      rw [← (hi₁.deferred_partials .l0).length_eq, List.take_length]
      exact (i₁.deferred_partials .l0).mem_iff.mpr hpm
    | l1 =>
      rw [← i₃.pending]
      refine hd₁ pm ?_
      rw [← (hi₃.deferred_partials .l1).length_eq, List.take_length]
      exact (i₃.deferred_partials .l1).mem_iff.mpr hpm
  · rw [← i₅.q_partials]
    exact hpart k (Nat.zero_le k) hk l
  · cases l with
    | l0 => exact i₇.pending ▸ hi₇.pending ▸ hw₀
    | l1 => exact i₈.pending ▸ hw₁
  · rw [← i₇.dispatch_l1_pending, ← i₇.q_in]
    exact hdisp
  · rw [← i₉.stage_dispatch_pending, ← i₉.q_to_stages]
    exact hstaged

section Threads

variable (hb : Body p events body) (h : Still p events body s)
include hb h

theorem Still.polled {k : Nat} (hk : k < p.num_shards) {l : Layer} (hpc : (s.shard k).pc = .polling l) :
    s.q_in l k = [] := by
  cases hq : s.q_in l k with
  | nil => rfl
  | cons m q =>
    exfalso
    cases m with
    | event w =>
      have hidle := (h.step hb (.shard k hk (.take l w q hpc hq))).2.q_in
      have := congrFun (congrFun hidle l) k
      simp [set2_apply, hq] at this
    | eof =>
      have hidle := (h.step hb (.shard k hk (.takeEof l q hpc hq))).2.q_in
      have := congrFun (congrFun hidle l) k
      simp [set2_apply, hq] at this

/-- From the beginning of its loop a shard looks at both of its queues. -/
theorem Still.polled_both {k : Nat} (hk : k < p.num_shards) (hpc : (s.shard k).pc = .polling .l0)
    (l : Layer) : s.q_in l k = [] := by
  have h0 := h.polled hb hk hpc
  cases l with
  | l0 => exact h0
  | l1 =>
    obtain ⟨hstill, hidle⟩ := h.step hb (.shard k hk (.miss .l0 hpc h0))
    rw [← hidle.q_in]
    exact hstill.polled hb hk (by simp [setShard, ShardPc.after])

theorem Still.decided {k : Nat} (hk : k < p.num_shards) (hpc : (s.shard k).pc = .deciding) (l : Layer) :
    s.q_in l k = [] := by
  obtain ⟨hstill, hidle⟩ := h.step hb (.shard k hk (.decide hpc))
  rw [← hidle.q_in]
  exact hstill.polled_both hb hk (by simp [setShard, (h.running hb).done]) l

theorem Still.shard {k : Nat} (hcap : 0 < p.capacity) (hk : k < p.num_shards) (l : Layer) :
    s.q_in l k = [] ∧ (s.shard k).pc.held l = [] := by
  cases hpc : (s.shard k).pc with
  | polling l' =>
    refine ⟨?_, rfl⟩
    cases l' with
    | l0 => exact h.polled_both hb hk hpc l
    | l1 =>
      have h1 := h.polled hb hk hpc
      obtain ⟨hstill, hidle⟩ := h.step hb (.shard k hk (.miss .l1 hpc h1))
      rw [← hidle.q_in]
      exact hstill.decided hb hk (by simp [setShard, ShardPc.after]) l
  | holding l' pm =>
    have hroom : (s.q_partials l' k).length < p.capacity := by
      rw [(h.quiet hb).q_partials k hk l']
      exact hcap
    have hidle := (h.step hb (.shard k hk (.push l' pm hpc hroom))).2.q_partials
    have := congrFun (congrFun hidle l') k
    simp [set2_apply] at this
  | deciding => exact ⟨h.decided hb hk hpc l, rfl⟩
  | stopped => exact absurd hpc ((h.running hb).shard k)

theorem Still.popped (hpc : s.stages = .polling) : s.q_to_stages = [] := by
  cases hq : s.q_to_stages with
  | nil => rfl
  | cons m q =>
    exfalso
    cases m with
    | event seq x y feat =>
      have hidle := (h.step hb (.stages (.popEvent seq x y feat q hpc hq))).2.q_to_stages
      simp [hq] at hidle
    | marker seq =>
      have hidle := (h.step hb (.stages (.popMarker seq q hpc hq))).2.q_to_stages
      simp [hq] at hidle
    | eof =>
      have hidle := (h.step hb (.stages (.popEof q hpc hq))).2.q_to_stages
      simp [hq] at hidle

theorem Still.stages : s.q_to_stages = [] ∧ s.lastMarker = s.marker_done_stages := by
  unfold State.lastMarker
  cases hpc : s.stages with
  | polling => exact ⟨h.popped hb hpc, rfl⟩
  | missed =>
    obtain ⟨hstill, hidle⟩ := h.step hb (.stages (.retry hpc))
    refine ⟨?_, rfl⟩
    rw [← hidle.q_to_stages]
    exact hstill.popped hb (by simp [(h.running hb).done])
  | storing seq =>
    have hidle := (h.step hb (.stages (.store seq hpc))).2.stages
    rw [hpc] at hidle
    cases hidle
  | stopped => exact absurd hpc (h.running hb).stages

end Threads

/-- An entry is complete when none of its work is on its way. -/
theorem received_of_quiet {ops : List (ProducerOp R)} (hinv : Inv p ops s)
    {l : Layer} (hnd : ((issued ops s l).map Job.seq).Nodup) {pe : Pending R} (hpe : pe ∈ s.pending l)
    (hm : pe.is_marker = false) (hquiet : ∀ pm ∈ s.deferred_partials l, tryMatch (s.pending l) pm = none)
    (hflight : ∀ k < p.num_shards, s.inFlight l k = [])
    (hto : ∀ k < p.num_shards, ∀ w ∈ s.toShard p l k, w.seq ≠ pe.seq) : pe.expected = pe.received := by
  have he := hinv.entries l pe hpe hm
  let ofEvent : PartialMsg R → Prop := fun pm => pm.seq = pe.seq
  have hlogged : ∀ k ∈ Finset.range p.num_shards, ((s.computed l k).countP fun pm => decide (ofEvent pm)) =
      if (p.shardMask pe.x).getLsbD k then 1 else 0 := by
    intro k hk
    have hfilter := hinv.working.filter hnd he.job (Finset.mem_range.mp hk)
    have hnone : (s.toShard p l k).filter (fun w => w.seq = pe.seq) = [] :=
      List.filter_eq_nil_iff.mpr fun w hw => by simpa using hto k (Finset.mem_range.mp hk) w hw
    dsimp only at hfilter
    rw [hnone, List.append_nil] at hfilter
    have hlen := congrArg List.length hfilter
    rw [List.length_map, ← List.countP_eq_length_filter] at hlen
    unfold State.computed
    rw [List.countP_map, List.countP_congr (q := fun e => decide (e.1.seq = pe.seq)) fun e hmem => by
      simp only [Function.comp_apply, decide_eq_true_eq, ofEvent, hinv.numbered l k e hmem], hlen]
    split <;> rfl
  have hcount := congrArg (Multiset.countP ofEvent) (hinv.partials l)
  rw [Multiset.countP_add, Multiset.countP_add, Bag.countP_bag ofEvent (f := s.computed l),
    Finset.sum_congr rfl hlogged, sum_affected, ← he.expected] at hcount
  have hdeferred : (s.deferred_partials l : Multiset (PartialMsg R)).countP ofEvent = 0 := by
    rw [Multiset.countP_eq_zero]
    intro pm hpm heq
    have hnone := hquiet pm hpm
    unfold tryMatch at hnone
    rw [if_pos ⟨pe, hpe, hm, heq.symm⟩] at hnone
    cases hnone
  have hno : (Bag.bag (Finset.range p.num_shards) (s.inFlight l)).countP ofEvent = 0 := by
    rw [Bag.countP_bag]
    exact Finset.sum_eq_zero fun k hk => by rw [hflight k (Finset.mem_range.mp hk), List.countP_nil]
  have hmatched : (s.matched l : Multiset (PartialMsg R)).countP ofEvent = pe.received := by
    rw [he.received, Multiset.coe_countP]
  omega

/-- Markers that `main` waits for are behind the work of all events before them. -/
theorem program_waits (hb : Body p events body) {a b : List (ProducerOp R)} {q : Nat}
    (heq : body ++ .wait_marker events.length :: p.closing = a ++ .wait_marker q :: b) :
    WorkMatches p a ∧ .push_meta (.marker q) ∈ a := by
  refine waits_append hb.matching.waits (fun x q' y hx => ?_) a q b heq
  cases x with
  | nil =>
    obtain ⟨hq, -⟩ := List.cons.inj hx
    obtain rfl := ProducerOp.wait_marker.inj hq
    rw [List.append_nil]
    exact ⟨hb.matching.work, hb.marked⟩
  | cons op x =>
    obtain ⟨-, hclosing⟩ := List.cons.inj hx
    have hmem : .wait_marker q' ∈ p.closing (R := R) := hclosing ▸ List.mem_append_right _ List.mem_cons_self
    simp [closing] at hmem

/-- Behind a wait there is no work for an event before it. -/
theorem upstream_unread {ops a : List (ProducerOp R)} (hp : Driven p ops) (ha : WorkMatches p a)
    (heq : ops = a ++ s.ops) {k : Nat} {w : ShardWork R} (hw : w ∈ s.ops.filterMap (ProducerOp.workOf k)) :
    .event w.seq ∈ s.unread := by
  have hwork := hp.work k
  rw [heq, eventMetas_append, List.map_append, List.filterMap_append, List.filterMap_append, ha k] at hwork
  rw [List.append_cancel_left hwork] at hw
  obtain ⟨j, hj, hjw⟩ := List.mem_filterMap.mp hw
  obtain ⟨m, hm, rfl⟩ := List.mem_map.mp hj
  rw [workAt_seq hjw]
  refine List.mem_append_right _ (mem_eventSeqs.mp ?_)
  rw [eventSeqs_items]
  exact List.mem_map_of_mem hm

omit [CommRing R] in
/-- The front of the list waits, so that the list is empty when no event of it does. -/
theorem pending_nil {l : Layer} (hw : Waits (s.pending l))
    (hall : ∀ pe ∈ s.pending l, pe.is_marker = false → pe.expected = pe.received) : s.pending l = [] := by
  cases hp : s.pending l with
  | nil => rfl
  | cons pe rest =>
    obtain ⟨hm, hlt⟩ := hw pe rest hp
    have := hall pe (hp ▸ List.mem_cons_self) hm
    omega

section Absurd

variable (hb : Body p events body) (hcap : 0 < p.capacity) (h : Still p events body s)
include hb hcap h

theorem Still.pending1 : s.dispatch_l1_pending = [] ∧ s.pending .l1 = [] := by
  have hinv := reachable_inv (program_driven hb) h.reach
  have hquiet := h.quiet hb
  have hdisp : s.dispatch_l1_pending = [] := by
    rcases hquiet.dispatch with hd | ⟨k, hk, hfull⟩
    · exact hd
    · rw [(h.shard hb hcap hk .l1).1] at hfull
      exact absurd hcap (Nat.not_lt.mpr hfull)
  refine ⟨hdisp, pending_nil (hquiet.waits .l1) fun pe hpe hm => ?_⟩
  refine received_of_quiet hinv (hinv.nodup (program_driven hb) .l1) hpe hm (hquiet.deferred .l1)
    (fun k hk => ?_) fun k hk w hw => ?_
  · unfold State.inFlight
    rw [hquiet.q_partials k hk .l1, (h.shard hb hcap hk .l1).2, List.append_nil]
  · unfold State.toShard State.upstream at hw
    rw [(h.shard hb hcap hk .l1).1, hdisp] at hw
    cases hw

/-- With the producer at a wait all events before it have left the first list. -/
theorem Still.pending0 {a : List (ProducerOp R)} (ha : WorkMatches p a)
    (heq : body ++ .wait_marker events.length :: p.closing = a ++ s.ops) : s.pending .l0 = [] := by
  have hdriven := program_driven hb
  have hinv := reachable_inv hdriven h.reach
  have hquiet := h.quiet hb
  refine pending_nil (hquiet.waits .l0) fun pe hpe hm => ?_
  refine received_of_quiet hinv (hinv.nodup hdriven .l0) hpe hm (hquiet.deferred .l0)
    (fun k hk => ?_) fun k hk w hw hseq => ?_
  · unfold State.inFlight
    rw [hquiet.q_partials k hk .l0, (h.shard hb hcap hk .l0).2, List.append_nil]
  · unfold State.toShard State.upstream at hw
    rw [(h.shard hb hcap hk .l0).1, List.filterMap_nil, List.nil_append] at hw
    have hunread := upstream_unread hdriven ha heq hw
    rw [hseq] at hunread
    exact not_known_l0 hdriven hinv.line hunread (known_of_pending hinv.dispatched hpe hm)

/-- The marker that the producer waits for has been stored. -/
theorem Still.waited {a : List (ProducerOp R)} {q : Nat} (ha : WorkMatches p a)
    (hmark : .push_meta (.marker q) ∈ a)
    (heq : body ++ .wait_marker events.length :: p.closing = a ++ s.ops) : q ≤ s.marker_done_stages := by
  have hquiet := h.quiet hb
  obtain ⟨hqueue, hlast⟩ := h.stages hb
  have hstaged : s.stage_dispatch_pending = [] := by
    rcases hquiet.staged with hs | hfull
    · exact hs
    · rw [hqueue] at hfull
      exact absurd hcap (Nat.not_lt.mpr hfull)
  have hline := reachable_line hb h.reach
  unfold InLine State.line State.forwarded State.unread at hline
  rw [hstaged, (h.pending1 hb hcap).2, h.pending0 hb hcap ha heq, hquiet.q_meta_l0, heq,
    List.filterMap_append] at hline
  simp only [List.filterMap_nil, List.map_nil, List.append_nil, List.nil_append] at hline
  have hreceived : s.received = a.filterMap ProducerOp.item := List.append_cancel_right hline
  obtain ⟨popped, hsent, hle⟩ := reachable_stored hb h.reach
  rw [hqueue, List.append_nil] at hsent
  rw [← hlast]
  refine hle q ?_
  rw [← hsent]
  show .marker q ∈ s.received
  rw [hreceived]
  exact List.mem_filterMap.mpr ⟨_, hmark, rfl⟩

theorem Still.absurd : False := by
  have hclosing := reachable_closing hb h.reach
  cases hops : s.ops with
  | nil =>
    rcases hclosing.ops with ⟨b, heq, -⟩ | ⟨hall, -⟩
    · rw [hops] at heq
      simp at heq
    · exact (h.stuck s .refl).1 hall
  | cons op rest =>
    -- any step of the producer would lower the work
    have hidle : ∀ {t : State R}, p.ProducerStep s t → t.ops = rest → False := by
      intro t hst ht
      have := (h.step hb (.producer hst)).2.ops
      rw [ht, hops] at this
      simp at this
    cases op with
    | push_meta m =>
      have hroom : s.q_meta_l0.length < p.capacity := by
        rw [(h.quiet hb).q_meta_l0]
        exact hcap
      exact hidle (.push_meta m rest hops hroom) rfl
    | push_l0 k m =>
      have hk := program_shards hb.matching.shards
        ((reachable_ops h.reach).subset (hops ▸ List.mem_cons_self : .push_l0 k m ∈ s.ops))
      have hroom : (s.q_in .l0 k).length < p.capacity := by
        rw [(h.shard hb hcap hk .l0).1]
        exact hcap
      exact hidle (.push_l0 k m rest hops hroom) rfl
    | wait_marker q =>
      obtain ⟨a, ha⟩ := reachable_ops h.reach
      obtain ⟨hwork, hmark⟩ := program_waits (q := q) (b := rest) hb (by rw [← ha, hops])
      exact hidle (.wait_marker q rest hops (h.waited hb hcap hwork hmark ha.symm)) rfl
    | set_done => exact hidle (.set_done rest hops) rfl

end Absurd

/-- From every state that a run reaches, it can go on until all events are sent. -/
theorem reachable_finishes (hb : Body p events body) (hcap : 0 < p.capacity)
    (h : p.Reachable (body ++ .wait_marker events.length :: p.closing) s) :
    ∃ t, Relation.ReflTransGen p.Step s t ∧ AllSent p events t := by
  induction hn : s.left p using Nat.strong_induction_on generalizing s with
  | _ n ih =>
    -- without such a run no state behind `s` has less work left
    by_contra hnone
    have hstill : Still p events body s := by
      refine ⟨h, fun t ht => ⟨fun hall => hnone ⟨t, ht, hall⟩, ?_⟩⟩
      by_contra hlt
      obtain ⟨u, hu, hall⟩ := ih (t.left p) (by omega) (h.trans ht) rfl
      exact hnone ⟨u, ht.trans hu, hall⟩
    exact hstill.absurd hb hcap

end SumScheme

end SslaRt
