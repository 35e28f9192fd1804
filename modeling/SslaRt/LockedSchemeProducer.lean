import SslaRt.LockedSchemeInv

/-! The steps of the producer: a new event is over every watermark. -/

namespace SslaRt

namespace LockedScheme

variable {p : LockedScheme} {R : Type*} {s s' : State}

section Shard

variable {n : Nat} {isOpen closed : Prop} {sh : Shard} {q_own : List Msg}
  {watermark : WithTop Nat}

theorem ShardInv.mono {isOpen' closed' : Prop} (h : ShardInv n isOpen closed sh q_own watermark) (ho : isOpen' → isOpen)
    (hc : closed → closed') : ShardInv n isOpen' closed' sh q_own watermark := by
  refine { h with bound := fun hi => h.bound (ho hi), storing := fun q hq => ?_, eof := fun he => ?_ }
  · obtain ⟨hle, hfair⟩ := h.storing q hq
    exact ⟨hle, hfair.le, hfair.below, fun hi => hfair.bound (ho hi)⟩
  · exact ⟨hc (h.eof he).1, (h.eof he).2⟩

theorem mem_inhand_append {q_own q : List Msg} {pc : ShardPc} {m : Msg}
    (h : m ∈ pc.inhand ++ (q_own ++ q)) : m ∈ pc.inhand ++ q_own ∨ m ∈ q := by
  rwa [← List.append_assoc, List.mem_append] at h

/-- A marker or an end at the back of the queue. -/
theorem ShardInv.push_mark (h : ShardInv n isOpen closed sh q_own watermark) {m : Msg}
    (hm : ∀ q, .event q ≠ m) : ShardInv n isOpen closed sh (q_own ++ [m]) watermark := by
  have hback : ∀ q, .event q ∈ sh.pc.inhand ++ (q_own ++ [m]) → .event q ∈ sh.pc.inhand ++ q_own := by
    intro q hq
    refine (mem_inhand_append hq).resolve_right fun hq' => hm q (List.mem_singleton.mp hq')
  refine { h with fresh := fun q hq => h.fresh q (hback q hq), storing := fun q hq => ?_,
                  eof := fun he => ⟨(h.eof he).1, fun q hq => (h.eof he).2 q (hback q hq)⟩ }
  obtain ⟨hle, hfair⟩ := h.storing q hq
  refine ⟨hle, hfair.le, fun r hr => hfair.below r ?_, hfair.bound⟩
  exact (List.mem_append.mp hr).resolve_right fun hr' => hm r (List.mem_singleton.mp hr')

/-- One event more; it may be for this shard. -/
theorem ShardInv.event (isOpen' closed' : Prop) (h : ShardInv n isOpen closed sh q_own watermark)
    (ho : isOpen) (hc : ¬ closed) {q : List Msg} (hq : q = [] ∨ q = [.event n]) :
    ShardInv (n + 1) isOpen' closed' sh (q_own ++ q) watermark := by
  have hnew : ∀ r, .event r ∈ q → r = n := by
    intro r hr
    rcases hq with rfl | rfl
    · exact absurd hr List.not_mem_nil
    · injection List.mem_singleton.mp hr
  refine ⟨fun r hr => ?_, h.le.trans n.le_succ, fun _ => .inr (Nat.lt_succ_of_le h.le), fun r hr => ?_,
    h.not_eof, fun he => absurd (h.eof he).1 hc, h.exiting, h.committed, h.exited⟩
  · rcases mem_inhand_append hr with hr | hr
    · exact h.fresh r hr
    · rw [hnew r hr]
      exact h.bound ho
  · obtain ⟨hle, hfair⟩ := h.storing r hr
    refine ⟨hle, hfair.le.trans n.le_succ, fun v hv => ?_, fun _ => Nat.lt_succ_of_le hfair.le⟩
    rcases List.mem_append.mp hv with hv | hv
    · exact hfair.below v hv
    · rw [hnew v hv]
      exact hfair.bound ho

end Shard

/-- The producer alone moves on. -/
theorem Inv.producer_local (h : Inv p s) {producer : ProducerPc} {pushed_seq_max : Nat} {marked : Bool}
    (hm : s.marked = true → marked = true) (hc : s.producer.closed → producer.closed)
    (hmax : pushed_seq_max ≤ s.routes.length + 1 ∧
      (s.Open → marked = false → ¬ producer.closed → pushed_seq_max ≤ s.routes.length))
    (hstoring : ∀ v, producer = .storing v → v ≤ s.routes.length + 1 ∧
      (s.Open → marked = false → v ≤ s.routes.length))
    (hmarking : ∀ q k, producer = .marking q k → q = s.routes.length ∧ marked = true) :
    Inv p { s with producer := producer, pushed_seq_max := pushed_seq_max, marked := marked } := by
  have hopen : State.Open { s with
      producer := producer, pushed_seq_max := pushed_seq_max, marked := marked } → s.Open := by
    rintro ⟨ho, hcl⟩
    refine ⟨?_, fun h => hcl (hc h)⟩
    cases hs : s.marked with
    | false => rfl
    | true => exact absurd ((hm hs).symm.trans ho) (by simp)
  refine ⟨⟨hmax.1, fun ho => hmax.2 (hopen ho) ho.1 ho.2⟩, fun v hv => ⟨(hstoring v hv).1, fun ho =>
    (hstoring v hv).2 (hopen ho) ho.1⟩, hmarking, fun k q hq => ⟨(h.marker k q hq).1,
    hm (h.marker k q hq).2⟩, fun k hk => hc (h.eof k hk), h.sorted, h.routed, h.owned, h.later,
    h.processed_lt, h.processed_sorted, h.candidate, fun k => (h.shard k).mono hopen hc⟩

/-- A marker or an end goes into the queue of shard `k`. -/
theorem Inv.push_mark (h : Inv p s) {k : Nat} {m : Msg} (hm : ∀ q, .event q ≠ m)
    (hmark : ∀ q, m = .marker q → q = s.routes.length ∧ s.marked = true)
    (heof : m = .eof → s.producer.closed) : Inv p (pushOwn s k m) := by
  have hwait : ∀ j, (pushOwn s k m).waiting j = s.waiting j ++ if j = k then [m] else [] := by
    intro j
    rcases eq_or_ne j k with rfl | hj
    · simp [State.waiting, pushOwn]
    · simp [State.waiting, pushOwn, hj]
  have hpend : ∀ j, (pushOwn s k m).pending j = s.pending j ++ if j = k then [m] else [] := by
    intro j
    rw [State.pending, hwait, State.pending]
    simp [pushOwn]
  have hmem : ∀ j x, x ∈ (pushOwn s k m).pending j → x ∈ s.pending j ∨ x = m := by
    intro j x hx
    rw [hpend] at hx
    rcases List.mem_append.mp hx with hx | hx
    · exact .inl hx
    · split at hx
      · exact .inr (List.mem_singleton.mp hx)
      · exact absurd hx List.not_mem_nil
  have hevent : ∀ j q, .event q ∈ (pushOwn s k m).pending j → .event q ∈ s.pending j :=
    fun j q hq => (hmem j _ hq).resolve_right (hm q)
  refine ⟨h.max_le, h.storing, h.marking, fun j q hq => ?_, fun j hj => ?_, fun j => ?_,
    fun j q hq => h.routed j q (hevent j q hq), fun q j hq => ?_,
    fun j q hq => h.later j q (hevent j q hq), h.processed_lt, h.processed_sorted, h.candidate,
    fun j => ?_⟩
  · rcases hmem j _ hq with hq | hq
    · exact h.marker j q hq
    · exact hmark q hq.symm
  · rcases hmem j _ hj with hj | hj
    · exact h.eof j hj
    · exact heof hj.symm
  · rw [hpend]
    refine List.pairwise_append.mpr ⟨h.sorted j, ?_, fun a _ b hb q hq => ?_⟩
    · split
      · exact List.pairwise_singleton ..
      · exact .nil
    · split at hb
      · exact absurd (hq ▸ List.mem_singleton.mp hb) (hm q)
      · exact absurd hb List.not_mem_nil
  · obtain ⟨hj, hcover⟩ := h.owned q j hq
    refine ⟨hj, hcover.imp_right fun hw => ?_⟩
    rw [hwait]
    exact List.mem_append_left _ hw
  · change ShardInv s.routes.length s.Open s.producer.closed (s.shard j)
      (Function.update s.q_own k _ j) (s.committed_seq j)
    rcases eq_or_ne j k with rfl | hj
    · rw [Function.update_self]
      exact (h.shard j).push_mark hm
    · rw [Function.update_of_ne hj]
      exact h.shard j

theorem Inv.producer_step (h : Inv p s) (hs : p.ProducerStep s s') : Inv p s' := by
  cases hs with
  | beginMarker hpc =>
    exact h.producer_local (fun _ => rfl) (by rw [hpc]; exact id)
      ⟨h.max_le.1, fun _ hm => absurd hm (by simp)⟩ nofun fun q k hq => by
        injection hq with hq _
        exact ⟨hq.symm, rfl⟩
  | pushMarker seq k hpc hk hroom =>
    obtain ⟨hseq, hmarked⟩ := h.marking seq k hpc
    have hpush := h.push_mark (k := k) (m := .marker seq) nofun
      (fun q hq => by injection hq with hq; exact ⟨hq ▸ hseq, hmarked⟩) nofun
    refine hpush.producer_local id ?_ ⟨hpush.max_le.1, fun ho _ _ => hpush.max_le.2 ho⟩ nofun
      fun q k hq => ?_
    · change s.producer.closed → _
      rw [hpc]
      exact id
    · injection hq with hq _
      exact ⟨hq ▸ hseq, hmarked⟩
  | endMarker seq hpc =>
    obtain ⟨hseq, hmarked⟩ := h.marking seq _ hpc
    refine h.producer_local id (by rw [hpc]; exact id) ⟨h.max_le.1, fun ho _ _ => h.max_le.2 ho⟩
      (fun v hv => ?_) nofun
    injection hv with hv
    refine ⟨by omega, fun ho => ?_⟩
    rw [ho.1] at hmarked
    exact absurd hmarked (by simp)
  | store value hpc =>
    obtain ⟨hle, hopen⟩ := h.storing value hpc
    exact h.producer_local id (by rw [hpc]; exact id) ⟨hle, fun ho _ _ => hopen ho⟩ nofun nofun
  | beginEof hpc =>
    exact h.producer_local id (fun _ => trivial)
      ⟨h.max_le.1, fun _ _ hc => absurd trivial hc⟩ nofun nofun
  | pushEof k hpc hk hroom =>
    have hclosed : s.producer.closed := by
      rw [hpc]
      trivial
    have hpush := h.push_mark (k := k) (m := .eof) nofun nofun fun _ => hclosed
    exact hpush.producer_local id (fun _ => trivial)
      ⟨hpush.max_le.1, fun _ _ hc => absurd trivial hc⟩ nofun nofun
  | endEof hpc =>
    exact h.producer_local id (fun _ => trivial)
      ⟨h.max_le.1, fun _ _ hc => absurd trivial hc⟩ nofun nofun

theorem route_lt {e : Event R} {k : Nat} (he : p.route e = some k) : k < p.num_shards := by
  unfold route at he
  dsimp only at he
  split at he
  · simp at he
  · injection he with he
    exact he ▸ shardOfCol_lt p.shards_pos _

/-- One event more, for the shard that `owner` names. -/
theorem Inv.event (h : Inv p s) (ho : s.Open) (owner : Option Nat) (howner : ∀ k, owner = some k → k < p.num_shards)
    {q_own : Nat → List Msg}
    (hq : ∀ k, q_own k = s.q_own k ++ if owner = some k then [.event s.routes.length] else []) :
    Inv p { s with
      q_own := q_own
      producer := .storing (s.routes.length + 1)
      routes := s.routes ++ [owner] } := by
  have hlen : (s.routes ++ [owner]).length = s.routes.length + 1 := by simp
  have hwait : ∀ k, (s.shard k).pc.inhand ++ q_own k =
      s.waiting k ++ if owner = some k then [.event s.routes.length] else [] := by
    intro k
    rw [hq, ← List.append_assoc]
    rfl
  have hpend : ∀ k, (s.cache k).toList ++ (s.q_to_stage k ++ ((s.shard k).pc.inhand ++ q_own k)) =
      s.pending k ++ if owner = some k then [.event s.routes.length] else [] := by
    intro k
    rw [hwait, State.pending]
    simp only [List.append_assoc]
  have hmem : ∀ k x, x ∈ (s.cache k).toList ++ (s.q_to_stage k ++ ((s.shard k).pc.inhand ++ q_own k)) →
      x ∈ s.pending k ∨ owner = some k ∧ x = .event s.routes.length := by
    intro k x hx
    rw [hpend] at hx
    rcases List.mem_append.mp hx with hx | hx
    · exact .inl hx
    · split at hx
      · rename_i hk
        exact .inr ⟨hk, List.mem_singleton.mp hx⟩
      · exact absurd hx List.not_mem_nil
  have hopen := h.max_le.2 ho
  refine ⟨⟨?_, fun _ => ?_⟩, fun v hv => ?_, nofun, fun k q hk => ?_, fun k hk => ?_, fun k => ?_,
    fun k q hk => ?_, fun q k hk => ?_, fun k q hk e he => ?_, fun e he => ?_, h.processed_sorted,
    h.candidate, fun k => ?_⟩
  · dsimp only
    omega
  · dsimp only
    omega
  · injection hv with hv
    dsimp only
    omega
  · rcases hmem k _ hk with hk | ⟨-, hk⟩
    · exact absurd ((h.marker k q hk).2.symm.trans ho.1) (by simp)
    · simp at hk
  · rcases hmem k _ hk with hk | ⟨-, hk⟩
    · exact absurd (h.eof k hk) ho.2
    · simp at hk
  · change List.Pairwise Before
      ((s.cache k).toList ++ (s.q_to_stage k ++ ((s.shard k).pc.inhand ++ q_own k)))
    rw [hpend]
    refine List.pairwise_append.mpr ⟨h.sorted k, ?_, fun a ha b hb q hbq => ?_⟩
    · split
      · exact List.pairwise_singleton ..
      · exact .nil
    · split at hb
      · obtain ⟨r, rfl⟩ := h.event_of_open ho ha
        have hbq' := hbq ▸ List.mem_singleton.mp hb
        injection hbq' with hbq'
        exact ⟨r, rfl, hbq' ▸ h.lt_length ha⟩
      · exact absurd hb List.not_mem_nil
  · rcases hmem k _ hk with hk | ⟨hk, hq'⟩
    · rw [List.getElem?_append_left (h.lt_length hk)]
      exact h.routed k q hk
    · injection hq' with hq'
      rw [hq', List.getElem?_concat_length, hk]
  · change k < p.num_shards ∧ (q ∈ s.pushed k ∨ .event q ∈ (s.shard k).pc.inhand ++ q_own k)
    rw [hwait]
    rcases Nat.lt_or_ge q s.routes.length with hlt | hge
    · rw [List.getElem?_append_left hlt] at hk
      obtain ⟨hN, hcover⟩ := h.owned q k hk
      exact ⟨hN, hcover.imp_right (List.mem_append_left _)⟩
    · have hlt : q < (s.routes ++ [owner]).length := (List.getElem?_eq_some_iff.mp hk).1
      obtain rfl : q = s.routes.length := by omega
      rw [List.getElem?_concat_length] at hk
      injection hk with hk
      exact ⟨howner k hk, .inr (List.mem_append_right _ (by simp [hk]))⟩
  · rcases hmem k _ hk with hk | ⟨-, hk⟩
    · exact h.later k q hk e he
    · injection hk with hk
      exact hk ▸ h.processed_lt e he
  · have hlt := h.processed_lt e he
    dsimp only
    omega
  · have hnew : (if owner = some k then [Msg.event s.routes.length] else []) = [] ∨
        (if owner = some k then [Msg.event s.routes.length] else []) = [.event s.routes.length] := by
      split <;> simp
    have hevent := fun isOpen closed => ShardInv.event isOpen closed (h.shard k) ho ho.2 hnew
    rw [← hq, ← hlen] at hevent
    exact hevent _ _

theorem Inv.event_step (h : Inv p s) (hs : p.EventStep (R := R) s s') (ht : Timely s .event) :
    Inv p s' := by
  cases hs with
  | outOfBounds e hpc he =>
    have ho : s.Open := ⟨ht, by rw [hpc]; exact id⟩
    exact h.event ho none nofun fun k => by simp
  | inBounds e k hpc he hroom =>
    have ho : s.Open := ⟨ht, by rw [hpc]; exact id⟩
    refine h.event ho (some k) (fun j hj => ?_) fun j => ?_
    · injection hj with hj
      exact hj ▸ route_lt he
    · rcases eq_or_ne j k with rfl | hj
      · simp [pushOwn]
      · simp [pushOwn, Function.update_of_ne hj, hj.symm]

end LockedScheme

end SslaRt
