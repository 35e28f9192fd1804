import SslaRt.LockedSchemeInv

/-! The steps of a shard thread keep its watermark under every event to come. -/

namespace SslaRt

namespace LockedScheme

variable {p : LockedScheme} {s s' : State} {k : Nat}

section Shard

variable {n : Nat} {isOpen closed : Prop} {sh : Shard} {q_own q : List Msg} {committed : WithTop Nat}

theorem ShardInv.pop {d : Bool} {m : Msg} (h : ShardInv n isOpen closed sh (m :: q) committed)
    (hpc : sh.pc = .polling d) (hm : m ≠ .eof) :
    ShardInv n isOpen closed { sh with pc := .pushing m } q committed := by
  have hw : sh.pc.inhand ++ m :: q = [m] ++ q := by rw [hpc]; rfl
  have hfresh := h.fresh
  have heof := h.eof
  rw [hw] at hfresh heof
  refine ⟨hfresh, h.le, h.bound, ?_, fun hpc' => ?_, heof, ?_, fun _ => h.committed ?_, nofun⟩
  · rintro r (hr | hr) <;> simp at hr
  · injection hpc' with hpc'
    exact hm hpc'
  · rintro (hr | hr) <;> simp at hr
  · rw [hpc]
    nofun

theorem ShardInv.pop_eof {d : Bool} (h : ShardInv n isOpen closed sh (.eof :: q) committed)
    (hpc : sh.pc = .polling d) (hclosed : closed) (hnone : ∀ r, .event r ∉ q) :
    ShardInv n isOpen closed { sh with pc := .polling true, got_eof := true } q committed := by
  refine ⟨fun r hr => absurd hr (hnone r), h.le, h.bound, ?_, nofun, fun _ => ⟨hclosed, hnone⟩,
    fun _ => rfl, fun _ => h.committed ?_, nofun⟩
  · rintro r (hr | hr) <;> simp at hr
  · rw [hpc]
    nofun

theorem ShardInv.pop_empty {d : Bool} (h : ShardInv n isOpen closed sh q_own committed)
    (hpc : sh.pc = .polling d) :
    ShardInv n isOpen closed { sh with pc := if d then .polling false else .loading } q_own committed := by
  have hin : (if d then ShardPc.polling false else .loading).inhand = sh.pc.inhand := by
    rw [hpc]
    cases d <;> rfl
  refine ⟨?_, h.le, h.bound, ?_, ?_, ?_, ?_, fun _ => h.committed ?_, ?_⟩
  · rw [hin]
    exact h.fresh
  · cases d <;> rintro r (hr | hr) <;> simp at hr
  · cases d <;> nofun
  · rw [hin]
    exact h.eof
  · cases d <;> rintro (hr | hr) <;> simp at hr
  · rw [hpc]
    nofun
  · cases d <;> nofun

/-- The message in hand gives the next watermark. -/
theorem ShardInv.push {m : Msg} (h : ShardInv n isOpen closed sh q_own committed)
    (hpc : sh.pc = .pushing m) (hle : sh.last_seq ≤ m.seq) (hfair : Fair n isOpen q_own m.seq) :
    ShardInv n isOpen closed { sh with pc := .committing m.seq } q_own committed := by
  have hsub : ∀ r, .event r ∈ q_own → .event r ∈ sh.pc.inhand ++ q_own :=
    fun r hr => List.mem_append_right _ hr
  refine ⟨fun r hr => h.fresh r (hsub r hr), h.le, h.bound, ?_, nofun,
    fun he => ⟨(h.eof he).1, fun r hr => (h.eof he).2 r (hsub r hr)⟩, ?_, fun _ => h.committed ?_, nofun⟩
  · rintro r (hr | hr)
    · injection hr with hr
      rw [← hr]
      exact ⟨hle, hfair⟩
    · simp at hr
  · rintro (hr | hr) <;> simp at hr
  · rw [hpc]
    nofun

theorem ShardInv.commit {r : Nat} {d : Bool} (h : ShardInv n isOpen closed sh q_own committed)
    (hpc : sh.pc = .committing r ∨ sh.pc = .jumping r) :
    ShardInv n isOpen closed ⟨.polling d, r, sh.got_eof⟩ q_own r := by
  obtain ⟨-, hfair⟩ := h.storing r hpc
  refine ⟨fun v hv => .inr (hfair.below v hv), hfair.le, fun ho => .inr (hfair.bound ho), ?_, nofun,
    fun he => ⟨(h.eof he).1, fun v hv => (h.eof he).2 v (List.mem_append_right _ hv)⟩, ?_,
    fun _ => rfl, nofun⟩
  · rintro v (hv | hv) <;> simp at hv
  · rintro (hv | hv) <;> simp at hv

/-- The loaded value is over no event in the queue and over no event to come. -/
theorem ShardInv.load {prod_max : Nat} (h : ShardInv n isOpen closed sh q_own committed)
    (hpc : sh.pc = .loading) (hle : prod_max ≤ n + 1) (hopen : isOpen → prod_max ≤ n)
    (htimely : sh.last_seq + 1 < prod_max → ∀ q, .event q ∈ q_own → prod_max ≤ q) :
    ShardInv n isOpen closed { sh with pc := afterLoad sh prod_max } q_own committed := by
  have hin : (afterLoad sh prod_max).inhand = sh.pc.inhand := by
    rw [hpc]
    unfold afterLoad
    split
    · rfl
    · split <;> rfl
  have hpc' : sh.pc ≠ .exited := by
    rw [hpc]
    nofun
  refine ⟨?_, h.le, h.bound, ?_, ?_, ?_, ?_, fun _ => h.committed hpc', ?_⟩
  · rw [hin]
    exact h.fresh
  · intro r hr
    unfold afterLoad at hr
    split at hr
    · rename_i hjump
      obtain rfl : prod_max - 1 = r := by simpa using hr
      refine ⟨show sh.last_seq ≤ prod_max - 1 by omega, by omega, fun q hq => ?_, fun ho => ?_⟩
      · have hq' := htimely hjump.2 q hq
        omega
      · have ho' := hopen ho
        omega
    · split at hr <;> simp at hr
  · unfold afterLoad
    split
    · nofun
    · split <;> nofun
  · rw [hin]
    exact h.eof
  · intro hr
    unfold afterLoad at hr
    split at hr
    · simp at hr
    · split at hr
      · assumption
      · simp at hr
  · unfold afterLoad
    split
    · nofun
    · split <;> nofun

theorem ShardInv.exit (h : ShardInv n isOpen closed sh q_own committed) (hpc : sh.pc = .exiting) :
    ShardInv n isOpen closed { sh with pc := .exited } q_own ⊤ := by
  have hsub : ∀ r, .event r ∈ q_own → .event r ∈ sh.pc.inhand ++ q_own :=
    fun r hr => List.mem_append_right _ hr
  refine ⟨fun r hr => h.fresh r (hsub r hr), h.le, h.bound, ?_, nofun,
    fun he => ⟨(h.eof he).1, fun r hr => (h.eof he).2 r (hsub r hr)⟩, fun _ => h.exiting (.inl hpc),
    fun hr => absurd rfl hr, fun _ => rfl⟩
  rintro r (hr | hr) <;> simp at hr

end Shard

theorem Inv.pairwise_waiting (h : Inv p s) : (s.waiting k).Pairwise Before :=
  (h.sorted k).sublist ((List.sublist_append_right _ _).trans (List.sublist_append_right _ _))

/-- After a marker or an end there is no event. -/
theorem Inv.no_event_behind (h : Inv p s) {m : Msg} {q : List Msg} (hw : s.waiting k = m :: q)
    (hm : ∀ r, m ≠ .event r) (r : Nat) : .event r ∉ q := by
  intro hr
  have hsorted := h.pairwise_waiting (k := k)
  rw [hw] at hsorted
  obtain ⟨a, ha, -⟩ := (List.pairwise_cons.mp hsorted).1 _ hr r rfl
  exact hm a ha

/-- The number of the message in hand may become the watermark. -/
theorem Inv.fair_inhand (h : Inv p s) {m : Msg} (hpc : (s.shard k).pc = .pushing m) :
    (s.shard k).last_seq ≤ m.seq ∧ Fair s.routes.length s.Open (s.q_own k) m.seq := by
  have hw : s.waiting k = m :: s.q_own k := by
    rw [State.waiting, hpc]
    rfl
  have hm : m ∈ s.waiting k := by
    rw [hw]
    exact List.mem_cons_self
  have hmem := mem_pending_of_waiting hm
  have hs := h.shard k
  cases m with
  | event q =>
    have hlt := h.lt_length hmem
    refine ⟨?_, hlt.le, fun r hr => ?_, fun _ => hlt⟩
    · rcases hs.fresh q hm with hq | hq
      · rw [hq]
        exact Nat.zero_le _
      · exact hq.le
    · have hsorted := h.pairwise_waiting (k := k)
      rw [hw] at hsorted
      obtain ⟨a, ha, hlt'⟩ := (List.pairwise_cons.mp hsorted).1 _ hr r rfl
      injection ha with ha
      exact ha ▸ hlt'
  | marker q =>
    obtain ⟨hq, hmarked⟩ := h.marker k q hmem
    refine ⟨hq ▸ hs.le, hq.le, fun r hr => ?_, fun ho => ?_⟩
    · exact absurd hr (h.no_event_behind hw (fun _ => nofun) r)
    · rw [ho.1] at hmarked
      exact absurd hmarked Bool.false_ne_true
  | eof => exact absurd hpc hs.not_eof

/-- What a step of shard `k` may write. -/
def shardUpdate (s : State) (k : Nat) (sh : Shard) (q_own : List Msg) (watermark : WithTop Nat)
    (q_to_stage : List Msg) (pushed : List Nat) : State :=
  { s with
    shard := Function.update s.shard k sh
    q_own := Function.update s.q_own k q_own
    committed_seq := Function.update s.committed_seq k watermark
    q_to_stage := Function.update s.q_to_stage k q_to_stage
    pushed := Function.update s.pushed k pushed }

theorem Inv.shard_update (h : Inv p s) {sh : Shard} {q_own : List Msg} {watermark : WithTop Nat}
    (q_to_stage : List Msg) (pushed : List Nat)
    (hpend : (q_to_stage ++ (sh.pc.inhand ++ q_own)).Sublist (s.q_to_stage k ++ s.waiting k))
    (hown : ∀ r, r ∈ s.pushed k ∨ .event r ∈ s.waiting k → r ∈ pushed ∨ .event r ∈ sh.pc.inhand ++ q_own)
    (hclear : ∀ m : Nat, s.Clear k m → m ≤ watermark ∧ ∀ r, .event r ∈ q_to_stage → m ≤ r)
    (hshard : ShardInv s.routes.length s.Open s.producer.closed sh q_own watermark) :
    Inv p (shardUpdate s k sh q_own watermark q_to_stage pushed) := by
  have hwait : (shardUpdate s k sh q_own watermark q_to_stage pushed).waiting k =
      sh.pc.inhand ++ q_own := by simp [State.waiting, shardUpdate]
  refine h.only_shard ⟨rfl, rfl, rfl, rfl, rfl, rfl, rfl, fun _ hj => Function.update_of_ne hj ..,
    fun _ hj => Function.update_of_ne hj .., fun _ hj => Function.update_of_ne hj ..,
    fun _ hj => Function.update_of_ne hj .., fun _ hj => Function.update_of_ne hj ..⟩
    ?_ (fun r hr => ?_) (fun m hm => ?_) ?_ (k := k)
  · rw [State.pending, hwait]
    simp only [shardUpdate, Function.update_self]
    exact hpend.append_left _
  · rw [hwait]
    simpa [shardUpdate] using hown r hr
  · simpa [State.Clear, shardUpdate] using hclear m hm
  · simpa [shardUpdate] using hshard

/-- What shard `k` has watermarked stays below what it has still to push. -/
theorem ShardInv.le_fresh {n : Nat} {isOpen closed : Prop} {sh : Shard} {q_own : List Msg}
    {watermark : WithTop Nat} (h : ShardInv n isOpen closed sh q_own watermark) {m r : Nat}
    (hm : m ≤ watermark) (hr : .event r ∈ sh.pc.inhand ++ q_own) : m ≤ r := by
  by_cases hpc : sh.pc = .exited
  · exact absurd hr ((h.eof (h.exiting (.inr hpc))).2 r)
  · rw [h.committed hpc] at hm
    have hm' : m ≤ sh.last_seq := by exact_mod_cast hm
    have hfresh := h.fresh r hr
    omega

theorem Inv.commit_step (h : Inv p s) {seq : Nat} (d : Bool)
    (hpc : (s.shard k).pc = .committing seq ∨ (s.shard k).pc = .jumping seq) :
    Inv p (commit s k seq (.polling d)) := by
  have hsh := h.shard k
  have hw : s.waiting k = s.q_own k := by
    rw [State.waiting]
    rcases hpc with hpc | hpc <;> rw [hpc] <;> rfl
  have hne : (s.shard k).pc ≠ .exited := by
    rcases hpc with hpc | hpc <;> rw [hpc] <;> nofun
  have hinv := h.shard_update (k := k) (s.q_to_stage k) (s.pushed k)
    (by rw [hw]; exact .refl _) (fun r hr => hw ▸ hr) (fun m hm => ⟨?_, hm.2⟩) (hsh.commit (d := d) hpc)
  · simp only [shardUpdate, Function.update_eq_self] at hinv
    exact hinv
  · have hle := hm.1
    rw [hsh.committed hne] at hle
    exact hle.trans (by exact_mod_cast (hsh.storing seq hpc).1)

theorem Inv.shard_step (h : Inv p s) (hs : p.ShardStep k s s') (ht : Timely s (.shard k)) : Inv p s' := by
  have hsh := h.shard k
  cases hs with
  | pop d m q hpc hq hm =>
    have hw : s.waiting k = [m] ++ q := by
      rw [State.waiting, hpc, hq]
      rfl
    rw [hq] at hsh
    have hinv := h.shard_update (k := k) (s.q_to_stage k) (s.pushed k)
      (by rw [hw]; exact .refl _) (fun r hr => hw ▸ hr) (fun _ hm => hm) (hsh.pop hpc hm)
    simp only [shardUpdate, Function.update_eq_self] at hinv
    exact hinv
  | popEof d q hpc hq =>
    have hw : s.waiting k = .eof :: q := by
      rw [State.waiting, hpc, hq]
      rfl
    have hclosed : s.producer.closed := h.eof k (mem_pending_of_waiting (hw ▸ List.mem_cons_self))
    rw [hq] at hsh
    have hinv := h.shard_update (k := k) (s.q_to_stage k) (s.pushed k)
      (by rw [hw]; exact (List.sublist_cons_self _ _).append_left _) (fun r hr => ?_) (fun _ hm => hm)
      (hsh.pop_eof hpc hclosed (h.no_event_behind hw nofun))
    · simp only [shardUpdate, Function.update_eq_self] at hinv
      exact hinv
    · rw [hw] at hr
      simpa [ShardPc.inhand] using hr
  | popEmpty d hpc hq =>
    have hin : (if d then ShardPc.polling false else .loading).inhand = (s.shard k).pc.inhand := by
      rw [hpc]
      cases d <;> rfl
    have hinv := h.shard_update (k := k) (s.q_to_stage k) (s.pushed k)
      (by rw [hin]; exact .refl _) (fun r hr => hin ▸ hr) (fun _ hm => hm) (hsh.pop_empty hpc)
    simp only [shardUpdate, Function.update_eq_self] at hinv
    exact hinv
  | push m hpc hroom =>
    obtain ⟨hle, hfair⟩ := h.fair_inhand hpc
    have hw : s.waiting k = m :: s.q_own k := by
      rw [State.waiting, hpc]
      rfl
    have hinv := h.shard_update (k := k) (s.q_to_stage k ++ [m]) (s.pushed k ++ eventSeq m) ?_ (fun r hr => ?_) (fun v hv => ⟨hv.1, fun r hr => ?_⟩)
      (hsh.push hpc hle hfair)
    · simp only [shardUpdate, Function.update_eq_self] at hinv
      exact hinv
    · rw [hw, List.append_assoc]
      exact .refl _
    · rw [hw] at hr
      rcases hr with hr | hr
      · exact .inl (List.mem_append_left _ hr)
      · rcases List.mem_cons.mp hr with rfl | hr
        · exact .inl (List.mem_append_right _ (List.mem_singleton.mpr rfl))
        · exact .inr hr
    · rcases List.mem_append.mp hr with hr | hr
      · exact hv.2 r hr
      · obtain rfl := List.mem_singleton.mp hr
        refine hsh.le_fresh hv.1 ?_
        rw [hpc]
        exact List.mem_cons_self
  | commit seq hpc => exact h.commit_step true (.inl hpc)
  | load hpc =>
    have hin : (afterLoad (s.shard k) s.pushed_seq_max).inhand = (s.shard k).pc.inhand := by
      rw [hpc, afterLoad]
      split
      · rfl
      · split <;> rfl
    have hinv := h.shard_update (k := k) (s.q_to_stage k) (s.pushed k)
      (by rw [hin]; exact .refl _) (fun r hr => hin ▸ hr) (fun _ hm => hm)
      (hsh.load hpc h.max_le.1 h.max_le.2 (ht hpc))
    simp only [shardUpdate, Function.update_eq_self] at hinv
    exact hinv
  | jump seq hpc => exact h.commit_step false (.inr hpc)
  | exit hpc =>
    have hw : s.waiting k = s.q_own k := by
      rw [State.waiting, hpc]
      rfl
    have hinv := h.shard_update (k := k) (s.q_to_stage k) (s.pushed k)
      (by rw [hw]; exact .refl _) (fun r hr => hw ▸ hr) (fun _ hm => ⟨le_top, hm.2⟩) (hsh.exit hpc)
    simp only [shardUpdate, Function.update_eq_self] at hinv
    exact hinv

end LockedScheme

end SslaRt
