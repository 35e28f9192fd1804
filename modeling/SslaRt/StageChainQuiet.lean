import SslaRt.StageChainRuns
import Mathlib.Data.List.Induction
import Mathlib.Data.List.Range

/-! When the last stage has stored the marker behind all work, no work is left,
and the shared state is that of the work done one by one. -/

namespace StageChain

variable {σ : Type*} {M B : Nat → Type*}

namespace Chain

variable (C : Chain σ M B) (s₀ : σ)

section Sequential

/-- What reaches stage `i` when `m` is sent behind `l`. -/
def arrivals (l : List (Msg (M 0))) (m : Msg (M 0)) : (i : Nat) → List (Msg (M i))
  | 0 => [m]
  | i + 1 => C.emit i (C.after i s₀ (C.input s₀ l i)) (arrivals l m i)

variable {l : List (Msg (M 0))} {m : Msg (M 0)}

theorem input_append (i : Nat) :
    C.input s₀ (l ++ [m]) i = C.input s₀ l i ++ C.arrivals s₀ l m i := by
  induction i with
  | zero => rfl
  | succ i ih => rw [input, ih, emit_append, input, arrivals]

variable {C s₀} {Part : Nat → σ → σ → Prop}

theorem arrivals_nil {i j : Nat} (h : C.arrivals s₀ l m i = []) (hij : i ≤ j) :
    C.arrivals s₀ l m j = [] := by
  induction hij with
  | refl => exact h
  | step _ ih => rw [arrivals, ih, emit]

/-- Work that has reached stage `i` goes through the stages from there on. -/
theorem part_through (L : C.Local Part) (k i seq : Nat) (t : σ) (x : M i) (hk : i + k = C.last + 1)
    (hx : C.arrivals s₀ l m i = [.work seq x])
    (hpast : ∀ j < i, Part j t (C.after j s₀ (C.input s₀ (l ++ [m]) j)))
    (hrest : ∀ j, i ≤ j → j ≤ C.last → Part j t (C.after j s₀ (C.input s₀ l j))) :
    ∀ j ≤ C.last, Part j (C.through k i t x) (C.after j s₀ (C.input s₀ (l ++ [m]) j)) := by
  induction k generalizing i t with
  | zero => exact fun j hj => hpast j (by omega)
  | succ k ih =>
    have hi : i ≤ C.last := by omega
    obtain ⟨hb, hfwd⟩ := L.forward_own i _ _ x (hrest i i.le_refl hi)
    obtain ⟨hout, hfin⟩ := L.finish_own i _ _ x (C.forward i t x).2 hfwd
    rw [hb] at hout hfin
    have hwork : (C.work i t x).2 = (C.work i (C.after i s₀ (C.input s₀ l i)) x).2 := by
      unfold work
      dsimp only
      rw [hb]
      exact hout
    have hself : Part i (C.work i t x).1 (C.after i s₀ (C.input s₀ (l ++ [m]) i)) := by
      rw [input_append, C.after_append, hx]
      unfold work
      dsimp only
      rw [hb]
      exact hfin
    have hother : ∀ j ≠ i, ∀ u, Part j t u → Part j (C.work i t x).1 u := by
      intro j hj u hu
      have h1 := L.forward_other i j t x hj
      have h2 := L.finish_other i j (C.forward i t x).1 x (C.forward i t x).2 hj
      exact L.trans j _ _ _ (L.symm j _ _ (L.trans j _ _ _ h1 h2)) hu
    have hpast' : ∀ j < i + 1, Part j (C.work i t x).1 (C.after j s₀ (C.input s₀ (l ++ [m]) j)) := by
      intro j hj
      rcases eq_or_ne j i with rfl | hji
      · exact hself
      · exact hother j hji _ (hpast j (by omega))
    have hrest' : ∀ j, i + 1 ≤ j → j ≤ C.last →
        Part j (C.work i t x).1 (C.after j s₀ (C.input s₀ l j)) :=
      fun j hij hj => hother j (by omega) _ (hrest j (by omega) hj)
    have hnext : C.arrivals s₀ l m (i + 1) =
        C.emit i (C.after i s₀ (C.input s₀ l i)) [.work seq x] := by rw [arrivals, hx]
    unfold through
    cases hw : (C.work i t x).2 with
    | none =>
      have hnil : C.arrivals s₀ l m (i + 1) = [] := by
        rw [hnext]
        simp [emit, ← hwork, hw]
      intro j hj
      rcases Nat.lt_or_ge j (i + 1) with hji | hji
      · exact hpast' j hji
      · rw [input_append, arrivals_nil hnil hji, List.append_nil]
        exact hrest' j hji hj
    | some out =>
      refine ih (i + 1) (C.work i t x).1 out (by omega) ?_ hpast' hrest'
      rw [hnext]
      simp [emit, ← hwork, hw]

theorem part_work (L : C.Local Part) {s t : σ} (h : ∀ j ≤ C.last, Part j s t) (i : Nat)
    (hi : i ≤ C.last) (m : M i) : (C.work i s m).2 = (C.work i t m).2 ∧
      ∀ j ≤ C.last, Part j (C.work i s m).1 (C.work i t m).1 := by
  obtain ⟨hb, hfwd⟩ := L.forward_own i s t m (h i hi)
  obtain ⟨hout, hfin⟩ := L.finish_own i _ _ m (C.forward i s m).2 hfwd
  rw [hb] at hout hfin
  unfold work
  dsimp only
  rw [hb]
  refine ⟨hout, fun j hj => ?_⟩
  rcases eq_or_ne j i with rfl | hji
  · exact hfin
  · have step : ∀ u, Part j u (C.finish i (C.forward i u m).1 m (C.forward i t m).2).1 := fun u =>
      L.trans j _ _ _ (L.forward_other i j u m hji) (L.finish_other i j _ m _ hji)
    exact L.trans j _ _ _ (L.symm j _ _ (step s)) (L.trans j _ _ _ (h j hj) (step t))

/-- Work through the stages keeps two states equal in the parts of the stages. -/
theorem through_congr (L : C.Local Part) (k i : Nat) {s t : σ} (h : ∀ j ≤ C.last, Part j s t)
    (m : M i) (hk : i + k = C.last + 1) :
    ∀ j ≤ C.last, Part j (C.through k i s m) (C.through k i t m) := by
  induction k generalizing i s t with
  | zero => exact h
  | succ k ih =>
    obtain ⟨hout, hpart⟩ := part_work L h i (by omega) m
    unfold through
    rw [hout]
    cases (C.work i t m).2 with
    | none => exact hpart
    | some out => exact ih (i + 1) hpart out (by omega)

theorem sequential_append (s : σ) (l l' : List (Msg (M 0))) :
    C.sequential s (l ++ l') = C.sequential (C.sequential s l) l' := by
  induction l generalizing s with
  | nil => rfl
  | cons m l ih =>
    cases m with
    | work seq m => exact ih _
    | marker seq => exact ih _
    | eof => exact ih _

variable (s₀) in
/-- Stage by stage on the whole input, or work by work through all stages. -/
theorem part_sequential (L : C.Local Part) (l : List (Msg (M 0))) :
    ∀ i ≤ C.last, Part i (C.sequential s₀ l) (C.after i s₀ (C.input s₀ l i)) := by
  induction l using List.reverseRecOn with
  | nil =>
    have hinput : ∀ i, C.input s₀ [] i = [] := by
      intro i
      induction i with
      | zero => rfl
      | succ i ih => rw [input, ih, emit]
    intro i _
    rw [hinput]
    exact L.refl i s₀
  | append_singleton l m ih =>
    rw [sequential_append]
    cases hw : isWork m with
    | false =>
      have hseq : ∀ s, C.sequential s [m] = s := by
        cases m with
        | work seq m => simp [isWork] at hw
        | marker seq => exact fun _ => rfl
        | eof => exact fun _ => rfl
      have hno : ∀ i, NoWork (C.arrivals s₀ l m i) := by
        intro i
        induction i with
        | zero => simpa [NoWork, arrivals] using hw
        | succ i ihi => exact C.emit_noWork _ ihi
      intro i hi
      rw [hseq, input_append, C.after_append, C.after_noWork _ (hno i)]
      exact ih i hi
    | true =>
      cases m with
      | work seq x =>
        exact part_through L (C.last + 1) 0 seq _ x (Nat.zero_add _) rfl
          (fun j hj => absurd hj j.not_lt_zero) fun j _ hj => ih j hj
      | marker seq => simp [isWork] at hw
      | eof => simp [isWork] at hw

variable (C s₀) in
theorem finished_perm (l : List (Msg (M 0))) :
    ((List.range (C.last + 1)).flatMap fun i => C.ends i s₀ (C.input s₀ l i)).Perm (seqs l) := by
  have key : ∀ k, (((List.range k).flatMap fun i => C.ends i s₀ (C.input s₀ l i)) ++
      seqs (C.input s₀ l k)).Perm (seqs l) := by
    intro k
    induction k with
    | zero => exact .refl _
    | succ k ih =>
      rw [List.range_succ, List.flatMap_append, List.flatMap_singleton, List.append_assoc]
      exact ((C.ends_append_seqs_perm k s₀ (C.input s₀ l k)).append_left _).trans ih
  have hlast := key (C.last + 1)
  rwa [input, seqs_noWork (C.emit_last_noWork _ _), List.append_nil] at hlast

end Sequential

section Quiet

variable {C s₀} {Part : Nat → σ → σ → Prop} {s t : State σ M B} {d : (i : Nat) → List (Msg (M i))}
  {N capacity : Nat}

/-- No work is left in a queue or with a thread. -/
structure Quiet (C : Chain σ M B) (s : State σ M B) : Prop where
  left : ∀ i ≤ C.last, NoWork (s.left i)
  pending : ∀ i < C.last, NoWork (s.pending i)

theorem Inv.quiet_of_noWork (h : C.Inv s₀ Part s d) (hno : NoWork s.sent) : C.Quiet s := by
  have key : ∀ i ≤ C.last, NoWork (d i ++ s.left i) ∧ ∀ j < i, NoWork (s.pending j) := by
    intro i hi
    induction i with
    | zero =>
      rw [h.flow.first]
      exact ⟨hno, fun j hj => absurd hj j.not_lt_zero⟩
    | succ i ih =>
      obtain ⟨hd, hp⟩ := ih (by omega)
      have hemit := C.emit_noWork (i := i) s₀ (noWork_append.mp hd).1
      rw [← h.flow.link i hi] at hemit
      obtain ⟨hd', hp'⟩ := noWork_append.mp hemit
      refine ⟨hd', fun j hj => ?_⟩
      rcases Nat.lt_succ_iff_lt_or_eq.mp hj with hj | rfl
      · exact hp j hj
      · exact hp'
  exact ⟨fun i hi => (noWork_append.mp (key i hi).1).2, (key C.last C.last.le_refl).2⟩

/-- A marker comes through every stage. -/
theorem Inv.marker_mem (h : C.Inv s₀ Part s d) {k : Nat} (hm : .marker k ∈ d C.last) (i : Nat)
    (hi : i ≤ C.last) : .marker k ∈ d i := by
  have key : ∀ n ≤ C.last, .marker k ∈ d (C.last - n) := by
    intro n hn
    induction n with
    | zero => exact hm
    | succ n ih =>
      have hsub : C.last - n = C.last - (n + 1) + 1 := by omega
      have hin := ih (by omega)
      rw [hsub] at hin
      have hlink := h.flow.link (C.last - (n + 1)) (by omega)
      refine (C.marker_mem_emit s₀ _).mp ?_
      rw [← hlink]
      exact List.mem_append_left _ (List.mem_append_left _ hin)
  have hi' := key (C.last - i) (by omega)
  rwa [Nat.sub_sub_self hi] at hi'

/-- The last stage has handled the marker behind all work. -/
theorem Inv.quiet_of_marker (h : C.Inv s₀ Part s d) (hN : s.sent.countP isWork = N)
    (hm : .marker N ∈ d C.last) : C.Quiet s := by
  have hsealed : ∀ i ≤ C.last, Sealed N (d i ++ s.left i) ∧ ∀ j < i, NoWork (s.pending j) := by
    intro i hi
    induction i with
    | zero =>
      rw [h.flow.first]
      exact ⟨h.numbered.sealed (by omega), fun j hj => absurd hj j.not_lt_zero⟩
    | succ i ih =>
      obtain ⟨hd, hp⟩ := ih (by omega)
      have hemit := C.emit_sealed (i := i) (s := s₀) hd.left
      rw [← h.flow.link i hi] at hemit
      refine ⟨hemit.left, fun j hj => ?_⟩
      rcases Nat.lt_succ_iff_lt_or_eq.mp hj with hj | rfl
      · exact hp j hj
      · exact hemit.right (List.mem_append_left _ (h.marker_mem hm (j + 1) hi))
  exact ⟨fun i hi => (hsealed i hi).1.right (h.marker_mem hm i hi), (hsealed C.last C.last.le_refl).2⟩

theorem Inv.input_eq (h : C.Inv s₀ Part s d) (hq : C.Quiet s) (i : Nat) (hi : i ≤ C.last) :
    ∃ b, NoWork b ∧ C.input s₀ s.sent i = d i ++ b := by
  induction i with
  | zero => exact ⟨s.left 0, hq.left 0 hi, h.flow.first.symm⟩
  | succ i ih =>
    obtain ⟨b, hb, heq⟩ := ih (by omega)
    refine ⟨s.left (i + 1) ++ (s.pending i ++ C.emit i (C.after i s₀ (d i)) b), ?_, ?_⟩
    · exact noWork_append.mpr ⟨hq.left (i + 1) hi,
        noWork_append.mpr ⟨hq.pending i hi, C.emit_noWork _ hb⟩⟩
    · rw [input, heq, C.emit_append, ← h.flow.link i hi]
      simp only [List.append_assoc]

theorem reached_of_held {i : Nat} {t : Thread (M i) (B i) (M (i + 1))} (h : NoWork t.held) (u : σ) :
    C.reached i u t = u := by
  cases t with
  | halfway seq m b => exact absurd (h _ (List.mem_singleton.mpr rfl)) (by simp [isWork])
  | _ => rfl

/-- A quiet chain is where its work done one by one leads. -/
theorem Inv.quiet_part (L : C.Local Part) (h : C.Inv s₀ Part s d) (hq : C.Quiet s) (i : Nat)
    (hi : i ≤ C.last) : Part i s.shared (C.sequential s₀ s.sent) := by
  obtain ⟨b, hb, heq⟩ := h.input_eq hq i hi
  have hseq := part_sequential s₀ L s.sent i hi
  have hpart := (h.stage i).part
  rw [reached_of_held (noWork_append.mp (hq.left i hi)).1] at hpart
  rw [heq, C.after_append, C.after_noWork _ hb] at hseq
  exact L.trans i _ _ _ hpart (L.symm i _ _ hseq)

theorem Inv.quiet_finished (h : C.Inv s₀ Part s d) (hq : C.Quiet s) :
    ((List.range (C.last + 1)).flatMap s.ended).Perm (List.range (s.sent.countP isWork)) := by
  have hended : (List.range (C.last + 1)).flatMap s.ended =
      (List.range (C.last + 1)).flatMap fun i => C.ends i s₀ (C.input s₀ s.sent i) := by
    refine List.flatMap_congr fun i hi => ?_
    obtain ⟨b, hb, heq⟩ := h.input_eq hq i (Nat.lt_succ_iff.mp (List.mem_range.mp hi))
    rw [(h.stage i).ended, heq, C.ends_append, C.ends_noWork _ hb, List.append_nil]
  have hseqs := h.numbered.seqs
  rw [← List.range_eq_range'] at hseqs
  rw [hended, ← hseqs]
  exact C.finished_perm s₀ s.sent

/-- `marker_done` of the last stage was `N` or more when or after the sender had
pushed `N` pieces of work, and no more work has been sent. -/
theorem Reachable.marker_seen (L : C.Local Part) (h : C.Reachable capacity s₀ s)
    (hdone : N ≤ s.marker_done C.last) (hrun : Relation.ReflTransGen (C.Step capacity) s t)
    (hN : t.sent.countP isWork = N) :
    ((List.range (C.last + 1)).flatMap t.ended).Perm (List.range N) ∧
      ∀ i ≤ C.last, Part i t.shared (C.sequential s₀ t.sent) := by
  obtain ⟨d, hd⟩ := h.inv L
  obtain ⟨d', hd', hsub⟩ := hd.run L hrun
  have hquiet : C.Quiet t := by
    rcases (hd.stage C.last).stored with hzero | hmark
    · exact hd'.quiet_of_noWork (noWork_of_countP (by omega))
    · have hm := hsub _ _ hmark
      have hin : .marker (s.marker_done C.last) ∈ t.sent := by
        rw [← hd'.flow.first]
        exact List.mem_append_left _ (hd'.marker_mem hm 0 (Nat.zero_le _))
      have hle := hd'.numbered.marker_le hin
      have heq : s.marker_done C.last = N := by omega
      exact hd'.quiet_of_marker hN (heq ▸ hm)
  refine ⟨?_, hd'.quiet_part L hquiet⟩
  rw [← hN]
  exact hd'.quiet_finished hquiet

end Quiet

end Chain

end StageChain
