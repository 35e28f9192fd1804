import SslaRt.ShardHalo

/-! Stage 1 of a shard against stage 1 of one pipeline for all events. A shard
runs the dropout and stage 1 for its own events only, so the cells that events
of other shards touch do not agree. -/

namespace SslaRt

open CellMemory Contamination Scan

variable {R : Type*}

section Cells

variable (P : SslaSPipeline R) (a : Pixel)

def count0 : List Nat := [a.2 / 2 * P.Ws_ 1 + a.1 / 2]

def count1 : List Nat := [a.2 / 2 / 2 * P.Ws_ 2 + a.1 / 2 / 2]

def patch1 : List Nat := cells (neighbours (a.1 / 2) (a.2 / 2) (P.Hs_ 1) (P.Ws_ 1))

def foreign (h : S01gHandle) (k : Nat) (X : Set Pixel) : Set Pixel :=
  {a | a ∈ X ∧ k ≠ h.owner a.1}

end Cells

section Stage1

variable (P : SslaSPipeline R) (h : S01gHandle) (k : Nat) (X : Set Pixel)

structure Stage1Agrees (s s' : PipeState R) : Prop where
  counter_0 : Clean (count0 P) (foreign h k X) (s.tdrop_counter_ 0) (s'.tdrop_counter_ 0)
  counter_1 : Clean (count1 P) (foreign h k X) (s.tdrop_counter_ 1) (s'.tdrop_counter_ 1)
  hidden_2 : Clean (patch1 P) (foreign h k X) s.hidden_2 s'.hidden_2
  hidden_3 : Clean (patch1 P) (foreign h k X) s.hidden_3 s'.hidden_3

theorem Stage1Agrees.refl (s : PipeState R) : Stage1Agrees P h k X s s :=
  ⟨Clean.refl _ _ _, Clean.refl _ _ _, Clean.refl _ _ _, Clean.refl _ _ _⟩

structure Stage1Free (a : Pixel) : Prop where
  count0 : a ∉ reach (count0 P) X (foreign h k X)
  count1 : a ∉ reach (count1 P) X (foreign h k X)
  patch1 : a ∉ reach (patch1 P) X (foreign h k X)

variable [CommRing R] {P h k X} {s s' : PipeState R} {e : Event R} (hs : ¬ e.Skipped P)
  (hp2 : (P.layers_ 2).num_pos ≠ 1) (hp3 : (P.layers_ 3).num_pos ≠ 1)

section Owned

variable (hagree : Stage1Agrees P h k X s s') (hX : e.at ∈ X) (hfree : Stage1Free P h k X e.at)
  (hfeat0 : (evLayer1 P s e).2 = (evLayer1 P s' e).2)

omit [CommRing R] in
include hagree hX hfree in
theorem evCount0_pass_agree : (evCount0 P s e).2 = (evCount0 P s' e).2 :=
  tdrop_local _ (hagree.counter_0.on_patch hX hfree.count0 _ (List.mem_singleton.mpr rfl))

omit [CommRing R] in
include hagree hX hfree in
theorem evCount1_pass_agree : (evCount1 P s e).2 = (evCount1 P s' e).2 :=
  tdrop_local _ (hagree.counter_1.on_patch hX hfree.count1 _ (List.mem_singleton.mpr rfl))

include hs hagree hX hfree in
theorem msgPass0_agree : msgPass0 P s (ownMessage e) = msgPass0 P s' (ownMessage e) := by
  have hs' : ¬ (ownMessage e).ev.Skipped P := hs
  rw [msgPass0_eq hs', msgPass0_eq hs']
  exact congrArg _ (evCount0_pass_agree hagree hX hfree)

include hs hagree hX hfree in
theorem msgPass1_agree : msgPass1 P s (ownMessage e) = msgPass1 P s' (ownMessage e) := by
  have hs' : ¬ (ownMessage e).ev.Skipped P := hs
  rw [msgPass1_eq hs', msgPass1_eq hs', msgPass0_agree hs hagree hX hfree]
  exact congrArg _ (evCount1_pass_agree hagree hX hfree)

include hp2 hagree hX hfree hfeat0 in
theorem evLayer2_out_agree : (evLayer2 P s e).2 = (evLayer2 P s' e).2 := by
  rw [evLayer2, evLayer2, hfeat0]
  exact (layer2_isLocal P _ _ hp2).out _ (hagree.hidden_2.on_patch hX hfree.patch1)

include hp2 hp3 hagree hX hfree hfeat0 in
theorem evLayer3_out_agree : (evLayer3 P s e).2 = (evLayer3 P s' e).2 := by
  rw [evLayer3, evLayer3, evLayer2_out_agree hp2 hagree hX hfree hfeat0]
  exact (layer3_isLocal P _ _ hp3).out _ (hagree.hidden_3.on_patch hX hfree.patch1)

include hs hp2 hp3 hagree hX hfree hfeat0 in
theorem stage1Agrees_owned :
    Stage1Agrees P h k X (msgPipe P s (ownMessage e)) (msgPipe P s' (ownMessage e)) := by
  have hs' : ¬ (ownMessage e).ev.Skipped P := hs
  have hpass := msgPass0_agree hs hagree hX hfree
  refine ⟨?_, ?_, ?_, ?_⟩
  · rw [msgPipe_counter_0 hs', msgPipe_counter_0 hs']
    exact hagree.counter_0.seen (a := e.at) fun c hc _ => tdrop_congr _ _ hc
  · rw [msgPipe_counter_1 hs', msgPipe_counter_1 hs', hpass]
    split
    · exact hagree.counter_1.seen (a := e.at) fun c hc _ => tdrop_congr _ _ hc
    · exact hagree.counter_1
  · rw [msgPipe_hidden_2 hs', msgPipe_hidden_2 hs', hpass]
    split
    · refine hagree.hidden_2.seen (a := e.at) fun c hc _ => ?_
      exact (layer2_isLocal P _ _ hp2).cell_congr hc fun _ => hfeat0
    · exact hagree.hidden_2
  · rw [msgPipe_hidden_3 hs', msgPipe_hidden_3 hs', hpass]
    split
    · refine hagree.hidden_3.seen (a := e.at) fun c hc _ => ?_
      exact (layer3_isLocal P _ _ hp3).cell_congr hc fun _ =>
        evLayer2_out_agree hp2 hagree hX hfree hfeat0
    · exact hagree.hidden_3

end Owned

section Foreign

variable (hagree : Stage1Agrees P h k X s s') (hfor : e.at ∈ foreign h k X)

include hs hp2 hp3 hagree hfor

theorem stage1Agrees_foreign : Stage1Agrees P h k X (msgPipe P s (ownMessage e)) s' := by
  have hs' : ¬ (ownMessage e).ev.Skipped P := hs
  refine ⟨?_, ?_, ?_, ?_⟩
  · rw [msgPipe_counter_0 hs']
    refine hagree.counter_0.unseen hfor fun c hc => ?_
    exact tdrop_of_ne _ _ fun heq => hc (List.mem_singleton.mpr heq)
  · rw [msgPipe_counter_1 hs']
    split
    · refine hagree.counter_1.unseen hfor fun c hc => ?_
      exact tdrop_of_ne _ _ fun heq => hc (List.mem_singleton.mpr heq)
    · exact hagree.counter_1
  · rw [msgPipe_hidden_2 hs']
    split
    · exact hagree.hidden_2.unseen hfor fun c hc => (layer2_isLocal P _ _ hp2).frame _ _ hc
    · exact hagree.hidden_2
  · rw [msgPipe_hidden_3 hs']
    split
    · exact hagree.hidden_3.unseen hfor fun c hc => (layer3_isLocal P _ _ hp3).frame _ _ hc
    · exact hagree.hidden_3

/-- A halo message does not get as far as the dropout. -/
theorem stage1Agrees_halo :
    Stage1Agrees P h k X (msgPipe P s (ownMessage e)) (msgPipe P s' ⟨e, false, false⟩) := by
  have hs' : ¬ (ShardMsg.mk e false false).ev.Skipped P := hs
  have hpass : msgPass0 P s' ⟨e, false, false⟩ = false := by rw [msgPass0_eq hs', Bool.false_and]
  obtain ⟨h0, h1, h2, h3⟩ := stage1Agrees_foreign hs hp2 hp3 hagree hfor
  refine ⟨?_, ?_, ?_, ?_⟩
  · rw [msgPipe_counter_0 hs']
    exact h0
  · rw [msgPipe_counter_1 hs', hpass]
    exact h1
  · rw [msgPipe_hidden_2 hs', hpass]
    exact h2
  · rw [msgPipe_hidden_3 hs', hpass]
    exact h3

end Foreign

end Stage1

end SslaRt
