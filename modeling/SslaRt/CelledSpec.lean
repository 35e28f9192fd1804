import SslaRt.CelledRounds
import Mathlib.Algebra.BigOperators.Pi

/-! What one layer of the kernel does to a batch, in terms of the reference
layer applied to the events one at a time. -/

namespace SslaRt

open CellMemory Interleave

variable {R : Type*} [CommRing R]

omit [CommRing R] in
theorem perEventWarp_of_lt {batch_size e : Nat} (f : Nat → EventSlot R → EventSlot R)
    (event_slots : Nat → EventSlot R) (hn : batch_size ≤ N_WARPS) (he : e < batch_size) :
    perEventWarp batch_size f event_slots e = f e (event_slots e) :=
  if_pos ⟨he.trans_le hn, he⟩

structure SameEvent (s t : EventSlot R) : Prop where
  evx : s.evx = t.evx
  evy : s.evy = t.evy
  is_owner : s.is_owner = t.is_owner

omit [CommRing R] in
theorem SameEvent.trans {s t u : EventSlot R} (h : SameEvent s t) (h' : SameEvent t u) :
    SameEvent s u :=
  ⟨h.evx.trans h'.evx, h.evy.trans h'.evy, h.is_owner.trans h'.is_owner⟩

omit [CommRing R] in
theorem perEventWarp_sameEvent {f : Nat → EventSlot R → EventSlot R}
    (hf : ∀ e s, SameEvent (f e s) s) (batch_size : Nat) (event_slots : Nat → EventSlot R) (e : Nat) :
    SameEvent (perEventWarp batch_size f event_slots e) (event_slots e) := by
  unfold perEventWarp
  split
  · exact hf e _
  · exact ⟨rfl, rfl, rfl⟩

theorem residualPhase_sameEvent (IN OUT n : Nat) (gathered : Nat → Bool) (W : LayerWeightsS2S3 R)
    (event_slots : Nat → EventSlot R) (e : Nat) :
    SameEvent (residualPhase IN OUT n gathered W event_slots e) (event_slots e) :=
  perEventWarp_sameEvent (fun e s => by dsimp only; split <;> exact ⟨rfl, rfl, rfl⟩) n event_slots e

theorem residualPhase_in_feat (IN OUT n : Nat) (gathered : Nat → Bool) (W : LayerWeightsS2S3 R)
    (event_slots : Nat → EventSlot R) (e : Nat) :
    (residualPhase IN OUT n gathered W event_slots e).in_feat = (event_slots e).in_feat := by
  unfold residualPhase perEventWarp
  split
  · dsimp only
    split <;> rfl
  · rfl

theorem residualPhase_residual {IN OUT n e : Nat} {W : LayerWeightsS2S3 R} {L : LayerRef R IN OUT}
    (hW : W.Represents L) {gathered : Nat → Bool} (hn : n ≤ N_WARPS) (he : e < n)
    (hg : gathered e = true) (event_slots : Nat → EventSlot R) :
    readFeat OUT (residualPhase IN OUT n gathered W event_slots e).residual =
      L.residual (readFeat IN (event_slots e).in_feat) := by
  rw [residualPhase, perEventWarp_of_lt _ _ hn he]
  simp only [hg, if_true]
  exact readFeat_computeResidual hW _ _

theorem gatherPhase_sameEvent (ar : Arith R) (OUT n : Nat) (gathered : Nat → Bool)
    (W : LayerWeightsS2S3 R) (contrib : Nat × Fin N_WARPS → Fin OUT → R)
    (event_slots : Nat → EventSlot R) (e : Nat) :
    SameEvent (gatherPhase ar OUT n gathered W contrib event_slots e) (event_slots e) :=
  perEventWarp_sameEvent (fun e s => by dsimp only; split <;> exact ⟨rfl, rfl, rfl⟩) n event_slots e

theorem runLayerPhases_sameEvent (ar : Arith R) (IN OUT : Nat) {n : Nat}
    (sched : Schedule N_WARPS n) (Hl Wl : Nat) (event_slots : Nat → EventSlot R)
    (gathered : Nat → Bool) (enter_mask output_mask : Option (Nat → Bool))
    (W : LayerWeightsS2S3 R) (hidden : Nat → Fin OUT → R) (e : Nat) :
    SameEvent ((runLayerPhases ar IN OUT sched Hl Wl event_slots gathered enter_mask output_mask W
      hidden).1 e) (event_slots e) :=
  (gatherPhase_sameEvent ar OUT n gathered W _ _ e).trans
    (residualPhase_sameEvent IN OUT n gathered W event_slots e)

theorem gatherPhase_out_feat (ar : Arith R) {OUT n e : Nat} {gathered : Nat → Bool}
    (W : LayerWeightsS2S3 R) (contrib : Nat × Fin N_WARPS → Fin OUT → R)
    (event_slots : Nat → EventSlot R) (hn : n ≤ N_WARPS) (he : e < n) (hg : gathered e = true) :
    readFeat OUT (gatherPhase ar OUT n gathered W contrib event_slots e).in_feat =
      layernorm ar (readFeat OUT (event_slots e).residual + ∑ w, contrib (e, w))
        W.ln_gamma W.ln_beta := by
  have hsum : (fun o : Fin OUT => (event_slots e).residual o + ∑ w, contrib (e, w) o) =
      readFeat OUT (event_slots e).residual + ∑ w, contrib (e, w) := by
    funext o
    simp only [Pi.add_apply, Finset.sum_apply, readFeat]
  rw [gatherPhase, perEventWarp_of_lt _ _ hn he]
  simp only [hg, if_true, readFeat_writeFeat, gatherResidualLn, hsum]

/-- The result of a layer run over a batch whose events see the hidden states
`hseq 0, hseq 1, ..` in turn. -/
structure LayerRun (ar : Arith R) {IN OUT : Nat} (L : LayerRef R IN OUT) (Hl Wl n : Nat)
    (event_slots : Nat → EventSlot R) (f : Nat → Fin IN → R) (hseq : Nat → Nat → Fin OUT → R)
    (produces : Nat → Prop) (r : (Nat → EventSlot R) × (Nat → Fin OUT → R)) : Prop where
  hidden : r.2 = hseq n
  out_feat : ∀ e < n, produces e → readFeat OUT (r.1 e).in_feat =
    (layerStep ar L (f e) (hseq e) (event_slots e).evx (event_slots e).evy Hl Wl).2
  event : ∀ e, SameEvent (r.1 e) (event_slots e)

section

variable (ar : Arith R) {IN OUT : Nat} {W : LayerWeightsS2S3 R} {L : LayerRef R IN OUT} (hK : L.K = 3)
  (hW : W.Represents L) {n : Nat} (hn : n ≤ N_WARPS) (sched : Schedule N_WARPS n) (Hl Wl : Nat)
  (event_slots : Nat → EventSlot R) (f : Nat → Fin IN → R) (hidden : Nat → Fin OUT → R)
  (hseq : Nat → Nat → Fin OUT → R) (h0 : hseq 0 = hidden)

include hK hW hn h0

theorem runLayerPhases_spec (gathered : Nat → Bool) (enter_mask output_mask : Option (Nat → Bool))
    (hf : ∀ e < n, selected enter_mask e = true → readFeat IN (event_slots e).in_feat = f e)
    (hstep : ∀ e < n, hseq (e + 1) = if selected enter_mask e then
      (layerStep ar L (f e) (hseq e) (event_slots e).evx (event_slots e).evy Hl Wl).1 else hseq e) :
    LayerRun ar L Hl Wl n event_slots f hseq
      (fun e => gathered e = true ∧ selected enter_mask e = true ∧ selected output_mask e = true)
      (runLayerPhases ar IN OUT sched Hl Wl event_slots gathered enter_mask output_mask W hidden) := by
  set slots := residualPhase IN OUT n gathered W event_slots with hslots
  have hev : ∀ e, SameEvent (slots e) (event_slots e) :=
    residualPhase_sameEvent IN OUT n gathered W event_slots
  have hin : ∀ e, (slots e).in_feat = (event_slots e).in_feat :=
    residualPhase_in_feat IN OUT n gathered W event_slots
  obtain ⟨h1, -, h2⟩ := computePhase_spec ar Hl Wl slots enter_mask output_mask sched hidden hseq h0
    (fun e he => by
      rw [hstep e he]
      split
      · next hs =>
        rw [layerStep_state ar L hK, hin e, hf e he hs, (hev e).evx, (hev e).evy]
      · rfl) hW
  refine ⟨h1, ?_, fun e => (gatherPhase_sameEvent ar OUT n gathered W _ slots e).trans (hev e)⟩
  rintro e he ⟨hg, hs, ho⟩
  have hsum := h2 e he hs ho
  rw [hin e, hf e he hs, (hev e).evx, (hev e).evy] at hsum
  have hres : readFeat OUT (slots e).residual = L.residual (f e) := by
    rw [hslots, residualPhase_residual hW hn he hg, hf e he hs]
  calc readFeat OUT ((runLayerPhases ar IN OUT sched Hl Wl event_slots gathered enter_mask
          output_mask W hidden).1 e).in_feat
      = layernorm ar (readFeat OUT (slots e).residual + ∑ w, (computePhase ar IN OUT sched Hl Wl slots
          enter_mask output_mask W hidden).2 (e, w)) W.ln_gamma W.ln_beta :=
        gatherPhase_out_feat ar W _ slots hn he hg
    _ = _ := by rw [layerStep_out ar L hK, hsum, hres, hW.ln_gamma, hW.ln_beta, add_comm]

theorem runLayerCelledImplicit_spec (mask : Option (Nat → Bool))
    (hf : ∀ e < n, selected mask e = true → readFeat IN (event_slots e).in_feat = f e)
    (hstep : ∀ e < n, hseq (e + 1) = if selected mask e then
      (layerStep ar L (f e) (hseq e) (event_slots e).evx (event_slots e).evy Hl Wl).1 else hseq e) :
    LayerRun ar L Hl Wl n event_slots f hseq (fun e => selected mask e = true)
      (runLayerCelledImplicit ar IN OUT sched Hl Wl event_slots mask W hidden) := by
  obtain ⟨h1, h2, h3⟩ := runLayerPhases_spec ar hK hW hn sched Hl Wl event_slots f hidden hseq h0
    (fun _ => true) mask none hf hstep
  exact ⟨h1, fun e he hs => h2 e he ⟨rfl, hs, rfl⟩, h3⟩

theorem runLayerCelledImplicitSplit_spec (enter_mask output_mask : Option (Nat → Bool))
    (hf : ∀ e < n, selected enter_mask e = true → readFeat IN (event_slots e).in_feat = f e)
    (hstep : ∀ e < n, hseq (e + 1) = if selected enter_mask e then
      (layerStep ar L (f e) (hseq e) (event_slots e).evx (event_slots e).evy Hl Wl).1 else hseq e) :
    LayerRun ar L Hl Wl n event_slots f hseq
      (fun e => selected enter_mask e = true ∧ selected output_mask e = true)
      (runLayerCelledImplicitSplit ar IN OUT sched Hl Wl event_slots enter_mask output_mask W
        hidden) := by
  obtain ⟨h1, h2, h3⟩ := runLayerPhases_spec ar hK hW hn sched Hl Wl event_slots f hidden hseq h0
    (fun e => selected enter_mask e && selected output_mask e) enter_mask output_mask hf hstep
  exact ⟨h1, fun e he hs => h2 e he ⟨by simp [hs.1, hs.2], hs⟩, h3⟩

end

end SslaRt
