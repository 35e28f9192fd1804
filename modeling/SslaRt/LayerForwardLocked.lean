import SslaRt.LayerForward
import SslaRt.LockedSweepSpec

/-! `layer_forward_locked`: several threads run the same layer over one hidden
state, with a spin lock for each cell. The residual, the sum of the gated
outputs and the normalisation are local to the call. -/

namespace SslaRt

open CellMemory LockedSweep

variable {R : Type*} [CommRing R]

structure LockedCall (R : Type*) (IN : Nat) where
  ev_x : Nat
  ev_y : Nat
  feat_in : Fin IN → R

section Locked

variable (ar : Arith R) (IN OUT : Nat) (L : LayerWeights R) (Hl Wl : Nat)

def layerForwardLocked :
    Program Nat Nat (Fin OUT → R) (Fin OUT → R) (LockedCall R IN) (Fin OUT → R) where
  patch call := patchOrder L.num_pos call.ev_x call.ev_y Hl Wl
  update call := processPatch ar IN OUT L call.feat_in
  finish call feat_out :=
    let residual_scratch : Fin OUT → R := match L.input_proj with
      | some W => matvec IN OUT call.feat_in W
      | none => fun o => featBuf call.feat_in o
    layernorm ar (feat_out + residual_scratch) L.ln_gamma L.ln_beta
  nodup _ := patchOrder_nodup L.num_pos

/-- `layer_forward` for one event after another. -/
def layerForwardCalls : List (LockedCall R IN) → (Nat → Fin OUT → R) →
    (Nat → Fin OUT → R) × List (Fin OUT → R)
  | [], H_all => (H_all, [])
  | call :: calls, H_all =>
    let r := layerForwardCt ar IN OUT L call.ev_x call.ev_y Hl Wl call.feat_in H_all
    let rest := layerForwardCalls calls r.1
    (rest.1, r.2 :: rest.2)

theorem runCalls_eq (calls : List (LockedCall R IN)) (H_all : Nat → Fin OUT → R) :
    runCalls (layerForwardLocked ar IN OUT L Hl Wl) calls H_all =
      layerForwardCalls ar IN OUT L Hl Wl calls H_all := by
  induction calls generalizing H_all with
  | nil => rfl
  | cons call calls ih =>
    rw [runCalls, ih]
    rfl

/-- The LRU update that a call makes in the cell `c`. -/
def lruUpdate (c : Nat) (call : LockedCall R IN) (h : Fin OUT → R) : Fin OUT → R :=
  match (patchOrder L.num_pos call.ev_x call.ev_y Hl Wl).find? fun e => e.1 = c with
  | some (_, pos) => fun o => ar.sigmoid (qvgRow IN OUT L call.feat_in pos 2 o) * h o +
      qvgRow IN OUT L call.feat_in pos 1 o
  | none => h

theorem updateAt_eq (c : Nat) (call : LockedCall R IN) :
    (layerForwardLocked ar IN OUT L Hl Wl).updateAt c call =
      lruUpdate ar IN OUT L Hl Wl c call := by
  funext h
  unfold Program.updateAt lruUpdate
  simp only [layerForwardLocked]
  cases (patchOrder L.num_pos call.ev_x call.ev_y Hl Wl).find? fun e => e.1 = c with
  | none => rfl
  | some e => exact funext fun o => processPatch_fst ar L call.feat_in e.2 h o

/-- The final value of a cell: the updates of all events whose patch contains it,
each once and those of a thread in its order. -/
def CellSerialised {τ : Type*} [DecidableEq τ] (calls : τ → List (LockedCall R IN))
    (H_all H_all' : Nat → Fin OUT → R) (c : Nat) : Prop :=
  ∃ l : List (τ × LockedCall R IN),
    (∀ t, (l.filter fun e => e.1 = t).map Prod.snd = (calls t).filter fun call =>
      c ∈ cells (patchOrder L.num_pos call.ev_x call.ev_y Hl Wl)) ∧
    H_all' c = l.foldl (fun h e => lruUpdate ar IN OUT L Hl Wl c e.2 h) (H_all c)

end Locked

theorem layer_forward_locked_serialised {τ : Type*} [DecidableEq τ] (ar : Arith R) (IN OUT : Nat)
    (L : LayerWeights R) (Hl Wl : Nat) (calls : τ → List (LockedCall R IN))
    (H_all : Nat → Fin OUT → R) {s : State τ Nat Nat (Fin OUT → R) (Fin OUT → R) (LockedCall R IN)
      (Fin OUT → R)}
    (h : Reaches (layerForwardLocked ar IN OUT L Hl Wl) (initial H_all calls) s) :
    (Finished s → ∀ c, CellSerialised ar IN OUT L Hl Wl calls H_all s.mem c) ∧
      (Finished s → ∀ t, (∀ t', t' = t) →
        (s.mem, (s.threads t).outs) = layerForwardCalls ar IN OUT L Hl Wl (calls t) H_all) ∧
      (Finite τ → ∃ s', Reaches (layerForwardLocked ar IN OUT L Hl Wl) s s' ∧ Finished s') := by
  refine ⟨fun hf c => ?_, fun hf t ht => ?_, fun hτ => ?_⟩
  · obtain ⟨l, horder, hvalue⟩ := serialised_of_finished h hf c
    refine ⟨l, horder, hvalue.trans ?_⟩
    simp only [updateAt_eq]
  · have hsub : Subsingleton τ := ⟨fun a b => (ht a).trans (ht b).symm⟩
    rw [single_thread h hf t, runCalls_eq]
  · have := Fintype.ofFinite τ
    exact can_finish h

section Probe

def lockedProbeWeights : LayerWeights ℤ :=
  ⟨9, fun pos i => pos + i, fun pos i => pos * i, fun pos i => pos * i, none, fun _ => 1, fun _ => 0⟩

/-- Two threads whose patches overlap in four cells. -/
def probeCalls (t : Bool) : List (LockedCall ℤ 1) :=
  if t then [⟨1, 1, fun _ => 2⟩, ⟨2, 2, fun _ => 3⟩] else [⟨2, 2, fun _ => 5⟩]

theorem layer_forward_locked_probe : ∃ s, Reaches
    (layerForwardLocked ⟨id, fun x => x⟩ 1 1 lockedProbeWeights 3 3) (initial (fun _ _ => 1) probeCalls) s ∧
      Finished s ∧ ∀ c, CellSerialised ⟨id, fun x => x⟩ 1 1 lockedProbeWeights 3 3 probeCalls
        (fun _ _ => 1) s.mem c := by
  have hstart : Reaches (layerForwardLocked ⟨id, fun x => x⟩ 1 1 lockedProbeWeights 3 3)
      (initial (fun _ _ => 1) probeCalls) (initial (fun _ _ => 1) probeCalls) := .refl
  obtain ⟨s, hreach, hfin⟩ := (layer_forward_locked_serialised ⟨id, fun x => x⟩ 1 1 lockedProbeWeights 3 3
    probeCalls (fun _ _ => 1) hstart).2.2 inferInstance
  exact ⟨s, hreach, hfin, (layer_forward_locked_serialised ⟨id, fun x => x⟩ 1 1 lockedProbeWeights 3 3
    probeCalls (fun _ _ => 1) hreach).1 hfin⟩

end Probe

end SslaRt
