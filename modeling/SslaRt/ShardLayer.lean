import SslaRt.LayerForward

/-! A stage-0 layer over shards of columns: every affected shard updates the
patches of its mask and returns a partial sum, and the sum of the partials is
finalised like the output of the layer. -/

namespace SslaRt

open CellMemory

variable {R : Type*}

def clampCol (W : Nat) (c : Int) : Int :=
  let c := if c < 0 then 0 else c
  if c ≥ W then (W : Int) - 1 else c

def shardOfCol (W num_shards : Nat) (c : Int) : Nat :=
  let strip_w := (W + num_shards - 1) / num_shards
  let s := (clampCol W c).toNat / strip_w
  if s ≥ num_shards then num_shards - 1 else s

/-- Sixteen bits: a shard from number 16 on has none. -/
def affectedShardMask (x W num_shards : Nat) : BitVec 16 :=
  1#16 <<< shardOfCol W num_shards ((x : Int) - 1) ||| 1#16 <<< shardOfCol W num_shards x |||
    1#16 <<< shardOfCol W num_shards ((x : Int) + 1)

def affectedShards (x W num_shards : Nat) : List Nat :=
  (List.range num_shards).filter fun k => (affectedShardMask x W num_shards).getLsbD k

/-- The column of the patch at position `p`. -/
def patchCol (x p : Nat) : Int := x + (1 - (p % 3 : Nat))

def shardPatchMask (k x W num_shards : Nat) : BitVec 16 :=
  (List.range 9).foldl (fun m p =>
    if patchCol x p < 0 ∨ patchCol x p ≥ W then m
    else if shardOfCol W num_shards (patchCol x p) = k then m ||| 1#16 <<< p
    else m) 0#16

def computePatchIndices (ev_x ev_y Hl Wl : Nat) : Nat → Option Nat :=
  (if Interior ev_x ev_y Hl Wl then interiorPatch ev_x ev_y Wl
    else boundaryPatch ev_x ev_y Hl Wl).foldl
    (fun patches c => Function.update patches c.2 (some c.1)) fun _ => none

/-- The patches that a shard updates under `owned_patch_mask`. -/
def shardPatches (num_pos : Nat) (owned_patch_mask : BitVec 16) (ev_x ev_y Hl Wl : Nat) :
    List (Nat × Nat) :=
  if num_pos = 1 then
    if owned_patch_mask.getLsbD 0 then [(ev_y * Wl + ev_x, 0)] else []
  else (List.range 9).filterMap fun p =>
    if owned_patch_mask.getLsbD p then
      (computePatchIndices ev_x ev_y Hl Wl p).map fun patch_idx => (patch_idx, p)
    else none

section Forward

variable [CommRing R] (ar : Arith R) (IN OUT : Nat) (L : LayerWeights R) (ev_x ev_y Hl Wl : Nat)
  (feat_in : Fin IN → R)

/-- The hidden state after it and the partial output, which the caller zeroes before. -/
def shardLayerForwardCt (owned_patch_mask : BitVec 16) (H_all : Nat → Fin OUT → R) :
    (Nat → Fin OUT → R) × (Fin OUT → R) :=
  sweep (processPatch ar IN OUT L feat_in)
    (shardPatches L.num_pos owned_patch_mask ev_x ev_y Hl Wl) H_all 0

def layerFinalize (partial_feat : Fin OUT → R) : Fin OUT → R :=
  let residual : Fin OUT → R := match L.input_proj with
    | some W => matvec IN OUT feat_in W
    | none => fun o => featBuf feat_in o
  layernorm ar (partial_feat + residual) L.ln_gamma L.ln_beta

/-- The shards of `order`, one after the other, and the sum of their partials. -/
def shardPartials (num_shards : Nat) (order : List Nat) (H_all : Nat → Fin OUT → R) :
    (Nat → Fin OUT → R) × (Fin OUT → R) :=
  order.foldl (fun st k =>
    let r := shardLayerForwardCt ar IN OUT L ev_x ev_y Hl Wl feat_in
      (shardPatchMask k ev_x Wl num_shards) st.1
    (r.1, st.2 + r.2)) (H_all, 0)

def shardedLayer (num_shards : Nat) (order : List Nat) (H_all : Nat → Fin OUT → R) :
    (Nat → Fin OUT → R) × (Fin OUT → R) :=
  let st := shardPartials ar IN OUT L ev_x ev_y Hl Wl feat_in num_shards order H_all
  (st.1, layerFinalize ar IN OUT L feat_in st.2)

end Forward

section Masks

variable {W num_shards : Nat}

theorem getLsbD_one_shiftLeft (s k : Nat) :
    (1#16 <<< s).getLsbD k = decide (s < 16 ∧ s = k) := by
  rw [← BitVec.twoPow_eq, BitVec.getLsbD_twoPow]
  simp

theorem mem_affectedShards {x k : Nat} : k ∈ affectedShards x W num_shards ↔
    k < num_shards ∧ k < 16 ∧ ∃ c : Int, x ≤ c + 1 ∧ c ≤ x + 1 ∧ k = shardOfCol W num_shards c := by
  simp only [affectedShards, affectedShardMask, List.mem_filter, List.mem_range, BitVec.getLsbD_or,
    getLsbD_one_shiftLeft, Bool.or_eq_true, decide_eq_true_eq]
  refine and_congr_right fun _ => ⟨fun h => ?_, fun ⟨hk, c, hl, hr, hc⟩ => ?_⟩
  · rcases h with (⟨hlt, rfl⟩ | ⟨hlt, rfl⟩) | ⟨hlt, rfl⟩
    · exact ⟨hlt, _, by omega, by omega, rfl⟩
    · exact ⟨hlt, _, by omega, by omega, rfl⟩
    · exact ⟨hlt, _, by omega, by omega, rfl⟩
  · subst hc
    obtain hc | hc | hc : c = x - 1 ∨ c = x ∨ c = x + 1 := by omega
    · exact Or.inl (Or.inl (hc ▸ ⟨hk, rfl⟩))
    · exact Or.inl (Or.inr (hc ▸ ⟨hk, rfl⟩))
    · exact Or.inr (hc ▸ ⟨hk, rfl⟩)

theorem setBits_getLsbD (out owned : Nat → Prop) [DecidablePred out] [DecidablePred owned]
    (l : List Nat) (m : BitVec 16) {p : Nat} (hp : p < 16) :
    (l.foldl (fun m q => if out q then m else if owned q then m ||| 1#16 <<< q else m) m).getLsbD p =
      true ↔ m.getLsbD p = true ∨ p ∈ l ∧ ¬ out p ∧ owned p := by
  induction l generalizing m with
  | nil => simp
  | cons q l ih =>
    have hbit : (m ||| 1#16 <<< q).getLsbD p = true ↔ m.getLsbD p = true ∨ p = q := by
      rw [BitVec.getLsbD_or, getLsbD_one_shiftLeft, Bool.or_eq_true, decide_eq_true_eq]
      exact or_congr_right ⟨fun h => h.2.symm, fun h => ⟨h ▸ hp, h.symm⟩⟩
    rw [List.foldl_cons, ih, List.mem_cons]
    by_cases hq : p = q
    · subst hq
      split
      · tauto
      · split <;> tauto
    · split
      · tauto
      · split <;> tauto

theorem shardPatchMask_bit {k x p : Nat} (hp : p < 9) :
    (shardPatchMask k x W num_shards).getLsbD p = true ↔
      0 ≤ patchCol x p ∧ patchCol x p < W ∧ shardOfCol W num_shards (patchCol x p) = k := by
  have hh := setBits_getLsbD (fun p => patchCol x p < 0 ∨ patchCol x p ≥ W)
    (fun p => shardOfCol W num_shards (patchCol x p) = k) (List.range 9) 0#16 (by omega : p < 16)
  simp only [not_or, not_lt, not_le, ge_iff_le, List.mem_range, hp, true_and, and_assoc,
    BitVec.getLsbD_zero, Bool.false_eq_true, false_or] at hh
  exact hh

end Masks

end SslaRt
