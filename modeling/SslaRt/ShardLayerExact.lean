import SslaRt.ShardLayerSpec

/-! Sharded layers against the generic layer: the same hidden state and the same
output exactly on the covered inputs. -/

namespace SslaRt

open CellMemory

section Once

variable {num_pos ev_x ev_y Hl Wl num_shards : Nat} (hN : 0 < num_shards)

include hN

theorem covered_patch (hc : ShardCovered num_pos ev_x Wl num_shards) {a : Nat × Nat}
    (ha : a ∈ patchOrder num_pos ev_x ev_y Hl Wl) : ∃ k ∈ affectedShards ev_x Wl num_shards,
      a ∈ shardPatches num_pos (shardPatchMask k ev_x Wl num_shards) ev_x ev_y Hl Wl := by
  obtain ⟨hlast, hone⟩ := hc
  by_cases hpos : num_pos = 1
  · rw [patchOrder, if_pos hpos] at ha
    have hbit : (shardPatchMask (shardOfCol Wl num_shards ((ev_x : Int) + 1)) ev_x Wl
        num_shards).getLsbD 0 = true := by
      have hcol : patchCol ev_x 0 = (ev_x : Int) + 1 := rfl
      have hin := hone hpos
      rw [shardPatchMask_bit (by decide), hcol]
      exact ⟨by omega, by omega, rfl⟩
    refine ⟨_, mem_affectedShards.mpr ⟨shardOfCol_lt hN _, hlast, _, ?_, le_rfl, rfl⟩, ?_⟩
    · omega
    · rw [shardPatches, if_pos hpos, if_pos hbit]
      exact ha
  · obtain ⟨c, p⟩ := a
    obtain ⟨hp, hn⟩ := (mem_patchOrder hpos).mp ha
    obtain ⟨hlo, hhi⟩ := patchCol_near (x := ev_x) (p := p)
    have hlt : shardOfCol Wl num_shards (patchCol ev_x p) < 16 :=
      (shardOfCol_mono hhi).trans_lt hlast
    exact ⟨_, mem_affectedShards.mpr ⟨shardOfCol_lt hN _, hlt, _, hlo, hhi, rfl⟩,
      (mem_shardPatches hpos).mpr ⟨hp, (neighbour_mask_bit hp hn).mpr rfl, hn⟩⟩

omit hN in
/-- The patch in the last column next to the event, or the only patch. -/
theorem uncovered_patch (hx : ev_x < Wl) (hy : ev_y < Hl)
    (hc : ¬ ShardCovered num_pos ev_x Wl num_shards) :
    ∃ a ∈ patchOrder num_pos ev_x ev_y Hl Wl, ∀ k ∈ affectedShards ev_x Wl num_shards,
      a.1 ∉ cells (shardPatches num_pos (shardPatchMask k ev_x Wl num_shards) ev_x ev_y Hl Wl) := by
  by_cases hpos : num_pos = 1
  · refine ⟨(ev_y * Wl + ev_x, 0), by simp [patchOrder, hpos], fun k hk hmem => hc ?_⟩
    rw [shardPatches, if_pos hpos] at hmem
    split at hmem
    · next hbit =>
      have hcol : patchCol ev_x 0 = (ev_x : Int) + 1 := rfl
      obtain ⟨-, hlt, hown⟩ := (shardPatchMask_bit (by decide)).mp hbit
      rw [hcol] at hlt hown
      exact ⟨hown ▸ (mem_affectedShards.mp hk).2.1, fun _ => by omega⟩
    · simp [cells] at hmem
  · have hlast : 16 ≤ shardOfCol Wl num_shards ((ev_x : Int) + 1) := by
      by_contra hlt
      exact hc ⟨by omega, fun h => absurd h hpos⟩
    have hpatch : ∃ c p, p < 9 ∧ neighbour ev_x ev_y Hl Wl p = some (c, p) ∧
        shardOfCol Wl num_shards (patchCol ev_x p) = shardOfCol Wl num_shards ((ev_x : Int) + 1) := by
      by_cases hin : ev_x + 1 < Wl
      · exact ⟨_, 3, by decide, neighbour_eq_some.mpr ⟨rfl, rfl, by omega, by omega, by omega, by omega⟩,
          rfl⟩
      · obtain rfl : Wl = ev_x + 1 := by omega
        refine ⟨_, 4, by decide, neighbour_eq_some.mpr ⟨rfl, rfl, by omega, by omega, by omega, by omega⟩,
          ?_⟩
        have hclamp : shardOfCol (ev_x + 1) num_shards ((ev_x + 1 : Nat) : Int) =
            shardOfCol (ev_x + 1) num_shards (((ev_x + 1 : Nat) : Int) - 1) :=
          shardOfCol_clamp (by omega)
        have hcol : patchCol ev_x 4 = ((ev_x + 1 : Nat) : Int) - 1 := by
          unfold patchCol
          omega
        rw [hcol, ← hclamp]
        rfl
    obtain ⟨c, p, hp, hn, hown⟩ := hpatch
    refine ⟨(c, p), (mem_patchOrder hpos).mpr ⟨hp, hn⟩, fun k hk hmem => ?_⟩
    obtain ⟨⟨c', p'⟩, ha, hcell⟩ := List.mem_map.mp hmem
    obtain rfl : c' = c := hcell
    obtain ⟨hp', hbit, hn'⟩ := (mem_shardPatches hpos).mp ha
    have hkown := (neighbour_mask_bit hp' hn').mp hbit
    rw [neighbour_cell_inj hn' hn, hown] at hkown
    have hk16 := (mem_affectedShards.mp hk).2.1
    omega

theorem shardPatches_perm (hc : ShardCovered num_pos ev_x Wl num_shards) {order : List Nat}
    (horder : order.Perm (affectedShards ev_x Wl num_shards)) :
    (order.flatMap fun k => shardPatches num_pos (shardPatchMask k ev_x Wl num_shards) ev_x ev_y
      Hl Wl).Perm (patchOrder num_pos ev_x ev_y Hl Wl) := by
  have hnd : order.Nodup := horder.nodup_iff.mpr (List.nodup_range.filter _)
  refine (List.perm_ext_iff_of_nodup ?_ (patchOrder_nodup num_pos).of_map).mpr fun a => ?_
  · refine List.nodup_flatMap.mpr ⟨fun k _ => (shardPatches_nodup num_pos _).of_map, ?_⟩
    refine hnd.imp fun hne => List.disjoint_left.mpr fun a ha ha' => hne ?_
    exact shardPatches_unique ha ha'
  · rw [List.mem_flatMap]
    constructor
    · rintro ⟨k, -, ha⟩
      exact shardPatches_sub ha
    · intro ha
      obtain ⟨k, hk, hmem⟩ := covered_patch hN hc ha
      exact ⟨k, horder.mem_iff.mpr hk, hmem⟩

end Once

section Forward

variable {R : Type*} [CommRing R] (ar : Arith R) (IN OUT : Nat) (L : LayerWeights R)
  (ev_x ev_y Hl Wl : Nat) (feat_in : Fin IN → R) (num_shards : Nat)

/-- Partials of the shards add up to the sweep of all their patches. -/
theorem shardPartials_eq (order : List Nat) (H_all : Nat → Fin OUT → R) :
    shardPartials ar IN OUT L ev_x ev_y Hl Wl feat_in num_shards order H_all =
      sweep (processPatch ar IN OUT L feat_in) (order.flatMap fun k =>
        shardPatches L.num_pos (shardPatchMask k ev_x Wl num_shards) ev_x ev_y Hl Wl) H_all 0 :=
  sweep_partials _ (fun _ => shardPatches_nodup _ _) order H_all 0

theorem shardedLayer_eq (hN : 0 < num_shards) (hc : ShardCovered L.num_pos ev_x Wl num_shards)
    {order : List Nat} (horder : order.Perm (affectedShards ev_x Wl num_shards))
    (H_all : Nat → Fin OUT → R) :
    shardedLayer ar IN OUT L ev_x ev_y Hl Wl feat_in num_shards order H_all =
      layerForwardCt ar IN OUT L ev_x ev_y Hl Wl feat_in H_all := by
  have hperm : (order.flatMap fun k => shardPatches L.num_pos (shardPatchMask k ev_x Wl num_shards)
      ev_x ev_y Hl Wl).Perm (patchOrder L.num_pos ev_x ev_y Hl Wl) := shardPatches_perm hN hc horder
  have hnd := (hperm.map Prod.fst).nodup_iff.mpr (patchOrder_nodup L.num_pos)
  have hsweep := sweep_perm (processPatch ar IN OUT L feat_in) H_all 0 hperm hnd
  unfold shardedLayer
  rw [shardPartials_eq, hsweep]
  rfl

variable {OUT} in
theorem shardedLayer_frame {order : List Nat} (horder : order.Perm (affectedShards ev_x Wl num_shards))
    {c : Nat} (hc : ∀ k ∈ affectedShards ev_x Wl num_shards,
      c ∉ cells (shardPatches L.num_pos (shardPatchMask k ev_x Wl num_shards) ev_x ev_y Hl Wl))
    (H_all : Nat → Fin OUT → R) :
    (shardedLayer ar IN OUT L ev_x ev_y Hl Wl feat_in num_shards order H_all).1 c = H_all c := by
  unfold shardedLayer
  rw [shardPartials_eq]
  refine sweep_frame _ _ _ _ fun hmem => ?_
  obtain ⟨a, ha, rfl⟩ := List.mem_map.mp hmem
  obtain ⟨k, hk, hpatch⟩ := List.mem_flatMap.mp ha
  exact hc k (horder.mem_iff.mp hk) (List.mem_map_of_mem hpatch)

end Forward

section Exact

variable (R : Type*) [CommRing R] (IN OUT num_pos ev_x ev_y Hl Wl num_shards : Nat)

/-- For all weights, inputs, hidden states and orders of the affected shards. -/
def ShardedAgrees : Prop :=
  ∀ (ar : Arith R) (L : LayerWeights R) (feat_in : Fin IN → R) (H_all : Nat → Fin OUT → R)
    (order : List Nat), L.num_pos = num_pos → order.Perm (affectedShards ev_x Wl num_shards) →
      shardedLayer ar IN OUT L ev_x ev_y Hl Wl feat_in num_shards order H_all =
        layerForwardCt ar IN OUT L ev_x ev_y Hl Wl feat_in H_all

def PatchedOnce : Prop :=
  ∀ a ∈ patchOrder num_pos ev_x ev_y Hl Wl, ∃! k, k ∈ affectedShards ev_x Wl num_shards ∧
    a ∈ shardPatches num_pos (shardPatchMask k ev_x Wl num_shards) ev_x ev_y Hl Wl

def unitWeights : LayerWeights R where
  num_pos := num_pos
  qvgIn := fun _ _ => 1
  goW := fun _ _ => 1
  goW_T := fun _ _ => 1
  input_proj := none
  ln_gamma := fun _ => 1
  ln_beta := fun _ => 0

variable {IN OUT num_pos ev_x ev_y Hl Wl num_shards}

theorem uncovered_differs [Nontrivial R] (hIN : 0 < IN) (hOUT : 0 < OUT) (hx : ev_x < Wl)
    (hy : ev_y < Hl) (hc : ¬ ShardCovered num_pos ev_x Wl num_shards) (ar : Arith R) :
    (shardedLayer ar IN OUT (unitWeights R num_pos) ev_x ev_y Hl Wl (Pi.single ⟨0, hIN⟩ 1) num_shards
        (affectedShards ev_x Wl num_shards) 0).1 ≠
      (layerForwardCt ar IN OUT (unitWeights R num_pos) ev_x ev_y Hl Wl (Pi.single ⟨0, hIN⟩ 1) 0).1 := by
  obtain ⟨⟨c, d⟩, ha, hmiss⟩ := uncovered_patch hx hy hc
  have hold := shardedLayer_frame ar IN (unitWeights R num_pos) ev_x ev_y Hl Wl (Pi.single ⟨0, hIN⟩ 1)
    num_shards (List.Perm.refl _) hmiss (0 : Nat → Fin OUT → R)
  have hnew : (layerForwardCt ar IN OUT (unitWeights R num_pos) ev_x ev_y Hl Wl
      (Pi.single ⟨0, hIN⟩ 1) 0).1 c ⟨0, hOUT⟩ = 1 := by
    have hmem := sweep_of_mem (processPatch ar IN OUT (unitWeights R num_pos) (Pi.single ⟨0, hIN⟩ 1)) 0
      0 (patchOrder_nodup num_pos) ha
    have hval := congrFun hmem ⟨0, hOUT⟩
    rw [processPatch_fst] at hval
    refine hval.trans ?_
    simp [qvgRow, unitWeights]
  intro he
  rw [he] at hold
  have hzero := congrFun hold ⟨0, hOUT⟩
  rw [hnew] at hzero
  exact one_ne_zero hzero

theorem shardedLayer_iff [Nontrivial R] (hIN : 0 < IN) (hOUT : 0 < OUT) (hN : 0 < num_shards)
    (hx : ev_x < Wl) (hy : ev_y < Hl) :
    (ShardedAgrees R IN OUT num_pos ev_x ev_y Hl Wl num_shards ↔
        ShardCovered num_pos ev_x Wl num_shards) ∧
      (PatchedOnce num_pos ev_x ev_y Hl Wl num_shards ↔
        ShardCovered num_pos ev_x Wl num_shards) := by
  refine ⟨⟨fun h => ?_, fun hc => ?_⟩, fun h => ?_, fun hc a ha => ?_⟩
  · by_contra hc
    exact uncovered_differs R hIN hOUT hx hy hc ⟨id, id⟩
      (congrArg Prod.fst (h ⟨id, id⟩ _ _ 0 _ rfl (List.Perm.refl _)))
  · intro ar L feat_in H_all order hL horder
    subst hL
    exact shardedLayer_eq ar IN OUT L ev_x ev_y Hl Wl feat_in num_shards hN hc horder H_all
  · by_contra hc
    obtain ⟨a, ha, hmiss⟩ := uncovered_patch hx hy hc
    obtain ⟨k, ⟨hk, hpatch⟩, -⟩ := h a ha
    exact hmiss k hk (List.mem_map_of_mem hpatch)
  · obtain ⟨k, hk, hpatch⟩ := covered_patch hN hc ha
    exact ⟨k, ⟨hk, hpatch⟩, fun k' hk' => shardPatches_unique hk'.2 hpatch⟩

end Exact

theorem shardedLayer_iff_border : (ShardedAgrees ℤ kInDim kC0 1 15 0 8 16 2 ↔ ShardCovered 1 15 16 2) ∧
    (PatchedOnce 9 15 0 8 16 2 ↔ ShardCovered 9 15 16 2) :=
  ⟨(shardedLayer_iff ℤ (by decide) (by decide) (by decide) (by decide) (by decide)).1,
    (shardedLayer_iff ℤ (by decide : 0 < kC0) (by decide : 0 < kC0) (by decide) (by decide)
      (by decide)).2⟩

/-- No shard updates the centre patch of layer 0 in the last column. -/
theorem layer0_lastColumn_differs : ¬ ShardedAgrees ℤ kInDim kC0 1 15 0 8 16 2 := by
  intro h
  have hc : ¬ ShardCovered 1 15 16 2 := by decide
  exact uncovered_differs ℤ (by decide : 0 < kInDim) (by decide : 0 < kC0) (by decide) (by decide) hc
    ⟨id, id⟩ (congrArg Prod.fst (h ⟨id, id⟩ _ _ 0 _ rfl (List.Perm.refl _)))

end SslaRt
