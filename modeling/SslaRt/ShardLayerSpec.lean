import SslaRt.ShardLayer

/-! A sharded layer is the layer exactly when every patch belongs to one affected
shard: the last column of the patches has a shard with a bit in the mask, and a
layer of one position does not meet the right border of the grid. -/

namespace SslaRt

open CellMemory

variable {R : Type*}

section Columns

variable {W num_shards : Nat}

theorem shardOfCol_lt (hN : 0 < num_shards) (c : Int) : shardOfCol W num_shards c < num_shards := by
  simp only [shardOfCol]
  split <;> omega

theorem clampCol_mono {c c' : Int} (h : c ≤ c') : (clampCol W c).toNat ≤ (clampCol W c').toNat := by
  have hpos : (if c < 0 then 0 else c) ≤ if c' < 0 then 0 else c' := by split <;> split <;> omega
  simp only [clampCol]
  split <;> split <;> omega

theorem shardOfCol_mono {c c' : Int} (h : c ≤ c') :
    shardOfCol W num_shards c ≤ shardOfCol W num_shards c' := by
  have hdiv := Nat.div_le_div_right (c := (W + num_shards - 1) / num_shards) (clampCol_mono (W := W) h)
  simp only [shardOfCol]
  split <;> split <;> omega

/-- Past the right border the last column counts. -/
theorem shardOfCol_clamp (hW : 0 < W) : shardOfCol W num_shards W =
    shardOfCol W num_shards ((W : Int) - 1) := by
  have hclamp : clampCol W W = clampCol W ((W : Int) - 1) := by
    simp only [clampCol]
    split <;> split <;> split <;> omega
  simp only [shardOfCol, hclamp]

end Columns

/-- The input on which a sharded layer agrees with the layer. -/
def ShardCovered (num_pos x W num_shards : Nat) : Prop :=
  shardOfCol W num_shards ((x : Int) + 1) < 16 ∧ (num_pos = 1 → x + 1 < W)

instance (num_pos x W num_shards : Nat) : Decidable (ShardCovered num_pos x W num_shards) :=
  inferInstanceAs (Decidable (_ ∧ _))

section Patches

variable {ev_x ev_y Hl Wl : Nat}

theorem foldl_update_filterMap {nb : Nat → Option (Nat × Nat)} (hnb : ∀ d c, nb d = some c → c.2 = d)
    (ds : List Nat) (f : Nat → Option Nat) (p : Nat) :
    (ds.filterMap nb).foldl (fun (patches : Nat → Option Nat) (c : Nat × Nat) =>
        Function.update patches c.2 (some c.1)) f p =
      if p ∈ ds ∧ (nb p).isSome then (nb p).map Prod.fst else f p := by
  induction ds generalizing f with
  | nil => simp
  | cons d ds ih =>
    by_cases hp : p = d
    · subst hp
      cases hc : nb p with
      | none =>
        rw [List.filterMap_cons_none hc, ih]
        simp [hc]
      | some c =>
        obtain rfl := hnb p c hc
        rw [List.filterMap_cons_some hc, List.foldl_cons, ih]
        simp [hc]
    · cases hc : nb d with
      | none =>
        rw [List.filterMap_cons_none hc, ih]
        simp [hp]
      | some c =>
        obtain rfl := hnb d c hc
        rw [List.filterMap_cons_some hc, List.foldl_cons, ih, Function.update_of_ne hp]
        simp [hp]

theorem computePatchIndices_eq {p : Nat} (hp : p < 9) :
    computePatchIndices ev_x ev_y Hl Wl p = (neighbour ev_x ev_y Hl Wl p).map Prod.fst := by
  have hlist : (if Interior ev_x ev_y Hl Wl then interiorPatch ev_x ev_y Wl
      else boundaryPatch ev_x ev_y Hl Wl) = neighbours ev_x ev_y Hl Wl := by
    have hh := patchOrder_eq (by decide : 0 ≠ 1) ev_x ev_y Hl Wl
    rwa [patchOrder, if_neg (by decide)] at hh
  have hmem : p ∈ [8, 7, 6, 5, 4, 3, 2, 1, 0] := by
    simp only [List.mem_cons, List.not_mem_nil, or_false]
    omega
  have hsnd : ∀ d c, neighbour ev_x ev_y Hl Wl d = some c → c.2 = d :=
    fun d c hc => (neighbour_eq_some.mp hc).1
  have hh := foldl_update_filterMap hsnd [8, 7, 6, 5, 4, 3, 2, 1, 0] (fun _ => none) p
  rw [computePatchIndices, hlist]
  refine hh.trans ?_
  cases hn : neighbour ev_x ev_y Hl Wl p <;> simp [hmem]

theorem mem_shardPatches {num_pos : Nat} (hpos : num_pos ≠ 1) {mask : BitVec 16} {c p : Nat} :
    (c, p) ∈ shardPatches num_pos mask ev_x ev_y Hl Wl ↔
      p < 9 ∧ mask.getLsbD p = true ∧ neighbour ev_x ev_y Hl Wl p = some (c, p) := by
  rw [shardPatches, if_neg hpos, List.mem_filterMap]
  constructor
  · rintro ⟨q, hq, h⟩
    have hq9 := List.mem_range.mp hq
    split at h
    · next hbit =>
      rw [computePatchIndices_eq hq9] at h
      obtain ⟨i, hi, he⟩ := Option.map_eq_some_iff.mp h
      obtain ⟨⟨c', q'⟩, hn, rfl⟩ := Option.map_eq_some_iff.mp hi
      obtain ⟨rfl, rfl⟩ := Prod.mk.inj he
      obtain rfl := (neighbour_eq_some.mp hn).1
      exact ⟨hq9, hbit, hn⟩
    · simp at h
  · rintro ⟨hp, hbit, hn⟩
    refine ⟨p, List.mem_range.mpr hp, ?_⟩
    rw [if_pos hbit, computePatchIndices_eq hp, hn]
    rfl

theorem shardPatches_nodup (num_pos : Nat) (mask : BitVec 16) :
    (cells (shardPatches num_pos mask ev_x ev_y Hl Wl)).Nodup := by
  by_cases hpos : num_pos = 1
  · rw [shardPatches, if_pos hpos]
    split <;> simp [cells]
  · refine List.Nodup.map_on (fun a ha b hb he => ?_) ?_
    · obtain ⟨c, p⟩ := a
      obtain ⟨c', p'⟩ := b
      obtain rfl : c = c' := he
      have hp := ((mem_shardPatches hpos).mp ha).2.2
      have hp' := ((mem_shardPatches hpos).mp hb).2.2
      rw [neighbour_cell_inj hp hp']
    · rw [shardPatches, if_neg hpos]
      refine List.nodup_range.filterMap fun p p' c hp hp' => ?_
      have hsnd : ∀ {q : Nat}, c ∈ (if mask.getLsbD q then
          (computePatchIndices ev_x ev_y Hl Wl q).map fun patch_idx => (patch_idx, q) else none) →
          c.2 = q := by
        intro q hq
        split at hq
        · obtain ⟨i, -, rfl⟩ := Option.map_eq_some_iff.mp (Option.mem_def.mp hq)
          rfl
        · simp at hq
      exact (hsnd hp).symm.trans (hsnd hp')

theorem mem_patchOrder {num_pos : Nat} (hpos : num_pos ≠ 1) {c p : Nat} :
    (c, p) ∈ patchOrder num_pos ev_x ev_y Hl Wl ↔
      p < 9 ∧ neighbour ev_x ev_y Hl Wl p = some (c, p) := by
  rw [patchOrder_eq hpos, neighbours, List.mem_filterMap]
  constructor
  · rintro ⟨q, hq, hn⟩
    obtain rfl : p = q := (neighbour_eq_some.mp hn).1
    simp only [List.mem_cons, List.not_mem_nil, or_false] at hq
    exact ⟨by omega, hn⟩
  · rintro ⟨hp, hn⟩
    refine ⟨p, ?_, hn⟩
    simp only [List.mem_cons, List.not_mem_nil, or_false]
    omega

/-- The shard whose mask has the bit of a patch in the grid. -/
theorem neighbour_mask_bit {k p num_shards c : Nat} (hp : p < 9)
    (hn : neighbour ev_x ev_y Hl Wl p = some (c, p)) :
    (shardPatchMask k ev_x Wl num_shards).getLsbD p = true ↔
      shardOfCol Wl num_shards (patchCol ev_x p) = k := by
  obtain ⟨-, -, -, -, hx, hxw⟩ := neighbour_eq_some.mp hn
  have hlo : 0 ≤ patchCol ev_x p := by
    unfold patchCol
    omega
  have hhi : patchCol ev_x p < Wl := by
    unfold patchCol
    omega
  rw [shardPatchMask_bit hp]
  exact ⟨fun h => h.2.2, fun h => ⟨hlo, hhi, h⟩⟩

/-- Whoever updates a patch owns a column next to the event. -/
theorem patchCol_near {x p : Nat} : (x : Int) ≤ patchCol x p + 1 ∧ patchCol x p ≤ x + 1 := by
  unfold patchCol
  omega

variable {num_pos num_shards : Nat}

theorem shardPatches_sub {k : Nat} {a : Nat × Nat}
    (ha : a ∈ shardPatches num_pos (shardPatchMask k ev_x Wl num_shards) ev_x ev_y Hl Wl) :
    a ∈ patchOrder num_pos ev_x ev_y Hl Wl := by
  by_cases hpos : num_pos = 1
  · rw [shardPatches, if_pos hpos] at ha
    rw [patchOrder, if_pos hpos]
    split at ha
    · exact ha
    · simp at ha
  · exact (mem_patchOrder hpos).mpr ⟨((mem_shardPatches hpos).mp ha).1, ((mem_shardPatches hpos).mp ha).2.2⟩

theorem shardPatches_unique {k k' : Nat} {a : Nat × Nat}
    (ha : a ∈ shardPatches num_pos (shardPatchMask k ev_x Wl num_shards) ev_x ev_y Hl Wl)
    (ha' : a ∈ shardPatches num_pos (shardPatchMask k' ev_x Wl num_shards) ev_x ev_y Hl Wl) :
    k = k' := by
  by_cases hpos : num_pos = 1
  · rw [shardPatches, if_pos hpos] at ha ha'
    split at ha
    · next hb =>
      split at ha'
      · next hb' =>
        exact ((shardPatchMask_bit (by decide)).mp hb).2.2.symm.trans
          ((shardPatchMask_bit (by decide)).mp hb').2.2
      · simp at ha'
    · simp at ha
  · obtain ⟨hp, hb, hn⟩ := (mem_shardPatches hpos).mp ha
    have hb' := ((mem_shardPatches hpos).mp ha').2.1
    exact ((neighbour_mask_bit hp hn).mp hb).symm.trans ((neighbour_mask_bit hp hn).mp hb')

end Patches

end SslaRt
