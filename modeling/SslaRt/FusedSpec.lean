import SslaRt.FusedLayers

/-! The fused layers compute what the generic layer computes from the same
buffers: registers are read entry by entry, rows of four and tiles of four
become sums over a row. -/

namespace SslaRt

open CellMemory Neon

variable {R : Type*} [CommRing R]

omit [CommRing R] in
theorem lanes_loadRegs (p : Nat → R) (i : Nat) : lanes (loadRegs p) i = p i := lanes_vld1q p i

theorem lanes_mqv {IN : Nat} (hIN : 4 ∣ IN) (hpos : 0 < IN) (x : Regs R) (W : Nat → R) (r0 o : Nat) :
    lanes (fun og => mqv IN x W (r0 + og * 4)) o =
      ∑ i ∈ Finset.range IN, lanes x i * W ((r0 + o) * IN + i) := by
  obtain ⟨n, rfl⟩ := hIN
  have hn : 4 * (4 * n / 4 - 1 + 1) = 4 * n := by omega
  have hrow : ∀ i, (r0 + o / 4 * 4) * (4 * n) + (o % 4 * (4 * n) + i) = (r0 + o) * (4 * n) + i := by
    intro i
    have ho : o / 4 * 4 + o % 4 = o := by omega
    calc (r0 + o / 4 * 4) * (4 * n) + (o % 4 * (4 * n) + i)
        = (r0 + (o / 4 * 4 + o % 4)) * (4 * n) + i := by ring
      _ = (r0 + o) * (4 * n) + i := by rw [ho]
  simp only [lanes, mqv, fourRows_apply, hn, hrow]

theorem sum_featBuf {n : Nat} (f : Fin n → R) (W : Nat → R) :
    ∑ i ∈ Finset.range n, lanes (loadRegs (featBuf f)) i * W i = ∑ i : Fin n, W i * f i := by
  rw [Finset.sum_range]
  refine Finset.sum_congr rfl fun i _ => ?_
  rw [lanes_loadRegs, featBuf_val, mul_comm]

theorem lanes_lruHidden (ar : Arith R) (v g : Regs R) (h_ptr : Nat → R) (o : Nat) :
    lanes (lruHidden ar v g h_ptr) o = ar.sigmoid (lanes g o) * h_ptr o + lanes v o := by
  have ho : 4 * (o / 4) + o % 4 = o := by omega
  simp only [lanes, lruHidden, vfmaq_f32, fusedSigmoid, vld1q_f32, ho]
  ring

theorem lanes_mqv2 (x0 x1 : R) (W : Nat → R) (r0 o : Nat) :
    lanes (fun og => mqv2 (vdupq_n_f32 x0) (vdupq_n_f32 x1) W (r0 + og * 4)) o =
      W ((r0 + o) * 2) * x0 + W ((r0 + o) * 2 + 1) * x1 := by
  have ho : (r0 + o / 4 * 4) * 2 + 2 * (o % 4) = (r0 + o) * 2 := by omega
  simp only [lanes, mqv2, vfmaq_f32, vmulq_f32, vld2q_f32, vdupq_n_f32, ho]

theorem lanes_mac {OUT : Nat} (hOUT : 4 ∣ OUT) (hpos : 0 < OUT) (goW : Nat → R) (qh out : Regs R)
    (o : Nat) : lanes (mac OUT goW qh out) o =
      lanes out o + ∑ i ∈ Finset.range OUT, lanes qh i * goW (o * OUT + i) := by
  have hh := lanes_mqv hOUT hpos qh goW 0 o
  simp only [Nat.zero_add] at hh
  rw [← hh]
  rfl

theorem lanes_accumTile (OUT : Nat) (goW_T : Nat → R) (tile : Nat) (qh out : Regs R) (j : Nat) :
    lanes (accumTile OUT goW_T tile (qh tile) out) j = lanes out j +
      (goW_T (4 * tile * OUT + j) * lanes qh (4 * tile) +
        goW_T ((4 * tile + 1) * OUT + j) * lanes qh (4 * tile + 1) +
        goW_T ((4 * tile + 2) * OUT + j) * lanes qh (4 * tile + 2) +
        goW_T ((4 * tile + 3) * OUT + j) * lanes qh (4 * tile + 3)) := by
  have hj : ∀ r, (tile * 4 + r) * OUT + 4 * (j / 4) + j % 4 = (4 * tile + r) * OUT + j := by
    intro r
    have hjj : 4 * (j / 4) + j % 4 = j := by omega
    rw [Nat.add_assoc, hjj, Nat.mul_comm tile 4]
  have h0 := lanes_add qh tile 0
  have h1 := lanes_add qh tile 1
  have h2 := lanes_add qh tile 2
  have h3 := lanes_add qh tile 3
  simp only [Fin.val_zero, Fin.val_one, Fin.val_two, Nat.add_zero] at h0 h1 h2
  simp only [show ((3 : Fin 4) : Nat) = 3 from rfl] at h3
  rw [h0, h1, h2, h3]
  have hj0 := hj 0
  simp only [Nat.add_zero] at hj0
  simp only [lanes, accumTile, vfmaq_f32, vdupq_n_f32, vgetq_lane_f32, vld1q_f32, hj, hj0,
    Nat.add_zero]
  ring

theorem lanes_tiles (OUT : Nat) (goW_T : Nat → R) (qh out : Regs R) (j n : Nat) :
    lanes ((List.range n).foldl (fun out tile => accumTile OUT goW_T tile (qh tile) out) out) j =
      lanes out j + ∑ i ∈ Finset.range (4 * n), goW_T (i * OUT + j) * lanes qh i := by
  induction n with
  | zero => simp
  | succ n ih =>
    rw [List.range_succ, List.foldl_append, List.foldl_cons, List.foldl_nil, lanes_accumTile, ih,
      show 4 * (n + 1) = 4 * n + 1 + 1 + 1 + 1 by ring]
    simp only [Finset.sum_range_succ]
    ring

section Patch

variable (ar : Arith R) (IN OUT : Nat) (L : LayerWeights R) (feat_in : Fin IN → R) (pos : Nat)

/-- Registers that hold the three parts of the product with `qvgIn`. -/
structure QvgRegs (q v g : Regs R) : Prop where
  q : ∀ o : Fin OUT, lanes q o = qvgRow IN OUT L feat_in pos 0 o
  v : ∀ o : Fin OUT, lanes v o = qvgRow IN OUT L feat_in pos 1 o
  g : ∀ o : Fin OUT, lanes g o = qvgRow IN OUT L feat_in pos 2 o

variable {IN OUT L feat_in pos} {q v g : Regs R} (hqvg : QvgRegs IN OUT L feat_in pos q v g)
  (h : Fin OUT → R)

include hqvg

theorem QvgRegs.cell (o : Fin OUT) : lanes (lruHidden ar v g (featBuf h)) o =
    (processPatch ar IN OUT L feat_in pos h).1 o := by
  rw [lanes_lruHidden, processPatch_fst, hqvg.v, hqvg.g, featBuf_val]

theorem QvgRegs.state : storeRegs OUT (lruHidden ar v g (featBuf h)) =
    (processPatch ar IN OUT L feat_in pos h).1 := funext fun o => hqvg.cell ar h o

theorem QvgRegs.contribution (W : Nat → R) {o : Fin OUT}
    (hW : ∀ i : Fin OUT, W i = L.goW pos (o * OUT + i)) :
    ∑ i ∈ Finset.range OUT,
        lanes (fun b => vmulq_f32 (q b) (lruHidden ar v g (featBuf h) b)) i * W i =
      (processPatch ar IN OUT L feat_in pos h).2 o := by
  rw [Finset.sum_range, processPatch_snd]
  refine Finset.sum_congr rfl fun i _ => ?_
  have hgated : lanes (fun b => vmulq_f32 (q b) (lruHidden ar v g (featBuf h) b)) i =
      lanes q i * lanes (lruHidden ar v g (featBuf h)) i := rfl
  rw [hgated, hqvg.q, hqvg.cell, hW, mul_comm]

end Patch

section Implements

variable (ar : Arith R) (IN OUT : Nat) (L : LayerWeights R) (feat_in : Fin IN → R) (pos : Nat)

/-- A patch function that updates its cell and adds its contribution like the
generic one. -/
structure Implements (patch : (Fin OUT → R) → Regs R → (Fin OUT → R) × Regs R) : Prop where
  state : ∀ h out, (patch h out).1 = (processPatch ar IN OUT L feat_in pos h).1
  out : ∀ h out (o : Fin OUT),
    lanes (patch h out).2 o = lanes out o + (processPatch ar IN OUT L feat_in pos h).2 o

variable {IN OUT L feat_in pos}

theorem patchRows_implements (hOUT : 4 ∣ OUT) {qvg : Regs R}
    (hqvg : QvgRegs IN OUT L feat_in pos qvg (fun b => qvg (OUT / 4 + b))
      fun b => qvg (2 * (OUT / 4) + b)) :
    Implements ar IN OUT L feat_in pos (patchRows ar OUT qvg (L.goW pos)) where
  state := fun h _ => hqvg.state ar h
  out := fun h out o => by
    rw [← hqvg.contribution ar h (fun i => L.goW pos (o * OUT + i)) fun _ => rfl]
    exact lanes_mac hOUT o.pos _ _ _ _

theorem tiled_qvgRegs (hIN : 4 ∣ IN) (hpos : 0 < IN) : QvgRegs IN OUT L feat_in pos
    (fun tile => mqv IN (loadRegs (featBuf feat_in)) (L.qvgIn pos) (tile * 4))
    (fun tile => mqv IN (loadRegs (featBuf feat_in)) (L.qvgIn pos) (OUT + tile * 4))
    (fun tile => mqv IN (loadRegs (featBuf feat_in)) (L.qvgIn pos) (2 * OUT + tile * 4)) := by
  have hrow : ∀ r0 o, lanes (fun tile => mqv IN (loadRegs (featBuf feat_in)) (L.qvgIn pos)
      (r0 + tile * 4)) o = ∑ i : Fin IN, L.qvgIn pos ((r0 + o) * IN + i) * feat_in i := by
    intro r0 o
    rw [lanes_mqv hIN hpos]
    exact sum_featBuf feat_in fun i => L.qvgIn pos ((r0 + o) * IN + i)
  refine ⟨fun o => ?_, fun o => ?_, fun o => ?_⟩
  · simpa [qvgRow] using hrow 0 o
  · simpa [qvgRow] using hrow OUT o
  · exact hrow (2 * OUT) o

theorem patchTiled_implements (hIN : 4 ∣ IN) (hpos : 0 < IN) (hOUT : 4 ∣ OUT)
    (hT : ∀ i j, i < OUT → j < OUT → L.goW_T pos (i * OUT + j) = L.goW pos (j * OUT + i)) :
    Implements ar IN OUT L feat_in pos
      (patchTiled ar IN OUT (loadRegs (featBuf feat_in)) (L.qvgIn pos) (L.goW_T pos)) where
  state := fun h _ => (tiled_qvgRegs hIN hpos).state ar h
  out := fun h out o => by
    have hqvg : QvgRegs IN OUT L feat_in pos _ _ _ := tiled_qvgRegs hIN hpos
    obtain ⟨n, rfl⟩ := hOUT
    have hn : 4 * n / 4 = n := Nat.mul_div_cancel_left n (by decide)
    rw [← hqvg.contribution ar h (fun i => L.goW_T pos (i * (4 * n) + o))
      fun i => hT i o i.isLt o.isLt, patchTiled]
    simp only [hn]
    rw [lanes_tiles]
    exact congrArg (_ + ·) (Finset.sum_congr rfl fun i _ => mul_comm _ _)

theorem row_v (b : Nat) : (kC0 / 4 + b) * 4 = kC0 + b * 4 := Nat.add_mul 3 b 4

theorem row_g (b : Nat) : (2 * (kC0 / 4) + b) * 4 = 2 * kC0 + b * 4 := Nat.add_mul 6 b 4

theorem patch_2_12_implements (L : LayerWeights R) (feat_in : Fin kInDim → R) :
    Implements ar kInDim kC0 L feat_in 0
      (patch_2_12 ar (vdupq_n_f32 (feat_in 0)) (vdupq_n_f32 (feat_in 1)) (L.qvgIn 0) (L.goW 0)) := by
  refine patchRows_implements ar (by decide) ?_
  have hrow : ∀ k o, lanes (fun b => mqv2 (vdupq_n_f32 (feat_in 0)) (vdupq_n_f32 (feat_in 1))
      (L.qvgIn 0) (k * 12 + b * 4)) o = qvgRow kInDim kC0 L feat_in 0 k o := by
    intro k o
    rw [lanes_mqv2, qvgRow, Fin.sum_univ_two]
    rfl
  refine ⟨fun o => ?_, fun o => ?_, fun o => ?_⟩
  · simpa using hrow 0 o
  · simp only [row_v]
    exact hrow 1 o
  · simp only [row_g]
    exact hrow 2 o

theorem patch_12_12_implements (L : LayerWeights R) (feat_in : Fin kC0 → R) (pos : Nat) :
    Implements ar kC0 kC0 L feat_in pos
      (patch_12_12 ar (loadRegs (featBuf feat_in)) (L.qvgIn pos) (L.goW pos)) := by
  refine patchRows_implements ar (by decide) ?_
  obtain ⟨hq, hv, hg⟩ : QvgRegs kC0 kC0 L feat_in pos _ _ _ := tiled_qvgRegs (by decide) (by decide)
  refine ⟨hq, fun o => ?_, fun o => ?_⟩
  · simp only [row_v]
    exact hv o
  · simp only [row_g]
    exact hg o

end Implements

section Loop

variable (ar : Arith R) {IN OUT : Nat} (L : LayerWeights R) (feat_in : Fin IN → R)

theorem interiorLoop_eq_sweep
    {patch : Nat → (Fin OUT → R) → Regs R → (Fin OUT → R) × Regs R} {cs : List (Nat × Nat)}
    (hpatch : ∀ c ∈ cs, Implements ar IN OUT L feat_in c.2 (patch c.2)) (H_all : Nat → Fin OUT → R)
    {out : Regs R} {a : Fin OUT → R} (hout : storeRegs OUT out = a) :
    (interiorLoop patch cs H_all out).1 =
        (sweep (processPatch ar IN OUT L feat_in) cs H_all a).1 ∧
      storeRegs OUT (interiorLoop patch cs H_all out).2 =
        (sweep (processPatch ar IN OUT L feat_in) cs H_all a).2 := by
  induction cs generalizing H_all out a with
  | nil => exact ⟨rfl, hout⟩
  | cons c cs ih =>
    have hc := hpatch c (by simp)
    rw [sweep_cons, ← hc.state (H_all c.1) out]
    refine ih (fun d hd => hpatch d (by simp [hd])) _ (funext fun o => ?_)
    rw [storeRegs, hc.out, ← hout]
    rfl

end Loop

section Layers

variable (ar : Arith R) {IN OUT : Nat} {L : LayerWeights R} {ev_x ev_y Hl Wl : Nat}
  (feat_in : Fin IN → R) (H_all : Nat → Fin OUT → R)
  {patch : Nat → (Fin OUT → R) → Regs R → (Fin OUT → R) × Regs R} {cs : List (Nat × Nat)}
  (hcs : cs = patchOrder L.num_pos ev_x ev_y Hl Wl)
  (hpatch : ∀ c ∈ cs, Implements ar IN OUT L feat_in c.2 (patch c.2))

include hcs hpatch

theorem fused_projected (hnd : (cells cs).Nodup) {W : Nat → R} (hW : L.input_proj = some W)
    {out : Regs R} (hout : storeRegs OUT out = matvec IN OUT feat_in W) :
    ((interiorLoop patch cs H_all out).1,
        layernorm ar (storeRegs OUT (interiorLoop patch cs H_all out).2) L.ln_gamma L.ln_beta) =
      layerForwardCt ar IN OUT L ev_x ev_y Hl Wl feat_in H_all := by
  obtain ⟨hstate, hsum⟩ := interiorLoop_eq_sweep ar L feat_in hpatch H_all hout
  rw [hstate, hsum, sweep_sum_from _ _ _ hnd, add_comm,
    sweep_congr_state (fun _ _ => rfl) cs H_all (matvec IN OUT feat_in W) (0 : Fin OUT → R)]
  simp only [layerForwardCt, hW, ← hcs]

theorem fused_passthrough (hnone : L.input_proj = none) :
    let r := interiorLoop patch cs H_all fun _ => vdupq_n_f32 0
    (r.1, layernorm ar (storeRegs OUT fun og => vaddq_f32 (r.2 og) (loadRegs (featBuf feat_in) og))
        L.ln_gamma L.ln_beta) =
      layerForwardCt ar IN OUT L ev_x ev_y Hl Wl feat_in H_all := by
  intro r
  have hzero : storeRegs OUT (fun _ => vdupq_n_f32 (0 : R)) = 0 := rfl
  obtain ⟨hstate, hsum⟩ := interiorLoop_eq_sweep ar L feat_in hpatch H_all hzero
  have hadd : (storeRegs OUT fun og => vaddq_f32 (r.2 og) (loadRegs (featBuf feat_in) og)) =
      storeRegs OUT r.2 + fun o : Fin OUT => featBuf feat_in o :=
    funext fun o => congrArg (_ + ·) (lanes_loadRegs (featBuf feat_in) o)
  rw [hadd, hstate, hsum]
  simp only [layerForwardCt, hnone, ← hcs]

end Layers

section Kernels

variable (ar : Arith R) {L : LayerWeights R} {ev_x ev_y Hl Wl : Nat}

omit [CommRing R] in
theorem LayerWeights.Schema.projected {IN OUT positions : Nat} (hL : L.Schema IN OUT positions)
    (hne : IN ≠ OUT) : ∃ W, L.input_proj = some W :=
  Option.isSome_iff_exists.mp (hL.input_proj.trans (decide_eq_true hne))

omit [CommRing R] in
theorem LayerWeights.Schema.unprojected {n positions : Nat} (hL : L.Schema n n positions) :
    L.input_proj = none := by
  have hh := hL.input_proj
  rw [decide_eq_false (by simp)] at hh
  exact Option.not_isSome_iff_eq_none.mp (by simp [hh])

theorem s0_l0_interior_eq (hL : L.Schema kInDim kC0 1) (feat_in : Fin kInDim → R)
    (H_all : Nat → Fin kC0 → R) :
    s0_l0_interior ar ev_x ev_y Wl feat_in (L.input_proj.getD fun _ => 0) (L.qvgIn 0) (L.goW 0)
        L.ln_gamma L.ln_beta H_all =
      layerForwardCt ar kInDim kC0 L ev_x ev_y Hl Wl feat_in H_all := by
  obtain ⟨W, hW⟩ := hL.projected (by decide)
  have hcs : [(ev_y * Wl + ev_x, 0)] = patchOrder L.num_pos ev_x ev_y Hl Wl := by
    rw [hL.num_pos, patchOrder, if_pos rfl]
  have hproj : storeRegs kC0 (fun og => mqv2 (vdupq_n_f32 (feat_in 0)) (vdupq_n_f32 (feat_in 1)) W
      (og * 4)) = matvec kInDim kC0 feat_in W := by
    funext o
    have hrow := lanes_mqv2 (feat_in 0) (feat_in 1) W 0 o
    simp only [Nat.zero_add] at hrow
    rw [storeRegs, hrow, matvec, Fin.sum_univ_two]
    rfl
  let patch : Nat → (Fin kC0 → R) → Regs R → (Fin kC0 → R) × Regs R := fun pos =>
    patch_2_12 ar (vdupq_n_f32 (feat_in 0)) (vdupq_n_f32 (feat_in 1)) (L.qvgIn pos) (L.goW pos)
  have hpatch : ∀ c ∈ [(ev_y * Wl + ev_x, 0)],
      Implements ar kInDim kC0 L feat_in c.2 (patch c.2) := by
    intro c hc
    rw [List.mem_singleton.mp hc]
    exact patch_2_12_implements ar L feat_in
  rw [hW, Option.getD_some]
  exact fused_projected ar feat_in H_all hcs hpatch (by simp [cells]) hW hproj

section Nine

variable (hi : Interior ev_x ev_y Hl Wl)

include hi

omit [CommRing R] in
theorem interiorCells_order {IN OUT : Nat} (hL : L.Schema IN OUT 9) :
    interiorCells ev_x ev_y Wl = patchOrder L.num_pos ev_x ev_y Hl Wl := by
  rw [hL.num_pos, patchOrder_eq (by decide), interiorCells_eq hi]

omit hi in
theorem interiorCells_lt {c : Nat × Nat} (hc : c ∈ interiorCells ev_x ev_y Wl) : c.2 < 9 := by
  obtain ⟨k, hk, rfl⟩ := List.mem_map.mp hc
  have hall : ∀ k < 9, deltaArr.getD k 0 < 9 := by decide
  exact hall k (List.mem_range.mp hk)

theorem interiorCells_nodup : (cells (interiorCells ev_x ev_y Wl)).Nodup := by
  rw [interiorCells_eq hi]
  exact neighbours_nodup ev_x ev_y Hl Wl

theorem s0_l1_interior_eq (hL : L.Schema kC0 kC0 9) (feat_in : Fin kC0 → R)
    (H_all : Nat → Fin kC0 → R) :
    s0_l1_interior ar ev_x ev_y Wl feat_in L.qvgIn L.goW L.ln_gamma L.ln_beta H_all =
      layerForwardCt ar kC0 kC0 L ev_x ev_y Hl Wl feat_in H_all :=
  fused_passthrough ar feat_in H_all (interiorCells_order hi hL)
    (fun c _ => patch_12_12_implements ar L feat_in c.2) hL.unprojected

theorem s1_l0_interior_tiled_eq (hL : L.Schema kC0 kC1 9) (feat_in : Fin kC0 → R)
    (H_all : Nat → Fin kC1 → R) :
    s1_l0_interior_tiled ar ev_x ev_y Wl feat_in (L.input_proj.getD fun _ => 0) L.qvgIn L.goW_T
        L.ln_gamma L.ln_beta H_all =
      layerForwardCt ar kC0 kC1 L ev_x ev_y Hl Wl feat_in H_all := by
  obtain ⟨W, hW⟩ := hL.projected (by decide)
  have hproj : storeRegs kC1 (fun og => mqv 12 (loadRegs (featBuf feat_in)) W (og * 4)) =
      matvec kC0 kC1 feat_in W := by
    funext o
    have hrow := lanes_mqv (by decide : 4 ∣ 12) (by decide) (loadRegs (featBuf feat_in)) W 0 o
    simp only [Nat.zero_add] at hrow
    rw [storeRegs, hrow]
    exact sum_featBuf feat_in fun i => W (o * 12 + i)
  rw [hW, Option.getD_some]
  exact fused_projected ar feat_in H_all (interiorCells_order hi hL)
    (fun c hc => patchTiled_implements ar (by decide) (by decide) (by decide) fun i j =>
      hL.goW_T c.2 i j (interiorCells_lt hc)) (interiorCells_nodup hi) hW hproj

theorem s1_l1_interior_tiled_eq (hL : L.Schema kC1 kC1 9) (feat_in : Fin kC1 → R)
    (H_all : Nat → Fin kC1 → R) :
    s1_l1_interior_tiled ar ev_x ev_y Wl feat_in L.qvgIn L.goW_T L.ln_gamma L.ln_beta H_all =
      layerForwardCt ar kC1 kC1 L ev_x ev_y Hl Wl feat_in H_all :=
  fused_passthrough ar feat_in H_all (interiorCells_order hi hL)
    (fun c hc => patchTiled_implements ar (by decide) (by decide) (by decide) fun i j =>
      hL.goW_T c.2 i j (interiorCells_lt hc)) hL.unprojected

end Nine

end Kernels

end SslaRt
