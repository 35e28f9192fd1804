import SslaRt.PredictionBounds

/-! The host reads the predictions of a block back: it recomputes the row
stride from the extent of the block, and the kernel from its halved bounds. -/

namespace SslaRt

open Cuts

/-- The rows of the buffer of a block that the host looks at. -/
def collectRows (t : BlockTopo) : List Nat :=
  let s3w := (t.owned_x_hi - t.owned_x_lo) / 2
  let s3h := (t.owned_y_hi - t.owned_y_lo) / 2
  if s3w = 0 ∨ s3h = 0 then [] else List.range (nCells t).toNat

/-- The s3 cell that the host takes row `k` for. -/
def collectCell (t : BlockTopo) (k : Nat) : Int × Int :=
  let s3w := (t.owned_x_hi - t.owned_x_lo) / 2
  (t.owned_x_lo / 2 + k % s3w, t.owned_y_lo / 2 + k / s3w)

def collectBboxes {Row Box : Type*} (preds_view : Nat → Nat → Row) (topo : List BlockTopo)
    (keep : Row → Bool) (bbox : Int → Int → Row → Box) : List Box :=
  topo.zipIdx.flatMap fun (topo_b, b) =>
    ((collectRows topo_b).filter fun k => keep (preds_view b k)).map fun k =>
      bbox (collectCell topo_b k).1 (collectCell topo_b k).2 (preds_view b k)

/-- Every row that the kernel writes is visited by the host and read back as
the cell it was written for. -/
def LayoutRoundTrip (t : BlockTopo) : Prop :=
  ∀ s3x s3y cell_idx : Int, headCell (buildStrip t) s3x s3y = some cell_idx →
    ∃ k ∈ collectRows t, (k : Int) = cell_idx ∧ collectCell t k = (s3x, s3y)

theorem LayoutRoundTrip.mem_collectBboxes {Row Box : Type*} {preds_view : Nat → Nat → Row}
    {topo : List BlockTopo} {keep : Row → Bool} {bbox : Int → Int → Row → Box} {b : Nat}
    {t : BlockTopo} (h : LayoutRoundTrip t) (hb : topo[b]? = some t) {s3x s3y : Int} {k : Nat}
    (hk : headCell (buildStrip t) s3x s3y = some (k : Int)) (hkeep : keep (preds_view b k) = true) :
    bbox s3x s3y (preds_view b k) ∈ collectBboxes preds_view topo keep bbox := by
  obtain ⟨k', hmem, heq, hcell⟩ := h s3x s3y k hk
  obtain rfl : k' = k := Int.ofNat.inj heq
  refine List.mem_flatMap.mpr ⟨(t, b), List.mem_zipIdx_iff_getElem?.mpr hb, ?_⟩
  refine List.mem_map.mpr ⟨k', List.mem_filter.mpr ⟨hmem, hkeep⟩, ?_⟩
  rw [hcell]

section Block

variable (W2 H2 nw nh bw bh : Nat)

theorem mem_collectRows {k : Nat} : k ∈ collectRows (blockTopo W2 H2 nw nh bw bh) ↔
    0 < (cut W2 nw (bw + 1) - cut W2 nw bw) / 2 ∧ 0 < (cut H2 nh (bh + 1) - cut H2 nh bh) / 2 ∧
      k < max 1 ((cut W2 nw (bw + 1) - cut W2 nw bw) / 2 *
        ((cut H2 nh (bh + 1) - cut H2 nh bh) / 2)) := by
  have hx : cut W2 nw bw ≤ cut W2 nw (bw + 1) := cut_mono W2 nw (Nat.le_succ _)
  have hy : cut H2 nh bh ≤ cut H2 nh (bh + 1) := cut_mono H2 nh (Nat.le_succ _)
  unfold collectRows
  rw [nCells_eq, Int.toNat_natCast]
  dsimp only [blockTopo]
  split_ifs with h0
  · simp only [List.not_mem_nil, false_iff]
    omega
  · rw [List.mem_range]
    omega

theorem collectCell_rectCell (hgain : ¬ GainsCell (cut W2 nw bw) (cut W2 nw (bw + 1))) {cx cy : Nat}
    (hx : InStrip (halve (cut W2 nw)) bw cx) (hy : InStrip (halve (cut H2 nh)) bh cy) :
    collectCell (blockTopo W2 H2 nw nh bw bh) (rectCell W2 H2 nw nh bw bh cx cy) =
      ((cx : Int), (cy : Int)) := by
  have hle : cut W2 nw bw ≤ cut W2 nw (bw + 1) := cut_mono W2 nw (Nat.le_succ _)
  have hw : ((cut W2 nw (bw + 1) : Int) - cut W2 nw bw) / 2 = (headWidth W2 nw bw : Nat) := by
    rw [headWidth_eq]
    unfold GainsCell at hgain
    split_ifs <;> omega
  have hlt : cx - halve (cut W2 nw) bw < headWidth W2 nw bw := Nat.sub_lt_sub_right hx.1 hx.2
  obtain ⟨hdiv, hmod⟩ := rowMajor_div_mod (cy - halve (cut H2 nh) bh) hlt
  have hrect : rectCell W2 H2 nw nh bw bh cx cy =
      (cy - halve (cut H2 nh) bh) * headWidth W2 nw bw + (cx - halve (cut W2 nw) bw) := rfl
  unfold collectCell
  dsimp only [blockTopo]
  rw [hw, hrect, ← Int.natCast_emod, ← Int.natCast_ediv, hdiv, hmod]
  have hx1 := hx.1
  have hy1 := hy.1
  unfold halve at hx1 hy1 ⊢
  rw [Prod.mk.injEq]
  constructor <;> omega

theorem headCell_natCast {s3x s3y cell_idx : Int}
    (hwrite : headCell (buildStrip (blockTopo W2 H2 nw nh bw bh)) s3x s3y = some cell_idx) :
    ∃ cx cy : Nat, s3x = cx ∧ s3y = cy ∧ InStrip (halve (cut W2 nw)) bw cx ∧
      InStrip (halve (cut H2 nh)) bh cy ∧ cell_idx = rectCell W2 H2 nw nh bw bh cx cy := by
  have hnonneg : 0 ≤ s3x ∧ 0 ≤ s3y := by
    unfold headCell buildStrip blockTopo at hwrite
    dsimp only at hwrite
    split_ifs at hwrite
    omega
  obtain ⟨cx, rfl⟩ := Int.eq_ofNat_of_zero_le hnonneg.1
  obtain ⟨cy, rfl⟩ := Int.eq_ofNat_of_zero_le hnonneg.2
  rw [headCell_eq] at hwrite
  split_ifs at hwrite with hcell
  exact ⟨cx, cy, rfl, rfl, hcell.1, hcell.2, (Option.some.inj hwrite).symm⟩

theorem headCell_last (hw : 0 < headWidth W2 nw bw) (hh : 0 < headWidth H2 nh bh) :
    ∃ (s3x s3y : Int) (k : Nat),
      headCell (buildStrip (blockTopo W2 H2 nw nh bw bh)) s3x s3y = some (k : Int) ∧
      k + 1 = headWidth W2 nw bw * headWidth H2 nh bh := by
  refine ⟨(halve (cut W2 nw) (bw + 1) - 1 : Nat), (halve (cut H2 nh) (bh + 1) - 1 : Nat), _, ?_,
    rectCell_last W2 H2 nw nh bw bh hw hh⟩
  rw [headCell_eq, if_pos]
  unfold headWidth at hw hh
  exact ⟨⟨by omega, by omega⟩, ⟨by omega, by omega⟩⟩

theorem layoutRoundTrip_of_fits
    (hx : ¬ GainsCell (cut W2 nw bw) (cut W2 nw (bw + 1)))
    (hy : ¬ GainsCell (cut H2 nh bh) (cut H2 nh (bh + 1))) :
    LayoutRoundTrip (blockTopo W2 H2 nw nh bw bh) := by
  intro s3x s3y cell_idx hwrite
  obtain ⟨cx, cy, rfl, rfl, hcx, hcy, rfl⟩ := headCell_natCast W2 H2 nw nh bw bh hwrite
  have hlt := rectCell_lt W2 H2 nw nh bw bh hcx hcy
  have hpos : 0 < headWidth W2 nw bw * headWidth H2 nh bh := by omega
  have hw := Nat.pos_of_mul_pos_right hpos
  have hh := Nat.pos_of_mul_pos_left hpos
  rw [headWidth_eq, not_not.mp (mt (gainsCell_iff W2 nw bw).mpr hx), Nat.add_zero] at hlt hw
  rw [headWidth_eq, not_not.mp (mt (gainsCell_iff H2 nh bh).mpr hy), Nat.add_zero] at hlt hh
  refine ⟨_, (mem_collectRows W2 H2 nw nh bw bh).mpr ⟨hw, hh, ?_⟩, rfl,
    collectCell_rectCell W2 H2 nw nh bw bh hx hcx hcy⟩
  exact hlt.trans_le (le_max_right _ _)

theorem fits_of_layoutRoundTrip (hround : LayoutRoundTrip (blockTopo W2 H2 nw nh bw bh))
    (hw : 0 < headWidth W2 nw bw) (hh : 0 < headWidth H2 nh bh) :
    ¬ GainsCell (cut W2 nw bw) (cut W2 nw (bw + 1)) ∧
      ¬ GainsCell (cut H2 nh bh) (cut H2 nh (bh + 1)) := by
  rw [gainsCell_iff, gainsCell_iff, not_not, not_not]
  -- the last cell of the rectangle has the largest row
  obtain ⟨s3x, s3y, k, hwrite, hlast⟩ := headCell_last W2 H2 nw nh bw bh hw hh
  obtain ⟨k', hk, heq, -⟩ := hround _ _ _ hwrite
  obtain rfl : k' = k := Int.ofNat.inj heq
  obtain ⟨hw0, hh0, hlt⟩ := (mem_collectRows W2 H2 nw nh bw bh).mp hk
  have hle : k' + 1 ≤ _ := hlt
  rw [hlast, headWidth_eq, headWidth_eq, gained_le_iff] at hle
  rcases hle with hnone | hone
  · exact hnone
  · have hxle := (Nat.le_mul_of_pos_right _ (Nat.add_pos_left hh0 _)).trans hone
    have hyle := (Nat.le_mul_of_pos_left _ (Nat.add_pos_left hw0 _)).trans hone
    omega

end Block

/-- The layout of a block round-trips exactly if its rectangle has no cell or
its owned range gains no cell in either axis. -/
theorem layoutRoundTrip_iff {n_blocks W2 H2 : Nat} {topo : List BlockTopo}
    (ht : gridTopology n_blocks W2 H2 = some topo) {b : Nat} {t : BlockTopo}
    (hb : topo[b]? = some t) : LayoutRoundTrip t ↔ headCells t = 0 ∨
      (¬ GainsCell t.owned_x_lo t.owned_x_hi ∧ ¬ GainsCell t.owned_y_lo t.owned_y_hi) := by
  obtain ⟨⟨nw, nh⟩, hs, -⟩ := Option.map_eq_some_iff.mp ht
  obtain ⟨-, rfl⟩ := topo_block hs ht hb
  rw [headCells_eq, Nat.cast_eq_zero]
  constructor
  · intro hround
    rcases Nat.eq_zero_or_pos (headWidth W2 nw (b / nh) * headWidth H2 nh (b % nh)) with h0 | hpos
    · exact Or.inl h0
    · exact Or.inr (fits_of_layoutRoundTrip W2 H2 nw nh (b / nh) (b % nh) hround
        (Nat.pos_of_mul_pos_right hpos) (Nat.pos_of_mul_pos_left hpos))
  · rintro (h0 | ⟨hx, hy⟩)
    · intro s3x s3y cell_idx hwrite
      obtain ⟨cx, cy, -, -, hcx, hcy, -⟩ := headCell_natCast W2 H2 nw nh _ _ hwrite
      have hlt := rectCell_lt W2 H2 nw nh _ _ hcx hcy
      omega
    · exact layoutRoundTrip_of_fits W2 H2 nw nh _ _ hx hy

theorem layoutRoundTrip_secondBlock : ∃ topo t, gridTopology 8 76 60 = some topo ∧
    topo[1]? = some t ∧ LayoutRoundTrip t :=
  ⟨_, _, rfl, rfl, (@layoutRoundTrip_iff 8 76 60 _ rfl 1 _ rfl).mpr (by decide)⟩

/-- The second block owns the columns from 5 to 10. The kernel writes the cell
`(4, 0)` in row 2 of three to a line, and the host has two to a line. -/
theorem not_layoutRoundTrip_oddCut : ∃ topo t, gridTopology 2 10 4 = some topo ∧
    topo[1]? = some t ∧ ¬ LayoutRoundTrip t := by
  refine ⟨_, _, rfl, rfl, fun hround => ?_⟩
  obtain ⟨k, -, hk, hcell⟩ := hround 4 0 2 (by decide)
  obtain rfl : k = 2 := Int.ofNat.inj hk
  revert hcell
  decide

end SslaRt
