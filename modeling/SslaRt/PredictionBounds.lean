import SslaRt.Predictions
import SslaRt.PredictionOwnership

/-! Whether the predictions of a block fit the buffers that are allocated for
them: the allocation halves the extents, the kernel the bounds. -/

namespace SslaRt

open Cuts

/-- Every prediction that the kernel writes for an event of the processed
rectangle lies in the buffers of the block. -/
def WritesFit (t : BlockTopo) : Prop :=
  ∀ (x y : Nat) (pass2 pass3 : Bool) (cell_idx : Int), t.InProc x y →
    predictionWrite (buildStrip t) x y pass2 pass3 = some cell_idx →
    0 ≤ cell_idx ∧ cell_idx < nCells t

/-- Halving the bounds leaves one cell more than halving the extent. -/
def GainsCell (lo hi : Int) : Prop := lo % 2 = 1 ∧ hi % 2 = 0

instance (lo hi : Int) : Decidable (GainsCell lo hi) := inferInstanceAs (Decidable (_ ∧ _))

def headCells (t : BlockTopo) : Int :=
  (t.owned_x_hi / 2 - t.owned_x_lo / 2) * (t.owned_y_hi / 2 - t.owned_y_lo / 2)

theorem gained_le_iff (w h : Nat) {gw gh : Nat} :
    (w + gw) * (h + gh) ≤ max 1 (w * h) ↔ (gw = 0 ∧ gh = 0) ∨ (w + gw) * (h + gh) ≤ 1 := by
  constructor
  · intro hle
    by_contra hcon
    push Not at hcon
    obtain ⟨hgain, hbig⟩ := hcon
    have hwh : (w + gw) * (h + gh) ≤ w * h := by omega
    have hexp : (w + gw) * (h + gh) = w * h + (w * gh + gw * h + gw * gh) := by ring
    have hpos : 0 < w * h := by omega
    have hw : 0 < w := Nat.pos_of_mul_pos_right hpos
    have hh : 0 < h := Nat.pos_of_mul_pos_left hpos
    have hwg : w * gh = 0 := by omega
    have hgh : gw * h = 0 := by omega
    have hgh0 : gh = 0 := (Nat.mul_eq_zero.mp hwg).resolve_left (by omega)
    have hgw0 : gw = 0 := (Nat.mul_eq_zero.mp hgh).resolve_right (by omega)
    exact hgain hgw0 hgh0
  · rintro (⟨rfl, rfl⟩ | hone)
    · exact le_max_right _ _
    · exact hone.trans (le_max_left _ _)

section Block

variable (W2 H2 nw nh bw bh : Nat)

def headWidth (W2 nw bw : Nat) : Nat := halve (cut W2 nw) (bw + 1) - halve (cut W2 nw) bw

theorem headWidth_eq : headWidth W2 nw bw = (cut W2 nw (bw + 1) - cut W2 nw bw) / 2 +
    if cut W2 nw bw % 2 = 1 ∧ cut W2 nw (bw + 1) % 2 = 0 then 1 else 0 :=
  halve_width (cut_mono W2 nw (Nat.le_succ bw))

theorem headCells_eq : headCells (blockTopo W2 H2 nw nh bw bh) =
    (headWidth W2 nw bw * headWidth H2 nh bh : Nat) := by
  have hx : cut W2 nw bw ≤ cut W2 nw (bw + 1) := cut_mono W2 nw (Nat.le_succ _)
  have hy : cut H2 nh bh ≤ cut H2 nh (bh + 1) := cut_mono H2 nh (Nat.le_succ _)
  simp only [headCells, blockTopo, headWidth, halve]
  push_cast [Nat.div_le_div_right hx, Nat.div_le_div_right hy]
  rfl

theorem nCells_eq : nCells (blockTopo W2 H2 nw nh bw bh) =
    (max 1 ((cut W2 nw (bw + 1) - cut W2 nw bw) / 2 *
      ((cut H2 nh (bh + 1) - cut H2 nh bh) / 2)) : Nat) := by
  have hx : cut W2 nw bw ≤ cut W2 nw (bw + 1) := cut_mono W2 nw (Nat.le_succ _)
  have hy : cut H2 nh bh ≤ cut H2 nh (bh + 1) := cut_mono H2 nh (Nat.le_succ _)
  simp only [nCells, blockTopo]
  push_cast [hx, hy]
  rfl

theorem rectCell_lt {cx cy : Nat} (hx : InStrip (halve (cut W2 nw)) bw cx)
    (hy : InStrip (halve (cut H2 nh)) bh cy) :
    rectCell W2 H2 nw nh bw bh cx cy < headWidth W2 nw bw * headWidth H2 nh bh := by
  have hw : cx - halve (cut W2 nw) bw < headWidth W2 nw bw := Nat.sub_lt_sub_right hx.1 hx.2
  have hh : cy - halve (cut H2 nh) bh < headWidth H2 nh bh := Nat.sub_lt_sub_right hy.1 hy.2
  calc rectCell W2 H2 nw nh bw bh cx cy
      < (cy - halve (cut H2 nh) bh) * headWidth W2 nw bw + headWidth W2 nw bw :=
        Nat.add_lt_add_left hw _
    _ = (cy - halve (cut H2 nh) bh + 1) * headWidth W2 nw bw := (Nat.succ_mul _ _).symm
    _ ≤ headWidth H2 nh bh * headWidth W2 nw bw := Nat.mul_le_mul_right _ hh
    _ = headWidth W2 nw bw * headWidth H2 nh bh := Nat.mul_comm _ _

theorem rectCell_last (hx : 0 < headWidth W2 nw bw) (hy : 0 < headWidth H2 nh bh) :
    rectCell W2 H2 nw nh bw bh (halve (cut W2 nw) (bw + 1) - 1) (halve (cut H2 nh) (bh + 1) - 1) + 1
      = headWidth W2 nw bw * headWidth H2 nh bh := by
  obtain ⟨w, hw⟩ := Nat.exists_eq_add_one.mpr hx
  obtain ⟨h, hh⟩ := Nat.exists_eq_add_one.mpr hy
  have hcx : halve (cut W2 nw) (bw + 1) - 1 - halve (cut W2 nw) bw = w := by
    unfold headWidth at hw
    omega
  have hcy : halve (cut H2 nh) (bh + 1) - 1 - halve (cut H2 nh) bh = h := by
    unfold headWidth at hh
    omega
  have hww : halve (cut W2 nw) (bw + 1) - halve (cut W2 nw) bw = w + 1 := hw
  rw [rectCell, hcx, hcy, hww, hw, hh]
  ring

theorem inProc_of_owns {x y : Nat} (hx : InStrip (cut W2 nw) bw x)
    (hy : InStrip (cut H2 nh) bh y) : (blockTopo W2 H2 nw nh bw bh).InProc x y := by
  have hxe := hx.2.trans_le (cut_le W2 nw (bw + 1))
  have hye := hy.2.trans_le (cut_le H2 nh (bh + 1))
  obtain ⟨hx1, hx2⟩ := hx
  obtain ⟨hy1, hy2⟩ := hy
  simp only [BlockTopo.InProc, blockTopo, HALO]
  omega

theorem writesFit_iff_headCells : WritesFit (blockTopo W2 H2 nw nh bw bh) ↔
    headCells (blockTopo W2 H2 nw nh bw bh) ≤
      nCells (blockTopo W2 H2 nw nh bw bh) := by
  rw [headCells_eq, nCells_eq, Nat.cast_le]
  constructor
  · intro hfit
    rcases Nat.eq_zero_or_pos (headWidth W2 nw bw * headWidth H2 nh bh) with h0 | hpos
    · omega
    have hw : 0 < headWidth W2 nw bw := Nat.pos_of_mul_pos_right hpos
    have hh : 0 < headWidth H2 nh bh := Nat.pos_of_mul_pos_left hpos
    have hcx : InStrip (halve (cut W2 nw)) bw (halve (cut W2 nw) (bw + 1) - 1) := by
      unfold headWidth at hw
      exact ⟨by omega, by omega⟩
    have hcy : InStrip (halve (cut H2 nh)) bh (halve (cut H2 nh) (bh + 1) - 1) := by
      unfold headWidth at hh
      exact ⟨by omega, by omega⟩
    obtain ⟨x, hx, hxc⟩ := exists_of_half hcx
    obtain ⟨y, hy, hyc⟩ := exists_of_half hcy
    have hwrite : predictionWrite (buildStrip (blockTopo W2 H2 nw nh bw bh)) x y true true =
        some (rectCell W2 H2 nw nh bw bh (x / 2) (y / 2) : Int) := by
      rw [predictionWrite, if_pos ⟨(owns_iff W2 H2 nw nh bw bh).mpr ⟨hx, hy⟩, rfl, rfl⟩,
        headCell_eq, hxc, hyc, if_pos ⟨hcx, hcy⟩]
    have hlt := (hfit x y true true _ (inProc_of_owns W2 H2 nw nh bw bh hx hy) hwrite).2
    rw [nCells_eq, Nat.cast_lt, hxc, hyc] at hlt
    rw [← rectCell_last W2 H2 nw nh bw bh hw hh]
    exact hlt
  · intro hle x y pass2 pass3 cell_idx _ hwrite
    unfold predictionWrite at hwrite
    split_ifs at hwrite
    rw [headCell_eq] at hwrite
    split_ifs at hwrite with hcell
    cases hwrite
    have hlt := rectCell_lt W2 H2 nw nh bw bh hcell.1 hcell.2
    rw [nCells_eq]
    exact ⟨Int.natCast_nonneg _, Nat.cast_lt.mpr (hlt.trans_le hle)⟩

theorem gainsCell_iff : GainsCell (cut W2 nw bw) (cut W2 nw (bw + 1)) ↔
    ¬ (if cut W2 nw bw % 2 = 1 ∧ cut W2 nw (bw + 1) % 2 = 0 then 1 else 0) = 0 := by
  unfold GainsCell
  split <;> omega

end Block

/-- The predictions of a block fit their buffers exactly if its owned range
gains no cell in either axis, or its rectangle holds one cell at most. -/
theorem writesFit_iff {n_blocks W2 H2 : Nat} {topo : List BlockTopo}
    (ht : gridTopology n_blocks W2 H2 = some topo) {b : Nat} {t : BlockTopo}
    (hb : topo[b]? = some t) : WritesFit t ↔
      (¬ GainsCell t.owned_x_lo t.owned_x_hi ∧ ¬ GainsCell t.owned_y_lo t.owned_y_hi) ∨
        headCells t ≤ 1 := by
  obtain ⟨⟨nw, nh⟩, hs, -⟩ := Option.map_eq_some_iff.mp ht
  obtain ⟨-, rfl⟩ := topo_block hs ht hb
  rw [writesFit_iff_headCells, headCells_eq, nCells_eq, Nat.cast_le, headWidth_eq, headWidth_eq,
    gained_le_iff, blockTopo, gainsCell_iff, gainsCell_iff, not_not, not_not]
  exact or_congr Iff.rfl Nat.cast_le_one.symm

theorem writesFit_firstBlock : ∃ topo t, gridTopology 8 20 16 = some topo ∧ topo[0]? = some t ∧
    WritesFit t :=
  ⟨_, _, rfl, rfl, (@writesFit_iff 8 20 16 _ rfl 0 _ rfl).mpr (by decide)⟩

/-- The second block owns the rows from 5 to 8. The event at `(9, 7)` writes
its cell 9, and five cells are allocated. -/
theorem not_writesFit_innerBlock : ∃ topo t, gridTopology 8 20 16 = some topo ∧
    topo[1]? = some t ∧ ¬ WritesFit t := by
  refine ⟨_, _, rfl, rfl, fun hfit => ?_⟩
  have hlt := (hfit 9 7 true true 9 (by decide) (by decide)).2
  revert hlt
  decide

end SslaRt
