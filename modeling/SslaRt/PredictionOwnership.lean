import SslaRt.Predictions

/-! Which predictions the blocks keep. It depends on the parity of the cuts
only. -/

namespace SslaRt

open Cuts

/-- One block owns the s2 cell, its head accepts the s3 cell, and the head of
no other block does. -/
def PredictionKept (topo : List BlockTopo) (x y : Nat) : Prop :=
  ∃ (b : Nat) (t : BlockTopo), topo[b]? = some t ∧ (buildStrip t).Owns x y ∧
    (∀ (b' : Nat) (t' : BlockTopo), topo[b']? = some t' → (buildStrip t').Owns x y → b' = b) ∧
    (headCell (buildStrip t) (x / 2 : Nat) (y / 2 : Nat)).isSome ∧
    ∀ (b' : Nat) (t' : BlockTopo), topo[b']? = some t' → b' ≠ b →
      headCell (buildStrip t') (x / 2 : Nat) (y / 2 : Nat) = none

/-- The coordinate is the last one before an odd cut. -/
def BeforeOddCut (extent n_strips x : Nat) : Prop :=
  (x + 1) % 2 = 1 ∧ ∃ i < n_strips, x + 1 = cut extent n_strips (i + 1)

theorem beforeOddCut_iff {extent n i x : Nat} (hi : i < n) (h : InStrip (cut extent n) i x) :
    BeforeOddCut extent n x ↔
      (x + 1 = cut extent n (i + 1) ∧ cut extent n (i + 1) % 2 = 1) := by
  constructor
  · rintro ⟨hodd, j, -, hj⟩
    have hle : cut extent n (i + 1) ≤ cut extent n (j + 1) := by
      refine cut_mono extent n (Nat.succ_le_succ ?_)
      by_contra hlt
      have hh := cut_mono extent n (show j + 1 ≤ i by omega)
      have h1 := h.1
      omega
    have h2 := h.2
    exact ⟨by omega, by omega⟩
  · rintro ⟨hx, hodd⟩
    exact ⟨by omega, i, hi, hx⟩

theorem block_unique {nh : Nat} {f g : Nat → Nat} (hf : Monotone f) (hg : Monotone g) {x y b b' : Nat}
    (hb : InStrip f (b / nh) x ∧ InStrip g (b % nh) y)
    (hb' : InStrip f (b' / nh) x ∧ InStrip g (b' % nh) y) : b' = b := by
  have h1 := strip_unique hf hb'.1 hb.1
  have h2 := strip_unique hg hb'.2 hb.2
  rw [← Nat.div_add_mod b' nh, h1, h2, Nat.div_add_mod]

theorem exists_block {nw nh i j : Nat} (hi : i < nw) (hj : j < nh) :
    ∃ b < nw * nh, b / nh = i ∧ b % nh = j := by
  refine ⟨i * nh + j, ?_, (rowMajor_div_mod i hj).1, (rowMajor_div_mod i hj).2⟩
  calc i * nh + j < i * nh + nh := by omega
    _ = (i + 1) * nh := (Nat.succ_mul i nh).symm
    _ ≤ nw * nh := Nat.mul_le_mul_right _ hi

section Grid

variable {n_blocks nw nh W2 H2 : Nat} {topo : List BlockTopo}
  (hs : gridShape n_blocks = some (nw, nh)) (ht : gridTopology n_blocks W2 H2 = some topo)

include hs ht

section Block

variable {b : Nat} {t : BlockTopo} (hb : topo[b]? = some t)

include hb

theorem block_owns {x y : Nat} : (buildStrip t).Owns x y ↔
    InStrip (cut W2 nw) (b / nh) x ∧ InStrip (cut H2 nh) (b % nh) y := by
  rw [(topo_block hs ht hb).2, owns_iff]

theorem block_headCell (cx cy : Nat) : headCell (buildStrip t) cx cy =
    if InStrip (halve (cut W2 nw)) (b / nh) cx ∧ InStrip (halve (cut H2 nh)) (b % nh) cy then
      some (rectCell W2 H2 nw nh (b / nh) (b % nh) cx cy : Int) else none := by
  rw [(topo_block hs ht hb).2, headCell_eq]

theorem block_index_lt : b / nh < nw ∧ b % nh < nh := by
  have hlt := (topo_block hs ht hb).1
  have hnh : 0 < nh := Nat.pos_of_mul_pos_left (Nat.zero_lt_of_lt hlt)
  exact ⟨Nat.div_lt_of_lt_mul (by rwa [Nat.mul_comm]), Nat.mod_lt _ hnh⟩

end Block

/-- An owned prediction is kept, by its owner alone, exactly if its cell is
not the last one before an odd cut, in either axis. -/
theorem predictionKept_iff {x y : Nat} (hx : x < W2) (hy : y < H2) :
    PredictionKept topo x y ↔ ¬ BeforeOddCut W2 nw x ∧ ¬ BeforeOddCut H2 nh y := by
  obtain ⟨hnw, hnh⟩ := gridShape_strips hs
  constructor
  · rintro ⟨b, t, hb, hown, -, hsome, -⟩
    obtain ⟨hxs, hys⟩ := (block_owns hs ht hb).mp hown
    obtain ⟨hbw, hbh⟩ := block_index_lt hs ht hb
    rw [block_headCell hs ht hb] at hsome
    have hcell : InStrip (halve (cut W2 nw)) (b / nh) (x / 2) ∧
        InStrip (halve (cut H2 nh)) (b % nh) (y / 2) := by
      by_contra hn
      rw [if_neg hn] at hsome
      simp at hsome
    rw [beforeOddCut_iff hbw hxs, beforeOddCut_iff hbh hys]
    exact ⟨(half_inStrip hxs).mp hcell.1, (half_inStrip hys).mp hcell.2⟩
  · rintro ⟨hcx, hcy⟩
    obtain ⟨i, hi, hxs⟩ := exists_strip (f := cut W2 nw) (n := nw) rfl (by rwa [cut_last hnw])
    obtain ⟨j, hj, hys⟩ := exists_strip (f := cut H2 nh) (n := nh) rfl (by rwa [cut_last hnh])
    rw [beforeOddCut_iff hi hxs] at hcx
    rw [beforeOddCut_iff hj hys] at hcy
    obtain ⟨b, hb, rfl, rfl⟩ := exists_block hi hj
    have hcell := And.intro ((half_inStrip hxs).mpr hcx) ((half_inStrip hys).mpr hcy)
    have hget := (gridTopology_getElem? hs ht b).trans (if_pos hb)
    refine ⟨b, _, hget, (block_owns hs ht hget).mpr ⟨hxs, hys⟩, fun b' t' hb' hown' => ?_, ?_,
      fun b' t' hb' hne => ?_⟩
    · exact block_unique (cut_mono W2 nw) (cut_mono H2 nh) ⟨hxs, hys⟩
        ((block_owns hs ht hb').mp hown')
    · rw [block_headCell hs ht hget, if_pos hcell]
      rfl
    · rw [block_headCell hs ht hb', if_neg]
      exact fun h => hne (block_unique (halve_mono (cut_mono W2 nw))
        (halve_mono (cut_mono H2 nh)) hcell h)

end Grid

theorem predictionKept_eightBlocks :
    ∃ topo, gridTopology 8 20 16 = some topo ∧ PredictionKept topo 9 9 := by
  refine ⟨_, rfl, (@predictionKept_iff 8 2 4 20 16 _ rfl rfl 9 9
    (by decide) (by decide)).mpr ⟨?_, ?_⟩⟩
  · rintro ⟨hodd, -⟩
    omega
  · rintro ⟨hodd, -⟩
    omega

/-- The cell `(0, 10)` belongs to the rows from 8 to 11; its s3 row 5 is none
of the owned rows from 4 to 5. -/
theorem not_predictionKept_beforeOddCut :
    ∃ topo, gridTopology 8 20 16 = some topo ∧ ¬ PredictionKept topo 0 10 := by
  refine ⟨_, rfl, ?_⟩
  rintro ⟨b, t, hb, hown, -, hsome, -⟩
  have hlt : b < 8 := (List.getElem?_eq_some_iff.mp hb).1
  interval_cases b <;> cases hb <;> revert hown hsome <;> decide

end SslaRt
