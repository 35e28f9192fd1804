import SslaRt.Cuts
import Mathlib.Data.List.Basic
import Mathlib.Tactic.IntervalCases

/-! The blocks of the GPU: a grid of rectangles of the s2 plane, each with a
halo of two cells that it also processes. -/

namespace SslaRt

def HALO : Int := 2

structure BlockTopo where
  owned_x_lo : Int
  owned_x_hi : Int
  owned_y_lo : Int
  owned_y_hi : Int
  proc_x_lo : Int
  proc_x_hi : Int
  proc_y_lo : Int
  proc_y_hi : Int
  deriving DecidableEq, Repr

def balancedSplits (extent : Int) (n_strips : Nat) : List Int :=
  if n_strips = 1 then [0, extent]
  else if n_strips = 2 then
    let size := extent / 2
    [0, size, extent]
  else
    let middle := (extent - 2 * HALO) / n_strips
    if middle < 1 then
      let size := extent / n_strips
      (List.range (n_strips + 1)).map fun i => if i < n_strips then i * size else extent
    else
      let corner := middle + HALO
      let total := 2 * corner + (n_strips - 2) * middle
      let deficit := extent - total
      let corner_lo_extra := deficit / 2
      let corner_hi_extra := deficit - corner_lo_extra
      ((List.range n_strips).foldl (fun (st : List Int × Int) i =>
        let sz := if i = 0 then corner + corner_lo_extra
          else if i = n_strips - 1 then corner + corner_hi_extra
          else middle
        (st.1 ++ [st.2 + sz], st.2 + sz)) ([0], 0)).1

/-- Columns and rows of blocks; other numbers of blocks are an error. -/
def gridShape (n_blocks : Nat) : Option (Nat × Nat) :=
  if n_blocks = 2 then some (2, 1)
  else if n_blocks = 4 then some (2, 2)
  else if n_blocks = 8 then some (2, 4)
  else none

def gridTopology (n_blocks : Nat) (W2 H2 : Int) : Option (List BlockTopo) :=
  (gridShape n_blocks).map fun (nw, nh) =>
    let x_splits := balancedSplits W2 nw
    let y_splits := balancedSplits H2 nh
    (List.range nw).flatMap fun bw => (List.range nh).map fun bh =>
      let ox_lo := x_splits.getD bw 0
      let ox_hi := x_splits.getD (bw + 1) 0
      let oy_lo := y_splits.getD bh 0
      let oy_hi := y_splits.getD (bh + 1) 0
      { owned_x_lo := ox_lo, owned_x_hi := ox_hi
        owned_y_lo := oy_lo, owned_y_hi := oy_hi
        proc_x_lo := max 0 (ox_lo - HALO), proc_x_hi := min W2 (ox_hi + HALO)
        proc_y_lo := max 0 (oy_lo - HALO), proc_y_hi := min H2 (oy_hi + HALO) }

/-- The boundaries of the strips in closed form. -/
def cut (extent n_strips : Nat) : Nat → Nat
  | 0 => 0
  | 1 => if n_strips = 2 then extent / 2
    else if n_strips = 4 then
      if extent < 8 then extent / 4 else extent / 4 + 1 + extent % 4 / 2
    else extent
  | 2 => if n_strips = 4 then if extent < 8 then 2 * (extent / 4) else extent / 2 else extent
  | 3 => if n_strips = 4 then
      if extent < 8 then 3 * (extent / 4) else extent / 2 + extent / 4 - 1
    else extent
  | _ => extent

theorem cut_mono (extent n_strips : Nat) : Monotone (cut extent n_strips) := by
  refine monotone_nat_of_le_succ (fun i => ?_)
  match i with
  | 0 => exact Nat.zero_le _
  | 1 => simp only [cut]; split_ifs <;> omega
  | 2 => simp only [cut]; split_ifs <;> omega
  | 3 => simp only [cut]; split_ifs <;> omega
  | _ + 4 => exact le_rfl

theorem cut_le (extent n_strips i : Nat) : cut extent n_strips i ≤ extent := by
  match i with
  | 0 => exact Nat.zero_le _
  | 1 => simp only [cut]; split_ifs <;> omega
  | 2 => simp only [cut]; split_ifs <;> omega
  | 3 => simp only [cut]; split_ifs <;> omega
  | _ + 4 => exact le_rfl

def StripCount (n : Nat) : Prop := n = 1 ∨ n = 2 ∨ n = 4

theorem cut_last {n : Nat} (hn : StripCount n) (extent : Nat) : cut extent n n = extent := by
  rcases hn with rfl | rfl | rfl <;> simp [cut]

theorem balancedSplits_four (extent : Nat) :
    balancedSplits extent 4 =
      [0, (cut extent 4 1 : Int), (cut extent 4 2 : Int), (cut extent 4 3 : Int), (extent : Int)] := by
  unfold balancedSplits HALO
  rw [if_neg (by decide), if_neg (by decide)]
  dsimp only
  by_cases h8 : extent < 8
  · rw [if_pos (by omega)]
    simp [List.range_succ, cut, h8]
  · rw [if_neg (by omega)]
    simp only [List.range_succ, List.range_zero, List.nil_append, List.cons_append, List.foldl_cons,
      List.foldl_nil, cut, h8, if_false, List.cons.injEq, and_true, true_and, Nat.reduceEqDiff,
      Nat.reduceSub, reduceIte, Nat.cast_ofNat, OfNat.ofNat_ne_zero, one_ne_zero]
    omega

theorem balancedSplits_getD {n : Nat} (hn : StripCount n) (extent : Nat) {i : Nat} (hi : i ≤ n) :
    (balancedSplits extent n).getD i 0 = cut extent n i := by
  rcases hn with rfl | rfl | rfl
  · interval_cases i <;> simp [balancedSplits, cut]
  · interval_cases i <;> simp [balancedSplits, cut]
  · rw [balancedSplits_four]
    interval_cases i <;> simp [cut]

def blockTopo (W2 H2 nw nh bw bh : Nat) : BlockTopo where
  owned_x_lo := cut W2 nw bw
  owned_x_hi := cut W2 nw (bw + 1)
  owned_y_lo := cut H2 nh bh
  owned_y_hi := cut H2 nh (bh + 1)
  proc_x_lo := max 0 (cut W2 nw bw - HALO)
  proc_x_hi := min W2 (cut W2 nw (bw + 1) + HALO)
  proc_y_lo := max 0 (cut H2 nh bh - HALO)
  proc_y_hi := min H2 (cut H2 nh (bh + 1) + HALO)

theorem gridShape_strips {n_blocks nw nh : Nat} (h : gridShape n_blocks = some (nw, nh)) :
    StripCount nw ∧ StripCount nh := by
  unfold gridShape at h
  split_ifs at h <;> cases h <;> exact ⟨by simp [StripCount], by simp [StripCount]⟩

theorem rowMajor_div_mod {n j : Nat} (i : Nat) (hj : j < n) :
    (i * n + j) / n = i ∧ (i * n + j) % n = j := by
  rw [Nat.mul_comm, Nat.mul_add_div (by omega), Nat.div_eq_of_lt hj, Nat.mul_add_mod,
    Nat.mod_eq_of_lt hj]
  exact ⟨rfl, rfl⟩

theorem getElem?_flatMap_range {α : Type*} (g : Nat → Nat → α) (m n b : Nat) :
    ((List.range m).flatMap fun i => (List.range n).map (g i))[b]? =
      if b < m * n then some (g (b / n) (b % n)) else none := by
  induction m with
  | zero => simp
  | succ m ih =>
    have hlen : ((List.range m).flatMap fun i => (List.range n).map (g i)).length = m * n := by
      simp
    rw [List.range_succ, List.flatMap_append, List.getElem?_append, hlen, ih, Nat.succ_mul]
    by_cases hb : b < m * n
    · rw [if_pos hb, if_pos hb, if_pos (by omega)]
    · rw [if_neg hb]
      by_cases hn : b < m * n + n
      · obtain ⟨j, rfl⟩ := Nat.exists_eq_add_of_le (Nat.le_of_not_lt hb)
        have hj : j < n := by omega
        simp [hj, (rowMajor_div_mod m hj).1, (rowMajor_div_mod m hj).2]
      · rw [if_neg hn]
        simp only [List.flatMap_cons, List.flatMap_nil, List.append_nil]
        rw [List.getElem?_eq_none (by simp; omega)]

theorem gridTopology_getElem? {n_blocks nw nh W2 H2 : Nat} {topo : List BlockTopo}
    (hs : gridShape n_blocks = some (nw, nh)) (ht : gridTopology n_blocks W2 H2 = some topo)
    (b : Nat) : topo[b]? =
      if b < nw * nh then some (blockTopo W2 H2 nw nh (b / nh) (b % nh)) else none := by
  obtain ⟨hnw, hnh⟩ := gridShape_strips hs
  rw [← getElem?_flatMap_range (blockTopo W2 H2 nw nh)]
  simp only [gridTopology, hs, Option.map_some, Option.some.injEq] at ht
  rw [← ht]
  congr 1
  refine List.flatMap_congr (fun bw hbw => List.map_congr_left (fun bh hbh => ?_))
  have hbw' := List.mem_range.mp hbw
  have hbh' := List.mem_range.mp hbh
  rw [balancedSplits_getD hnw W2 (i := bw) (by omega), balancedSplits_getD hnw W2 (i := bw + 1) hbw',
    balancedSplits_getD hnh H2 (i := bh) (by omega), balancedSplits_getD hnh H2 (i := bh + 1) hbh']
  rfl

theorem topo_block {n_blocks nw nh W2 H2 : Nat} {topo : List BlockTopo}
    (hs : gridShape n_blocks = some (nw, nh)) (ht : gridTopology n_blocks W2 H2 = some topo)
    {b : Nat} {t : BlockTopo} (hb : topo[b]? = some t) :
    b < nw * nh ∧ t = blockTopo W2 H2 nw nh (b / nh) (b % nh) := by
  rw [gridTopology_getElem? hs ht] at hb
  split at hb
  · next h => exact ⟨h, (Option.some.inj hb).symm⟩
  · simp at hb

end SslaRt
