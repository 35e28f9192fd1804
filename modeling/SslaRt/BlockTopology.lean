import SslaRt.PredictionOwnership
import Mathlib.Tactic.Linarith
import Mathlib.Tactic.Ring

/-! The blocks tile the grid for every extent, and the strips of an axis are
processed in nearly equal widths. -/

namespace SslaRt

open Cuts

inductive TopologyError
  | valueError
  | assertionError

/-- `_balanced_splits` with the assertion at the end of its last branch. -/
def assertedSplits (extent : Int) (n_strips : Nat) : Except TopologyError (List Int) :=
  let splits := balancedSplits extent n_strips
  if n_strips = 1 ∨ n_strips = 2 ∨ (extent - 2 * HALO) / n_strips < 1 then .ok splits
  else if splits.getLast? = some extent then .ok splits
  else .error .assertionError

/-- `grid_topology` with its error and its assertions. -/
def assertedTopology (n_blocks : Nat) (W2 H2 : Int) : Except TopologyError (List BlockTopo) :=
  match gridShape n_blocks with
  | none => .error .valueError
  | some (nw, nh) =>
    if nw * nh ≠ n_blocks then .error .assertionError
    else do
      let _ ← assertedSplits W2 nw
      let _ ← assertedSplits H2 nh
      match gridTopology n_blocks W2 H2 with
      | some topo => .ok topo
      | none => .error .valueError

section Splits

variable {extent : Int} {n : Nat}

/-- The width of the inner strips of the balanced regime. -/
def middleWidth (extent : Int) (n : Nat) : Int := (extent - 2 * HALO) / n

/-- What is left over; the two corners share it. -/
def leftOver (extent : Int) (n : Nat) : Int := (extent - 2 * HALO) % n

/-- The boundaries of the balanced regime. -/
def balancedCut (extent : Int) (n i : Nat) : Int :=
  if i = 0 then 0
  else if i = n then extent
  else HALO + leftOver extent n / 2 + i * middleWidth extent n

theorem extent_eq (extent : Int) (n : Nat) :
    extent = 2 * HALO + n * middleWidth extent n + leftOver extent n := by
  have h := Int.mul_ediv_add_emod (extent - 2 * HALO) n
  unfold middleWidth leftOver
  omega

/-- A loop that appends running sums builds the list of the boundaries. -/
theorem foldl_boundaries {sz S : Nat → Int} (h0 : S 0 = 0) {n : Nat}
    (hS : ∀ k < n, S k + sz k = S (k + 1)) :
    (List.range n).foldl (fun (st : List Int × Int) i => (st.1 ++ [st.2 + sz i], st.2 + sz i)) ([0], 0) =
      ((List.range (n + 1)).map S, S n) := by
  induction n with
  | zero => simp [h0]
  | succ n ih =>
    rw [List.range_succ, List.foldl_append, ih fun k hk => hS k (by omega), List.foldl_cons,
      List.foldl_nil]
    dsimp only
    rw [hS n (by omega), @List.range_succ (n + 1), List.map_append]
    rfl

theorem balancedSplits_eq (hn : 3 ≤ n) (hm : 1 ≤ middleWidth extent n) :
    balancedSplits extent n = (List.range (n + 1)).map (balancedCut extent n) := by
  have hext := extent_eq extent n
  have hmid : (extent - 2 * HALO) / n = middleWidth extent n := rfl
  have hdeficit : extent - (2 * (middleWidth extent n + HALO) + (n - 2) * middleWidth extent n) =
      leftOver extent n := by linarith
  unfold balancedSplits
  rw [if_neg (by omega), if_neg (by omega)]
  simp only [hmid, hdeficit]
  rw [if_neg (by omega), foldl_boundaries (S := balancedCut extent n) rfl]
  intro k hk
  unfold balancedCut
  rcases Nat.eq_zero_or_pos k with rfl | hpos
  · rw [if_pos rfl, if_pos rfl, if_neg (by omega), if_neg (by omega)]
    push_cast
    ring
  · simp only [if_neg (show k ≠ 0 by omega), if_neg (show k ≠ n by omega),
      if_neg (show k + 1 ≠ 0 by omega)]
    by_cases hlast : k + 1 = n
    · have hcast : (n : Int) = k + 1 := by omega
      rw [if_pos (by omega), if_pos hlast]
      rw [hcast] at hext
      linarith
    · rw [if_neg (by omega), if_neg hlast]
      push_cast
      ring

theorem assertedSplits_ok (extent : Int) (hn : 1 ≤ n) :
    assertedSplits extent n = .ok (balancedSplits extent n) := by
  unfold assertedSplits
  dsimp only
  by_cases hfew : n = 1 ∨ n = 2 ∨ (extent - 2 * HALO) / n < 1
  · rw [if_pos hfew]
  · have hm : 1 ≤ middleWidth extent n := by
      unfold middleWidth
      omega
    have hcut : balancedCut extent n n = extent := by
      unfold balancedCut
      rw [if_neg (by omega), if_pos rfl]
    rw [if_neg hfew, if_pos]
    rw [balancedSplits_eq (by omega) hm, List.range_succ, List.map_append, List.map_singleton,
      List.getLast?_append, List.getLast?_singleton, hcut]
    rfl

/-- The width that strip `i` processes. -/
def procWidth (extent : Int) (n i : Nat) : Int :=
  min extent ((balancedSplits extent n).getD (i + 1) 0 + HALO) -
    max 0 ((balancedSplits extent n).getD i 0 - HALO)

theorem procWidth_eq (hn : 3 ≤ n) (hm : 1 ≤ middleWidth extent n) {i : Nat} (hi : i < n) :
    procWidth extent n i = middleWidth extent n + 2 * HALO +
      if i = 0 then leftOver extent n / 2
      else if i + 1 = n then leftOver extent n - leftOver extent n / 2
      else 0 := by
  have hget : ∀ k ≤ n, (balancedSplits extent n).getD k 0 = balancedCut extent n k := by
    intro k hk
    rw [balancedSplits_eq hn hm, List.getD_eq_getElem?_getD, List.getElem?_map,
      List.getElem?_range (by omega)]
    rfl
  have hext := extent_eq extent n
  have hleft : 0 ≤ leftOver extent n := Int.emod_nonneg _ (by omega)
  have hm0 : 0 ≤ middleWidth extent n := by omega
  have hbefore : 0 ≤ (i : Int) * middleWidth extent n := mul_nonneg (by omega) hm0
  have hbehind : (i + 1 : Int) * middleWidth extent n ≤ n * middleWidth extent n :=
    mul_le_mul_of_nonneg_right (by omega) hm0
  rw [add_mul, one_mul] at hbehind
  rw [procWidth, hget i (by omega), hget (i + 1) (by omega)]
  unfold balancedCut
  rw [if_neg (show i + 1 ≠ 0 by omega), if_neg (show i ≠ n by omega)]
  unfold HALO at *
  by_cases hfirst : i = 0
  · subst hfirst
    rw [if_pos rfl, if_pos rfl, if_neg (by omega)]
    push_cast at hbehind ⊢
    rw [zero_mul] at hbehind
    omega
  · rw [if_neg hfirst, if_neg hfirst]
    by_cases hlast : i + 1 = n
    · have hcast : (n : Int) = i + 1 := by omega
      rw [if_pos hlast, if_pos hlast]
      rw [hcast, add_mul, one_mul] at hext
      omega
    · rw [if_neg hlast, if_neg hlast]
      push_cast
      rw [add_mul, one_mul]
      omega

theorem procWidth_balanced (hn : 3 ≤ n) (hm : 1 ≤ middleWidth extent n) {i j : Nat} (hi : i < n)
    (hj : j < n) : |procWidth extent n i - procWidth extent n j| ≤ (leftOver extent n + 1) / 2 := by
  have hleft : 0 ≤ leftOver extent n := Int.emod_nonneg _ (by omega)
  rw [procWidth_eq hn hm hi, procWidth_eq hn hm hj, abs_le]
  split_ifs <;> omega

end Splits

def BlockTopo.Owns (t : BlockTopo) (x y : Int) : Prop :=
  t.owned_x_lo ≤ x ∧ x < t.owned_x_hi ∧ t.owned_y_lo ≤ y ∧ y < t.owned_y_hi

/-- The processed rectangle is the owned one with its halo, clipped to the grid. -/
structure BlockTopo.Haloed (t : BlockTopo) (W2 H2 : Int) : Prop where
  x_lo : t.proc_x_lo = max 0 (t.owned_x_lo - HALO)
  x_hi : t.proc_x_hi = min W2 (t.owned_x_hi + HALO)
  y_lo : t.proc_y_lo = max 0 (t.owned_y_lo - HALO)
  y_hi : t.proc_y_hi = min H2 (t.owned_y_hi + HALO)

section Grid

variable {n_blocks nw nh W2 H2 : Nat} {topo : List BlockTopo}

theorem blockTopo_owns {bw bh : Nat} {x y : Int} : (blockTopo W2 H2 nw nh bw bh).Owns x y ↔
    ∃ cx cy : Nat, x = cx ∧ y = cy ∧ InStrip (cut W2 nw) bw cx ∧ InStrip (cut H2 nh) bh cy := by
  constructor
  · rintro ⟨hx, hx', hy, hy'⟩
    dsimp only [blockTopo] at hx hx' hy hy'
    exact ⟨x.toNat, y.toNat, by omega, by omega, ⟨by omega, by omega⟩, by omega, by omega⟩
  · rintro ⟨cx, cy, rfl, rfl, ⟨hx, hx'⟩, hy, hy'⟩
    exact ⟨Int.ofNat_le.mpr hx, Int.ofNat_lt.mpr hx', Int.ofNat_le.mpr hy, Int.ofNat_lt.mpr hy'⟩

theorem gridShape_eq (hn : n_blocks = 2 ∨ n_blocks = 4 ∨ n_blocks = 8) :
    ∃ nw nh, gridShape n_blocks = some (nw, nh) ∧ nw * nh = n_blocks := by
  rcases hn with rfl | rfl | rfl
  · exact ⟨2, 1, rfl, rfl⟩
  · exact ⟨2, 2, rfl, rfl⟩
  · exact ⟨2, 4, rfl, rfl⟩

theorem assertedTopology_ok (hs : gridShape n_blocks = some (nw, nh)) (hmul : nw * nh = n_blocks)
    (ht : gridTopology n_blocks W2 H2 = some topo) :
    assertedTopology n_blocks W2 H2 = .ok topo := by
  obtain ⟨hnw, hnh⟩ := gridShape_strips hs
  have hw : 1 ≤ nw := by rcases hnw with rfl | rfl | rfl <;> decide
  have hh : 1 ≤ nh := by rcases hnh with rfl | rfl | rfl <;> decide
  unfold assertedTopology
  rw [hs]
  dsimp only
  rw [if_neg (not_not.mpr hmul), assertedSplits_ok _ hw, assertedSplits_ok _ hh, ht]
  rfl

theorem topology_owner_unique (hs : gridShape n_blocks = some (nw, nh))
    (ht : gridTopology n_blocks W2 H2 = some topo) {b b' : Nat} {t t' : BlockTopo} {x y : Int}
    (hb : topo[b]? = some t) (hb' : topo[b']? = some t') (ho : t.Owns x y) (ho' : t'.Owns x y) :
    b = b' := by
  rw [(topo_block hs ht hb).2] at ho
  rw [(topo_block hs ht hb').2] at ho'
  obtain ⟨cx, cy, rfl, rfl, hx, hy⟩ := blockTopo_owns.mp ho
  obtain ⟨cx', cy', hcx, hcy, hx', hy'⟩ := blockTopo_owns.mp ho'
  obtain rfl : cx = cx' := by omega
  obtain rfl : cy = cy' := by omega
  exact block_unique (cut_mono _ _) (cut_mono _ _) ⟨hx', hy'⟩ ⟨hx, hy⟩

theorem topology_covers (hs : gridShape n_blocks = some (nw, nh))
    (ht : gridTopology n_blocks W2 H2 = some topo) (x y : Int) :
    (∃ t ∈ topo, t.Owns x y) ↔ 0 ≤ x ∧ x < W2 ∧ 0 ≤ y ∧ y < H2 := by
  obtain ⟨hnw, hnh⟩ := gridShape_strips hs
  constructor
  · rintro ⟨t, hmem, ho⟩
    obtain ⟨b, hb⟩ := List.mem_iff_getElem?.mp hmem
    rw [(topo_block hs ht hb).2] at ho
    obtain ⟨cx, cy, rfl, rfl, hx, hy⟩ := blockTopo_owns.mp ho
    have hxw := hx.2.trans_le (cut_le W2 nw (b / nh + 1))
    have hyh := hy.2.trans_le (cut_le H2 nh (b % nh + 1))
    exact ⟨Int.natCast_nonneg _, Int.ofNat_lt.mpr hxw, Int.natCast_nonneg _, Int.ofNat_lt.mpr hyh⟩
  · rintro ⟨hx, hxw, hy, hyh⟩
    obtain ⟨i, hi, hxi⟩ := exists_strip (f := cut W2 nw) (x := x.toNat) rfl
      (by rw [cut_last hnw]; omega)
    obtain ⟨j, hj, hyj⟩ := exists_strip (f := cut H2 nh) (x := y.toNat) rfl
      (by rw [cut_last hnh]; omega)
    obtain ⟨b, hb, hdiv, hmod⟩ := exists_block hi hj
    have hget := gridTopology_getElem? hs ht b
    rw [if_pos hb, hdiv, hmod] at hget
    refine ⟨_, List.mem_of_getElem? hget, blockTopo_owns.mpr ⟨x.toNat, y.toNat, ?_, ?_, hxi, hyj⟩⟩
    · omega
    · omega

/-- The width and the height that a block processes are those of its strips. -/
theorem topology_widths (hs : gridShape n_blocks = some (nw, nh))
    (ht : gridTopology n_blocks W2 H2 = some topo) {t : BlockTopo} (hmem : t ∈ topo) :
    ∃ i < nw, ∃ j < nh, t.proc_x_hi - t.proc_x_lo = procWidth W2 nw i ∧
      t.proc_y_hi - t.proc_y_lo = procWidth H2 nh j := by
  obtain ⟨hnw, hnh⟩ := gridShape_strips hs
  obtain ⟨b, hb⟩ := List.mem_iff_getElem?.mp hmem
  obtain ⟨hi, hj⟩ := block_index_lt hs ht hb
  refine ⟨b / nh, hi, b % nh, hj, ?_, ?_⟩
  · rw [(topo_block hs ht hb).2, procWidth, balancedSplits_getD hnw W2 hi,
      balancedSplits_getD hnw W2 hi.le]
    rfl
  · rw [(topo_block hs ht hb).2, procWidth, balancedSplits_getD hnh H2 hj,
      balancedSplits_getD hnh H2 hj.le]
    rfl

theorem gridTopology_tiles (hn : n_blocks = 2 ∨ n_blocks = 4 ∨ n_blocks = 8) (W2 H2 : Nat) :
    ∃ nw nh topo, gridShape n_blocks = some (nw, nh) ∧ assertedTopology n_blocks W2 H2 = .ok topo ∧
      topo.length = n_blocks ∧
      (∀ (b b' : Nat) (t t' : BlockTopo) (x y : Int), topo[b]? = some t → topo[b']? = some t' →
        t.Owns x y → t'.Owns x y → b = b') ∧
      (∀ x y, (∃ t ∈ topo, t.Owns x y) ↔ 0 ≤ x ∧ x < W2 ∧ 0 ≤ y ∧ y < H2) ∧
      (∀ t ∈ topo, t.Haloed W2 H2) ∧
      (3 ≤ nw → 1 ≤ (W2 - 2 * HALO) / nw → ∀ t ∈ topo, ∀ t' ∈ topo,
        |(t.proc_x_hi - t.proc_x_lo) - (t'.proc_x_hi - t'.proc_x_lo)| ≤
          ((W2 - 2 * HALO) % nw + 1) / 2) ∧
      (3 ≤ nh → 1 ≤ (H2 - 2 * HALO) / nh → ∀ t ∈ topo, ∀ t' ∈ topo,
        |(t.proc_y_hi - t.proc_y_lo) - (t'.proc_y_hi - t'.proc_y_lo)| ≤
          ((H2 - 2 * HALO) % nh + 1) / 2) := by
  obtain ⟨nw, nh, hs, hmul⟩ := gridShape_eq hn
  obtain ⟨topo, ht⟩ : ∃ topo, gridTopology n_blocks W2 H2 = some topo := by
    simp [gridTopology, hs]
  refine ⟨nw, nh, topo, hs, assertedTopology_ok hs hmul ht, ?_, fun b b' t t' x y hb hb' =>
    topology_owner_unique hs ht hb hb', topology_covers hs ht, fun t hmem => ?_,
    fun h3 hm t hmem t' hmem' => ?_, fun h3 hm t hmem t' hmem' => ?_⟩
  · simp only [gridTopology, hs, Option.map_some, Option.some.injEq] at ht
    rw [← ht, ← hmul]
    simp
  · obtain ⟨b, hb⟩ := List.mem_iff_getElem?.mp hmem
    rw [(topo_block hs ht hb).2]
    exact ⟨rfl, rfl, rfl, rfl⟩
  · obtain ⟨i, hi, -, -, hw, -⟩ := topology_widths hs ht hmem
    obtain ⟨i', hi', -, -, hw', -⟩ := topology_widths hs ht hmem'
    rw [hw, hw']
    exact procWidth_balanced h3 hm hi hi'
  · obtain ⟨-, -, j, hj, -, hw⟩ := topology_widths hs ht hmem
    obtain ⟨-, -, j', hj', -, hw'⟩ := topology_widths hs ht hmem'
    rw [hw, hw']
    exact procWidth_balanced h3 hm hj hj'

theorem gridTopology_tiles_eight : ∃ topo, assertedTopology 8 160 122 = .ok topo ∧
    topo.length = 8 ∧ ∀ t ∈ topo, t.Haloed 160 122 := by
  obtain ⟨-, -, topo, -, hok, hlen, -, -, hhalo, -⟩ :=
    gridTopology_tiles (.inr (.inr rfl)) 160 122
  exact ⟨topo, hok, hlen, hhalo⟩

end Grid

end SslaRt
