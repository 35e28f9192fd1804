import SslaRt.CellMemory
import Mathlib.Tactic.IntervalCases
import Mathlib.Tactic.Ring

/-! The cells a layer visits for one event: the event's own cell, or its
3x3 neighbourhood clipped to the grid, with the weight index `delta`. -/

namespace SslaRt

open CellMemory

def Interior (ev_x ev_y Hl Wl : Nat) : Prop :=
  0 < ev_x ∧ ev_x + 1 < Wl ∧ 0 < ev_y ∧ ev_y + 1 < Hl

instance (ev_x ev_y Hl Wl : Nat) : Decidable (Interior ev_x ev_y Hl Wl) :=
  inferInstanceAs (Decidable (_ ∧ _))

def interiorPatch (ev_x ev_y Wl : Nat) : List (Nat × Nat) :=
  let base := ev_y * Wl + ev_x
  [(base - Wl - 1, 8), (base - Wl, 7), (base - Wl + 1, 6),
    (base - 1, 5), (base, 4), (base + 1, 3),
    (base + Wl - 1, 2), (base + Wl, 1), (base + Wl + 1, 0)]

def boundaryPatch (ev_x ev_y Hl Wl : Nat) : List (Nat × Nat) :=
  [-1, 0, 1].flatMap fun dy : Int =>
    let py : Int := ev_y + dy
    if py < 0 ∨ py ≥ Hl then [] else
      [-1, 0, 1].filterMap fun dx : Int =>
        let px : Int := ev_x + dx
        if px < 0 ∨ px ≥ Wl then none else
          let delta := (1 - dy) * 3 + (1 - dx)
          some ((py * Wl + px).toNat, delta.toNat)

/-- The patches of one event in the order the layer processes them. -/
def patchOrder (num_pos ev_x ev_y Hl Wl : Nat) : List (Nat × Nat) :=
  if num_pos = 1 then [(ev_y * Wl + ev_x, 0)]
  else if Interior ev_x ev_y Hl Wl then interiorPatch ev_x ev_y Wl
  else boundaryPatch ev_x ev_y Hl Wl

/-- The cell at offset `(dy, dx) = (1 - delta / 3, 1 - delta % 3)`, if it is in the grid. -/
def neighbour (ev_x ev_y Hl Wl delta : Nat) : Option (Nat × Nat) :=
  if delta / 3 ≤ ev_y + 1 ∧ ev_y + 1 - delta / 3 < Hl ∧
      delta % 3 ≤ ev_x + 1 ∧ ev_x + 1 - delta % 3 < Wl then
    some ((ev_y + 1 - delta / 3) * Wl + (ev_x + 1 - delta % 3), delta)
  else none

def neighbours (ev_x ev_y Hl Wl : Nat) : List (Nat × Nat) :=
  [8, 7, 6, 5, 4, 3, 2, 1, 0].filterMap (neighbour ev_x ev_y Hl Wl)

theorem rowMajor_inj {W py px qy qx : Nat} (hp : px < W) (hq : qx < W)
    (h : py * W + px = qy * W + qx) : py = qy ∧ px = qx := by
  have hW : 0 < W := by omega
  have hdiv := congrArg (· / W) h
  have hmod := congrArg (· % W) h
  simp only [Nat.add_comm _ px, Nat.add_comm _ qx, Nat.add_mul_div_right _ _ hW,
    Nat.add_mul_mod_self_right, Nat.div_eq_of_lt hp, Nat.div_eq_of_lt hq,
    Nat.mod_eq_of_lt hp, Nat.mod_eq_of_lt hq] at hdiv hmod
  omega

theorem boundary_row_eq (ev_y Hl : Nat) (dy : Int) (g : Int → Option (Nat × Nat)) :
    (if (ev_y : Int) + dy < 0 ∨ (ev_y : Int) + dy ≥ Hl then [] else
        ([-1, 0, 1] : List Int).filterMap g) =
      ([-1, 0, 1] : List Int).filterMap (fun dx =>
        if (ev_y : Int) + dy < 0 ∨ (ev_y : Int) + dy ≥ Hl then none else g dx) := by
  split <;> simp

theorem boundary_cell_eq (ev_x ev_y Hl Wl delta : Nat) {dy dx : Int}
    (hdy : dy = 1 - (delta / 3 : Nat)) (hdx : dx = 1 - (delta % 3 : Nat)) :
    (if (ev_y : Int) + dy < 0 ∨ (ev_y : Int) + dy ≥ Hl then none else
      if (ev_x : Int) + dx < 0 ∨ (ev_x : Int) + dx ≥ Wl then none else
        some ((((ev_y : Int) + dy) * Wl + ((ev_x : Int) + dx)).toNat,
          ((1 - dy) * 3 + (1 - dx)).toNat)) =
      neighbour ev_x ev_y Hl Wl delta := by
  unfold neighbour
  by_cases hy : delta / 3 ≤ ev_y + 1 ∧ ev_y + 1 - delta / 3 < Hl
  · by_cases hx : delta % 3 ≤ ev_x + 1 ∧ ev_x + 1 - delta % 3 < Wl
    · have ey : (ev_y : Int) + dy = (ev_y + 1 - delta / 3 : Nat) := by omega
      have ex : (ev_x : Int) + dx = (ev_x + 1 - delta % 3 : Nat) := by omega
      have hd : ((1 - dy) * 3 + (1 - dx)).toNat = delta := by omega
      rw [ey, ex, hd, if_neg (by omega), if_neg (by omega), if_pos ⟨hy.1, hy.2, hx.1, hx.2⟩,
        ← Int.natCast_mul, ← Int.natCast_add, Int.toNat_natCast]
    · rw [if_neg (by omega : ¬ ((ev_y : Int) + dy < 0 ∨ _)), if_pos (by omega),
        if_neg (fun h => hx ⟨h.2.2.1, h.2.2.2⟩)]
  · rw [if_pos (by omega), if_neg (fun h => hy ⟨h.1, h.2.1⟩)]

theorem boundaryPatch_eq (ev_x ev_y Hl Wl : Nat) :
    boundaryPatch ev_x ev_y Hl Wl = neighbours ev_x ev_y Hl Wl := by
  have hn : ([8, 7, 6, 5, 4, 3, 2, 1, 0] : List Nat) = [8, 7, 6] ++ [5, 4, 3] ++ [2, 1, 0] := rfl
  have hrow : ∀ (dy : Int) (a b c : Nat), dy = 1 - (a / 3 : Nat) → b / 3 = a / 3 → c / 3 = a / 3 →
      a % 3 = 2 → b % 3 = 1 → c % 3 = 0 →
      (if (ev_y : Int) + dy < 0 ∨ (ev_y : Int) + dy ≥ Hl then [] else
        ([-1, 0, 1] : List Int).filterMap fun dx : Int =>
          if (ev_x : Int) + dx < 0 ∨ (ev_x : Int) + dx ≥ Wl then none else
            some ((((ev_y : Int) + dy) * Wl + ((ev_x : Int) + dx)).toNat,
              ((1 - dy) * 3 + (1 - dx)).toNat)) =
        [a, b, c].filterMap (neighbour ev_x ev_y Hl Wl) := by
    intro dy a b c hdy hb hc ha hb' hc'
    rw [boundary_row_eq]
    simp only [List.filterMap_cons, List.filterMap_nil]
    rw [boundary_cell_eq ev_x ev_y Hl Wl a hdy (by omega),
      boundary_cell_eq ev_x ev_y Hl Wl b (by omega) (by omega),
      boundary_cell_eq ev_x ev_y Hl Wl c (by omega) (by omega)]
  rw [neighbours, hn, List.filterMap_append, List.filterMap_append,
    ← hrow (-1) 8 7 6 rfl rfl rfl rfl rfl rfl, ← hrow 0 5 4 3 rfl rfl rfl rfl rfl rfl,
    ← hrow 1 2 1 0 rfl rfl rfl rfl rfl rfl]
  simp only [boundaryPatch, List.flatMap_cons, List.flatMap_nil, List.append_nil, List.append_assoc]

theorem neighbour_interior {ev_x ev_y Hl Wl delta : Nat} (h : Interior ev_x ev_y Hl Wl)
    (hd : delta < 9) : neighbour ev_x ev_y Hl Wl delta =
      some ((ev_y + 1 - delta / 3) * Wl + (ev_x + 1 - delta % 3), delta) := by
  obtain ⟨hx, hxw, hy, hyh⟩ := h
  exact if_pos (by omega)

theorem interiorPatch_eq {ev_x ev_y Hl Wl : Nat} (h : Interior ev_x ev_y Hl Wl) :
    interiorPatch ev_x ev_y Wl = neighbours ev_x ev_y Hl Wl := by
  have hn : ∀ d < 9, neighbour ev_x ev_y Hl Wl d =
      some ((ev_y + 1 - d / 3) * Wl + (ev_x + 1 - d % 3), d) :=
    fun d hd => neighbour_interior h hd
  obtain ⟨hx, -, hy, -⟩ := h
  obtain ⟨x, rfl⟩ := Nat.exists_eq_succ_of_ne_zero hx.ne'
  obtain ⟨y, rfl⟩ := Nat.exists_eq_succ_of_ne_zero hy.ne'
  simp only [interiorPatch, neighbours, List.filterMap_cons, List.filterMap_nil,
    hn 8 (by omega), hn 7 (by omega), hn 6 (by omega), hn 5 (by omega), hn 4 (by omega),
    hn 3 (by omega), hn 2 (by omega), hn 1 (by omega), hn 0 (by omega)]
  have e0 : (y + 1) * Wl = y * Wl + Wl := by ring
  have e1 : (y + 1 + 1) * Wl = y * Wl + Wl + Wl := by ring
  simp only [Nat.succ_eq_add_one, Nat.reduceDiv, Nat.reduceMod, Nat.add_sub_cancel, Nat.sub_zero,
    e0, e1, show y + 1 + 1 - 2 = y by omega, show x + 1 + 1 - 2 = x by omega,
    List.cons.injEq, Prod.mk.injEq, and_true, true_and]
  omega

theorem patchOrder_eq {num_pos : Nat} (hp : num_pos ≠ 1) (ev_x ev_y Hl Wl : Nat) :
    patchOrder num_pos ev_x ev_y Hl Wl = neighbours ev_x ev_y Hl Wl := by
  unfold patchOrder
  rw [if_neg hp]
  split
  · next h => exact interiorPatch_eq h
  · exact boundaryPatch_eq ev_x ev_y Hl Wl

theorem neighbour_eq_some {ev_x ev_y Hl Wl delta c d : Nat} :
    neighbour ev_x ev_y Hl Wl delta = some (c, d) ↔
      d = delta ∧ c = (ev_y + 1 - delta / 3) * Wl + (ev_x + 1 - delta % 3) ∧
      delta / 3 ≤ ev_y + 1 ∧ ev_y + 1 - delta / 3 < Hl ∧
      delta % 3 ≤ ev_x + 1 ∧ ev_x + 1 - delta % 3 < Wl := by
  unfold neighbour
  split
  · next h => simp [h, eq_comm, and_comm]
  · next h => simp [h]

theorem neighbour_cell_inj {ev_x ev_y Hl Wl d d' c e e' : Nat}
    (h : neighbour ev_x ev_y Hl Wl d = some (c, e))
    (h' : neighbour ev_x ev_y Hl Wl d' = some (c, e')) : d = d' := by
  obtain ⟨-, hc, hy, -, hx, hxw⟩ := neighbour_eq_some.mp h
  obtain ⟨-, hc', hy', -, hx', hxw'⟩ := neighbour_eq_some.mp h'
  have hh := rowMajor_inj hxw hxw' (hc.symm.trans hc')
  omega

theorem cells_filterMap_nodup {l : List Nat} (hl : l.Nodup) (ev_x ev_y Hl Wl : Nat) :
    (cells (l.filterMap (neighbour ev_x ev_y Hl Wl))).Nodup := by
  have hh : cells (l.filterMap (neighbour ev_x ev_y Hl Wl)) =
      l.filterMap (fun d => (neighbour ev_x ev_y Hl Wl d).map Prod.fst) := by
    rw [cells, List.map_filterMap]
  rw [hh]
  refine hl.filterMap (fun d d' c hd hd' => ?_)
  obtain ⟨⟨i, e⟩, he, rfl⟩ := Option.map_eq_some_iff.mp (Option.mem_def.mp hd)
  obtain ⟨⟨i', e'⟩, he', hi⟩ := Option.map_eq_some_iff.mp (Option.mem_def.mp hd')
  simp only at hi
  subst hi
  exact neighbour_cell_inj he he'

theorem neighbours_nodup (ev_x ev_y Hl Wl : Nat) : (cells (neighbours ev_x ev_y Hl Wl)).Nodup :=
  cells_filterMap_nodup (by decide) ev_x ev_y Hl Wl

theorem patchOrder_nodup {ev_x ev_y Hl Wl : Nat} (num_pos : Nat) :
    (cells (patchOrder num_pos ev_x ev_y Hl Wl)).Nodup := by
  by_cases hpos : num_pos = 1
  · rw [patchOrder, if_pos hpos]
    exact List.nodup_singleton _
  · rw [patchOrder_eq hpos]
    exact neighbours_nodup ev_x ev_y Hl Wl

theorem mem_cells_neighbours {c ev_x ev_y Hl Wl : Nat} :
    c ∈ cells (neighbours ev_x ev_y Hl Wl) ↔
      ∃ py px, c = py * Wl + px ∧ py < Hl ∧ px < Wl ∧
        py ≤ ev_y + 1 ∧ ev_y ≤ py + 1 ∧ px ≤ ev_x + 1 ∧ ev_x ≤ px + 1 := by
  constructor
  · intro h
    obtain ⟨⟨i, d⟩, hd, rfl⟩ := List.mem_map.mp h
    obtain ⟨e, he, hn⟩ := List.mem_filterMap.mp hd
    obtain ⟨-, hc, hy, hyh, hx, hxw⟩ := neighbour_eq_some.mp hn
    have he9 : e < 9 := by
      simp only [List.mem_cons, List.not_mem_nil, or_false] at he
      omega
    exact ⟨_, _, hc, hyh, hxw, by omega, by omega, by omega, by omega⟩
  · rintro ⟨py, px, rfl, hpy, hpx, hy, hy', hx, hx'⟩
    refine List.mem_map.mpr ⟨(py * Wl + px, (ev_y + 1 - py) * 3 + (ev_x + 1 - px)), ?_, rfl⟩
    refine List.mem_filterMap.mpr ⟨(ev_y + 1 - py) * 3 + (ev_x + 1 - px), ?_, ?_⟩
    · simp only [List.mem_cons, List.not_mem_nil, or_false]
      omega
    · have e1 : ev_y + 1 - ((ev_y + 1 - py) * 3 + (ev_x + 1 - px)) / 3 = py := by omega
      have e2 : ev_x + 1 - ((ev_y + 1 - py) * 3 + (ev_x + 1 - px)) % 3 = px := by omega
      exact neighbour_eq_some.mpr ⟨rfl, by rw [e1, e2], by omega, by omega, by omega, by omega⟩

end SslaRt
