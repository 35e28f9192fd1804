import SslaRt.ProbePipeline
import SslaRt.CelledLayer
import SslaRt.Topology
import SslaRt.Scan

/-! Whether the coordinates of an event stay inside the grids: the event is
halved at every pool, the grid of a stage is the full grid divided once. -/

namespace SslaRt

open CellMemory

/-- The height and width that `load` takes from the metadata. The strides of
the last stage divide by an eighth of them, which must not be zero. -/
def loadGeometry (height width : Int) : Option (Nat × Nat) :=
  let H_ := if height > 0 then height.toNat else 240
  let W_ := if width > 0 then width.toNat else 304
  if H_ / 8 = 0 ∨ W_ / 8 = 0 then none else some (H_, W_)

theorem loadGeometry_bounds {height width : Int} {H_ W_ : Nat}
    (h : loadGeometry height width = some (H_, W_)) : 8 ≤ H_ ∧ 8 ≤ W_ := by
  unfold loadGeometry at h
  generalize (if height > 0 then height.toNat else 240) = hh at h
  generalize (if width > 0 then width.toNat else 304) = ww at h
  dsimp only at h
  split_ifs at h
  cases h
  omega

/-- An index expression is computed in 32 bits. -/
def int32 (n : Nat) : Int := Int.bmod n (2 ^ 32)

def InRange (H W : Nat) (idx : Int) : Prop := 0 ≤ idx ∧ idx < (H * W : Nat)

def DenotesCell (H W x y : Nat) (idx : Int) : Prop :=
  InRange H W idx ∧ idx % W = x ∧ idx / W = y

structure Visit where
  stage : Nat
  ev_x : Nat
  ev_y : Nat

namespace SslaSPipeline

variable {R : Type*} (P : SslaSPipeline R)

/-- The stages that an event reaches, each with its coordinates there, when
`left` pools are still ahead of it. -/
def eventVisits : Nat → PipeState R → Nat → Nat → PipeState R × List Visit
  | 0, s, ev_x, ev_y => (s, [⟨3, ev_x, ev_y⟩])
  | left + 1, s, ev_x, ev_y =>
    let stage := 2 - left
    let d := P.tdropAndPool s stage ev_x ev_y
    if d.pass then
      let r := eventVisits left d.state d.ev_x d.ev_y
      (r.1, ⟨stage, ev_x, ev_y⟩ :: r.2)
    else (d.state, [⟨stage, ev_x, ev_y⟩])

/-- The visit of an event at `(x, y)` is inside the grid of its stage, its
layers touch cells of this grid, and the dropout after it counts at the cell
of the event in the next grid. -/
structure VisitSafe (x y : Nat) (v : Visit) : Prop where
  pooled : v.ev_x = x / 2 ^ v.stage ∧ v.ev_y = y / 2 ^ v.stage
  inside : v.ev_x < P.Ws_ v.stage ∧ v.ev_y < P.Hs_ v.stage
  center : DenotesCell (P.Hs_ v.stage) (P.Ws_ v.stage) v.ev_x v.ev_y
    (int32 (v.ev_y * P.Ws_ v.stage + v.ev_x))
  patches : ∀ l < 2, ∀ c ∈ cells (patchOrder (P.layers_ (2 * v.stage + l)).num_pos v.ev_x v.ev_y
    (P.Hs_ v.stage) (P.Ws_ v.stage)), InRange (P.Hs_ v.stage) (P.Ws_ v.stage) (int32 c)
  counter : v.stage < 3 → DenotesCell (P.Hs_ (v.stage + 1)) (P.Ws_ (v.stage + 1)) (v.ev_x / 2)
    (v.ev_y / 2) (int32 (v.ev_y / 2 * P.Ws_ (v.stage + 1) + v.ev_x / 2))

/-- The kernel counts at `(evx, evy)` and updates the cells around it; `(cx, cy)` is the
cell that it should be about. -/
structure KernelSafe (Hl Wl cx cy evx evy : Nat) : Prop where
  counter : DenotesCell Hl Wl cx cy (int32 (evy * Wl + evx))
  patches : ∀ (w : Fin N_WARPS) (c d : Nat), patchTask Hl Wl w evx evy = some (c, d) →
    InRange Hl Wl (int32 c)

/-- A record is pushed only if its s2 cell is inside the attached grid; its coordinates
are 16 bits wide. -/
def GpuSafe (H_full W_full x y : Nat) : Prop :=
  let H2 := H_full / 4
  let W2 := W_full / 4
  let s2x := x / 2 / 2
  let s2y := y / 2 / 2
  let evx := (UInt16.ofNat s2x).toNat
  let evy := (UInt16.ofNat s2y).toNat
  s2x < W2 ∧ s2y < H2 →
    KernelSafe H2 W2 s2x s2y evx evy ∧
      KernelSafe (H2 / 2) (W2 / 2) (s2x / 2) (s2y / 2) (evx >>> 1) (evy >>> 1)

/-- Every event of every run after a reset stays inside the grids of the
stages it reaches, and the record of it inside the grids of the kernel. -/
def GeometrySafe [CommRing R] : Prop :=
  ∀ events : List (Nat × Nat), (∀ e ∈ events, e.1 < P.W_ ∧ e.2 < P.H_) →
    ∀ p ∈ Scan.visits (fun s e => P.eventVisits 3 s e.1 e.2) reset events,
      (∀ v ∈ (P.eventVisits 3 p.1 p.2.1 p.2.2).2, P.VisitSafe p.2.1 p.2.2 v) ∧
        GpuSafe P.H_ P.W_ p.2.1 p.2.2

end SslaSPipeline

theorem int32_of_lt {n : Nat} (h : n < 2 ^ 31) : int32 n = n := by
  have hsmall : (n : Int) < 2 ^ 31 := by exact_mod_cast h
  exact Int.bmod_eq_of_le (by omega) (by omega)

theorem lt_of_int32 {n : Nat} (h : int32 n = n) : n < 2 ^ 31 := by
  have hlt := Int.bmod_lt (x := n) (m := 4294967296) (by decide)
  have hmod : Int.bmod n 4294967296 = n := h
  rw [hmod] at hlt
  omega

theorem rowMajor_lt {H W x y : Nat} (hx : x < W) (hy : y < H) : y * W + x < H * W :=
  calc y * W + x < y * W + W := Nat.add_lt_add_left hx _
    _ = (y + 1) * W := (Nat.succ_mul y W).symm
    _ ≤ H * W := Nat.mul_le_mul_right W hy

theorem inRange_int32 {H W c : Nat} (hsmall : H * W ≤ 2 ^ 31) (hc : c < H * W) :
    InRange H W (int32 c) := by
  rw [int32_of_lt (hc.trans_le hsmall)]
  exact ⟨Int.natCast_nonneg c, Int.ofNat_lt.mpr hc⟩

theorem denotesCell_int32 {H W x y : Nat} (hsmall : H * W ≤ 2 ^ 31) (hx : x < W) (hy : y < H) :
    DenotesCell H W x y (int32 (y * W + x)) := by
  have hlt := rowMajor_lt hx hy
  obtain ⟨hdiv, hmod⟩ := rowMajor_div_mod y hx
  refine ⟨inRange_int32 hsmall hlt, ?_⟩
  rw [int32_of_lt (hlt.trans_le hsmall)]
  exact ⟨by rw [← Int.natCast_emod, hmod], by rw [← Int.natCast_ediv, hdiv]⟩

theorem eq_of_denotesCell {H W x y : Nat} {idx : Int} (h : DenotesCell H W x y idx) :
    idx = y * W + x := by
  obtain ⟨-, hmod, hdiv⟩ := h
  rw [← hmod, ← hdiv, Int.mul_comm, Int.mul_ediv_add_emod]

theorem cells_patchOrder_lt {num_pos Hl Wl ev_x ev_y c : Nat} (hx : ev_x < Wl) (hy : ev_y < Hl)
    (hc : c ∈ cells (patchOrder num_pos ev_x ev_y Hl Wl)) : c < Hl * Wl := by
  by_cases hp : num_pos = 1
  · rw [patchOrder, if_pos hp] at hc
    obtain rfl : c = ev_y * Wl + ev_x := List.mem_singleton.mp hc
    exact rowMajor_lt hx hy
  · rw [patchOrder_eq hp] at hc
    obtain ⟨py, px, rfl, hpy, hpx, -⟩ := mem_cells_neighbours.mp hc
    exact rowMajor_lt hpx hpy

theorem kernelSafe_of_inside {Hl Wl evx evy : Nat} (hsmall : Hl * Wl ≤ 2 ^ 31) (hx : evx < Wl)
    (hy : evy < Hl) : SslaSPipeline.KernelSafe Hl Wl evx evy evx evy where
  counter := denotesCell_int32 hsmall hx hy
  patches := by
    intro w c d h
    rw [patchTask_eq] at h
    obtain ⟨-, rfl, -, hpy, -, hpx⟩ := neighbour_eq_some.mp h
    exact inRange_int32 hsmall (rowMajor_lt hpx hpy)

theorem div_lt_div_of_dvd {n W x : Nat} (hd : n ∣ W) (hx : x < W) : x / n < W / n := by
  obtain ⟨k, rfl⟩ := hd
  have hn : 0 < n := Nat.pos_of_mul_pos_right (by omega : 0 < n * k)
  rw [Nat.mul_div_cancel_left k hn]
  exact Nat.div_lt_of_lt_mul hx

theorem toNat_ofNat_of_lt {n : Nat} (h : n < 2 ^ 16) : (UInt16.ofNat n).toNat = n := by
  rw [UInt16.toNat_ofNat']
  exact Nat.mod_eq_of_lt h

namespace SslaSPipeline

variable {R : Type*} (P : SslaSPipeline R)

theorem grid_le (stage : Nat) : P.Hs_ stage * P.Ws_ stage ≤ P.H_ * P.W_ :=
  Nat.mul_le_mul (Nat.div_le_self _ _) (Nat.div_le_self _ _)

theorem half_pow (x s : Nat) : x / 2 ^ s / 2 = x / 2 ^ (s + 1) := by
  rw [Nat.div_div_eq_div_mul, Nat.pow_succ]

theorem eventVisits_coords {x y left : Nat} (hl : left ≤ 3) (s : PipeState R) :
    ∀ v ∈ (P.eventVisits left s (x / 2 ^ (3 - left)) (y / 2 ^ (3 - left))).2,
      v.stage ≤ 3 ∧ v.ev_x = x / 2 ^ v.stage ∧ v.ev_y = y / 2 ^ v.stage := by
  induction left generalizing s with
  | zero =>
    intro v hv
    obtain rfl := List.mem_singleton.mp hv
    exact ⟨le_rfl, rfl, rfl⟩
  | succ left ih =>
    intro v hv
    have hstage : 3 - (left + 1) = 2 - left := by omega
    have hnext : 2 - left + 1 = 3 - left := by omega
    simp only [eventVisits, hstage] at hv
    split at hv
    · rcases List.mem_cons.mp hv with rfl | hrest
      · exact ⟨(Nat.sub_le 2 left).trans (by decide), rfl, rfl⟩
      · have hpool : ∀ z, z / 2 ^ (2 - left) / 2 = z / 2 ^ (3 - left) := by
          intro z
          rw [half_pow, hnext]
        simp only [tdropAndPool, if_neg (by omega : ¬ 2 - left > 2), hpool] at hrest
        exact ih (by omega) _ v hrest
    · obtain rfl := List.mem_singleton.mp hv
      exact ⟨(Nat.sub_le 2 left).trans (by decide), rfl, rfl⟩

theorem visitSafe_of_inside {x y : Nat} {v : Visit} (hsmall : P.H_ * P.W_ ≤ 2 ^ 31)
    (hpooled : v.ev_x = x / 2 ^ v.stage ∧ v.ev_y = y / 2 ^ v.stage)
    (hin : ∀ s ≤ v.stage + 1, s ≤ 3 → x / 2 ^ s < P.Ws_ s ∧ y / 2 ^ s < P.Hs_ s)
    (hs : v.stage ≤ 3) : P.VisitSafe x y v := by
  obtain ⟨hx, hy⟩ := hin v.stage (Nat.le_succ _) hs
  rw [← hpooled.1] at hx
  rw [← hpooled.2] at hy
  have hsmall' : ∀ s, P.Hs_ s * P.Ws_ s ≤ 2 ^ 31 := fun s => (P.grid_le s).trans hsmall
  refine ⟨hpooled, ⟨hx, hy⟩, denotesCell_int32 (hsmall' _) hx hy, fun l _ c hc => ?_,
    fun hlt => ?_⟩
  · exact inRange_int32 (hsmall' _) (cells_patchOrder_lt hx hy hc)
  · obtain ⟨hx', hy'⟩ := hin (v.stage + 1) le_rfl hlt
    rw [hpooled.1, hpooled.2, half_pow, half_pow]
    exact denotesCell_int32 (hsmall' _) hx' hy'

/-- The first event after a reset passes every dropout. -/
theorem eventVisits_last {left ev_x ev_y : Nat} (hl : left ≤ 3) {s : PipeState R}
    (hzero : ∀ stage, 3 - left ≤ stage → s.tdrop_counter_ stage = fun _ => 0) :
    ⟨3, ev_x / 2 ^ left, ev_y / 2 ^ left⟩ ∈ (P.eventVisits left s ev_x ev_y).2 := by
  induction left generalizing s ev_x ev_y with
  | zero => simp [eventVisits]
  | succ left ih =>
    have hpass : (P.tdropAndPool s (2 - left) ev_x ev_y).pass = true := by
      simp only [tdropAndPool, tdropCheckAt, if_neg (by omega : ¬ 2 - left > 2), tdrop,
        hzero (2 - left) (by omega)]
      split <;> simp
    simp only [eventVisits, if_pos hpass]
    refine List.mem_cons_of_mem _ ?_
    have hx : ∀ z : Nat, z / 2 ^ (left + 1) = z / 2 / 2 ^ left := by
      intro z
      rw [Nat.pow_succ, Nat.mul_comm, Nat.div_div_eq_div_mul]
    simp only [tdropAndPool, tdropCheckAt, if_neg (by omega : ¬ 2 - left > 2), hx]
    refine ih (by omega) (fun stage hstage => ?_)
    have hne : stage ≠ 2 - left := by omega
    exact (Function.update_of_ne hne _ _).trans (hzero stage (by omega))

theorem eventVisits_head (left : Nat) (s : PipeState R) (ev_x ev_y : Nat) :
    ⟨3 - left, ev_x, ev_y⟩ ∈ (P.eventVisits left s ev_x ev_y).2 := by
  cases left with
  | zero => simp [eventVisits]
  | succ left =>
    have hstage : 3 - (left + 1) = 2 - left := by omega
    simp only [eventVisits, hstage]
    split <;> simp

theorem geometrySafe_of_dvd [CommRing R] (hH : 8 ∣ P.H_) (hW : 8 ∣ P.W_)
    (hsmall : P.H_ * P.W_ ≤ 2 ^ 31) (hW2 : P.W_ / 4 ≤ 2 ^ 16) (hH2 : P.H_ / 4 ≤ 2 ^ 16) :
    P.GeometrySafe := by
  intro events hevents p hp
  have hmem : p.2 ∈ events := by
    obtain ⟨k, hk, rfl⟩ := List.getElem_of_mem hp
    rw [Scan.visits_getElem _ _ _ k (by simpa using hk) hk]
    exact List.getElem_mem _
  obtain ⟨hx, hy⟩ := hevents p.2 hmem
  have hpow : ∀ s ≤ 3, (2 : Nat) ^ s ∣ 8 := fun s hs => Nat.pow_dvd_pow 2 hs
  have hin : ∀ s ≤ 3, p.2.1 / 2 ^ s < P.Ws_ s ∧ p.2.2 / 2 ^ s < P.Hs_ s := fun s hs =>
    ⟨div_lt_div_of_dvd ((hpow s hs).trans hW) hx, div_lt_div_of_dvd ((hpow s hs).trans hH) hy⟩
  constructor
  · intro v hv
    have hc := P.eventVisits_coords (x := p.2.1) (y := p.2.2) (le_refl 3) p.1
    simp only [Nat.sub_self, Nat.pow_zero, Nat.div_one] at hc
    obtain ⟨hs, hpooled⟩ := hc v hv
    exact P.visitSafe_of_inside hsmall hpooled (fun s _ hs' => hin s hs') hs
  · intro hguard
    have hsmall2 : P.H_ / 4 * (P.W_ / 4) ≤ 2 ^ 31 := (P.grid_le 2).trans hsmall
    have hsmall3 : P.H_ / 4 / 2 * (P.W_ / 4 / 2) ≤ 2 ^ 31 :=
      (Nat.mul_le_mul (Nat.div_le_self _ _) (Nat.div_le_self _ _)).trans hsmall2
    rw [toNat_ofNat_of_lt (hguard.1.trans_le hW2), toNat_ofNat_of_lt (hguard.2.trans_le hH2),
      Nat.shiftRight_one, Nat.shiftRight_one]
    refine ⟨kernelSafe_of_inside hsmall2 hguard.1 hguard.2, kernelSafe_of_inside hsmall3 ?_ ?_⟩
    · exact div_lt_div_of_dvd (by omega) hguard.1
    · exact div_lt_div_of_dvd (by omega) hguard.2

/-- On a grid of more than 2^16 columns or rows at the kernel, the cell 2^16 of the first
row or column is taken for the cell 0. -/
theorem gridFits_of_geometrySafe [CommRing R] (hH : 8 ≤ P.H_) (hW : 8 ≤ P.W_)
    (h : P.GeometrySafe) : P.W_ / 4 ≤ 2 ^ 16 ∧ P.H_ / 4 ≤ 2 ^ 16 := by
  have hone : ∀ x y, x < P.W_ → y < P.H_ → GpuSafe P.H_ P.W_ x y := by
    intro x y hx hy
    have hmem : ∀ e ∈ [(x, y)], e.1 < P.W_ ∧ e.2 < P.H_ := by
      intro e he
      obtain rfl := List.mem_singleton.mp he
      exact ⟨hx, hy⟩
    exact (h _ hmem (reset, (x, y)) (List.mem_singleton.mpr rfl)).2
  have hzero : int32 (0 * (P.W_ / 4) + 0) = 0 := by
    rw [Nat.zero_mul]
    exact int32_of_lt (n := 0) (by norm_num)
  constructor
  · by_contra hlt
    have hc := ((hone (4 * 2 ^ 16) 0 (by omega) (by omega)) ⟨by omega, by omega⟩).1.counter
    have hmod : int32 (0 * (P.W_ / 4) + 0) % ((P.W_ / 4 : Nat) : Int) = 2 ^ 16 := hc.2.1
    rw [hzero] at hmod
    simp at hmod
  · by_contra hlt
    have hc := ((hone 0 (4 * 2 ^ 16) (by omega) (by omega)) ⟨by omega, by omega⟩).1.counter
    have hdiv : int32 (0 * (P.W_ / 4) + 0) / ((P.W_ / 4 : Nat) : Int) = 2 ^ 16 := hc.2.2
    rw [hzero] at hdiv
    simp at hdiv

theorem dvd_of_geometrySafe [CommRing R] (hH : 0 < P.H_) (hW : 0 < P.W_) (h : P.GeometrySafe) :
    8 ∣ P.H_ ∧ 8 ∣ P.W_ ∧ P.H_ * P.W_ ≤ 2 ^ 31 := by
  -- one event in the last corner of the grid, right after a reset
  have hbounds : ∀ e ∈ [(P.W_ - 1, P.H_ - 1)], e.1 < P.W_ ∧ e.2 < P.H_ := by
    intro e he
    obtain rfl := List.mem_singleton.mp he
    exact ⟨Nat.sub_lt hW one_pos, Nat.sub_lt hH one_pos⟩
  obtain ⟨hvisits, -⟩ := h _ hbounds (reset, (P.W_ - 1, P.H_ - 1)) (List.mem_singleton.mpr rfl)
  have hfirst := hvisits _ (P.eventVisits_head 3 reset _ _)
  have hlast := hvisits _ (P.eventVisits_last le_rfl (fun _ _ => rfl))
  have hx : (P.W_ - 1) / 8 < P.W_ / 8 := hlast.inside.1
  have hy : (P.H_ - 1) / 8 < P.H_ / 8 := hlast.inside.2
  refine ⟨by omega, by omega, ?_⟩
  have hidx := eq_of_denotesCell hfirst.center
  have hWs : P.Ws_ 0 = P.W_ := Nat.div_one P.W_
  simp only [Nat.sub_self, hWs] at hidx
  have hlt : (P.H_ - 1) * P.W_ + (P.W_ - 1) < 2 ^ 31 := by
    refine lt_of_int32 (hidx.trans ?_)
    push_cast
    rfl
  have hsize : (P.H_ - 1) * P.W_ + P.W_ = P.H_ * P.W_ := by
    rw [← Nat.succ_mul, Nat.succ_eq_add_one, Nat.sub_add_cancel hH]
  omega

/-- The geometry of a loaded pipeline is safe exactly if both extents are
multiples of 8, the number of pixels fits an `int`, and the coordinates of the
kernel's grid fit the 16 bits that a record has for them. -/
theorem geometrySafe_iff [CommRing R] {height width : Int}
    (hload : loadGeometry height width = some (P.H_, P.W_)) :
    P.GeometrySafe ↔ 8 ∣ P.H_ ∧ 8 ∣ P.W_ ∧ P.H_ * P.W_ ≤ 2 ^ 31 ∧
      P.W_ / 4 ≤ 2 ^ 16 ∧ P.H_ / 4 ≤ 2 ^ 16 := by
  obtain ⟨hH8, hW8⟩ := loadGeometry_bounds hload
  constructor
  · intro h
    obtain ⟨hH, hW, hsmall⟩ := P.dvd_of_geometrySafe (by omega) (by omega) h
    exact ⟨hH, hW, hsmall, P.gridFits_of_geometrySafe hH8 hW8 h⟩
  · rintro ⟨hH, hW, hsmall, hW2, hH2⟩
    exact P.geometrySafe_of_dvd hH hW hsmall hW2 hH2

theorem geometrySafe_gen1 : (probePipeline 304 240 4).GeometrySafe :=
  ((probePipeline 304 240 4).geometrySafe_iff (show loadGeometry 240 304 = some (240, 304) from
    rfl)).mpr (by decide)

/-- An event in column 299 of 300 reaches the last stage in column 37, and the
stage has the columns from 0 to 36. -/
theorem not_geometrySafe_width300 : loadGeometry 240 300 = some (240, 300) ∧
    ¬ (probePipeline 300 240 4).GeometrySafe := by
  refine ⟨rfl, fun h => ?_⟩
  obtain ⟨-, hW, -⟩ := dvd_of_geometrySafe _ (by decide) (by decide) h
  revert hW
  decide

end SslaSPipeline

end SslaRt
