import SslaRt.HeadSurvivors
import SslaRt.OnesKernel

/-! For a window whose passes come close together the kernel reaches counters
from which a batch has two predictions for one cell. -/

namespace SslaRt

open Interleave ByteCounter

variable {R : Type*} [CommRing R]

def coldState : S2S3State R := ⟨fun _ => 0, fun _ => 0, fun _ => 0, fun _ => 0, fun _ => 0, fun _ => 0⟩

/-- What a run of the kernel from the start arrives at. -/
def KernelReachable (ar : Arith R) {g : S2Grid} (cfg : CelledConfig R g) (st : S2S3State R) : Prop :=
  ∃ sm batches, st = (celledRun ar cfg coldState sm batches).1

/-- The kernel with the weights of a model, as it is launched. -/
def kernelConfig (layers : S2S3Layers R) (window : Int) (g : S2Grid) (strip : HybridStrip)
    (qvg_l4_sm : Nat → R) : CelledConfig R g :=
  ⟨window, strip, layers.upload.cacheL4 qvg_l4_sm⟩

section Quad

/-- The smallest grid: four s2 cells under one s3 cell. -/
def quadGrid : EvenGrid := ⟨⟨2, 2⟩, rfl, rfl⟩

def quadStrip : HybridStrip := ⟨0, 2, 0, 1, 0, 2, 0, 1⟩

def quadRec (i : Fin 4) : S2Record R quadGrid.toS2Grid where
  x := i % 2
  y := i / 2
  feat1 := fun _ => 0
  x_lt := Nat.mod_lt _ (by decide)
  y_lt := by
    have hi := i.isLt
    show i.val / 2 < 2
    omega

theorem idx2_quadRec (i : Fin 4) : idx2 (quadRec (R := R) i) = i := by
  show i.val / 2 * 2 + i.val % 2 = i
  omega

theorem idx3_quadRec (i : Fin 4) : idx3 (quadRec (R := R) i) = 0 := by
  have hi := i.isLt
  show i.val / 2 / 2 * 1 + i.val % 2 / 2 = 0
  omega

theorem quadRec_owned (i : Fin 4) :
    quadStrip.Owns (quadRec (R := R) i).x (quadRec (R := R) i).y := by
  have hx : (quadRec (R := R) i).x < 2 := (quadRec i).x_lt
  have hy : (quadRec (R := R) i).y < 2 := (quadRec i).y_lt
  refine ⟨?_, ?_, ?_, ?_⟩ <;> dsimp only [quadStrip] <;> omega

theorem quadRec_cell (i : Fin 4) : headCell quadStrip ((quadRec (R := R) i).x / 2 : Nat)
    ((quadRec (R := R) i).y / 2 : Nat) = some 0 := by
  have hx : (quadRec (R := R) i).x < 2 := (quadRec i).x_lt
  have hy : (quadRec (R := R) i).y < 2 := (quadRec i).y_lt
  rw [Nat.div_eq_of_lt hx, Nat.div_eq_of_lt hy]
  rfl

structure Counted (st : S2S3State R) (c : (Nat → Nat) × Nat) : Prop where
  s2 : ∀ i, (st.tdrop_s2 i).toNat = c.1 i % 256
  s3 : (st.tdrop_s3 0).toNat = c.2 % 256

theorem coldState_counted : Counted (R := R) coldState (fun _ => 0, 0) := ⟨fun _ => rfl, rfl⟩

theorem toNat_add_one {c : UInt8} {n : Nat} (h : c.toNat = n % 256) : (c + 1).toNat = (n + 1) % 256 := by
  rw [UInt8.toNat_add, h, UInt8.toNat_one]
  omega

variable (ar : Arith R) (layers : S2S3Layers R) (window : Int)

theorem oracleStep_counted {st : S2S3State R} {c : (Nat → Nat) × Nat} (h : Counted st c)
    (i : Fin 4) : Counted (oracleStep ar layers window st (quadRec i)).1
      (countStep (max 1 window).toNat c i) := by
  have hpass := tdrop_pass_max st.tdrop_s2 window i
  rw [h.s2] at hpass
  constructor
  · intro j
    rw [oracleStep_tdrop_s2, idx2_quadRec]
    dsimp only [countStep]
    by_cases hj : j = i
    · subst hj
      rw [tdrop_self, Function.update_self]
      exact toNat_add_one (h.s2 i)
    · rw [tdrop_of_ne _ _ hj, Function.update_of_ne hj]
      exact h.s2 j
  · rw [oracleStep_tdrop_s3, idx2_quadRec, idx3_quadRec]
    dsimp only [countStep]
    by_cases hp : c.1 i % 256 % (max 1 window).toNat = 0
    · rw [if_pos (hpass.mpr hp), if_pos hp, tdrop_self]
      exact toNat_add_one h.s3
    · rw [if_neg (mt hpass.mp hp), if_neg hp]
      exact h.s3

theorem oracleRun_counted {st : S2S3State R} {c : (Nat → Nat) × Nat} (h : Counted st c)
    (l : List (Fin 4)) : Counted (Scan.final (oracleStep ar layers window) st (l.map quadRec))
      (countRun (max 1 window).toNat c (l.map Fin.val)) := by
  induction l generalizing st c with
  | nil => exact h
  | cons i l ih => exact ih (oracleStep_counted ar layers window h i)

def quadBatch (l : List (Fin 4)) (hpos : 1 ≤ l.length) (hle : l.length ≤ BATCH) :
    Batch R quadGrid.toS2Grid where
  recs := l.map quadRec
  size_pos := by rwa [List.length_map]
  size_le := by rwa [List.length_map]
  sched := BatchSchedule.roundRobin _

def coldSmem : Smem R := ⟨fun _ => ⟨fun _ => 0, fun _ => 0, 0, 0, false⟩, fun _ => false, fun _ => false⟩

/-- The counts of any arrivals are reached, one record to a batch. -/
theorem exists_reachable (qvg_l4_sm : Nat → R) (l : List (Fin 4)) :
    ∃ st, KernelReachable ar (kernelConfig layers window quadGrid.toS2Grid quadStrip qvg_l4_sm) st ∧
      Counted st (countRun (max 1 window).toNat (fun _ => 0, 0) (l.map Fin.val)) := by
  refine ⟨_, ⟨coldSmem, serialBatches (l.map quadRec), rfl⟩, ?_⟩
  have hagree := (celledRun_agrees ar layers
    (kernelConfig layers window quadGrid.toS2Grid quadStrip qvg_l4_sm)
    (layers.upload_represents.cacheL4 qvg_l4_sm) (Agrees.refl _ coldState) coldSmem
    (serialBatches (l.map quadRec))).1
  rw [hagree.eq rfl, serialBatches_recs]
  exact oracleRun_counted ar layers window coldState_counted l

theorem reachesHead {st : S2S3State R} {c : (Nat → Nat) × Nat} (hst : Counted st c) (sm : Smem R)
    (qvg_l4_sm : Nat → R) {b : Batch R quadGrid.toS2Grid} {p q : List (Fin 4)} {i : Fin 4}
    (hb : b.recs = (p ++ i :: q).map quadRec)
    (h2 : (countRun (max 1 window).toNat c (p.map Fin.val)).1 i % 256 % (max 1 window).toNat = 0)
    (h3 : (countRun (max 1 window).toNat c (p.map Fin.val)).2 % 256 % (max 1 window).toNat = 0) :
    let cfg := kernelConfig layers window quadGrid.toS2Grid quadStrip qvg_l4_sm
    let r := (celledBatch ar cfg st sm b).2
    ReachesHead b.recs.length r p.length ∧ eventCell quadStrip r p.length = some 0 := by
  intro cfg r
  have he : p.length < b.recs.length := by
    rw [hb, List.length_map, List.length_append, List.length_cons]
    omega
  have hrec : b.recs[p.length] = quadRec i := by
    simp [hb]
  obtain ⟨howner, hp2, hp3⟩ := batch_flags ar layers cfg st sm b
    (layers.upload_represents.cacheL4 qvg_l4_sm) rfl he
  have hcount : Counted (oracleAt ar layers cfg st b.recs p.length)
      (countRun (max 1 window).toNat c (p.map Fin.val)) := by
    have htake : b.recs.take p.length = p.map quadRec := by
      rw [hb, ← List.map_take, List.take_left]
    rw [oracleAt, htake]
    exact oracleRun_counted ar layers window hst p
  have hpass2 : oraclePass2 ar layers cfg st b.recs p.length he = true := by
    rw [oraclePass2, hrec, idx2_quadRec]
    exact (tdrop_pass_max _ _ _).mpr (by rwa [hcount.s2])
  refine ⟨⟨he, ?_, hp2.trans hpass2, ?_⟩, ?_⟩
  · rw [howner, hrec]
    exact decide_eq_true (quadRec_owned i)
  · rw [hp3, hpass2, Bool.true_and, hrec, idx3_quadRec]
    exact (tdrop_pass_max _ _ _).mpr (by rwa [hcount.s3])
  · have hpool := celledBatch_pooled ar cfg st sm b
    rw [eventCell, hpool.evx _ he, hpool.evy _ he, hrec]
    exact quadRec_cell i

/-- Records that crowd one s3 cell: `r + 1` at one s2 cell, then one at each. -/
def crowd (r : Nat) : List (Fin 4) := List.replicate (r + 1) 1 ++ [1, 0, 2, 3]

theorem crowd_length (r : Nat) : (crowd r).length = r + 5 := by
  rw [crowd, List.length_append, List.length_replicate, List.length_cons]
  rfl

theorem crowd_shared {st : S2S3State R} {c : (Nat → Nat) × Nat} (hst : Counted st c)
    (hc : Crowded (max 1 window).toNat c) (h3 : 255 % (max 1 window).toNat ≤ 3) (sm : Smem R)
    (qvg_l4_sm : Nat → R) {b : Batch R quadGrid.toS2Grid}
    (hb : b.recs = (crowd (255 % (max 1 window).toNat)).map quadRec) :
    SharedCell quadStrip b.recs.length (celledBatch ar
      (kernelConfig layers window quadGrid.toS2Grid quadStrip qvg_l4_sm) st sm b).2 := by
  set r := 255 % (max 1 window).toNat with hr
  have hw : 1 ≤ (max 1 window).toNat := by omega
  -- the first record
  obtain ⟨hfirst, htop⟩ := hc.first_passes
  obtain ⟨hreach, hcell⟩ := reachesHead ar layers window (p := []) (i := 1)
    (q := List.replicate r 1 ++ [1, 0, 2, 3]) hst sm qvg_l4_sm hb hfirst htop
  -- the record that wraps the counter above
  obtain ⟨p, i, q, hsplit, hp⟩ : ∃ p i q, ([1, 0, 2, 3] : List (Fin 4)) = p ++ i :: q ∧ p.length = r := by
    have hlen : r < ([1, 0, 2, 3] : List (Fin 4)).length := Nat.lt_succ_of_le h3
    refine ⟨List.take r [1, 0, 2, 3], [1, 0, 2, 3][r], List.drop (r + 1) [1, 0, 2, 3], ?_, ?_⟩
    · rw [List.getElem_cons_drop, List.take_append_drop]
    · exact (List.length_take ..).trans (Nat.min_eq_left hlen.le)
  have hsplit' : [1, 0, 2, 3] = p.map Fin.val ++ i.val :: q.map Fin.val := by
    rw [← List.map_cons, ← List.map_append, ← hsplit]
    rfl
  obtain ⟨hlater, htop'⟩ := hc.later_passes hw hsplit' ((List.length_map _).trans hp)
  have hpre : (List.replicate (r + 1) (1 : Fin 4) ++ p).map Fin.val =
      List.replicate (r + 1) 1 ++ p.map Fin.val := by
    rw [List.map_append, List.map_replicate]
    rfl
  rw [← hr, ← hpre] at hlater htop'
  have hb' : b.recs = (List.replicate (r + 1) 1 ++ p ++ i :: q).map quadRec := by
    rw [hb, crowd, hsplit, List.append_assoc]
  obtain ⟨hreach', hcell'⟩ := reachesHead ar layers window hst sm qvg_l4_sm hb' hlater htop'
  refine ⟨_, _, 0, ?_, hreach, hreach', hcell, hcell'⟩
  rw [List.length_append, List.length_replicate, List.length_nil]
  omega

theorem exists_shared (qvg_l4_sm : Nat → R) (h3 : 255 % (max 1 window).toNat ≤ 3) :
    let cfg := kernelConfig layers window quadGrid.toS2Grid quadStrip qvg_l4_sm
    ∃ st, KernelReachable ar cfg st ∧ ∃ sm b,
      SharedCell quadStrip b.recs.length (celledBatch ar cfg st sm b).2 := by
  intro cfg
  obtain ⟨n, k, hcrowded⟩ := exists_crowded (max 1 window).toNat
  obtain ⟨st, hreach, hst⟩ := exists_reachable ar layers window qvg_l4_sm
    (List.replicate n 1 ++ List.replicate k 0)
  rw [List.map_append, List.map_replicate, List.map_replicate] at hst
  have hlen := crowd_length (255 % (max 1 window).toNat)
  have hpos : 1 ≤ (crowd (255 % (max 1 window).toNat)).length := by
    rw [hlen]
    exact Nat.le_add_left 1 _
  have hle : (crowd (255 % (max 1 window).toNat)).length ≤ BATCH := by
    rw [hlen]
    exact Nat.add_le_add_right h3 5
  exact ⟨st, hreach, coldSmem, quadBatch _ hpos hle,
    crowd_shared ar layers window hst hcrowded h3 coldSmem qvg_l4_sm rfl⟩

end Quad

/-- Every batch leaves the head of the kernel order-independent, from all
counters that the kernel reaches. -/
def HeadAlwaysOrdered (ar : Arith R) (layers : S2S3Layers R) (head : (Fin C3 → R) → Nat → R)
    (window : Int) : Prop :=
  ∀ (g : EvenGrid) (strip : HybridStrip) (qvg_l4_sm : Nat → R) (st : S2S3State R),
    let cfg := kernelConfig layers window g.toS2Grid strip qvg_l4_sm
    KernelReachable ar cfg st → ∀ (sm : Smem R) (b : Batch R g.toS2Grid),
      HeadOrderIndependent strip head b.recs.length (celledBatch ar cfg st sm b).2

/-- The head writes of a batch are order-independent exactly if no two owned
records survive at one cell, and the kernel never reaches counters where two do
exactly for the windows whose passes stay five apart when the byte wraps. -/
theorem headOrder_iff (ar : Arith R) (layers : S2S3Layers R) (head : (Fin C3 → R) → Nat → R) :
    (∀ (window : Int) (g : EvenGrid) (strip : HybridStrip) (qvg_l4_sm : Nat → R)
      (st : S2S3State R) (sm : Smem R) (b : Batch R g.toS2Grid),
      HeadOrderIndependent strip head b.recs.length (celledBatch ar
        (kernelConfig layers window g.toS2Grid strip qvg_l4_sm) st sm b).2 ↔
      ¬ SharedSurvivors window strip st b.recs) ∧
    ∀ window, HeadAlwaysOrdered ar layers head window ↔ 1 ≤ window ∧ 4 ≤ 255 % window := by
  have hone : ∀ (window : Int) (g : EvenGrid) (strip : HybridStrip) (qvg_l4_sm : Nat → R)
      (st : S2S3State R) (sm : Smem R) (b : Batch R g.toS2Grid),
      HeadOrderIndependent strip head b.recs.length (celledBatch ar
        (kernelConfig layers window g.toS2Grid strip qvg_l4_sm) st sm b).2 ↔
      ¬ SharedSurvivors window strip st b.recs := by
    intro window g strip qvg_l4_sm st sm b
    refine (orderIndependent_iff (Nat.le_succ_of_le b.size_le) _ ⟨fun _ _ => 0, fun _ => 0, fun _ => 0⟩).trans ?_
    exact not_congr (sharedCell_iff ar layers
      (kernelConfig layers window g.toS2Grid strip qvg_l4_sm) st sm b
      (layers.upload_represents.cacheL4 qvg_l4_sm) g.W2_even)
  refine ⟨hone, fun window => ?_⟩
  have hwindow : 1 ≤ window ∧ 4 ≤ 255 % window ↔ 4 ≤ 255 % (max 1 window).toNat := by
    by_cases h1 : 1 ≤ window
    · obtain ⟨w, rfl⟩ := Int.eq_ofNat_of_zero_le (by omega : 0 ≤ window)
      rw [max_eq_right h1, Int.toNat_natCast]
      constructor
      · exact fun h => by exact_mod_cast h.2
      · exact fun h => ⟨h1, by exact_mod_cast h⟩
    · rw [max_eq_left (by omega)]
      simp [h1]
  rw [hwindow]
  constructor
  · intro h
    by_contra hlt
    obtain ⟨st, hreach, sm, b, hshared⟩ := exists_shared ar layers window (fun _ => 0) (by omega)
    have hordered := h quadGrid quadStrip _ st hreach sm b
    rw [orderIndependent_iff (Nat.le_succ_of_le b.size_le) _ ⟨fun _ _ => 0, fun _ => 0, fun _ => 0⟩] at hordered
    exact hordered hshared
  · intro h g strip qvg_l4_sm st cfg _ sm b
    exact (hone window g strip qvg_l4_sm st sm b).mpr
      (not_shared_of_gap g.W2_even strip st b.size_le (Nat.succ_le_succ h))

/-- Window 4 and fresh counters: of the records at the cells 1 1 1 1 1 0 2 3
the first and the last survive. -/
theorem not_headOrdered_window4 :
    let cfg := kernelConfig onesLayers 4 quadGrid.toS2Grid quadStrip (fun _ => 0)
    let b : Batch ℤ quadGrid.toS2Grid := quadBatch (crowd 3) (by decide) (by decide)
    KernelReachable onesArith cfg coldState ∧
      ¬ HeadOrderIndependent quadStrip (fun feat _ => feat 0) b.recs.length
        (celledBatch onesArith cfg coldState coldSmem b).2 := by
  intro cfg b
  refine ⟨⟨coldSmem, [], rfl⟩, ?_⟩
  rw [orderIndependent_iff (Nat.le_succ_of_le b.size_le) _ ⟨fun _ _ => 0, fun _ => 0, fun _ => 0⟩,
    not_not]
  obtain ⟨hfirst, hcell⟩ := reachesHead onesArith onesLayers 4 (p := []) coldState_counted
    coldSmem (fun _ => 0) (b := b) rfl (by decide) (by decide)
  obtain ⟨hlast, hcell'⟩ := reachesHead onesArith onesLayers 4 (p := [1, 1, 1, 1, 1, 0, 2]) (q := [])
    coldState_counted coldSmem (fun _ => 0) (b := b) rfl (by decide) (by decide)
  exact ⟨_, _, 0, by decide, hfirst, hlast, hcell, hcell'⟩

end SslaRt
