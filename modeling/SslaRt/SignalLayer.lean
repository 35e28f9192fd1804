import SslaRt.LayerForward
import SslaRt.LayerLocality
import Mathlib.Algebra.Order.BigOperators.Group.List
import Mathlib.Algebra.BigOperators.Pi
import Mathlib.Algebra.Order.Ring.Defs
import Mathlib.Tactic.Linarith

/-! Layers that carry a mark. The mark of a feature is by how much its channel 0
exceeds its channel 2; channel 1 is always one. A cell keeps the marks that were
put into it, and the normalisation can rescale a mark but not remove it. -/

namespace SslaRt

open CellMemory

section Functionals

variable {R : Type*} [CommRing R] {n : Nat}

def dot (w : Nat → R) (f : Fin n → R) : R := ∑ i : Fin n, w i * f i

def unitRow (k : Nat) : Nat → R := fun i => if i = k then 1 else 0

def signal (f : Fin n → R) : R := featBuf f 0 - featBuf f 2

theorem featBuf_lt {k : Nat} (hk : k < n) (f : Fin n → R) : featBuf f k = f ⟨k, hk⟩ := featBuf_val f ⟨k, hk⟩

theorem dot_unitRow (k : Nat) (f : Fin n → R) : dot (unitRow k) f = featBuf f k := by
  unfold dot unitRow
  by_cases hk : k < n
  · rw [Finset.sum_eq_single ⟨k, hk⟩ (fun i _ hi => ?_) (by simp)]
    · rw [if_pos rfl, one_mul]
      exact (featBuf_lt hk f).symm
    · rw [if_neg (fun h => hi (Fin.ext h)), zero_mul]
  · have hzero : featBuf f k = 0 := dif_neg hk
    rw [hzero]
    exact Finset.sum_eq_zero fun i _ => by rw [if_neg (by omega), zero_mul]

theorem dot_sub (w w' : Nat → R) (f : Fin n → R) : dot (w - w') f = dot w f - dot w' f := by
  simp only [dot, Pi.sub_apply, sub_mul, Finset.sum_sub_distrib]

theorem dot_signal (f : Fin n → R) : dot (unitRow 0 - unitRow 2) f = signal f := by
  rw [dot_sub, dot_unitRow, dot_unitRow, signal]

theorem dot_zero (f : Fin n → R) : dot 0 f = 0 := by simp [dot]

end Functionals

section Arithmetic

variable {R : Type*} [CommRing R] [LinearOrder R]

/-- The normaliser subtracts one number and multiplies by a positive one. -/
structure Arith.Spreads (ar : Arith R) : Prop where
  sigmoid_zero : 0 < ar.sigmoid 0
  normalise : ∀ {n : Nat} (x : Fin n → R), ∃ s, 0 < s ∧
    ∀ o o', ar.normalise x o - ar.normalise x o' = s * (x o - x o')

end Arithmetic

section Layer

variable {R : Type*} [CommRing R] {IN OUT : Nat}

/-- Channel 0 of the queries, of the values and of the residual are given functionals,
everything else is zero; channel 1 of the output is one. -/
structure SignalLayer (L : LayerRef R IN OUT) (q v r : Nat → R) : Prop where
  channels : 2 < OUT
  qvgIn : ∀ delta row, ∀ i : Fin IN,
    L.qvgIn delta row i = if row = 0 then q i else if row = OUT then v i else 0
  goW : ∀ delta, ∀ o i : Fin OUT, L.goW delta o i = if o.val = 0 ∧ i.val = 0 then 1 else 0
  residual : ∀ f, signal (L.residual f) = dot r f
  ln_gamma : ∀ o, L.ln_gamma o = if o = 1 then 0 else 1
  ln_beta : ∀ o, L.ln_beta o = if o = 1 then 1 else 0

variable {L : LayerRef R IN OUT} {q v r : Nat → R} (h : SignalLayer L q v r) (ar : Arith R)
  (f : Fin IN → R)

include h

theorem SignalLayer.process_charge (delta : Nat) (g : Fin OUT → R) :
    featBuf (L.process ar f delta g).1 0 = ar.sigmoid 0 * featBuf g 0 + dot v f := by
  have hpos : 0 < OUT := Nat.zero_lt_of_lt h.channels
  have hrow : ∀ row, ∑ i : Fin IN, L.qvgIn delta row i * f i =
      if row = 0 then dot q f else if row = OUT then dot v f else 0 := by
    intro row
    simp only [h.qvgIn, dot]
    split_ifs <;> simp
  rw [featBuf_lt hpos, featBuf_lt hpos]
  simp only [LayerRef.process, lruStep, hrow]
  rw [if_neg (by omega), if_neg (by omega), if_neg (by omega), if_pos (by omega)]

theorem SignalLayer.process_out (delta : Nat) (g : Fin OUT → R) :
    (L.process ar f delta g).2 = fun o =>
      if o.val = 0 then dot q f * (ar.sigmoid 0 * featBuf g 0 + dot v f) else 0 := by
  have hpos : 0 < OUT := Nat.zero_lt_of_lt h.channels
  have hcharge := h.process_charge ar f delta g
  rw [featBuf_lt hpos] at hcharge
  have hq : ∑ i : Fin IN, L.qvgIn delta 0 i * f i = dot q f := by simp [h.qvgIn, dot]
  funext o
  have hout : (L.process ar f delta g).2 o = ∑ i : Fin OUT, L.goW delta o i *
      ((∑ j : Fin IN, L.qvgIn delta i j * f j) * (L.process ar f delta g).1 i) := rfl
  rw [hout]
  by_cases ho : o.val = 0
  · rw [Finset.sum_eq_single ⟨0, hpos⟩ (fun i _ hi => ?_) (by simp), h.goW, if_pos ⟨ho, rfl⟩, if_pos ho,
      one_mul, hq, hcharge]
    rw [h.goW, if_neg (fun hh => hi (Fin.ext hh.2)), zero_mul]
  · rw [if_neg ho]
    exact Finset.sum_eq_zero fun i _ => by rw [h.goW, if_neg (fun hh => ho hh.1), zero_mul]

variable (H : Nat → Fin OUT → R) (ev_x ev_y Hl Wl : Nat)

theorem SignalLayer.charge {c : Nat} (hc : c ∈ L.patch ev_x ev_y Hl Wl) :
    featBuf ((layerStep ar L f H ev_x ev_y Hl Wl).1 c) 0 =
      ar.sigmoid 0 * featBuf (H c) 0 + dot v f := by
  obtain ⟨⟨i, d⟩, hd, rfl⟩ := List.mem_map.mp hc
  unfold layerStep
  dsimp only
  rw [sweep_of_mem _ _ _ (patchOrder_nodup _) hd, h.process_charge]

/-- What the layer adds up before it normalises, seen as a mark. -/
theorem SignalLayer.signal_sum :
    signal ((sweep (L.process ar f) (patchOrder (L.K * L.K) ev_x ev_y Hl Wl) H 0).2 + L.residual f) =
      ((L.patch ev_x ev_y Hl Wl).map fun c =>
        dot q f * (ar.sigmoid 0 * featBuf (H c) 0 + dot v f)).sum + dot r f := by
  have h2 := h.channels
  have hsum : ∀ o : Fin OUT,
      (sweep (L.process ar f) (patchOrder (L.K * L.K) ev_x ev_y Hl Wl) H 0).2 o =
        if o.val = 0 then ((L.patch ev_x ev_y Hl Wl).map fun c =>
          dot q f * (ar.sigmoid 0 * featBuf (H c) 0 + dot v f)).sum else 0 := by
    intro o
    rw [sweep_sum _ _ _ (patchOrder_nodup _), zero_add, Pi.list_sum_apply]
    simp only [List.map_map, LayerRef.patch, cells, Function.comp_def, h.process_out]
    split
    · rfl
    · exact List.sum_map_zero
  rw [← h.residual]
  simp only [signal, featBuf_lt (show 0 < OUT by omega), featBuf_lt h2, Pi.add_apply, hsum]
  rw [if_pos trivial, if_neg (by decide), zero_add, add_sub_assoc]

end Layer

section Marks

variable {R : Type*} [CommRing R] {IN OUT : Nat} {L : LayerRef R IN OUT} {q v r : Nat → R} {ar : Arith R}

/-- The functional that reads the mark. -/
abbrev markRow : Nat → R := unitRow 0 - unitRow 2

def Uncharged (H : Nat → Fin OUT → R) : Prop := ∀ c, featBuf (H c) 0 = 0

theorem uncharged_zero : Uncharged (0 : Nat → Fin OUT → R) := by
  intro c
  unfold featBuf writeFeat
  split <;> rfl

/-- A layer that hands the mark on and leaves the cells alone. -/
abbrev HandsOn (L : LayerRef R IN OUT) : Prop := SignalLayer L 0 0 markRow

/-- A layer that puts the mark into the cells and adds the marks that it finds there. -/
abbrev Mixes (L : LayerRef R IN OUT) : Prop := SignalLayer L (unitRow 1) markRow markRow

/-- A feature without a mark. -/
structure Unmarked {n : Nat} (f : Fin n → R) : Prop where
  one : featBuf f 1 = 1
  zero : signal f = 0

section Cells

variable {f : Fin IN → R} {H : Nat → Fin OUT → R} {ev_x ev_y Hl Wl : Nat} (h : Mixes L)

include h

theorem Mixes.cell {c : Nat} (hc : c ∈ L.patch ev_x ev_y Hl Wl) :
    featBuf ((layerStep ar L f H ev_x ev_y Hl Wl).1 c) 0 = ar.sigmoid 0 * featBuf (H c) 0 + signal f := by
  rw [h.charge ar f H ev_x ev_y Hl Wl hc, dot_signal]

theorem Mixes.uncharged (hf : signal f = 0) (hH : Uncharged H) :
    Uncharged (layerStep ar L f H ev_x ev_y Hl Wl).1 := by
  intro c
  by_cases hc : c ∈ L.patch ev_x ev_y Hl Wl
  · rw [Mixes.cell h hc, hf, hH c, mul_zero, zero_add]
  · rw [layerStep_frame ar L hc]
    exact hH c

end Cells

variable [LinearOrder R]

/-- Channel 1 of the output is one and its mark is a positive multiple of the sum's. -/
theorem SignalLayer.out (h : SignalLayer L q v r) (har : ar.Spreads) (f : Fin IN → R)
    (H : Nat → Fin OUT → R) (ev_x ev_y Hl Wl : Nat) :
    featBuf (layerStep ar L f H ev_x ev_y Hl Wl).2 1 = 1 ∧ ∃ s, 0 < s ∧
      signal (layerStep ar L f H ev_x ev_y Hl Wl).2 = s * (((L.patch ev_x ev_y Hl Wl).map fun c =>
        dot q f * (ar.sigmoid 0 * featBuf (H c) 0 + dot v f)).sum + dot r f) := by
  have h2 := h.channels
  rw [← h.signal_sum]
  generalize hx : (sweep (L.process ar f) (patchOrder (L.K * L.K) ev_x ev_y Hl Wl) H 0).2 +
    L.residual f = x
  have hout : ∀ (k : Nat) (hk : k < OUT), featBuf (layerStep ar L f H ev_x ev_y Hl Wl).2 k =
      ar.normalise x ⟨k, hk⟩ * L.ln_gamma k + L.ln_beta k := by
    intro k hk
    rw [← hx]
    exact featBuf_lt hk _
  obtain ⟨s, hs, hdiff⟩ := har.normalise x
  refine ⟨?_, s, hs, ?_⟩
  · rw [hout 1 (by omega), h.ln_gamma, h.ln_beta, if_pos rfl, if_pos rfl, mul_zero, zero_add]
  · unfold signal
    rw [hout 0 (by omega), hout 2 h2, featBuf_lt (show 0 < OUT by omega), featBuf_lt h2, ← hdiff]
    simp [h.ln_gamma, h.ln_beta]

section HandsOn

variable (h : HandsOn L) (har : ar.Spreads) {f : Fin IN → R} (H : Nat → Fin OUT → R) (ev_x ev_y Hl Wl : Nat)

include h har

theorem HandsOn.out : featBuf (layerStep ar L f H ev_x ev_y Hl Wl).2 1 = 1 ∧ ∃ s, 0 < s ∧
    signal (layerStep ar L f H ev_x ev_y Hl Wl).2 = s * signal f := by
  obtain ⟨hone, s, hs, heq⟩ := SignalLayer.out h har f H ev_x ev_y Hl Wl
  refine ⟨hone, s, hs, ?_⟩
  rw [heq, dot_signal]
  simp [dot_zero]

end HandsOn

section Mixes

variable (h : Mixes L) (har : ar.Spreads) {f : Fin IN → R} {H : Nat → Fin OUT → R} {ev_x ev_y Hl Wl : Nat}

include h har

variable (H ev_x ev_y Hl Wl) in
theorem Mixes.out (hone : featBuf f 1 = 1) : featBuf (layerStep ar L f H ev_x ev_y Hl Wl).2 1 = 1 ∧
    ∃ s, 0 < s ∧ signal (layerStep ar L f H ev_x ev_y Hl Wl).2 = s * (((L.patch ev_x ev_y Hl Wl).map fun c =>
      ar.sigmoid 0 * featBuf (H c) 0 + signal f).sum + signal f) := by
  obtain ⟨hout, s, hs, heq⟩ := SignalLayer.out h har f H ev_x ev_y Hl Wl
  refine ⟨hout, s, hs, ?_⟩
  rw [heq, dot_signal, dot_unitRow, hone]
  simp only [one_mul]

theorem Mixes.unmarked (hf : Unmarked f) (hH : Uncharged H) :
    Unmarked (layerStep ar L f H ev_x ev_y Hl Wl).2 := by
  obtain ⟨hone, s, -, heq⟩ := Mixes.out h har H ev_x ev_y Hl Wl hf.one
  have hzero : ((L.patch ev_x ev_y Hl Wl).map fun c => ar.sigmoid 0 * featBuf (H c) 0 + signal f).sum = 0 := by
    refine List.sum_eq_zero fun y hy => ?_
    obtain ⟨c, -, rfl⟩ := List.mem_map.mp hy
    rw [hH c, hf.zero, mul_zero, zero_add]
  refine ⟨hone, ?_⟩
  rw [heq, hzero, hf.zero, zero_add, mul_zero]

variable [IsStrictOrderedRing R]

/-- A feature whose mark is not negative. -/
structure Tracked {n : Nat} (f : Fin n → R) : Prop where
  one : featBuf f 1 = 1
  nonneg : 0 ≤ signal f

def Charged (H : Nat → Fin OUT → R) : Prop := ∀ c, 0 ≤ featBuf (H c) 0

variable (hf : Tracked f) (hH : Charged H)

include hf hH

theorem Mixes.cell_nonneg : Charged (layerStep ar L f H ev_x ev_y Hl Wl).1 := by
  intro c
  by_cases hc : c ∈ L.patch ev_x ev_y Hl Wl
  · rw [Mixes.cell h hc]
    exact add_nonneg (mul_nonneg har.sigmoid_zero.le (hH c)) hf.nonneg
  · rw [layerStep_frame ar L hc]
    exact hH c

omit hf in
theorem Mixes.cell_pos (hpos : 0 < signal f) {c : Nat} (hc : c ∈ L.patch ev_x ev_y Hl Wl) :
    0 < featBuf ((layerStep ar L f H ev_x ev_y Hl Wl).1 c) 0 := by
  rw [Mixes.cell h hc]
  exact add_pos_of_nonneg_of_pos (mul_nonneg har.sigmoid_zero.le (hH c)) hpos

omit h in
variable (L ev_x ev_y Hl Wl) in
theorem Mixes.summands_nonneg : ∀ y ∈ (L.patch ev_x ev_y Hl Wl).map fun c =>
    ar.sigmoid 0 * featBuf (H c) 0 + signal f, 0 ≤ y := by
  intro y hy
  obtain ⟨c, -, rfl⟩ := List.mem_map.mp hy
  exact add_nonneg (mul_nonneg har.sigmoid_zero.le (hH c)) hf.nonneg

theorem Mixes.tracked : Tracked (layerStep ar L f H ev_x ev_y Hl Wl).2 := by
  obtain ⟨hone, s, hs, heq⟩ := Mixes.out h har H ev_x ev_y Hl Wl hf.one
  refine ⟨hone, ?_⟩
  rw [heq]
  exact mul_nonneg hs.le (add_nonneg (List.sum_nonneg (Mixes.summands_nonneg L har ev_x ev_y Hl Wl hf hH)) hf.nonneg)

/-- A mark comes out if one goes in or lies in the patch. -/
theorem Mixes.signal_pos (hpos : 0 < signal f ∨ ∃ c ∈ L.patch ev_x ev_y Hl Wl, 0 < featBuf (H c) 0) :
    0 < signal (layerStep ar L f H ev_x ev_y Hl Wl).2 := by
  obtain ⟨-, s, hs, heq⟩ := Mixes.out h har H ev_x ev_y Hl Wl hf.one
  have hnonneg := Mixes.summands_nonneg L har ev_x ev_y Hl Wl hf hH
  rw [heq]
  refine mul_pos hs ?_
  rcases hpos with hpos | ⟨c, hc, hpos⟩
  · exact add_pos_of_nonneg_of_pos (List.sum_nonneg hnonneg) hpos
  · refine add_pos_of_pos_of_nonneg ?_ hf.nonneg
    have hle := List.single_le_sum hnonneg _ (List.mem_map_of_mem hc)
    exact (add_pos_of_pos_of_nonneg (mul_pos har.sigmoid_zero hpos) hf.nonneg).trans_le hle

end Mixes

end Marks

section Weights

variable {R : Type*} [CommRing R]

/-- The weight buffers of a signal layer. -/
def signalWeights (IN OUT num_pos : Nat) (q v : Nat → R) (r : Option (Nat → R)) : LayerWeights R where
  num_pos := num_pos
  qvgIn := fun _ n => if n / IN = 0 then q (n % IN) else if n / IN = OUT then v (n % IN) else 0
  goW := fun _ n => if n = 0 then 1 else 0
  goW_T := fun _ n => if n = 0 then 1 else 0
  input_proj := r.map fun r n => if n / IN = 0 then r (n % IN) else 0
  ln_gamma := fun o => if o = 1 then 0 else 1
  ln_beta := fun o => if o = 1 then 1 else 0

variable {IN OUT num_pos : Nat} {q v : Nat → R}

theorem signalWeights_schema {r : Option (Nat → R)} (hr : r.isSome = decide (IN ≠ OUT)) :
    (signalWeights IN OUT num_pos q v r).Schema IN OUT num_pos where
  num_pos := rfl
  input_proj := by rw [signalWeights, Option.isSome_map, hr]
  goW_T := by
    intro p i j _ hi hj
    have hzero : ∀ a b, a < OUT → (b * OUT + a = 0 ↔ b = 0 ∧ a = 0) := by
      intro a b ha
      rw [Nat.add_eq_zero_iff, Nat.mul_eq_zero]
      omega
    simp only [signalWeights, hzero j i hj, hzero i j hi, and_comm]

theorem flatIndex (row : Nat) (i : Fin IN) : (row * IN + i) / IN = row ∧ (row * IN + i) % IN = i := by
  have hi := i.isLt
  have hpos : 0 < IN := by omega
  rw [Nat.mul_comm, Nat.mul_add_div hpos, Nat.mul_add_mod, Nat.div_eq_of_lt hi, Nat.mod_eq_of_lt hi]
  exact ⟨rfl, rfl⟩

theorem signalWeights_ref {r : Option (Nat → R)} (h2 : 2 < OUT)
    (hpass : (signalWeights IN OUT num_pos q v r).input_proj = none → IN = OUT) {r' : Nat → R}
    (hres : ∀ f, signal (((signalWeights IN OUT num_pos q v r).ref hpass).residual f) = dot r' f) :
    SignalLayer ((signalWeights IN OUT num_pos q v r).ref hpass) q v r' where
  channels := h2
  qvgIn := by
    intro delta row i
    obtain ⟨hdiv, hmod⟩ := flatIndex row i
    simp only [LayerWeights.ref, signalWeights, hdiv, hmod]
  goW := by
    intro delta o i
    have hi := i.isLt
    have hzero : o.val * OUT + i.val = 0 ↔ o.val = 0 ∧ i.val = 0 := by
      rw [Nat.add_eq_zero_iff, Nat.mul_eq_zero]
      omega
    simp only [LayerWeights.ref, signalWeights, hzero]
  residual := hres
  ln_gamma := fun _ => rfl
  ln_beta := fun _ => rfl

theorem signalWeights_projected (h2 : 2 < OUT) (r : Nat → R)
    (hpass : (signalWeights IN OUT num_pos q v (some r)).input_proj = none → IN = OUT) :
    SignalLayer ((signalWeights IN OUT num_pos q v (some r)).ref hpass) q v r := by
  refine signalWeights_ref h2 hpass fun f => ?_
  have hres : ((signalWeights IN OUT num_pos q v (some r)).ref hpass).residual f =
      fun o => if o.val = 0 then dot r f else 0 := by
    rw [LayerRef.residual_some rfl]
    funext o
    have hrow : ∀ i : Fin IN, (if (o.val * IN + i) / IN = 0 then r ((o.val * IN + i) % IN) else 0) * f i =
        if o.val = 0 then r i * f i else 0 := by
      intro i
      obtain ⟨hdiv, hmod⟩ := flatIndex o.val i
      rw [hdiv, hmod, ite_zero_mul]
    rw [Finset.sum_congr rfl fun i _ => hrow i, dot]
    split
    · rfl
    · exact Finset.sum_const_zero
  rw [hres, signal, featBuf_lt (show 0 < OUT by omega), featBuf_lt h2, if_pos rfl,
    if_neg (by decide : ¬ (2 : Nat) = 0), sub_zero]

theorem signalWeights_plain (h2 : 2 < OUT)
    (hpass : (signalWeights OUT OUT num_pos q v none).input_proj = none → OUT = OUT) :
    SignalLayer ((signalWeights OUT OUT num_pos q v none).ref hpass) q v (unitRow 0 - unitRow 2) := by
  refine signalWeights_ref h2 hpass fun f => ?_
  rw [dot_signal, LayerRef.residual_none rfl]
  rfl

end Weights

end SslaRt
