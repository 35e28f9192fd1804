import SslaRt.LayerLocality

/-! The generic layer of the CPU pipeline over its row-major weight buffers,
and the reference layer that the buffers hold. -/

namespace SslaRt

open CellMemory

variable {R : Type*} [CommRing R]

abbrev kInDim : Nat := 2
abbrev kC0 : Nat := 12
abbrev kC1 : Nat := 24

/-- Packed weights, a buffer for each position of the patch. -/
structure LayerWeights (R : Type*) where
  num_pos : Nat
  qvgIn : Nat → Nat → R
  goW : Nat → Nat → R
  goW_T : Nat → Nat → R
  input_proj : Option (Nat → R)
  ln_gamma : Nat → R
  ln_beta : Nat → R

def featBuf {n : Nat} (x : Fin n → R) : Nat → R := writeFeat (fun _ => 0) x

theorem featBuf_val {n : Nat} (x : Fin n → R) (i : Fin n) : featBuf x i = x i :=
  dif_pos i.isLt

def processPatch (ar : Arith R) (IN OUT : Nat) (L : LayerWeights R) (feat_in : Fin IN → R)
    (pos : Nat) (h : Fin OUT → R) : (Fin OUT → R) × (Fin OUT → R) :=
  let qvg := featBuf (matvec IN (3 * OUT) feat_in (L.qvgIn pos))
  let q := fun o : Fin OUT => qvg o
  let v := fun o : Fin OUT => qvg (OUT + o)
  let g := fun o : Fin OUT => qvg (2 * OUT + o)
  let r := lruStep ar g v q h
  (r.1, matvec OUT OUT r.2 (L.goW pos))

def layerForwardCt (ar : Arith R) (IN OUT : Nat) (L : LayerWeights R) (ev_x ev_y Hl Wl : Nat)
    (feat_in : Fin IN → R) (H_all : Nat → Fin OUT → R) : (Nat → Fin OUT → R) × (Fin OUT → R) :=
  let residual : Fin OUT → R := match L.input_proj with
    | some W => matvec IN OUT feat_in W
    | none => fun o => featBuf feat_in o
  let st := sweep (processPatch ar IN OUT L feat_in) (patchOrder L.num_pos ev_x ev_y Hl Wl) H_all 0
  (st.1, layernorm ar (st.2 + residual) L.ln_gamma L.ln_beta)

def qvgRow (IN OUT : Nat) (L : LayerWeights R) (feat_in : Fin IN → R) (pos k o : Nat) : R :=
  ∑ i : Fin IN, L.qvgIn pos ((k * OUT + o) * IN + i) * feat_in i

theorem qvg_row {IN OUT : Nat} (L : LayerWeights R) (feat_in : Fin IN → R) (pos : Nat) {k : Nat}
    (hk : k < 3) (o : Fin OUT) : featBuf (matvec IN (3 * OUT) feat_in (L.qvgIn pos)) (k * OUT + o) =
      qvgRow IN OUT L feat_in pos k o := by
  have hr : k * OUT + o < 3 * OUT :=
    calc k * OUT + o < k * OUT + OUT := Nat.add_lt_add_left o.isLt _
      _ = (k + 1) * OUT := by ring
      _ ≤ 3 * OUT := Nat.mul_le_mul_right _ hk
  exact featBuf_val _ ⟨k * OUT + o, hr⟩

theorem processPatch_fst (ar : Arith R) {IN OUT : Nat} (L : LayerWeights R) (feat_in : Fin IN → R)
    (pos : Nat) (h : Fin OUT → R) (o : Fin OUT) : (processPatch ar IN OUT L feat_in pos h).1 o =
      ar.sigmoid (qvgRow IN OUT L feat_in pos 2 o) * h o + qvgRow IN OUT L feat_in pos 1 o := by
  have h1 := qvg_row L feat_in pos (by decide : 1 < 3) o
  rw [Nat.one_mul] at h1
  simp only [processPatch, lruStep, qvg_row L feat_in pos (by decide : 2 < 3) o, h1]

theorem processPatch_snd (ar : Arith R) {IN OUT : Nat} (L : LayerWeights R) (feat_in : Fin IN → R)
    (pos : Nat) (h : Fin OUT → R) : (processPatch ar IN OUT L feat_in pos h).2 =
      matvec OUT OUT (fun c => qvgRow IN OUT L feat_in pos 0 c *
        (processPatch ar IN OUT L feat_in pos h).1 c) (L.goW pos) := by
  have h0 := fun o : Fin OUT => qvg_row L feat_in pos (by decide : 0 < 3) o
  simp only [Nat.zero_mul, Nat.zero_add] at h0
  simp only [processPatch, lruStep, h0]

/-- A layer of the SSLA-S schema: `positions` patches, a projection where the
dimensions differ, and the transposed copy of `goW`. -/
structure LayerWeights.Schema (L : LayerWeights R) (IN OUT positions : Nat) : Prop where
  num_pos : L.num_pos = positions
  input_proj : L.input_proj.isSome = decide (IN ≠ OUT)
  goW_T : ∀ p i j, p < 9 → i < OUT → j < OUT → L.goW_T p (i * OUT + j) = L.goW p (j * OUT + i)

omit [CommRing R] in
theorem LayerWeights.Schema.passthrough {L : LayerWeights R} {IN OUT positions : Nat}
    (h : L.Schema IN OUT positions) : L.input_proj = none → IN = OUT := by
  intro hnone
  have hh := h.input_proj
  rw [hnone] at hh
  simpa using hh

section Reference

variable {IN OUT : Nat} (L : LayerWeights R) (hpass : L.input_proj = none → IN = OUT)

def LayerWeights.ref : LayerRef R IN OUT where
  qvgIn := fun delta r i => L.qvgIn delta (r * IN + i)
  goW := fun delta o i => L.goW delta (o * OUT + i)
  input_proj := L.input_proj.map fun W o i => W (o * IN + i)
  ln_gamma := L.ln_gamma
  ln_beta := L.ln_beta
  K := if L.num_pos = 1 then 1 else 3
  passthrough := fun h => hpass (Option.map_eq_none_iff.mp h)

theorem processPatch_eq (ar : Arith R) (feat_in : Fin IN → R) (pos : Nat) (h : Fin OUT → R) :
    processPatch ar IN OUT L feat_in pos h = (L.ref hpass).process ar feat_in pos h := by
  have h0 := fun o : Fin OUT => qvg_row L feat_in pos (by decide : 0 < 3) o
  have h1 := fun o : Fin OUT => qvg_row L feat_in pos (by decide : 1 < 3) o
  have h2 := fun o : Fin OUT => qvg_row L feat_in pos (by decide : 2 < 3) o
  simp only [qvgRow, Nat.zero_mul, Nat.zero_add, Nat.one_mul] at h0 h1 h2
  simp only [processPatch, h0, h1, h2]
  rfl

theorem layerForwardCt_eq (ar : Arith R) (ev_x ev_y Hl Wl : Nat) (feat_in : Fin IN → R)
    (H_all : Nat → Fin OUT → R) : layerForwardCt ar IN OUT L ev_x ev_y Hl Wl feat_in H_all =
      layerStep ar (L.ref hpass) feat_in H_all ev_x ev_y Hl Wl := by
  have hproc : processPatch ar IN OUT L feat_in = (L.ref hpass).process ar feat_in :=
    funext fun pos => funext fun h => processPatch_eq L hpass ar feat_in pos h
  have horder : patchOrder L.num_pos ev_x ev_y Hl Wl =
      patchOrder ((L.ref hpass).K * (L.ref hpass).K) ev_x ev_y Hl Wl := by
    unfold patchOrder
    by_cases hp : L.num_pos = 1
    · simp [LayerWeights.ref, hp]
    · simp [LayerWeights.ref, hp]
  have hres : (match L.input_proj with
      | some W => matvec IN OUT feat_in W
      | none => fun o => featBuf feat_in o) = (L.ref hpass).residual feat_in := by
    cases hip : L.input_proj with
    | some W =>
      have href : (L.ref hpass).input_proj = some fun o i => W (o * IN + i) :=
        congrArg (Option.map _) hip
      rw [LayerRef.residual_some href]
      rfl
    | none =>
      have href : (L.ref hpass).input_proj = none := congrArg (Option.map _) hip
      rw [LayerRef.residual_none href]
      funext o
      exact featBuf_val feat_in (Fin.cast (hpass hip).symm o)
  simp only [layerForwardCt, layerStep, hproc, horder, hres]
  rfl

end Reference

end SslaRt
