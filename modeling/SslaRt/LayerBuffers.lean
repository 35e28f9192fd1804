import SslaRt.Detector

/-! A layer writes every scratch buffer before it reads it: what it computes is
a function of its input and of the hidden state. -/

namespace SslaRt

open CellMemory

variable {R : Type*}

def Agree (n : Nat) (f f' : Nat → R) : Prop := ∀ j < n, f j = f' j

theorem Agree.refl {n : Nat} (f : Nat → R) : Agree n f f := fun _ _ => rfl

theorem Agree.readFeat {n : Nat} {f f' : Nat → R} (h : Agree n f f') : readFeat n f = readFeat n f' :=
  funext fun i => h i i.isLt

theorem agree_writeFeat {n : Nat} (buf buf' : Nat → R) (x : Fin n → R) :
    Agree n (writeFeat buf x) (writeFeat buf' x) := by
  intro j hj
  rw [writeFeat_of_lt buf x hj, writeFeat_of_lt buf' x hj]

variable [CommRing R] (ar : Arith R) (IN OUT : Nat) (L : LayerWeights R)

def layerResult (ev_x ev_y Hl Wl : Nat) (feat_in : Nat → R) (H_all : Nat → Fin OUT → R) :
    (Nat → Fin OUT → R) × (Fin OUT → R) :=
  let residual : Fin OUT → R := match L.input_proj with
    | some W => matvec IN OUT (readFeat IN feat_in) W
    | none => readFeat OUT feat_in
  let st := sweep (processPatch ar IN OUT L (readFeat IN feat_in))
    (patchOrder L.num_pos ev_x ev_y Hl Wl) H_all 0
  (st.1, layernorm ar (st.2 + residual) L.ln_gamma L.ln_beta)

theorem layerResult_congr (ev_x ev_y Hl Wl : Nat) {feat_in feat_in' : Nat → R}
    (hin : Agree IN feat_in feat_in') (hout : Agree OUT feat_in feat_in')
    (H_all : Nat → Fin OUT → R) : layerResult ar IN OUT L ev_x ev_y Hl Wl feat_in H_all =
      layerResult ar IN OUT L ev_x ev_y Hl Wl feat_in' H_all := by
  unfold layerResult
  rw [hin.readFeat, hout.readFeat]

section Patches

variable {OUT} (feat_in : Nat → R)

theorem processPatchBuffers_eq (b : LayerBuffers R OUT) (c : Nat × Nat) :
    let r := processPatch ar IN OUT L (readFeat IN feat_in) c.2 (b.H_all c.1)
    let b' := processPatchBuffers ar IN OUT L feat_in b c
    b'.H_all = Function.update b.H_all c.1 r.1 ∧
      b'.feat_out = writeFeat b.feat_out (readFeat OUT b.feat_out + r.2) ∧
      b'.scratch.residual = b.scratch.residual := by
  have hqvg : ∀ r, r < 3 * OUT →
      writeFeat b.scratch.qvg (matvec IN (3 * OUT) (readFeat IN feat_in) (L.qvgIn c.2)) r =
        featBuf (matvec IN (3 * OUT) (readFeat IN feat_in) (L.qvgIn c.2)) r :=
    fun r hr => agree_writeFeat _ _ _ r hr
  have hq : (fun o : Fin OUT => writeFeat b.scratch.qvg
      (matvec IN (3 * OUT) (readFeat IN feat_in) (L.qvgIn c.2)) o) = fun o : Fin OUT =>
        featBuf (matvec IN (3 * OUT) (readFeat IN feat_in) (L.qvgIn c.2)) o :=
    funext fun o => hqvg o (by omega)
  have hv : (fun o : Fin OUT => writeFeat b.scratch.qvg
      (matvec IN (3 * OUT) (readFeat IN feat_in) (L.qvgIn c.2)) (OUT + o)) = fun o : Fin OUT =>
        featBuf (matvec IN (3 * OUT) (readFeat IN feat_in) (L.qvgIn c.2)) (OUT + o) :=
    funext fun o => hqvg (OUT + o) (by omega)
  have hg : (fun o : Fin OUT => writeFeat b.scratch.qvg
      (matvec IN (3 * OUT) (readFeat IN feat_in) (L.qvgIn c.2)) (2 * OUT + o)) = fun o : Fin OUT =>
        featBuf (matvec IN (3 * OUT) (readFeat IN feat_in) (L.qvgIn c.2)) (2 * OUT + o) :=
    funext fun o => hqvg (2 * OUT + o) (by omega)
  simp only [processPatchBuffers, processPatch, readFeat_writeFeat, hq, hv, hg, and_self]

/-- The accumulator of the sweep is what the output buffer holds. -/
theorem foldl_processPatchBuffers (patch : List (Nat × Nat)) (buf : Nat → R) (a : Fin OUT → R)
    (b : LayerBuffers R OUT) (hb : b.feat_out = writeFeat buf a) :
    let st := sweep (processPatch ar IN OUT L (readFeat IN feat_in)) patch b.H_all a
    let b' := patch.foldl (processPatchBuffers ar IN OUT L feat_in) b
    b'.H_all = st.1 ∧ b'.feat_out = writeFeat buf st.2 ∧
      b'.scratch.residual = b.scratch.residual := by
  induction patch generalizing b a with
  | nil => exact ⟨rfl, hb, rfl⟩
  | cons c patch ih =>
    obtain ⟨hH, hout, hres⟩ := processPatchBuffers_eq ar IN L feat_in b c
    rw [hb, readFeat_writeFeat, writeFeat_writeFeat] at hout
    obtain ⟨hH', hout', hres'⟩ := ih _ _ hout
    rw [hH] at hH' hout'
    exact ⟨hH', hout', hres'.trans hres⟩

end Patches

theorem layerBuffers_eq (ev_x ev_y Hl Wl : Nat) (feat_in : Nat → R) (b : LayerBuffers R OUT) :
    (layerBuffers ar IN OUT L ev_x ev_y Hl Wl feat_in b).H_all =
        (layerResult ar IN OUT L ev_x ev_y Hl Wl feat_in b.H_all).1 ∧
      (layerBuffers ar IN OUT L ev_x ev_y Hl Wl feat_in b).feat_out =
        writeFeat b.feat_out (layerResult ar IN OUT L ev_x ev_y Hl Wl feat_in b.H_all).2 := by
  have hfold := fun residual => foldl_processPatchBuffers ar IN L feat_in
    (patchOrder L.num_pos ev_x ev_y Hl Wl) b.feat_out 0
    ⟨b.H_all, { b.scratch with residual := residual }, writeFeat b.feat_out 0⟩ rfl
  unfold layerBuffers layerResult
  cases L.input_proj with
  | some W =>
    obtain ⟨hH, hout, hres⟩ := hfold (writeFeat b.scratch.residual (matvec IN OUT (readFeat IN feat_in) W))
    simp only [hH, hout, hres, readFeat_writeFeat, writeFeat_writeFeat, and_self]
  | none =>
    obtain ⟨hH, hout, hres⟩ := hfold (writeFeat b.scratch.residual (readFeat OUT feat_in))
    simp only [hH, hout, hres, readFeat_writeFeat, writeFeat_writeFeat, and_self]

/-- With a projection wherever the dimensions differ this is the layer of the
CPU stage. -/
theorem layerResult_eq (hpass : L.input_proj = none → IN = OUT) (ev_x ev_y Hl Wl : Nat)
    (feat_in : Nat → R) (H_all : Nat → Fin OUT → R) :
    layerResult ar IN OUT L ev_x ev_y Hl Wl feat_in H_all =
      layerForwardCt ar IN OUT L ev_x ev_y Hl Wl (readFeat IN feat_in) H_all := by
  unfold layerResult layerForwardCt
  cases hip : L.input_proj with
  | some W => rfl
  | none =>
    obtain rfl := hpass hip
    have hread : (fun o : Fin IN => featBuf (readFeat IN feat_in) o) = readFeat IN feat_in :=
      funext fun o => featBuf_val _ o
    rw [hread]

end SslaRt
