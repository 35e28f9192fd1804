import SslaRt.LayerStep

/-! The weights as the kernel reads them: flat buffers in transposed layout,
built on the host from the reference layer. -/

namespace SslaRt

variable {R : Type*} [CommRing R]

structure LayerWeightsS2S3 (R : Type*) where
  qvgIn : Nat → R
  goW : Nat → R
  input_proj : Option (Nat → R)
  ln_gamma : Nat → R
  ln_beta : Nat → R

/-- The flat row-major buffer of an array of shape `(_, B, C)`. -/
def contiguous3 (B C : Nat) (a : Nat → Nat → Nat → R) : Nat → R :=
  fun n => a (n / C / B) (n / C % B) (n % C)

omit [CommRing R] in
theorem contiguous3_apply {B C b c : Nat} (a : Nat → Nat → Nat → R) (d : Nat)
    (hb : b < B) (hc : c < C) : contiguous3 B C a (d * (B * C) + (b * C + c)) = a d b c := by
  have hC : 0 < C := by omega
  have hB : 0 < B := by omega
  have hn : d * (B * C) + (b * C + c) = c + (b + d * B) * C := by ring
  have hdiv : (d * (B * C) + (b * C + c)) / C = b + d * B := by
    rw [hn, Nat.add_mul_div_right _ _ hC, Nat.div_eq_of_lt hc, Nat.zero_add]
  have hmod : (d * (B * C) + (b * C + c)) % C = c := by
    rw [hn, Nat.add_mul_mod_self_right, Nat.mod_eq_of_lt hc]
  rw [contiguous3, hdiv, hmod, Nat.add_mul_div_right _ _ hB, Nat.div_eq_of_lt hb,
    Nat.add_mul_mod_self_right, Nat.mod_eq_of_lt hb, Nat.zero_add]

def upload {IN OUT : Nat} (L : LayerRef R IN OUT) : LayerWeightsS2S3 R where
  qvgIn := contiguous3 IN (3 * OUT) (fun delta i r => L.qvgIn delta r i)
  goW := contiguous3 OUT OUT (fun delta i o => L.goW delta o i)
  input_proj := L.input_proj.map (fun W n => W (n % OUT) (n / OUT))
  ln_gamma := L.ln_gamma
  ln_beta := L.ln_beta

/-- The shared-memory copy of the first `total` floats of `qvgIn`; beyond
them the shared memory holds whatever was there. -/
def cacheQvgIn (total : Nat) (stale : Nat → R) (layer : LayerWeightsS2S3 R) : LayerWeightsS2S3 R :=
  { layer with qvgIn := fun i => if i < total then layer.qvgIn i else stale i }

/-- The flat weights hold the layer `L`, as far as a 3x3 layer reads them. -/
structure LayerWeightsS2S3.Represents {IN OUT : Nat} (W : LayerWeightsS2S3 R)
    (L : LayerRef R IN OUT) : Prop where
  qvgIn : ∀ delta i r, delta < 9 → i < IN → r < 3 * OUT →
    W.qvgIn (delta * (3 * OUT * IN) + (i * (3 * OUT) + r)) = L.qvgIn delta r i
  goW : ∀ delta i o, i < OUT → o < OUT →
    W.goW (delta * (OUT * OUT) + (i * OUT + o)) = L.goW delta o i
  input_proj : W.input_proj = L.input_proj.map (fun M n => M (n % OUT) (n / OUT))
  ln_gamma : W.ln_gamma = L.ln_gamma
  ln_beta : W.ln_beta = L.ln_beta

omit [CommRing R] in
theorem upload_qvgIn {IN OUT : Nat} (L : LayerRef R IN OUT) (delta : Nat) {i r : Nat} (hi : i < IN)
    (hr : r < 3 * OUT) : (upload L).qvgIn (delta * (3 * OUT * IN) + (i * (3 * OUT) + r)) = L.qvgIn delta r i := by
  rw [Nat.mul_comm (3 * OUT) IN]
  exact contiguous3_apply (fun delta i r => L.qvgIn delta r i) delta hi hr

omit [CommRing R] in
theorem upload_represents {IN OUT : Nat} (L : LayerRef R IN OUT) : (upload L).Represents L where
  qvgIn delta _ _ _ := upload_qvgIn L delta
  goW delta _ _ := contiguous3_apply (fun delta i o => L.goW delta o i) delta
  input_proj := rfl
  ln_gamma := rfl
  ln_beta := rfl

omit [CommRing R] in
theorem cacheQvgIn_represents {IN OUT : Nat} {W : LayerWeightsS2S3 R} {L : LayerRef R IN OUT}
    (h : W.Represents L) (stale : Nat → R) :
    (cacheQvgIn (9 * 3 * OUT * IN) stale W).Represents L where
  qvgIn delta i r hd hi hr := by
    have hrow : i * (3 * OUT) + r < IN * (3 * OUT) :=
      calc i * (3 * OUT) + r < i * (3 * OUT) + 3 * OUT := by omega
        _ = (i + 1) * (3 * OUT) := by ring
        _ ≤ IN * (3 * OUT) := Nat.mul_le_mul_right _ hi
    have hlt : delta * (3 * OUT * IN) + (i * (3 * OUT) + r) < 9 * 3 * OUT * IN :=
      calc delta * (3 * OUT * IN) + (i * (3 * OUT) + r)
          < delta * (3 * OUT * IN) + IN * (3 * OUT) := by omega
        _ = (delta + 1) * (3 * OUT * IN) := by ring
        _ ≤ 9 * (3 * OUT * IN) := Nat.mul_le_mul_right _ hd
        _ = 9 * 3 * OUT * IN := by ring
    exact (if_pos hlt).trans (h.qvgIn delta i r hd hi hr)
  goW := h.goW
  input_proj := h.input_proj
  ln_gamma := h.ln_gamma
  ln_beta := h.ln_beta

def processPatchCell (ar : Arith R) (IN OUT : Nat) (in_feat : Fin IN → R) (qvgIn goW : Nat → R)
    (h_cell : Fin OUT → R) : (Fin OUT → R) × (Fin OUT → R) :=
  let q := fun o : Fin OUT => ∑ i : Fin IN, qvgIn (i * (3 * OUT) + 0 * OUT + o) * in_feat i
  let v := fun o : Fin OUT => ∑ i : Fin IN, qvgIn (i * (3 * OUT) + 1 * OUT + o) * in_feat i
  let g := fun o : Fin OUT => ∑ i : Fin IN, qvgIn (i * (3 * OUT) + 2 * OUT + o) * in_feat i
  let r := lruStep ar g v q h_cell
  (r.1, matvecW OUT OUT OUT r.2 goW)

def processPatchCellStateOnly (ar : Arith R) (IN OUT : Nat) (in_feat : Fin IN → R)
    (qvgIn : Nat → R) (h_cell : Fin OUT → R) : Fin OUT → R :=
  let v := fun o : Fin OUT => ∑ i : Fin IN, qvgIn (i * (3 * OUT) + 1 * OUT + o) * in_feat i
  let g := fun o : Fin OUT => ∑ i : Fin IN, qvgIn (i * (3 * OUT) + 2 * OUT + o) * in_feat i
  fun o => ar.sigmoid (g o) * h_cell o + v o

theorem processPatchCellStateOnly_eq (ar : Arith R) (IN OUT : Nat) (in_feat : Fin IN → R)
    (qvgIn goW : Nat → R) (h_cell : Fin OUT → R) :
    processPatchCellStateOnly ar IN OUT in_feat qvgIn h_cell =
      (processPatchCell ar IN OUT in_feat qvgIn goW h_cell).1 := rfl

/-- The kernel reads one page of each buffer. -/
theorem processPatchCell_page (ar : Arith R) {IN OUT : Nat} {L : LayerRef R IN OUT} {delta : Nat} {qvgIn goW : Nat → R}
    (hq : ∀ i r, i < IN → r < 3 * OUT → qvgIn (i * (3 * OUT) + r) = L.qvgIn delta r i)
    (hg : ∀ i o, i < OUT → o < OUT → goW (i * OUT + o) = L.goW delta o i) (in_feat : Fin IN → R)
    (h_cell : Fin OUT → R) :
    processPatchCell ar IN OUT in_feat qvgIn goW h_cell = L.process ar in_feat delta h_cell := by
  have hrow : ∀ (k : Nat) (o : Fin OUT), k < 3 →
      (∑ i : Fin IN, qvgIn (i * (3 * OUT) + k * OUT + o) * in_feat i) =
        ∑ i : Fin IN, L.qvgIn delta (k * OUT + o) i * in_feat i := by
    intro k o hk
    have hr : k * OUT + o < 3 * OUT :=
      calc k * OUT + o < k * OUT + OUT := Nat.add_lt_add_left o.isLt _
        _ = (k + 1) * OUT := by ring
        _ ≤ 3 * OUT := Nat.mul_le_mul_right _ hk
    refine Finset.sum_congr rfl (fun i _ => ?_)
    rw [Nat.add_assoc ((i : Nat) * (3 * OUT)), hq i _ i.isLt hr]
  have hgo : ∀ (x : Fin OUT → R),
      matvecW OUT OUT OUT x goW = fun o : Fin OUT => ∑ i : Fin OUT, L.goW delta o i * x i := by
    intro x
    funext o
    exact Finset.sum_congr rfl (fun i _ => congrArg (· * x i) (hg i o i.isLt o.isLt))
  simp only [processPatchCell, LayerRef.process, hgo, hrow 0 _ (show 0 < 3 by decide),
    hrow 1 _ (show 1 < 3 by decide), hrow 2 _ (show 2 < 3 by decide)]
  simp only [Nat.zero_mul, Nat.zero_add, Nat.one_mul]

theorem processPatchCell_eq (ar : Arith R) {IN OUT : Nat} {W : LayerWeightsS2S3 R}
    {L : LayerRef R IN OUT} (hW : W.Represents L) (in_feat : Fin IN → R) {delta : Nat}
    (hd : delta < 9) (h_cell : Fin OUT → R) :
    processPatchCell ar IN OUT in_feat (fun n => W.qvgIn (delta * (3 * OUT * IN) + n))
      (fun n => W.goW (delta * (OUT * OUT) + n)) h_cell = L.process ar in_feat delta h_cell :=
  processPatchCell_page ar (fun i r => hW.qvgIn delta i r hd) (hW.goW delta) in_feat h_cell

/-- `input_proj @ in_feat`, or the input itself where the dimensions agree;
without a projection and with different dimensions nothing is written. -/
def computeResidual (IN OUT : Nat) (in_feat : Fin IN → R) (input_proj : Option (Nat → R))
    (residual_event : Nat → R) : Nat → R :=
  match input_proj with
  | some W => writeFeat residual_event (matvecW IN OUT OUT in_feat W)
  | none =>
    if h : IN = OUT then writeFeat residual_event (fun o => in_feat (Fin.cast h.symm o))
    else residual_event

theorem readFeat_computeResidual {IN OUT : Nat} {W : LayerWeightsS2S3 R} {L : LayerRef R IN OUT}
    (hW : W.Represents L) (in_feat : Fin IN → R) (residual_event : Nat → R) :
    readFeat OUT (computeResidual IN OUT in_feat W.input_proj residual_event) =
      L.residual in_feat := by
  rw [hW.input_proj]
  unfold LayerRef.residual
  split
  · next M hM =>
    rw [hM]
    simp only [Option.map_some, computeResidual, readFeat_writeFeat]
    funext o
    refine Finset.sum_congr rfl (fun i _ => ?_)
    have hpos : 0 < OUT := o.pos
    beta_reduce
    rw [Nat.add_comm, Nat.add_mul_mod_self_right, Nat.mod_eq_of_lt o.isLt,
      Nat.add_mul_div_right _ _ hpos, Nat.div_eq_of_lt o.isLt, Nat.zero_add]
  · next hM =>
    simp only [hM, Option.map_none, computeResidual, dif_pos (L.passthrough hM),
      readFeat_writeFeat]

end SslaRt
