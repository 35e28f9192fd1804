import SslaRt.LoadLayer
import SslaRt.Detector
import SslaRt.YoloxLoad

/-! `SslaSPipeline::load` with all its unchecked accesses: the geometry, the eight layers,
the head levels, the vectors, and the decoder that fills the predictions. There is memory for
every vector of a legal length. -/

namespace SslaRt

open CheckedRun

variable {R : Type*}

structure LoadedPipeline (R : Type*) where
  H_ : Nat
  W_ : Nat
  num_classes_ : Nat
  tdrop_window_ : Int
  layers_ : Nat → LayerBufs R
  num_head_levels_ : Nat
  head_ : Nat → YoloxBufs R

def ModelMeta.gridHeight (info : ModelMeta) : Nat := if info.height > 0 then info.height.toNat else 240

def ModelMeta.gridWidth (info : ModelMeta) : Nat := if info.width > 0 then info.width.toNat else 304

def ModelMeta.classCount (info : ModelMeta) : Nat := if info.num_classes > 0 then info.num_classes.toNat else 2

/-- The cells of the head levels, before their number is cut to an `int`. -/
def anchorCount (height width levels : Nat) : Nat :=
  ((List.range levels).map fun k => height / 2 ^ (4 - levels + k) * (width / 2 ^ (4 - levels + k))).sum

/-- `static_cast<std::size_t>` of an integer. -/
def staticCastSize (n : Int) : Nat := (n % 2 ^ 64).toNat

/-- The vectors that `load` allocates for a grid: the hidden states, the drop counters, the
logits, the times of the pixels, and the predictions. Of each the bytes of an element, and
the length before it is cut to a `std::size_t`. -/
def loadVectors (height width n_cls levels : Nat) : List (Nat × Int) :=
  let cells stage := height / 2 ^ stage * (width / 2 ^ stage)
  (List.range 8).map (fun l => (4, Int.ofNat (cells (l / 2) * outDim l))) ++
    (List.range 3).map (fun s => (1, Int.ofNat (cells (s + 1)))) ++
    [(4, Int.ofNat n_cls), (8, Int.ofNat (cells 0)),
      (4, staticCastInt (anchorCount height width levels) * staticCastInt (5 + n_cls))]

/-- No vector is longer than its `max_size()`. -/
def VectorsFit (height width n_cls levels : Nat) : Prop :=
  ∀ v ∈ loadVectors height width n_cls levels, staticCastSize v.2 ≤ (2 ^ 63 - 1) / v.1

instance (height width n_cls levels : Nat) : Decidable (VectorsFit height width n_cls levels) :=
  inferInstanceAs (Decidable (∀ v ∈ loadVectors height width n_cls levels, staticCastSize v.2 ≤ (2 ^ 63 - 1) / v.1))

namespace LoadedPipeline

section Head

variable (P : LoadedPipeline R)

def Hs_ (stage : Nat) : Nat := P.H_ / 2 ^ stage
def Ws_ (stage : Nat) : Nat := P.W_ / 2 ^ stage

def head_stage_idx_ (k : Nat) : Nat := 4 - P.num_head_levels_ + k

def total_anchors_ : Nat := anchorCount P.H_ P.W_ P.num_head_levels_

/-- The reads of the decoder of a level. -/
def levelReads (data_null : Bool) (level : Nat) : List ReadAccess :=
  decodeReads data_null (chans (P.head_stage_idx_ level)) kC3 P.num_classes_ (P.head_ level)

/-- The cells of the levels before `level`. -/
def row_offset (level : Nat) : Nat :=
  ((List.range level).map fun k => P.Hs_ (P.head_stage_idx_ k) * P.Ws_ (P.head_stage_idx_ k)).sum

/-- What `prepopulate_head_zero` reads. -/
def prepopulateReads (data_null : Bool) : List ReadAccess :=
  if P.num_head_levels_ = 0 ∨ staticCastInt P.total_anchors_ = 0 then []
  else (List.range P.num_head_levels_).flatMap fun k =>
    (List.range (P.Hs_ (P.head_stage_idx_ k))).flatMap fun _ =>
      (List.range (P.Ws_ (P.head_stage_idx_ k))).flatMap fun _ => P.levelReads data_null k

/-- The rows of the predictions that it writes, each cut to an `int` by the code. -/
def prepopulateRows : List Nat :=
  if P.num_head_levels_ = 0 ∨ staticCastInt P.total_anchors_ = 0 then []
  else (List.range P.num_head_levels_).flatMap fun k =>
    (List.range (P.Hs_ (P.head_stage_idx_ k))).flatMap fun gy =>
      (List.range (P.Ws_ (P.head_stage_idx_ k))).map fun gx =>
        P.row_offset k + gy * P.Ws_ (P.head_stage_idx_ k) + gx

def RowOk (row : Nat) : Prop := 0 ≤ staticCastInt row ∧ staticCastInt row < staticCastInt P.total_anchors_

instance (row : Nat) : Decidable (P.RowOk row) := inferInstanceAs (Decidable (_ ∧ _))

end Head

variable [CommRing R]

def setLayer (P : LoadedPipeline R) (l : Nat) (L : LayerBufs R) : LoadedPipeline R :=
  { P with layers_ := Function.update P.layers_ l L }

def setHead (P : LoadedPipeline R) (k : Nat) (head : YoloxBufs R) : LoadedPipeline R :=
  { P with head_ := Function.update P.head_ k head }

def setMeta (P : LoadedPipeline R) (info : ModelMeta) : LoadedPipeline R :=
  { P with
    H_ := info.gridHeight
    W_ := info.gridWidth
    num_classes_ := info.classCount
    tdrop_window_ := if info.ssla_tdrop_window > 0 then info.ssla_tdrop_window else P.tdrop_window_ }

def loadLayers (W : WeightsMap R) (P : LoadedPipeline R) : Checked (LoadedPipeline R) :=
  (List.range 8).foldlM (fun P l => do
    let L ← loadLayer W (layerName W l) (P.layers_ l) (inDim l) (outDim l)
    return P.setLayer l L) P

/-- The strides of a level are quotients by the sizes of its grid. -/
def loadHead (data_null : Bool) (rsqrt : R → R) (W : WeightsMap R) (P : LoadedPipeline R) (k : Nat) :
    Checked (LoadedPipeline R) := do
  Checked.divisor (P.Hs_ (P.head_stage_idx_ k))
  Checked.divisor (P.Ws_ (P.head_stage_idx_ k))
  let head ← loadYoloxLevel data_null rsqrt W k "deploy/ssla_kernels"
  return P.setHead k head

def loadHeads (data_null : Bool) (rsqrt : R → R) (W : WeightsMap R) (P : LoadedPipeline R) :
    Checked (LoadedPipeline R) :=
  (List.range P.num_head_levels_).foldlM (loadHead data_null rsqrt W) P

/-- The pipeline `P` is what the object holds before the call. -/
def load (data_null : Bool) (rsqrt : R → R) (P : LoadedPipeline R) (info : ModelMeta) (W : WeightsMap R) :
    Checked (LoadedPipeline R) := do
  Checked.throwIf (info.model ≠ "ssla_s_yolox_det")
    ("deploy/ssla_kernels: only ssla_s_yolox_det supported, got " ++ info.model)
  let P := P.setMeta info
  Checked.throwIf ((sslaIndices W).length ≠ 8)
    ("deploy/ssla_kernels: expected " ++ toString 8 ++ " ssla layers, found " ++
      toString (sslaIndices W).length)
  let P ← P.loadLayers W
  let P := { P with num_head_levels_ := numHeadLevels W }
  Checked.throwIf (numHeadLevels W = 0) "deploy/ssla_kernels: no head levels found"
  let P ← P.loadHeads data_null rsqrt W
  Checked.throwIf (¬ VectorsFit P.H_ P.W_ P.num_classes_ P.num_head_levels_)
    "cannot create std::vector larger than max_size()"
  Checked.access (decide (AllOk (P.prepopulateReads data_null)))
  Checked.access (decide (∀ row ∈ P.prepopulateRows, P.RowOk row))
  return P

end LoadedPipeline

end SslaRt
