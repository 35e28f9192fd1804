import SslaRt.Pipeline
import SslaRt.YoloxHead
import SslaRt.Scan

/-! The whole CPU pipeline as an object: all four stages, the head, and every
buffer that an operation leaves behind. -/

namespace SslaRt

variable {R : Type*}

abbrev kC2 : Nat := 48
abbrev kC3 : Nat := 96

def chans : Nat → Nat
  | 0 => kC0
  | 1 => kC1
  | 2 => kC2
  | _ => kC3

def outDim (layer_idx : Nat) : Nat := chans (layer_idx / 2)

/-- The first layer of a stage gets the channels of the stage before. -/
def inDim : Nat → Nat
  | 0 => kInDim
  | l + 1 => outDim l

structure DetectionOutput (R : Type*) where
  shape : List Nat
  data : Nat → R

structure StageScratch (R : Type*) where
  residual : Nat → R
  qvg : Nat → R
  qh : Nat → R

/-- `stack` is what a local array of `stage_forward_state_only` finds in memory. -/
structure DetectorState (R : Type*) where
  hidden_ : (l : Nat) → Nat → Fin (outDim l) → R
  tdrop_counter_ : Nat → Nat → UInt8
  last_t_us_ : Nat → ℚ
  scratch_ : Nat → StageScratch R
  zero_feat_cell_ : Nat → R
  scratch_head_ : HeadScratch R
  stage_out_ : Nat → Nat → R
  last_predictions_ : Nat → R
  last_det_ : DetectionOutput R
  last_output_ : Option (DetectionOutput R)
  stack : Nat → R

namespace DetectorState

def pipe (s : DetectorState R) : PipeState R where
  hidden_0 := s.hidden_ 0
  hidden_1 := s.hidden_ 1
  hidden_2 := s.hidden_ 2
  hidden_3 := s.hidden_ 3
  tdrop_counter_ := s.tdrop_counter_
  last_t_us_ := s.last_t_us_

def setHidden (s : DetectorState R) (l : Nat) (H : Nat → Fin (outDim l) → R) : DetectorState R :=
  { s with hidden_ := Function.update s.hidden_ l H }

def setStageOut (s : DetectorState R) (stage : Nat) (tmp : Nat → R) : DetectorState R :=
  { s with stage_out_ := Function.update s.stage_out_ stage tmp }

def publishOutput (s : DetectorState R) : DetectorState R :=
  let det := { s.last_det_ with data := s.last_predictions_ }
  { s with last_det_ := det, last_output_ := some det }

end DetectorState

def writeRow {n : Nat} (buf : Nat → R) (off : Nat) (row : Fin n → R) : Nat → R :=
  fun j => if h : off ≤ j ∧ j < off + n then row ⟨j - off, by omega⟩ else buf j

section Layer

variable [CommRing R]

structure LayerBuffers (R : Type*) (OUT : Nat) where
  H_all : Nat → Fin OUT → R
  scratch : StageScratch R
  feat_out : Nat → R

def processPatchBuffers (ar : Arith R) (IN OUT : Nat) (L : LayerWeights R) (feat_in : Nat → R)
    (b : LayerBuffers R OUT) (c : Nat × Nat) : LayerBuffers R OUT :=
  let qvg := writeFeat b.scratch.qvg (matvec IN (3 * OUT) (readFeat IN feat_in) (L.qvgIn c.2))
  let q := fun o : Fin OUT => qvg o
  let v := fun o : Fin OUT => qvg (OUT + o)
  let g := fun o : Fin OUT => qvg (2 * OUT + o)
  let r := lruStep ar g v q (b.H_all c.1)
  let qh := writeFeat b.scratch.qh r.2
  let feat_out := writeFeat b.feat_out
    (readFeat OUT b.feat_out + matvec OUT OUT (readFeat OUT qh) (L.goW c.2))
  ⟨Function.update b.H_all c.1 r.1, { b.scratch with qvg := qvg, qh := qh }, feat_out⟩

/-- `layer_forward_ct` on its buffers. -/
def layerBuffers (ar : Arith R) (IN OUT : Nat) (L : LayerWeights R) (ev_x ev_y Hl Wl : Nat)
    (feat_in : Nat → R) (b : LayerBuffers R OUT) : LayerBuffers R OUT :=
  let residual := match L.input_proj with
    | some W => writeFeat b.scratch.residual (matvec IN OUT (readFeat IN feat_in) W)
    | none => writeFeat b.scratch.residual (readFeat OUT feat_in)
  let feat_out := writeFeat b.feat_out (0 : Fin OUT → R)
  let b := (patchOrder L.num_pos ev_x ev_y Hl Wl).foldl (processPatchBuffers ar IN OUT L feat_in)
    ⟨b.H_all, { b.scratch with residual := residual }, feat_out⟩
  let feat_out := writeFeat b.feat_out (readFeat OUT b.feat_out + readFeat OUT b.scratch.residual)
  let feat_out := writeFeat feat_out (layernorm ar (readFeat OUT feat_out) L.ln_gamma L.ln_beta)
  { b with feat_out := feat_out }

end Layer

structure SslaSDetector (R : Type*) extends SslaSPipeline R where
  hm : HeadArith R
  num_classes_ : Nat
  num_head_levels_ : Nat
  levels_pos : 0 < num_head_levels_
  levels_le : num_head_levels_ ≤ 4
  head_weights : Nat → YoloxWeights R

namespace SslaSDetector

section Geometry

variable (P : SslaSDetector R)

def head_stage_idx_ (k : Nat) : Nat := 4 - P.num_head_levels_ + k

/-- `load_yolox_level`. -/
def head_ (k : Nat) : YoloxLevel R :=
  let si := P.head_stage_idx_ k
  { P.head_weights k with
    C_in := chans si
    C_hid := kC3
    n_cls := P.num_classes_
    stride_h := P.H_ / P.Hs_ si
    stride_w := P.W_ / P.Ws_ si
    H_grid := P.Hs_ si
    W_grid := P.Ws_ si }

def row_offset (level : Nat) : Nat :=
  ((List.range level).map fun k => (P.head_ k).H_grid * (P.head_ k).W_grid).sum

def total_anchors_ : Nat := P.row_offset P.num_head_levels_

def row_stride : Nat := 5 + P.num_classes_

def headLevel (stage : Nat) : Option Nat :=
  (List.range P.num_head_levels_).find? fun k => P.head_stage_idx_ k = stage

def headCells : List (Nat × Nat × Nat) :=
  (List.range P.num_head_levels_).flatMap fun k =>
    (List.range (P.head_ k).H_grid).flatMap fun gy =>
      (List.range (P.head_ k).W_grid).map fun gx => (k, gy, gx)

end Geometry

variable [CommRing R] (P : SslaSDetector R)

section Forward

variable (s : DetectorState R) (ev_x ev_y : Nat)

def layerForwardCt (layer_idx : Nat) (feat_in feat_out : Nat → R) : DetectorState R × (Nat → R) :=
  let stage := layer_idx / 2
  let b := layerBuffers P.ar (inDim layer_idx) (outDim layer_idx) (P.layers_ layer_idx) ev_x ev_y
    (P.Hs_ stage) (P.Ws_ stage) feat_in ⟨s.hidden_ layer_idx, s.scratch_ stage, feat_out⟩
  ({ s with
    hidden_ := Function.update s.hidden_ layer_idx b.H_all
    scratch_ := Function.update s.scratch_ stage b.scratch }, b.feat_out)

/-- The first layer of a stage, with the buffer of the stage as its output. -/
def firstLayer (stage : Nat) (feat_in : Nat → R) : DetectorState R :=
  let r := P.layerForwardCt s ev_x ev_y (2 * stage) feat_in (s.stage_out_ stage)
  r.1.setStageOut stage r.2

def firstFused0 (feat_in : Nat → R) : DetectorState R :=
  let L0 := P.layers_ 0
  let r := s0_l0_interior P.ar ev_x ev_y (P.Ws_ 0) (readFeat kInDim feat_in) (P.inputProj 0)
    (L0.qvgIn 0) (L0.goW 0) L0.ln_gamma L0.ln_beta (s.hidden_ 0)
  (s.setHidden 0 r.1).setStageOut 0 (writeFeat (s.stage_out_ 0) r.2)

def firstFused1 (feat_in : Nat → R) : DetectorState R :=
  let L0 := P.layers_ 2
  let r := s1_l0_interior_tiled P.ar ev_x ev_y (P.Ws_ 1) (readFeat kC0 feat_in) (P.inputProj 2)
    L0.qvgIn L0.goW_T L0.ln_gamma L0.ln_beta (s.hidden_ 2)
  (s.setHidden 2 r.1).setStageOut 1 (writeFeat (s.stage_out_ 1) r.2)

def secondFused0 (feat_out : Nat → R) : DetectorState R × (Nat → R) :=
  let L1 := P.layers_ 1
  let r := s0_l1_interior P.ar ev_x ev_y (P.Ws_ 0) (readFeat kC0 (s.stage_out_ 0)) L1.qvgIn L1.goW
    L1.ln_gamma L1.ln_beta (s.hidden_ 1)
  (s.setHidden 1 r.1, writeFeat feat_out r.2)

def secondFused1 (feat_out : Nat → R) : DetectorState R × (Nat → R) :=
  let L1 := P.layers_ 3
  let r := s1_l1_interior_tiled P.ar ev_x ev_y (P.Ws_ 1) (readFeat kC1 (s.stage_out_ 1)) L1.qvgIn
    L1.goW_T L1.ln_gamma L1.ln_beta (s.hidden_ 3)
  (s.setHidden 3 r.1, writeFeat feat_out r.2)

def secondStateOnly0 : DetectorState R :=
  s.setHidden 1 (s0_l1_interior_state_only P.ar ev_x ev_y (P.Ws_ 0) (readFeat kC0 (s.stage_out_ 0))
    (P.layers_ 1).qvgIn (s.hidden_ 1))

def secondStateOnly1 : DetectorState R :=
  s.setHidden 3 (s1_l1_interior_tiled_state_only P.ar ev_x ev_y (P.Ws_ 1)
    (readFeat kC1 (s.stage_out_ 1)) (P.layers_ 3).qvgIn (s.hidden_ 3))

def stageForward (stage : Fin 4) (feat_in feat_out : Nat → R) : DetectorState R × (Nat → R) :=
  match stage with
  | 0 =>
    if Interior ev_x ev_y (P.Hs_ 0) (P.Ws_ 0) then
      P.secondFused0 (P.firstFused0 s ev_x ev_y feat_in) ev_x ev_y feat_out
    else
      let s := P.firstLayer s ev_x ev_y 0 feat_in
      P.layerForwardCt s ev_x ev_y 1 (s.stage_out_ 0) feat_out
  | 1 =>
    let s := if Interior ev_x ev_y (P.Hs_ 1) (P.Ws_ 1) then P.firstFused1 s ev_x ev_y feat_in
      else P.firstLayer s ev_x ev_y 1 feat_in
    if Interior ev_x ev_y (P.Hs_ 1) (P.Ws_ 1) then P.secondFused1 s ev_x ev_y feat_out
    else P.layerForwardCt s ev_x ev_y 3 (s.stage_out_ 1) feat_out
  | 2 =>
    let s := P.firstLayer s ev_x ev_y 2 feat_in
    P.layerForwardCt s ev_x ev_y 5 (s.stage_out_ 2) feat_out
  | 3 =>
    let s := P.firstLayer s ev_x ev_y 3 feat_in
    P.layerForwardCt s ev_x ev_y 7 (s.stage_out_ 3) feat_out

/-- The output goes to the local array, which stays behind. -/
def discardOutput (r : DetectorState R × (Nat → R)) : DetectorState R := { r.1 with stack := r.2 }

def stageForwardStateOnly (stage : Fin 4) (feat_in : Nat → R) : DetectorState R :=
  match stage with
  | 0 =>
    if Interior ev_x ev_y (P.Hs_ 0) (P.Ws_ 0) then
      P.secondStateOnly0 (P.firstFused0 s ev_x ev_y feat_in) ev_x ev_y
    else
      let s := P.firstLayer s ev_x ev_y 0 feat_in
      discardOutput (P.layerForwardCt s ev_x ev_y 1 (s.stage_out_ 0) s.stack)
  | 1 =>
    if Interior ev_x ev_y (P.Hs_ 1) (P.Ws_ 1) then
      P.secondStateOnly1 (P.firstFused1 s ev_x ev_y feat_in) ev_x ev_y
    else
      let s := P.firstLayer s ev_x ev_y 1 feat_in
      discardOutput (P.layerForwardCt s ev_x ev_y 3 (s.stage_out_ 1) s.stack)
  | 2 => discardOutput (P.stageForward s ev_x ev_y 2 feat_in s.stack)
  | 3 => discardOutput (P.stageForward s ev_x ev_y 3 feat_in s.stack)

end Forward

section Operations

variable (s : DetectorState R)

def preprocess (e : Event R) : DetectorState R × (Fin kInDim → R) :=
  let r := P.toSslaSPipeline.preprocess s.pipe e
  ({ s with last_t_us_ := r.1.last_t_us_ }, r.2)

def tdropCheckAt (stage pooled_ev_x pooled_ev_y : Nat) : DetectorState R × Bool :=
  let r := P.toSslaSPipeline.tdropCheckAt s.pipe stage pooled_ev_x pooled_ev_y
  ({ s with tdrop_counter_ := r.1.tdrop_counter_ }, r.2)

/-- The coordinates are references and come back changed. -/
def tdropAndPool (stage ev_x ev_y : Nat) : DetectorState R × Nat × Nat × Bool :=
  let r := P.toSslaSPipeline.tdropAndPool s.pipe stage ev_x ev_y
  ({ s with tdrop_counter_ := r.state.tdrop_counter_ }, r.ev_x, r.ev_y, r.pass)

def decodeInto (decode : HeadScratch R → (Fin P.row_stride → R) × HeadScratch R)
    (level gx gy : Nat) : DetectorState R :=
  let r := decode s.scratch_head_
  let cell := P.row_offset level + gy * (P.head_ level).W_grid + gx
  { s with
    last_predictions_ := writeRow s.last_predictions_ (cell * P.row_stride) r.1
    scratch_head_ := r.2 }

def headDecodeCell (stage : Nat) (gx gy : Int) (feat : Nat → R) : DetectorState R :=
  match P.headLevel stage with
  | none => s
  | some level =>
    if gx < 0 ∨ gx ≥ (P.head_ level).W_grid ∨ gy < 0 ∨ gy ≥ (P.head_ level).H_grid then s
    else
      let decode := decodeYoloxCellCt P.hm (chans stage) kC3 (P.head_ level) gx.toNat gy.toNat feat
      (P.decodeInto s decode level gx.toNat gy.toNat).publishOutput

def prepopulateHeadZero : DetectorState R :=
  if P.num_head_levels_ = 0 ∨ P.total_anchors_ = 0 then s
  else
    (P.headCells.foldl (fun s c =>
      let decode := decodeYoloxCell P.hm (P.head_ c.1) c.2.2 c.2.1 s.zero_feat_cell_
      P.decodeInto s decode c.1 c.2.2 c.2.1) s).publishOutput

def clear : DetectorState R :=
  { s with
    hidden_ := fun _ _ => 0
    stage_out_ := fun _ _ => 0
    tdrop_counter_ := fun _ _ => 0
    last_t_us_ := fun _ => -1
    last_predictions_ := fun _ => 0
    last_output_ := none }

def reset : DetectorState R := P.prepopulateHeadZero (clear s)

/-- The buffers that `load` allocates. -/
def allocate (stack : Nat → R) : DetectorState R where
  hidden_ := fun _ _ => 0
  tdrop_counter_ := fun _ _ => 0
  last_t_us_ := fun _ => -1
  scratch_ := fun _ => ⟨fun _ => 0, fun _ => 0, fun _ => 0⟩
  zero_feat_cell_ := fun _ => 0
  scratch_head_ := ⟨fun _ => 0, fun _ => 0, fun _ => 0⟩
  stage_out_ := fun _ _ => 0
  last_predictions_ := fun _ => 0
  last_det_ := ⟨[P.total_anchors_, 5 + P.num_classes_], fun _ => 0⟩
  last_output_ := none
  stack := stack

def load (stack : Nat → R) : DetectorState R := P.prepopulateHeadZero (P.allocate stack)

end Operations

end SslaSDetector

/-- The operations with their arguments; a pointer stands for the floats it
points to. -/
inductive DetectorOp (R : Type*)
  | preprocess (e : Event R)
  | stage_forward (stage : Fin 4) (ev_x ev_y : Nat) (feat_in feat_out : Nat → R)
  | stage_forward_state_only (stage : Fin 4) (ev_x ev_y : Nat) (feat_in : Nat → R)
  | layer_forward (layer_idx : Fin 8) (ev_x ev_y : Nat) (feat_in feat_out : Nat → R)
  | tdrop_and_pool (stage ev_x ev_y : Nat)
  | tdrop_check_at (stage pooled_ev_x pooled_ev_y : Nat)
  | head_decode_cell (stage : Nat) (gx gy : Int) (feat : Nat → R)
  | reset

inductive OpResult (R : Type*)
  | done
  | features (feat_out : Nat → R)
  | input (feat_out : Fin kInDim → R)
  | pooled (ev_x ev_y : Nat) (pass : Bool)
  | passed (pass : Bool)

/-- A result, with `predictions()` and `last_output()` after it. -/
structure Observed (R : Type*) where
  result : OpResult R
  predictions : Nat → R
  last_output : Option (DetectionOutput R)

namespace SslaSDetector

variable [CommRing R] (P : SslaSDetector R)

def run (s : DetectorState R) : DetectorOp R → DetectorState R × OpResult R
  | .preprocess e => ((P.preprocess s e).1, .input (P.preprocess s e).2)
  | .stage_forward stage ev_x ev_y feat_in feat_out =>
    let r := P.stageForward s ev_x ev_y stage feat_in feat_out
    (r.1, .features r.2)
  | .stage_forward_state_only stage ev_x ev_y feat_in =>
    (P.stageForwardStateOnly s ev_x ev_y stage feat_in, .done)
  | .layer_forward layer_idx ev_x ev_y feat_in feat_out =>
    let r := P.layerForwardCt s ev_x ev_y layer_idx feat_in feat_out
    (r.1, .features r.2)
  | .tdrop_and_pool stage ev_x ev_y =>
    let r := P.tdropAndPool s stage ev_x ev_y
    (r.1, .pooled r.2.1 r.2.2.1 r.2.2.2)
  | .tdrop_check_at stage x y => ((P.tdropCheckAt s stage x y).1, .passed (P.tdropCheckAt s stage x y).2)
  | .head_decode_cell stage gx gy feat => (P.headDecodeCell s stage gx gy feat, .done)
  | .reset => (P.reset s, .done)

def step (s : DetectorState R) (op : DetectorOp R) : DetectorState R × Observed R :=
  let r := P.run s op
  (r.1, ⟨r.2, r.1.last_predictions_, r.1.last_output_⟩)

end SslaSDetector

end SslaRt
