import SslaRt.ShardLayer
import SslaRt.StagePipeline

/-! Scheme 7: every shard has a pipeline of its own, and the producer sends an event
to the shards that own its column or a column beside it. Markers, watermarks and
times are left out. -/

namespace SslaRt

variable {R : Type*}

structure OwnMsg (R : Type*) where
  is_owner : Bool
  owned_mask_l0 : BitVec 16
  x : Nat
  y : Nat
  feat_in : Fin kInDim → R

structure ReplicatedState (R : Type*) where
  pipes : Nat → DetectorState R
  q_own : Nat → List (OwnMsg R)

/-- What an event gave on one pipeline: the features of the stages it reached, the
decisions behind them, and the cell of the head. -/
structure Outcome (R : Type*) where
  feats : List (Nat → R)
  passed : List Bool
  head_cell : Option (List R)

/-- `affected[s / 8] |= 1u << (s % 8)`. -/
def markShard (affected : Nat → BitVec 8) (s : Nat) : Nat → BitVec 8 :=
  Function.update affected (s / 8) (affected (s / 8) ||| 1#8 <<< (s % 8))

def affectedBytes (W N : Nat) (ex : Int) : Nat → BitVec 8 :=
  let mark := fun affected col => markShard affected (shardOfCol W N (clampCol W col))
  mark (mark (mark (fun _ => 0#8) (ex - 1)) ex) (ex + 1)

def isAffected (W N : Nat) (ex : Int) (k : Nat) : Bool :=
  (affectedBytes W N ex (k / 8)).getLsbD (k % 8)

namespace SslaSDetector

variable [CommRing R] (P : SslaSDetector R)

/-- `shard_layer_forward` with the hidden state of a layer, for a zeroed partial. -/
def shardLayerForward (s : DetectorState R) (layer_idx ev_x ev_y : Nat) (feat_in : Nat → R)
    (owned_patch_mask : BitVec 16) : DetectorState R × (Fin (outDim layer_idx) → R) :=
  let stage := layer_idx / 2
  let r := shardLayerForwardCt P.ar (inDim layer_idx) (outDim layer_idx) (P.layers_ layer_idx) ev_x ev_y
    (P.Hs_ stage) (P.Ws_ stage) (readFeat (inDim layer_idx) feat_in) owned_patch_mask
    (s.hidden_ layer_idx)
  (s.setHidden layer_idx r.1, r.2)

/-- The row of a cell of the last stage. -/
def headCellRow (s : DetectorState R) (gx gy : Nat) : Option (List R) :=
  (P.headLevel 3).map fun level =>
    let cell := P.row_offset level + gy * (P.head_ level).W_grid + gx
    (List.range P.row_stride).map fun o => s.last_predictions_ (cell * P.row_stride + o)

/-- A stage with its cell and its feature. -/
structure Touched (R : Type*) where
  x : Nat
  y : Nat
  feat : Nat → R

/-- The four stages with the drops between them; `decode` follows the last one. -/
def throughStages (decode : DetectorState R → (Fin 4 → Touched R) → DetectorState R)
    (s : DetectorState R) (x y : Nat) (feat_in : Nat → R) : DetectorState R × Outcome R :=
  let f0 := P.stageForward s x y 0 feat_in fun _ => 0
  let p0 := P.tdropAndPool f0.1 0 x y
  if !p0.2.2.2 then (p0.1, ⟨[f0.2], [false], none⟩)
  else
    let f1 := P.stageForward p0.1 p0.2.1 p0.2.2.1 1 f0.2 fun _ => 0
    let p1 := P.tdropAndPool f1.1 1 p0.2.1 p0.2.2.1
    if !p1.2.2.2 then (p1.1, ⟨[f0.2, f1.2], [true, false], none⟩)
    else
      let f2 := P.stageForward p1.1 p1.2.1 p1.2.2.1 2 f1.2 fun _ => 0
      let p2 := P.tdropAndPool f2.1 2 p1.2.1 p1.2.2.1
      if !p2.2.2.2 then (p2.1, ⟨[f0.2, f1.2, f2.2], [true, true, false], none⟩)
      else
        let f3 := P.stageForward p2.1 p2.2.1 p2.2.2.1 3 f2.2 fun _ => 0
        let t := decode f3.1 ![⟨x, y, f0.2⟩, ⟨p0.2.1, p0.2.2.1, f1.2⟩, ⟨p1.2.1, p1.2.2.1, f2.2⟩,
          ⟨p2.2.1, p2.2.2.1, f3.2⟩]
        (t, ⟨[f0.2, f1.2, f2.2, f3.2], [true, true, true], P.headCellRow t p2.2.1 p2.2.2.1⟩)

section Shards

variable (N : Nat)

def pushOne (st : ReplicatedState R) (e : Event R) : ReplicatedState R :=
  let ex := castInt e.x
  let ey := castInt e.y
  if P.OutOfBounds ex ey then st
  else
    let owner_k := shardOfCol P.W_ N ex
    let r := P.preprocess (st.pipes owner_k) e
    let om := fun k => (⟨k == owner_k, if k = owner_k then 0x1FF#16 else shardPatchMask k ex.toNat P.W_ N,
      ex.toNat, ey.toNat, r.2⟩ : OwnMsg R)
    { pipes := Function.update st.pipes owner_k r.1
      q_own := fun k =>
        if k < N ∧ isAffected P.W_ N ex k then st.q_own k ++ [om k] else st.q_own k }

/-- An event of the queue of a shard. Where it is not the owner, the shard has run
`shard_layer_forward` on layer 0 and then runs the stages as well, without the head. -/
def shardEvent (s : DetectorState R) (om : OwnMsg R) : DetectorState R × Outcome R :=
  if om.is_owner then
    P.throughStages (fun s at_ => P.headDecodeCell s 3 (at_ 3).x (at_ 3).y (at_ 3).feat) s om.x om.y
      (featBuf om.feat_in)
  else
    let s := (P.shardLayerForward s 0 om.x om.y (featBuf om.feat_in) om.owned_mask_l0).1
    P.throughStages (fun s _ => s) s om.x om.y (featBuf om.feat_in)

end Shards

/-- One event in the sequential scheme, with its outcome; it decodes all levels. -/
def referenceEvent (s : DetectorState R) (e : Event R) : DetectorState R × Option (Outcome R) :=
  let ex0 := castInt e.x
  let ey0 := castInt e.y
  if P.OutOfBounds ex0 ey0 then (s, none)
  else
    let r := P.preprocess s e
    let t := P.throughStages (fun s at_ =>
      let s := P.headDecodeCell s 0 (at_ 0).x (at_ 0).y (at_ 0).feat
      let s := P.headDecodeCell s 1 (at_ 1).x (at_ 1).y (at_ 1).feat
      let s := P.headDecodeCell s 2 (at_ 2).x (at_ 2).y (at_ 2).feat
      P.headDecodeCell s 3 (at_ 3).x (at_ 3).y (at_ 3).feat) r.1 ex0.toNat ey0.toNat (featBuf r.2)
    (t.1, some t.2)

theorem referenceEvent_processOne (s : DetectorState R) (e : Event R) :
    (P.referenceEvent s e).1 = P.processOne s e := by
  simp only [referenceEvent, processOne, throughStages]
  split
  · rfl
  · split
    · rfl
    · split
      · rfl
      · split <;> rfl

end SslaSDetector

end SslaRt
