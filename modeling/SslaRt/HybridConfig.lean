import SslaRt.GpuWeights

/-! The grids, strips and layers of stages 2 and 3. -/

namespace SslaRt

abbrev C1 : Nat := 24
abbrev C2 : Nat := 48
abbrev C3 : Nat := 96

/-- The s2 grid; the s3 grid has half its resolution. -/
structure S2Grid where
  H2 : Nat
  W2 : Nat

def S2Grid.H3 (g : S2Grid) : Nat := g.H2 / 2
def S2Grid.W3 (g : S2Grid) : Nat := g.W2 / 2

/-- An s2 grid that the s3 grid covers exactly. -/
structure EvenGrid extends S2Grid where
  H2_even : H2 % 2 = 0
  W2_even : W2 % 2 = 0

/-- The part of an input record that a block processes: a cell of the grid
and the stage-1 feature. -/
structure S2Record (R : Type*) (g : S2Grid) where
  x : Nat
  y : Nat
  feat1 : Fin C1 → R
  x_lt : x < g.W2
  y_lt : y < g.H2

/-- Ownership rectangle of a block at s2 and at s3 resolution. -/
structure HybridStrip where
  owned_lo : Int
  owned_hi : Int
  s3_owned_lo : Int
  s3_owned_hi : Int
  owned_y_lo : Int
  owned_y_hi : Int
  s3_owned_y_lo : Int
  s3_owned_y_hi : Int
  deriving DecidableEq, Repr

def HybridStrip.Owns (s : HybridStrip) (x y : Int) : Prop :=
  x ≥ s.owned_lo ∧ x < s.owned_hi ∧ y ≥ s.owned_y_lo ∧ y < s.owned_y_hi

instance (s : HybridStrip) (x y : Int) : Decidable (s.Owns x y) :=
  inferInstanceAs (Decidable (_ ∧ _))

structure S2S3Layers (R : Type*) where
  L4 : LayerRef R C1 C2
  L5 : LayerRef R C2 C2
  L6 : LayerRef R C2 C3
  L7 : LayerRef R C3 C3
  L4_K : L4.K = 3
  L5_K : L5.K = 3
  L6_K : L6.K = 3
  L7_K : L7.K = 3

structure S2S3Weights (R : Type*) where
  L4 : LayerWeightsS2S3 R
  L5 : LayerWeightsS2S3 R
  L6 : LayerWeightsS2S3 R
  L7 : LayerWeightsS2S3 R

def S2S3Layers.upload {R : Type*} (layers : S2S3Layers R) : S2S3Weights R where
  L4 := SslaRt.upload layers.L4
  L5 := SslaRt.upload layers.L5
  L6 := SslaRt.upload layers.L6
  L7 := SslaRt.upload layers.L7

/-- At kernel entry the weights `qvgIn` of L4 are copied to shared memory. -/
def S2S3Weights.cacheL4 {R : Type*} (w : S2S3Weights R) (qvg_l4_sm : Nat → R) : S2S3Weights R :=
  { w with L4 := cacheQvgIn (9 * 3 * C2 * C1) qvg_l4_sm w.L4 }

structure S2S3Weights.Represents {R : Type*} (w : S2S3Weights R) (layers : S2S3Layers R) :
    Prop where
  L4 : w.L4.Represents layers.L4
  L5 : w.L5.Represents layers.L5
  L6 : w.L6.Represents layers.L6
  L7 : w.L7.Represents layers.L7

theorem S2S3Layers.upload_represents {R : Type*} (layers : S2S3Layers R) :
    layers.upload.Represents layers :=
  ⟨SslaRt.upload_represents _, SslaRt.upload_represents _, SslaRt.upload_represents _,
    SslaRt.upload_represents _⟩

theorem S2S3Weights.Represents.cacheL4 {R : Type*} {w : S2S3Weights R} {layers : S2S3Layers R}
    (h : w.Represents layers) (qvg_l4_sm : Nat → R) : (w.cacheL4 qvg_l4_sm).Represents layers :=
  { h with L4 := cacheQvgIn_represents h.L4 qvg_l4_sm }

structure S2S3State (R : Type*) where
  H4 : Nat → Fin C2 → R
  H5 : Nat → Fin C2 → R
  H6 : Nat → Fin C3 → R
  H7 : Nat → Fin C3 → R
  tdrop_s2 : Nat → UInt8
  tdrop_s3 : Nat → UInt8

end SslaRt
