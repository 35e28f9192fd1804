import SslaRt.Topology
import SslaRt.HybridConfig

/-! The prediction grid of a block: where the head of the kernel writes, and
how many cells are allocated for it. -/

namespace SslaRt

open Cuts

/-- The strip fields of the configuration; `>> 1` rounds down. -/
def buildStrip (t : BlockTopo) : HybridStrip where
  owned_lo := t.owned_x_lo
  owned_hi := t.owned_x_hi
  s3_owned_lo := t.owned_x_lo / 2
  s3_owned_hi := t.owned_x_hi / 2
  owned_y_lo := t.owned_y_lo
  owned_y_hi := t.owned_y_hi
  s3_owned_y_lo := t.owned_y_lo / 2
  s3_owned_y_hi := t.owned_y_hi / 2

/-- The range test of the head and the cell it writes. -/
def headCell (strip : HybridStrip) (s3x s3y : Int) : Option Int :=
  let hx_local := s3x - strip.s3_owned_lo
  let hy_local := s3y - strip.s3_owned_y_lo
  let s3_owned_w := strip.s3_owned_hi - strip.s3_owned_lo
  let s3_owned_h := strip.s3_owned_y_hi - strip.s3_owned_y_lo
  if hx_local ≥ 0 ∧ hx_local < s3_owned_w ∧ hy_local ≥ 0 ∧ hy_local < s3_owned_h then
    some (hy_local * s3_owned_w + hx_local)
  else none

/-- The cell that an event writes: only an owned event that passes both
dropouts reaches the head. -/
def predictionWrite (strip : HybridStrip) (x y : Nat) (pass2 pass3 : Bool) : Option Int :=
  if strip.Owns x y ∧ pass2 = true ∧ pass3 = true then
    headCell strip (x / 2 : Nat) (y / 2 : Nat)
  else none

def nCells (t : BlockTopo) : Int :=
  let s3w := (t.owned_x_hi - t.owned_x_lo) / 2
  let s3h := (t.owned_y_hi - t.owned_y_lo) / 2
  max 1 (s3w * s3h)

def BlockTopo.InProc (t : BlockTopo) (x y : Int) : Prop :=
  t.proc_x_lo ≤ x ∧ x < t.proc_x_hi ∧ t.proc_y_lo ≤ y ∧ y < t.proc_y_hi

instance (t : BlockTopo) (x y : Int) : Decidable (t.InProc x y) :=
  inferInstanceAs (Decidable (_ ∧ _))

section Block

variable (W2 H2 nw nh bw bh : Nat)

theorem owns_iff {x y : Nat} : (buildStrip (blockTopo W2 H2 nw nh bw bh)).Owns x y ↔
    InStrip (cut W2 nw) bw x ∧ InStrip (cut H2 nh) bh y := by
  simp only [HybridStrip.Owns, buildStrip, blockTopo, InStrip]
  omega

def rectCell (cx cy : Nat) : Nat :=
  (cy - halve (cut H2 nh) bh) * (halve (cut W2 nw) (bw + 1) - halve (cut W2 nw) bw) +
    (cx - halve (cut W2 nw) bw)

theorem headCell_eq {cx cy : Nat} : headCell (buildStrip (blockTopo W2 H2 nw nh bw bh)) cx cy =
    if InStrip (halve (cut W2 nw)) bw cx ∧ InStrip (halve (cut H2 nh)) bh cy then
      some (rectCell W2 H2 nw nh bw bh cx cy : Int) else none := by
  have hx : cut W2 nw bw ≤ cut W2 nw (bw + 1) := cut_mono W2 nw (Nat.le_succ _)
  have hy : cut H2 nh bh ≤ cut H2 nh (bh + 1) := cut_mono H2 nh (Nat.le_succ _)
  unfold headCell buildStrip blockTopo InStrip rectCell halve
  dsimp only
  split_ifs with h1 h2 h2
  · congr 1
    push_cast [h2.1.1, h2.2.1, Nat.div_le_div_right hx]
    rfl
  · omega
  · omega
  · rfl

end Block

end SslaRt
