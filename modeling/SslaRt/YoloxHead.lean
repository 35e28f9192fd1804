import SslaRt.Primitives
import Mathlib.Data.Fin.Tuple.Basic

/-! The decoder of the YOLOX head for one cell. The scratch vectors of the
caller keep what earlier cells left in them. -/

namespace SslaRt

variable {R : Type*}

section Buffers

variable {n : Nat} (buf : Nat → R) (x y : Fin n → R)

theorem writeFeat_writeFeat : writeFeat (writeFeat buf x) y = writeFeat buf y := by
  funext j
  unfold writeFeat
  split <;> rfl

theorem writeFeat_of_lt {j : Nat} (hj : j < n) : writeFeat buf x j = x ⟨j, hj⟩ := dif_pos hj

end Buffers

structure YoloxWeights (R : Type*) where
  W_cls_conv : Nat → R
  b_cls_conv : Nat → R
  W_reg_conv : Nat → R
  b_reg_conv : Nat → R
  W_cls_pred : Nat → R
  b_cls_pred : Nat → R
  W_reg_pred : Nat → R
  b_reg_pred : Nat → R
  W_obj_pred : Nat → R
  b_obj_pred : Nat → R

structure YoloxLevel (R : Type*) extends YoloxWeights R where
  C_in : Nat
  C_hid : Nat
  n_cls : Nat
  stride_h : Nat
  stride_w : Nat
  H_grid : Nat
  W_grid : Nat

/-- Functions of the head that are not interpreted. -/
structure HeadArith (R : Type*) where
  silu : R → R
  exp : R → R

structure HeadScratch (R : Type*) where
  cls_f : Nat → R
  reg_f : Nat → R
  cls_logits : Nat → R

def siluInplace (hm : HeadArith R) (dim : Nat) (x : Nat → R) : Nat → R :=
  writeFeat x fun i : Fin dim => hm.silu (x i)

variable [CommRing R]

def matvecBias (IN OUT : Nat) (x : Fin IN → R) (W bias : Nat → R) : Fin OUT → R :=
  fun o => bias o + matvec IN OUT x W o

def decodeYoloxCellCt (hm : HeadArith R) (C_IN C_HID : Nat) (level : YoloxLevel R) (gx gy : Nat)
    (feat_cell : Nat → R) (scratch : HeadScratch R) : (Fin (5 + level.n_cls) → R) × HeadScratch R :=
  let x := readFeat C_IN feat_cell
  let cls_f := writeFeat scratch.cls_f (matvecBias C_IN C_HID x level.W_cls_conv level.b_cls_conv)
  let cls_f := siluInplace hm C_HID cls_f
  let cls_logits := writeFeat scratch.cls_logits
    (matvecBias C_HID level.n_cls (readFeat C_HID cls_f) level.W_cls_pred level.b_cls_pred)
  let reg_f := writeFeat scratch.reg_f (matvecBias C_IN C_HID x level.W_reg_conv level.b_reg_conv)
  let reg_f := siluInplace hm C_HID reg_f
  let reg_raw := matvecBias C_HID 4 (readFeat C_HID reg_f) level.W_reg_pred level.b_reg_pred
  let obj_logit := matvecBias C_HID 1 (readFeat C_HID reg_f) level.W_obj_pred level.b_obj_pred 0
  let box : Fin 5 → R := ![(reg_raw 0 + gx) * level.stride_w, (reg_raw 1 + gy) * level.stride_h,
    hm.exp (reg_raw 2) * level.stride_w, hm.exp (reg_raw 3) * level.stride_h, obj_logit]
  (Fin.append box (readFeat level.n_cls cls_logits), ⟨cls_f, reg_f, cls_logits⟩)

/-- The variant with the dimensions of the level. -/
def decodeYoloxCell (hm : HeadArith R) (level : YoloxLevel R) :=
  decodeYoloxCellCt hm level.C_in level.C_hid level

omit [CommRing R] in
theorem readFeat_siluInplace (hm : HeadArith R) {dim : Nat} (buf : Nat → R) (x : Fin dim → R) :
    readFeat dim (siluInplace hm dim (writeFeat buf x)) = fun i => hm.silu (x i) := by
  unfold siluInplace
  rw [readFeat_writeFeat]
  funext i
  rw [writeFeat_of_lt buf x i.isLt]

/-- Every scratch vector is written before it is read. -/
theorem decodeYoloxCellCt_row (hm : HeadArith R) (C_IN C_HID : Nat) (level : YoloxLevel R)
    (gx gy : Nat) (feat_cell : Nat → R) (scratch scratch' : HeadScratch R) :
    (decodeYoloxCellCt hm C_IN C_HID level gx gy feat_cell scratch).1 =
      (decodeYoloxCellCt hm C_IN C_HID level gx gy feat_cell scratch').1 := by
  simp only [decodeYoloxCellCt, readFeat_siluInplace, readFeat_writeFeat]

end SslaRt
