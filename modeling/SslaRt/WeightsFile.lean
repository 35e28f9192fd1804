import SslaRt.CheckedRun
import Mathlib.Data.List.Sort

/-! The tensors of a weights file under their names, and the search for the
indices of the SSLA layers among the names. -/

namespace SslaRt

open CheckedRun

variable {R : Type*}

/-- The file reader gives every tensor as many values as its shape says. -/
structure Tensor (R : Type*) where
  shape : List Nat
  data : List R
  numel : data.length = shape.prod

structure WeightsMap (R : Type*) where
  entries : List (String × Tensor R)
  keys_nodup : (entries.map Prod.fst).Nodup

/-- The fields of `meta.json` that the loader reads. -/
structure ModelMeta where
  model : String
  height : Int
  width : Int
  num_classes : Int
  ssla_tdrop_window : Int

def maybeGet (W : WeightsMap R) (k : String) : Option (Tensor R) := W.entries.lookup k

def mustGet (W : WeightsMap R) (k : String) : Checked (Tensor R) :=
  match maybeGet W k with
  | some t => pure t
  | none => .throw ("ssla: missing tensor " ++ k)

theorem returns_mustGet {W : WeightsMap R} {k : String} {t : Tensor R} :
    (mustGet W k).Returns t ↔ maybeGet W k = some t := by
  unfold mustGet
  cases maybeGet W k with
  | none => simp [Checked.Returns, Checked.throw]
  | some t' => simp [Checked.returns_pure]

theorem safe_mustGet {W : WeightsMap R} (k : String) : (mustGet W k).Safe := by
  unfold mustGet
  split <;> rfl

/-- `static_cast<int>` of a size. -/
def staticCastInt (n : Nat) : Int := (n : Int).bmod (2 ^ 32)

theorem staticCastInt_of_lt {n : Nat} (h : n < 2 ^ 31) : staticCastInt n = n := by
  unfold staticCastInt
  rw [Int.bmod_eq_of_le] <;> omega

def isSpace (c : Char) : Bool := c ∈ [' ', '\t', '\n', '\x0b', '\x0c', '\r']

/-- `std::stoi`: leading blanks, a sign, and the digits up to the first other
character. It throws without a digit and out of the range of `int`. -/
def stoi (cs : List Char) : Option Int :=
  let cs := cs.dropWhile isSpace
  let neg := cs.head? = some '-'
  let cs := if cs.head? = some '-' ∨ cs.head? = some '+' then cs.tail else cs
  let digits := cs.takeWhile Char.isDigit
  if digits = [] then none
  else
    let n : Int := digits.foldl (fun n c => 10 * n + (c.toNat - 48)) 0
    let n := if neg then -n else n
    if -2 ^ 31 ≤ n ∧ n < 2 ^ 31 then some n else none

/-- The index in a name `layers/<index>/W_in_cat`. -/
def layerIndex (k : String) : Option Int :=
  let layers := "layers/".toList
  if k.toList.length ≤ layers.length ∨ layers.isPrefixOf k.toList = false then none
  else
    let rest := k.toList.drop layers.length
    let index := rest.takeWhile (· ≠ '/')
    if index = rest then none
    else if rest.drop (index.length + 1) ≠ "W_in_cat".toList then none
    else stoi index

def sslaIndices (W : WeightsMap R) : List Int :=
  ((W.entries.map Prod.fst).filterMap layerIndex).insertionSort (· ≤ ·)

def layerName (W : WeightsMap R) (l : Nat) : String :=
  "layers/" ++ toString ((sslaIndices W).getD l 0)

def numHeadLevels (W : WeightsMap R) : Nat :=
  ((List.range 4).takeWhile fun k =>
    (maybeGet W ("head/cls_convs/" ++ toString k ++ "/0/weight")).isSome).length

theorem numHeadLevels_le (W : WeightsMap R) : numHeadLevels W ≤ 4 := by
  have h := (List.takeWhile_sublist (l := List.range 4) fun k =>
    (maybeGet W ("head/cls_convs/" ++ toString k ++ "/0/weight")).isSome).length_le
  simpa [numHeadLevels] using h

end SslaRt
