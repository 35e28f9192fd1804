import SslaRt.LoadedSchema
import SslaRt.MetaSpec
import SslaRt.NpzWeights

/-! The export that `make_ssla_stub.py` writes: the names and shapes of its tensors and the
members of its `meta.json`. The values are random, so that any will do. More head levels
than there are stages are left out. -/

namespace SslaRt

open CheckedRun TextSearch

def stubChans : List Nat := [12, 24, 48, 96]

def buildLayer (in_d out_d K : Nat) (name : String) : List (String × List Nat) :=
  let n_pos := K * K
  [(name ++ "/W_in_cat", [in_d, n_pos * out_d]), (name ++ "/W_out_cat", [n_pos * out_d, out_d])] ++
    (["q_proj", "v_proj", "g_proj", "o_proj"].map fun proj => (name ++ "/" ++ proj ++ "/weight", [out_d, out_d])) ++
    (if in_d ≠ out_d then [(name ++ "/input_proj/weight", [out_d, in_d])] else []) ++
    [(name ++ "/norm/weight", [out_d]), (name ++ "/norm/bias", [out_d])]

def convBn (C_in C_hid : Nat) (branch k : String) : List (String × List Nat) :=
  let name := "head/" ++ branch ++ "/" ++ k
  [(name ++ "/0/weight", [C_hid, C_in]), (name ++ "/1/weight", [C_hid]), (name ++ "/1/bias", [C_hid]),
    (name ++ "/1/running_mean", [C_hid]), (name ++ "/1/running_var", [C_hid])]

def buildYoloxHeadLevel (C_in C_hid n_cls level_idx : Nat) : List (String × List Nat) :=
  let k := toString level_idx
  convBn C_in C_hid "cls_convs" k ++ convBn C_in C_hid "reg_convs" k ++
    [("head/cls_preds/" ++ k ++ "/weight", [n_cls, C_hid]), ("head/cls_preds/" ++ k ++ "/bias", [n_cls]),
      ("head/reg_preds/" ++ k ++ "/weight", [4, C_hid]), ("head/reg_preds/" ++ k ++ "/bias", [4]),
      ("head/obj_preds/" ++ k ++ "/weight", [1, C_hid]), ("head/obj_preds/" ++ k ++ "/bias", [1])]

/-- The channels of a layer, and the side of its neighbourhood. -/
def layerSpecs : List (Nat × Nat × Nat) :=
  [(2, stubChans.getD 0 0, 1), (stubChans.getD 0 0, stubChans.getD 0 0, 3),
    (stubChans.getD 0 0, stubChans.getD 1 0, 3), (stubChans.getD 1 0, stubChans.getD 1 0, 3),
    (stubChans.getD 1 0, stubChans.getD 2 0, 3), (stubChans.getD 2 0, stubChans.getD 2 0, 3),
    (stubChans.getD 2 0, stubChans.getD 3 0, 3), (stubChans.getD 3 0, stubChans.getD 3 0, 3)]

def stubLayers : List (String × List Nat) :=
  layerSpecs.zipIdx.flatMap fun (s, li) => buildLayer s.1 s.2.1 s.2.2 ("layers/" ++ toString li)

def stubHeads (n_cls levels : Nat) : List (String × List Nat) :=
  (List.range levels).flatMap fun k =>
    buildYoloxHeadLevel (stubChans.getD (4 - levels + k) 0) (stubChans.getD 3 0) n_cls k

def stubWeights (n_cls levels : Nat) : List (String × List Nat) := stubLayers ++ stubHeads n_cls levels

/-- The arguments of the script. The loader divides by an eighth of the sizes, and counts
the cells and the columns of a prediction in an `int`. -/
structure StubArgs where
  h : Nat
  w : Nat
  num_classes : Nat
  tdrop : Nat
  num_head_levels : Nat
  h_ge : 8 ≤ h ∧ h < 2 ^ 31
  w_ge : 8 ≤ w ∧ w < 2 ^ 31
  cells_lt : h * w < 2 ^ 29
  classes_pos : 0 < num_classes ∧ 5 + num_classes < 2 ^ 31
  tdrop_pos : 0 < tdrop ∧ tdrop < 2 ^ 31
  levels_pos : 0 < num_head_levels ∧ num_head_levels ≤ 4

namespace StubArgs

variable (args : StubArgs)

theorem classes_lt : args.num_classes < 2 ^ 31 := Nat.lt_of_le_of_lt (Nat.le_add_left _ _) args.classes_pos.2

def weights : List (String × List Nat) := stubWeights args.num_classes args.num_head_levels

def total_params : Nat := (args.weights.map fun e => e.2.prod).sum

end StubArgs

theorem stubKeys_plain : ∀ key ∈ metaTextKeys ++ metaIntKeys, ∀ c ∈ key.toList, Plain c := by
  simp [metaTextKeys, metaIntKeys, Plain]

theorem stubTexts_plain : ∀ s ∈ ["ssla_s_yolox_det", "ssla", "float32", "C_order_row_major", "/", "stub_random"],
    ∀ c ∈ s.toList, Plain c := by simp [Plain]

def intMember (key : String) (n : Nat) (h : key ∈ metaTextKeys ++ metaIntKeys) : JsonMember :=
  ⟨key, .int n, stubKeys_plain key h⟩

def textMember (key s : String) (h : key ∈ metaTextKeys ++ metaIntKeys)
    (hs : s ∈ ["ssla_s_yolox_det", "ssla", "float32", "C_order_row_major", "/", "stub_random"]) : JsonMember :=
  ⟨key, .text ⟨s.toList, stubTexts_plain s hs⟩, stubKeys_plain key h⟩

def stubMeta (args : StubArgs) : List JsonMember :=
  [intMember "schema_version" 1 (by simp [metaIntKeys]),
    textMember "model" "ssla_s_yolox_det" (by simp [metaTextKeys]) (by simp),
    textMember "method" "ssla" (by simp [metaTextKeys]) (by simp),
    intMember "height" args.h (by simp [metaIntKeys]),
    intMember "width" args.w (by simp [metaIntKeys]),
    intMember "num_classes" args.num_classes (by simp [metaIntKeys]),
    intMember "num_anchors" 1 (by simp [metaIntKeys]),
    intMember "ssla_tdrop_window" args.tdrop (by simp [metaIntKeys]),
    textMember "dtype" "float32" (by simp [metaTextKeys]) (by simp),
    textMember "layout" "C_order_row_major" (by simp [metaTextKeys]) (by simp),
    textMember "key_separator" "/" (by simp [metaTextKeys]) (by simp),
    textMember "checkpoint" "stub_random" (by simp [metaTextKeys]) (by simp),
    intMember "total_params" args.total_params (by simp [metaIntKeys])]

/-- The two files: arrays of any values under the names, then the directory of the zip. -/
structure StubExport (args : StubArgs) where
  arrays : List NpzArray
  directory : List UInt8
  named : arrays.map (fun a => (String.ofList a.name, a.shape)) = args.weights
  float32 : ∀ a ∈ arrays, a.Accepted
  filled : ∀ a ∈ arrays, a.payload.length = 4 * a.shape.prod
  stops : Stops directory

namespace StubExport

variable {args : StubArgs} (E : StubExport args)

def npz : List UInt8 := E.arrays.flatMap NpzArray.bytes ++ E.directory

def metaJson (_ : StubExport args) : List UInt8 := ascii (jsonDump (stubMeta args))

/-- The files of the directory that the script writes. -/
structure WrittenTo (files : String → Option (List UInt8)) (dir : String) : Prop where
  meta_file : files (withSlash dir ++ "meta.json") = some E.metaJson
  npz_file : files (withSlash dir ++ "weights.npz") = some E.npz

end StubExport

end SslaRt
