import SslaRt.NpzFile

/-! `load_meta`: the values behind the keys of `meta.json`, found by a text search. The
fields of the other methods and those of floating point are left out. -/

namespace SslaRt

open CheckedRun TextSearch

def quoted (key : String) : List Char := '"' :: (key.toList ++ ['"'])

/-- The place behind the colon of a key. -/
def valuePlace (blob : List Char) (key : String) : Option Nat :=
  let p := find blob (quoted key) 0
  if p = npos then none
  else
    let p := find blob [':'] (p + (quoted key).length)
    if p = npos then none else some (p + 1)

def jsonGetString (blob : List Char) (key : String) : List Char :=
  match valuePlace blob key with
  | none => []
  | some p =>
    let q := find blob ['"'] p
    if q = npos then []
    else
      let r := find blob ['"'] (q + 1)
      if r = npos then [] else (blob.drop (q + 1)).take (r - q - 1)

/-- `std::from_chars` for a `long long`. -/
def fromChars (cs : List Char) : Option Int :=
  let neg := cs.head? = some '-'
  let digits := (if neg then cs.tail else cs).takeWhile Char.isDigit
  if digits = [] then none
  else
    let n : Int := if neg then -digitsValue digits else digitsValue digits
    if -2 ^ 63 ≤ n ∧ n < 2 ^ 63 then some n else none

def jsonGetInt (blob : List Char) (key : String) : Int :=
  match valuePlace blob key with
  | none => 0
  | some p =>
    let value := (blob.drop p).dropWhile fun c => c = ' ' ∨ c = '\t'
    let num := trim (value.takeWhile fun c => c ≠ ',' ∧ c ≠ '\x7d' ∧ c ≠ '\n')
    if num = [] then 0 else (fromChars num).getD 0

structure MetaJson extends ModelMeta where
  schema_version : Int
  method : String
  num_anchors : Int
  total_params : Nat
  dtype : String
  layout : String
  key_separator : String
  checkpoint : String

def kSupportedSchemaVersion : Int := 1

/-- The method of a model without one: its name up to the suffix. -/
def methodOf (model : List Char) : String :=
  if find model "ssla2".toList 0 = 0 then "ssla2"
  else if find model "ssla".toList 0 = 0 then "ssla"
  else if find model "farse_cnn".toList 0 = 0 then "farse_cnn"
  else if find model "dagr".toList 0 = 0 then "dagr"
  else if find model "asynet".toList 0 = 0 then "asynet"
  else if find model "aegnn".toList 0 = 0 then "aegnn"
  else ""

/-- The fields, from the texts and the numbers under their keys; an `int` keeps 32 bits. -/
def metaFrom (text : String → List Char) (number : String → Int) : MetaJson where
  schema_version := (number "schema_version").bmod (2 ^ 32)
  model := String.ofList (text "model")
  method :=
    if text "method" = [] ∧ text "model" ≠ [] then methodOf (text "model") else String.ofList (text "method")
  dtype := String.ofList (text "dtype")
  layout := String.ofList (text "layout")
  key_separator := String.ofList (text "key_separator")
  checkpoint := String.ofList (text "checkpoint")
  height := (number "height").bmod (2 ^ 32)
  width := (number "width").bmod (2 ^ 32)
  num_classes := (number "num_classes").bmod (2 ^ 32)
  num_anchors := (number "num_anchors").bmod (2 ^ 32)
  ssla_tdrop_window := (number "ssla_tdrop_window").bmod (2 ^ 32)
  total_params := (number "total_params" % 2 ^ 64).toNat

def loadMeta (files : String → Option (List UInt8)) (dir : String) : Checked MetaJson :=
  let path := withSlash dir ++ "meta.json"
  match files path with
  | none => Checked.throw ("cannot open " ++ path)
  | some bytes => do
    let blob := latin1 bytes
    let m := metaFrom (jsonGetString blob) (jsonGetInt blob)
    Checked.throwIf (m.schema_version ≠ 0 ∧ m.schema_version > kSupportedSchemaVersion)
      (path ++ ": schema_version=" ++ toString m.schema_version ++
        " is newer than this C++ build supports (" ++ toString kSupportedSchemaVersion ++ "). " ++
        "Rebuild C++ runtime from the matching commit.")
    return m

end SslaRt
