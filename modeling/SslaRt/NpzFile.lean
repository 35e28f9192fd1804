import SslaRt.NpyFormat

/-! `load_weights_npz`: the stored entries of a zip file one after the other, up to the
first other signature. A failed allocation is left out, except where the size itself
is too large for a vector. -/

namespace SslaRt

open CheckedRun LittleEndian TextSearch

/-- The state of a `std::ifstream`: what is left to read, and `good()`. -/
structure InStream where
  rest : List UInt8
  good : Bool

/-- The bytes that `read` gets. At the end of the file these are fewer, and the stream fails. -/
def InStream.read (f : InStream) (n : Nat) : List UInt8 × InStream :=
  if f.good then
    if n ≤ f.rest.length then (f.rest.take n, ⟨f.rest.drop n, true⟩) else (f.rest, ⟨[], false⟩)
  else ([], f)

/-- A buffer of `n` zeroed bytes after `got` was read into it. -/
def zeroPadded (n : Nat) (got : List UInt8) : List UInt8 := got ++ List.replicate (n - got.length) 0

structure LocalFileHeader where
  signature : Nat
  method : Nat
  compressed_size : Nat
  uncompressed_size : Nat
  filename_length : Nat
  extra_length : Nat

def localFileHeader (h : List UInt8) : LocalFileHeader where
  signature := field h 0 4
  method := field h 8 2
  compressed_size := field h 18 4
  uncompressed_size := field h 22 4
  filename_length := field h 26 2
  extra_length := field h 28 2

/-- The size that the extra field gives, with `csize` the one of the header. -/
def zip64Csize (extra : List UInt8) (csize : Nat) : Nat → Nat → Option Nat
  | 0, _ => none
  | fuel + 1, pos =>
    if pos + 4 ≤ extra.length then
      let tag := field extra pos 2
      let sz := field extra (pos + 2) 2
      if tag = 1 ∧ pos + 4 + sz ≤ extra.length then
        -- with one size only, it is taken for both
        some (if 16 ≤ sz then field extra (pos + 12) 8 else if 8 ≤ sz then field extra (pos + 4) 8 else csize)
      else zip64Csize extra csize fuel (pos + 4 + sz)
    else none

def LocalFileHeader.csize (h : LocalFileHeader) (extra : List UInt8) : Option Nat :=
  if h.compressed_size = 0xFFFFFFFF ∨ h.uncompressed_size = 0xFFFFFFFF then
    zip64Csize extra h.compressed_size (extra.length + 1) 0
  else some h.compressed_size

/-- The key of a tensor: the name without `.npy`. -/
def npzKey (name : List Char) : List Char :=
  if name.length > 4 ∧ name.drop (name.length - 4) = ".npy".toList then name.take (name.length - 4) else name

section Tensors

variable {R : Type} (f32 : Nat → R)

structure NpyTensor (R : Type) where
  shape : List Nat
  data : List R

/-- `Tensor::numel` with sizes of 64 bits. -/
def numel (shape : List Nat) : Nat := shape.foldl (fun n d => n * d % 2 ^ 64) 1

/-- The values are copied without a look at the size of the entry. The function `f32`
takes a bit pattern to its value. -/
def readTensor (key : List Char) (raw : List UInt8) : Checked (NpyTensor R) := do
  let info ← parseNpyHeader raw
  Checked.throwIf info.fortran
    ("weights.npz: fortran-order tensors not supported for key " ++ String.ofList key)
  Checked.throwIf (info.dtype ≠ "<f4".toList ∧ info.dtype ≠ "=f4".toList ∧ info.dtype ≠ "f4".toList)
    ("weights.npz: dtype " ++ String.ofList info.dtype ++ " not supported for key " ++ String.ofList key)
  let n := numel info.shape
  Checked.throwIf (2 ^ 61 ≤ n) "vector::_M_default_append"
  Checked.access (decide (info.header_len + n * 4 ≤ raw.length))
  return ⟨info.shape, (List.range n).map fun i => f32 (field raw (info.header_len + 4 * i) 4)⟩

/-- The end of a round: the array behind the name and the extra field. -/
def readArray (h : LocalFileHeader) (name : List Char) (extra : List UInt8) (f : InStream) :
    Checked (Option ((List Char × NpyTensor R) × InStream)) :=
  match h.csize extra with
  | none => Checked.throw ("weights.npz: ZIP64 entry without ZIP64 extra field: " ++ String.ofList name)
  | some csize => do
    Checked.throwIf (2 ^ 63 ≤ csize) "cannot create std::vector larger than max_size()"
    let (raw, f) := f.read csize
    Checked.throwIf (f.good = false) ("weights.npz: truncated entry " ++ String.ofList name)
    let t ← readTensor f32 (npzKey name) raw
    return some ((npzKey name, t), f)

/-- One round of the loop; `none` is a `break`. -/
def readEntry (f : InStream) : Checked (Option ((List Char × NpyTensor R) × InStream)) :=
  let (bytes, f) := f.read 30
  let h := localFileHeader bytes
  if f.good = false ∨ h.signature ≠ 0x04034b50 then pure none
  else do
    Checked.throwIf (h.method ≠ 0) ("weights.npz: compressed entries not supported — " ++
      "use np.savez (stored) not np.savez_compressed")
    -- neither of these reads is checked: what they miss stays zero
    let (nameBytes, f) := f.read h.filename_length
    let name := latin1 (zeroPadded h.filename_length nameBytes)
    let (extraBytes, f) := f.read h.extra_length
    readArray f32 h name (zeroPadded h.extra_length extraBytes) f

/-- `unordered_map::emplace`: a key that is there stays as it is. -/
def emplace (out : List (List Char × NpyTensor R)) (e : List Char × NpyTensor R) :
    List (List Char × NpyTensor R) :=
  if e.1 ∈ out.map Prod.fst then out else out ++ [e]

/-- The loop; every round reads 30 bytes at least. -/
def readEntries : Nat → InStream → List (List Char × NpyTensor R) → Checked (List (List Char × NpyTensor R))
  | 0, _, out => pure out
  | fuel + 1, f, out =>
    if f.good = false then pure out
    else do
      match ← readEntry f32 f with
      | none => return out
      | some (e, f) => readEntries fuel f (emplace out e)

def withSlash (dir : String) : String := if dir ≠ "" ∧ dir.toList.getLast? ≠ some '/' then dir.push '/' else dir

def loadWeightsNpz (files : String → Option (List UInt8)) (dir : String) :
    Checked (List (List Char × NpyTensor R)) :=
  let path := withSlash dir ++ "weights.npz"
  match files path with
  | none => Checked.throw ("cannot open " ++ path)
  | some bytes => readEntries f32 bytes.length ⟨bytes, true⟩ []

end Tensors

end SslaRt
