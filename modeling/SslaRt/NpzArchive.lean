import SslaRt.NpzFile
import Mathlib.Algebra.BigOperators.Group.List.Basic

/-! Archives as `np.savez` writes them: what the reader makes of every entry, and of
every cut of the file. -/

namespace SslaRt

open CheckedRun LittleEndian TextSearch

/-- The fields of a local header that a writer may choose. -/
structure ZipFields where
  version : Nat
  flags : Nat
  mod_time : Nat
  mod_date : Nat
  crc32 : Nat
  zip64 : Bool

/-- The extra field with both sizes of a stored entry. -/
def zipExtra (z : ZipFields) (n : Nat) : List UInt8 :=
  if z.zip64 then encode 2 1 ++ (encode 2 16 ++ (encode 8 n ++ encode 8 n)) else []

def zipHeader (z : ZipFields) (name_length n : Nat) : List UInt8 :=
  let size := if z.zip64 then 0xFFFFFFFF else n
  encode 4 0x04034b50 ++ (encode 2 z.version ++ (encode 2 z.flags ++ (encode 2 0 ++
    (encode 2 z.mod_time ++ (encode 2 z.mod_date ++ (encode 4 z.crc32 ++ (encode 4 size ++
      (encode 4 size ++ (encode 2 name_length ++ encode 2 (zipExtra z n).length)))))))))

/-- An entry of the archive: an array in its file. -/
structure NpzArray where
  zip : ZipFields
  name : List Char
  descr : List Char
  fortran : Bool
  shape : List Nat
  pad : Nat
  payload : List UInt8
  name_ne : name ≠ []
  name_chars : ∀ c ∈ name, c.toNat < 256
  name_length : name.length + 4 < 2 ^ 16
  descr_quote : '\'' ∉ descr
  descr_chars : ∀ c ∈ descr, c.toNat < 256
  shape_lt : ∀ n ∈ shape, n < 2 ^ 64
  numel_lt : shape.prod < 2 ^ 61
  header_lt : (npyHeader descr fortran shape pad).length < 2 ^ 32
  size_lt : (npyBytes (npyHeader descr fortran shape pad) payload).length <
    if zip.zip64 then 2 ^ 63 else 0xFFFFFFFF

namespace NpzArray

variable (a : NpzArray)

def header : List Char := npyHeader a.descr a.fortran a.shape a.pad

def body : List UInt8 := npyBytes a.header a.payload

def fileName : List Char := a.name ++ ".npy".toList

def bytes : List UInt8 :=
  zipHeader a.zip a.fileName.length a.body.length ++
    (ascii a.fileName ++ (zipExtra a.zip a.body.length ++ a.body))

/-- What the reader takes. -/
def Accepted : Prop := a.fortran = false ∧ (a.descr = "<f4".toList ∨ a.descr = "=f4".toList ∨ a.descr = "f4".toList)

instance : Decidable a.Accepted := inferInstanceAs (Decidable (_ ∧ _))

/-- The values are all there. -/
def Fits : Prop := 4 * a.shape.prod ≤ a.payload.length

instance : Decidable a.Fits := inferInstanceAs (Decidable (_ ≤ _))

def tensor {R : Type} (f32 : Nat → R) : NpyTensor R where
  shape := if a.shape = [] then [1] else a.shape
  data := (List.range a.shape.prod).map fun i => f32 (field a.payload (4 * i) 4)

end NpzArray

section Stream

theorem read_append {a rest : List UInt8} {n : Nat} (h : a.length = n) :
    InStream.read ⟨a ++ rest, true⟩ n = (a, ⟨rest, true⟩) := by
  subst h
  simp [InStream.read]

theorem zeroPadded_self {n : Nat} {got : List UInt8} (h : got.length = n) : zeroPadded n got = got := by
  simp [zeroPadded, h]

theorem length_zipHeader (z : ZipFields) (l n : Nat) : (zipHeader z l n).length = 30 := by
  simp [zipHeader]

theorem length_zipExtra (z : ZipFields) (n : Nat) : (zipExtra z n).length = if z.zip64 then 20 else 0 := by
  unfold zipExtra
  split <;> simp

theorem localFileHeader_zipHeader (z : ZipFields) {l n : Nat} (hl : l < 2 ^ 16)
    (hn : n < if z.zip64 then 2 ^ 63 else 0xFFFFFFFF) : localFileHeader (zipHeader z l n) =
      ⟨0x04034b50, 0, if z.zip64 then 0xFFFFFFFF else n, if z.zip64 then 0xFFFFFFFF else n, l,
        (zipExtra z n).length⟩ := by
  have hsize : (if z.zip64 then 0xFFFFFFFF else n) % 256 ^ 4 = if z.zip64 then 0xFFFFFFFF else n := by
    split at hn
    · simp_all
    · simp_all
      omega
  have hname : l % 256 ^ 2 = l := Nat.mod_eq_of_lt hl
  have hextra : (zipExtra z n).length % 256 ^ 2 = (zipExtra z n).length := by
    rw [length_zipExtra]
    split <;> rfl
  have h₁ : field (zipHeader z l n) 18 4 = decode (encode 4 (if z.zip64 then 0xFFFFFFFF else n)) := rfl
  have h₂ : field (zipHeader z l n) 22 4 = decode (encode 4 (if z.zip64 then 0xFFFFFFFF else n)) := rfl
  have h₃ : field (zipHeader z l n) 26 2 = decode (encode 2 l) := rfl
  have h₄ : field (zipHeader z l n) 28 2 = decode (encode 2 (zipExtra z n).length) := rfl
  have h₅ : field (zipHeader z l n) 0 4 = decode (encode 4 0x04034b50) := rfl
  have h₆ : field (zipHeader z l n) 8 2 = decode (encode 2 0) := rfl
  rw [decode_encode] at h₁ h₂ h₃ h₄ h₅ h₆
  unfold localFileHeader
  rw [h₁, h₂, h₃, h₄, h₅, h₆, hsize, hname, hextra]
  norm_num

theorem zip64Csize_zipExtra {z : ZipFields} (hz : z.zip64 = true) {n : Nat} (hn : n < 2 ^ 63)
    (csize fuel : Nat) : zip64Csize (zipExtra z n) csize (fuel + 1) 0 = some n := by
  have hlen : (zipExtra z n).length = 20 := by simp [length_zipExtra, hz]
  have htag : field (zipExtra z n) 0 2 = decode (encode 2 1) := by
    simp only [zipExtra, hz, if_true]
    rfl
  have hsz : field (zipExtra z n) 2 2 = decode (encode 2 16) := by
    simp only [zipExtra, hz, if_true]
    rfl
  have hcs : field (zipExtra z n) 12 8 = decode (encode 8 n) := by
    simp only [zipExtra, hz, if_true]
    rfl
  rw [decode_encode] at htag hsz hcs
  have hmod : n % 256 ^ 8 = n := Nat.mod_eq_of_lt (by omega)
  unfold zip64Csize
  simp only [hlen, Nat.zero_add, htag, hsz, hcs, hmod]
  norm_num

theorem csize_written (z : ZipFields) {l m n : Nat} (hn : n < if z.zip64 then 2 ^ 63 else 0xFFFFFFFF) :
    LocalFileHeader.csize ⟨0x04034b50, 0, if z.zip64 then 0xFFFFFFFF else n,
      if z.zip64 then 0xFFFFFFFF else n, l, m⟩ (zipExtra z n) = some n := by
  unfold LocalFileHeader.csize
  cases hz : z.zip64 with
  | false =>
    rw [hz] at hn
    have hne : n ≠ 0xFFFFFFFF := by
      simp at hn
      omega
    simp [hne]
  | true =>
    rw [hz] at hn
    simp only [if_true, or_self]
    exact zip64Csize_zipExtra hz (by simpa using hn) _ _

end Stream

theorem npzKey_fileName {a : NpzArray} : npzKey a.fileName = a.name := by
  have hne : 0 < a.name.length := List.length_pos_of_ne_nil a.name_ne
  have hlen : a.fileName.length = a.name.length + 4 := by simp [NpzArray.fileName]
  unfold npzKey
  rw [hlen, Nat.add_sub_cancel]
  unfold NpzArray.fileName
  rw [List.drop_left, List.take_left, if_pos ⟨by omega, rfl⟩]

section Read

variable {R : Type} (f32 : Nat → R) (a : NpzArray)

/-- What the reader makes of the array of an entry. -/
def NpzArray.outcome : Checked (NpyTensor R) := readTensor f32 a.name a.body

/-- The reader takes the entry and no byte of what follows it. -/
theorem readEntry_bytes (rest : List UInt8) : readEntry f32 ⟨a.bytes ++ rest, true⟩ =
    (do let t ← a.outcome f32; return some ((a.name, t), ⟨rest, true⟩)) := by
  have hname : (ascii a.fileName).length = a.fileName.length := by simp [ascii]
  have hlt : a.fileName.length < 2 ^ 16 := by
    have hh := a.name_length
    simpa [NpzArray.fileName] using hh
  have hchars : ∀ c ∈ a.fileName, c.toNat < 256 := by
    intro c hc
    rcases List.mem_append.mp hc with hc | hc
    · exact a.name_chars c hc
    · have hall : ∀ d ∈ ".npy".toList, d.toNat < 256 := by simp
      exact hall c hc
  have hsize : a.body.length < if a.zip.zip64 then 2 ^ 63 else 0xFFFFFFFF := a.size_lt
  have hmax : ¬ 2 ^ 63 ≤ a.body.length := by
    split at hsize <;> omega
  unfold NpzArray.bytes readEntry
  simp only [List.append_assoc]
  rw [read_append (length_zipHeader _ _ _)]
  simp only [localFileHeader_zipHeader a.zip hlt hsize]
  rw [if_neg (by simp), Checked.throwIf_neg (by simp), Checked.ok_bind]
  simp only [read_append hname, zeroPadded_self hname, latin1_ascii hchars,
    read_append (rfl : (zipExtra a.zip a.body.length).length = _), zeroPadded_self rfl]
  unfold readArray
  simp only [csize_written a.zip hsize, npzKey_fileName]
  rw [Checked.throwIf_neg hmax, Checked.ok_bind]
  simp only [read_append (rfl : a.body.length = _)]
  rw [Checked.throwIf_neg (by simp), Checked.ok_bind]
  rfl

/-- The message for an array that the reader does not take. -/
def NpzArray.rejection : String :=
  if a.fortran then "weights.npz: fortran-order tensors not supported for key " ++ String.ofList a.name
  else "weights.npz: dtype " ++ String.ofList a.descr ++ " not supported for key " ++ String.ofList a.name

theorem numel_eq (shape : List Nat) : numel shape = shape.prod % 2 ^ 64 := by
  have hacc : ∀ m, shape.foldl (fun n d => n * d % 2 ^ 64) (m % 2 ^ 64) = m * shape.prod % 2 ^ 64 := by
    induction shape with
    | nil => simp
    | cons d shape ih =>
      intro m
      rw [List.foldl_cons, Nat.mod_mul_mod, ih, List.prod_cons, Nat.mul_assoc]
  simpa [numel] using hacc 1

theorem outcome_eq : a.outcome f32 = if a.Accepted then ⟨.ok (a.tensor f32), decide a.Fits⟩
    else Checked.throw a.rejection := by
  have hparse := parseNpyHeader_npyBytes a.descr_quote a.descr_chars a.fortran a.shape_lt a.pad a.header_lt
    a.payload
  have hnumel : numel (if a.shape = [] then [1] else a.shape) = a.shape.prod := by
    rw [numel_eq]
    have hlt := a.numel_lt
    by_cases h : a.shape = []
    · simp [h]
    · rw [if_neg h, Nat.mod_eq_of_lt (by omega)]
  have hmax : ¬ 2 ^ 61 ≤ a.shape.prod := not_le.mpr a.numel_lt
  have hdata : ∀ i, field a.body (npyStart a.header + 4 * i) 4 = field a.payload (4 * i) 4 := by
    intro i
    rw [← field_drop]
    exact congrArg (fun p => field p (4 * i) 4) (npyBytes_drop a.header a.payload)
  have hfits : npyStart a.header + a.shape.prod * 4 ≤ a.body.length ↔ a.Fits := by
    rw [show a.body.length = _ from npyBytes_length a.header a.payload]
    unfold NpzArray.Fits
    omega
  unfold NpzArray.outcome readTensor
  rw [show parseNpyHeader a.body = _ from hparse, Checked.ok_bind]
  dsimp only
  rw [hnumel]
  by_cases hacc : a.Accepted
  · have hdtype : ¬ (a.descr ≠ "<f4".toList ∧ a.descr ≠ "=f4".toList ∧ a.descr ≠ "f4".toList) :=
      fun h => hacc.2.elim h.1 fun h' => h'.elim h.2.1 h.2.2
    rw [if_pos hacc, Checked.throwIf_neg (by simp [hacc.1]), Checked.ok_bind, Checked.throwIf_neg hdtype,
      Checked.ok_bind, Checked.throwIf_neg hmax, Checked.ok_bind]
    simp only [show npyStart (npyHeader a.descr a.fortran a.shape a.pad) = npyStart a.header from rfl,
      hfits, hdata]
    exact congrArg (Checked.mk _) (Bool.and_true _)
  · rw [if_neg hacc]
    unfold NpzArray.rejection
    by_cases hf : a.fortran = true
    · rw [Checked.throwIf_pos hf, Checked.throw_bind, hf]
      rfl
    · have hdtype : a.descr ≠ "<f4".toList ∧ a.descr ≠ "=f4".toList ∧ a.descr ≠ "f4".toList := by
        simp only [Bool.not_eq_true] at hf
        have hh : ¬ (a.descr = "<f4".toList ∨ a.descr = "=f4".toList ∨ a.descr = "f4".toList) :=
          fun h => hacc ⟨hf, h⟩
        rw [not_or, not_or] at hh
        exact hh
      rw [Checked.throwIf_neg hf, Checked.ok_bind, Checked.throwIf_pos hdtype, Checked.throw_bind]
      simp [hf]

end Read

section Archive

variable {R : Type} (f32 : Nat → R)

/-- What ends the loop: no whole header, or another signature. -/
def Stops (tail : List UInt8) : Prop := tail.length < 30 ∨ field tail 0 4 ≠ 0x04034b50

theorem read_short {rest : List UInt8} {n : Nat} (h : rest.length < n) :
    InStream.read ⟨rest, true⟩ n = (rest, ⟨[], false⟩) := by
  simp [InStream.read, h]

theorem readEntry_stops {tail : List UInt8} (h : Stops tail) : readEntry f32 ⟨tail, true⟩ = pure none := by
  unfold readEntry
  by_cases hlen : tail.length < 30
  · rw [read_short hlen]
    simp
  · have hsig := h.resolve_left hlen
    have hread : InStream.read ⟨tail, true⟩ 30 = (tail.take 30, ⟨tail.drop 30, true⟩) := by
      simp [InStream.read, not_lt.mp hlen]
    have hfield : (localFileHeader (tail.take 30)).signature = field tail 0 4 := field_take (by decide)
    rw [hread]
    simp [hfield, hsig]

theorem readEntries_stops {tail : List UInt8} (h : Stops tail) (fuel : Nat)
    (out : List (List Char × NpyTensor R)) : readEntries f32 fuel ⟨tail, true⟩ out = pure out := by
  cases fuel with
  | zero => rfl
  | succ fuel =>
    rw [readEntries, if_neg (by simp), readEntry_stops f32 h, Checked.ok_bind]

/-- The step of the loop on a written entry. -/
def readStep (out : List (List Char × NpyTensor R)) (a : NpzArray) :
    Checked (List (List Char × NpyTensor R)) := do
  let t ← a.outcome f32
  return emplace out (a.name, t)

theorem readEntries_bytes (as : List NpzArray) (rest : List UInt8) {fuel : Nat} (hfuel : as.length ≤ fuel)
    (out : List (List Char × NpyTensor R)) :
    readEntries f32 fuel ⟨as.flatMap NpzArray.bytes ++ rest, true⟩ out =
      (as.foldlM (readStep f32) out >>= fun out => readEntries f32 (fuel - as.length) ⟨rest, true⟩ out) := by
  induction as generalizing fuel out with
  | nil => rfl
  | cons a as ih =>
    obtain ⟨fuel, rfl⟩ : ∃ k, fuel = k + 1 := ⟨fuel - 1, by simp at hfuel; omega⟩
    have hrest : as.length ≤ fuel := by simpa using hfuel
    rw [List.flatMap_cons, List.append_assoc, readEntries, if_neg (by simp), readEntry_bytes,
      List.foldlM_cons, Checked.bind_bind, Checked.bind_bind, readStep, Checked.bind_bind]
    refine congrArg _ (funext fun t => ?_)
    rw [Checked.ok_bind, Checked.ok_bind]
    simp only [List.length_cons, Nat.add_sub_add_right]
    exact ih hrest _

end Archive

end SslaRt
