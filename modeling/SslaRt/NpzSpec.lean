import SslaRt.NpzArchive

/-! What `load_weights_npz` returns for an archive, for one with entries that it does not
take, and for a file that is cut. -/

namespace SslaRt

open CheckedRun LittleEndian TextSearch

section Archive

variable {R : Type} (f32 : Nat → R)

/-- The tensors of an archive under their names, the first one of each name. -/
def collect (as : List NpzArray) : List (List Char × NpyTensor R) :=
  as.foldl (fun out a => emplace out (a.name, a.tensor f32)) []

theorem collect_append (as : List NpzArray) (a : NpzArray) :
    collect f32 (as ++ [a]) = emplace (collect f32 as) (a.name, a.tensor f32) := by
  simp [collect]

theorem collect_of_nodup {as : List NpzArray} (h : (as.map NpzArray.name).Nodup) :
    collect f32 as = as.map fun a => (a.name, a.tensor f32) := by
  induction as using List.reverseRecOn with
  | nil => rfl
  | append_singleton as a ih =>
    rw [List.map_append, List.nodup_append] at h
    have hnew : a.name ∉ as.map NpzArray.name := by
      intro hmem
      exact h.2.2 _ hmem _ (by simp) rfl
    rw [collect_append, ih h.1, emplace, if_neg (by simpa using hnew), List.map_append, List.map_singleton]

theorem emplace_keys_nodup {out : List (List Char × NpyTensor R)} (h : (out.map Prod.fst).Nodup)
    (e : List Char × NpyTensor R) : ((emplace out e).map Prod.fst).Nodup := by
  unfold emplace
  by_cases hmem : e.1 ∈ out.map Prod.fst
  · rw [if_pos hmem]
    exact h
  · rw [if_neg hmem, List.map_append, List.nodup_append]
    refine ⟨h, by simp, fun x hx y hy hxy => hmem ?_⟩
    simp at hy
    exact hy ▸ hxy ▸ hx

/-- All entries are taken: the loop goes to the end. -/
theorem foldlM_accepted {as : List NpzArray} (h : ∀ a ∈ as, a.Accepted)
    (out : List (List Char × NpyTensor R)) : as.foldlM (readStep f32) out =
      ⟨.ok (as.foldl (fun out a => emplace out (a.name, a.tensor f32)) out),
        as.all fun a => decide a.Fits⟩ := by
  induction as generalizing out with
  | nil => rfl
  | cons a as ih =>
    have hstep : readStep f32 out a = ⟨.ok (emplace out (a.name, a.tensor f32)), decide a.Fits⟩ := by
      unfold readStep
      rw [outcome_eq, if_pos (h a List.mem_cons_self)]
      exact congrArg (Checked.mk _) (Bool.and_true _)
    rw [List.foldlM_cons, hstep]
    exact congrArg (fun x => (⟨x.result, decide a.Fits && x.in_range⟩ : Checked _))
      (ih (fun x hx => h x (List.mem_cons_of_mem a hx)) _)

/-- The first entry that is not taken ends the loop with its message. -/
theorem foldlM_rejected {b c : List NpzArray} {a : NpzArray} (hb : ∀ x ∈ b, x.Accepted) (ha : ¬ a.Accepted)
    (out : List (List Char × NpyTensor R)) : (b ++ a :: c).foldlM (readStep f32) out =
      ⟨.error a.rejection, b.all fun a => decide a.Fits⟩ := by
  induction b generalizing out with
  | nil =>
    rw [List.nil_append, List.foldlM_cons]
    unfold readStep
    rw [outcome_eq, if_neg ha]
    rfl
  | cons x b ih =>
    have hstep : readStep f32 out x = ⟨.ok (emplace out (x.name, x.tensor f32)), decide x.Fits⟩ := by
      unfold readStep
      rw [outcome_eq, if_pos (hb x List.mem_cons_self)]
      exact congrArg (Checked.mk _) (Bool.and_true _)
    rw [List.cons_append, List.foldlM_cons, hstep]
    exact congrArg (fun x' => (⟨x'.result, decide x.Fits && x'.in_range⟩ : Checked _))
      (ih (fun y hy => hb y (List.mem_cons_of_mem x hy)) _)

theorem length_bytes_ge (a : NpzArray) : 30 ≤ a.bytes.length := by
  simp [NpzArray.bytes, length_zipHeader]

theorem length_archive_ge (as : List NpzArray) : 30 * as.length ≤ (as.flatMap NpzArray.bytes).length := by
  induction as with
  | nil => simp
  | cons a as ih =>
    have ha := length_bytes_ge a
    simp only [List.flatMap_cons, List.length_append, List.length_cons]
    omega

/-- The weights of a file. -/
def weightsOf (file : List UInt8) : Checked (List (List Char × NpyTensor R)) :=
  readEntries f32 file.length ⟨file, true⟩ []

theorem weightsOf_archive (as : List NpzArray) {tail : List UInt8} (h : Stops tail) :
    weightsOf f32 (as.flatMap NpzArray.bytes ++ tail) = as.foldlM (readStep f32) [] := by
  have hlen := length_archive_ge as
  unfold weightsOf
  rw [readEntries_bytes f32 as tail (by rw [List.length_append]; omega)]
  refine (congrArg _ (funext fun out => ?_)).trans (Checked.bind_pure _)
  exact readEntries_stops f32 h _ out

end Archive

section Cut

variable {R : Type} (f32 : Nat → R)

theorem read_failed {f : InStream} (h : f.good = false) (n : Nat) : (f.read n).2.good = false := by
  simp [InStream.read, h]

theorem take_append_ge {α : Type*} {a b : List α} {n : Nat} (h : a.length ≤ n) :
    (a ++ b).take n = a ++ b.take (n - a.length) := by
  rw [List.take_append, List.take_of_length_le h]

theorem readArray_fails (h : LocalFileHeader) (name : List Char) (extra : List UInt8) {f : InStream}
    (hbad : ∀ csize, h.csize extra = some csize → (f.read csize).2.good = false) :
    ∃ e, readArray f32 h name extra f = Checked.throw e := by
  unfold readArray
  cases hc : h.csize extra with
  | none => exact ⟨_, rfl⟩
  | some csize =>
    by_cases hmax : 2 ^ 63 ≤ csize
    · refine ⟨"cannot create std::vector larger than max_size()", ?_⟩
      simp only [Checked.throwIf_pos hmax, Checked.throw_bind]
    · refine ⟨"weights.npz: truncated entry " ++ String.ofList name, ?_⟩
      simp only [Checked.throwIf_neg hmax, Checked.ok_bind, Checked.throwIf_pos (hbad csize hc),
        Checked.throw_bind]

/-- A cut behind the local header leaves too few bytes for the rest of the entry. -/
theorem readEntry_cut (a : NpzArray) {n : Nat} (h30 : 30 ≤ n) (hn : n < a.bytes.length) :
    ∃ e, readEntry f32 ⟨a.bytes.take n, true⟩ = Checked.throw e := by
  have hname : (ascii a.fileName).length = a.fileName.length := by simp [ascii]
  have hlt : a.fileName.length < 2 ^ 16 := by
    have hh := a.name_length
    simpa [NpzArray.fileName] using hh
  have hsize : a.body.length < if a.zip.zip64 then 2 ^ 63 else 0xFFFFFFFF := a.size_lt
  have hhead := length_zipHeader a.zip a.fileName.length a.body.length
  have hcut : a.bytes.take n = zipHeader a.zip a.fileName.length a.body.length ++
      (ascii a.fileName ++ (zipExtra a.zip a.body.length ++ a.body)).take (n - 30) := by
    unfold NpzArray.bytes
    rw [take_append_ge (by rw [hhead]; exact h30), hhead]
  have hrest : n - 30 < a.fileName.length + ((zipExtra a.zip a.body.length).length + a.body.length) := by
    unfold NpzArray.bytes at hn
    simp only [List.length_append, hhead, hname] at hn
    omega
  unfold readEntry
  rw [hcut, read_append hhead]
  simp only [localFileHeader_zipHeader a.zip hlt hsize]
  rw [if_neg (by simp), Checked.throwIf_neg (by simp), Checked.ok_bind]
  by_cases hshort : n - 30 < a.fileName.length
  · -- the name is cut
    rw [read_short (by simp [hname]; omega)]
    refine readArray_fails f32 _ _ _ fun csize _ => ?_
    exact read_failed (read_failed rfl _) _
  · rw [take_append_ge (by omega), hname]
    simp only [read_append hname]
    by_cases hextra : n - 30 - a.fileName.length < (zipExtra a.zip a.body.length).length
    · -- the extra field is cut
      rw [read_short (by simp; omega)]
      refine readArray_fails f32 _ _ _ fun csize _ => ?_
      exact read_failed rfl _
    · rw [take_append_ge (by omega)]
      simp only [read_append (rfl : (zipExtra a.zip a.body.length).length = _), zeroPadded_self rfl]
      refine readArray_fails f32 _ _ _ fun csize hc => ?_
      rw [csize_written a.zip hsize] at hc
      obtain rfl := Option.some.inj hc
      rw [read_short (by simp; omega)]

/-- A cut archive: the whole entries before the cut, and a part of the next one. -/
theorem take_archive (as : List NpzArray) {n : Nat} (hn : n ≤ (as.flatMap NpzArray.bytes).length) :
    ∃ b c rest, as = b ++ c ∧ (as.flatMap NpzArray.bytes).take n = b.flatMap NpzArray.bytes ++ rest ∧
      n = (b.flatMap NpzArray.bytes).length + rest.length ∧
      (rest = [] ∨ ∃ a d, c = a :: d ∧ rest = a.bytes.take rest.length ∧ rest.length < a.bytes.length) := by
  induction as generalizing n with
  | nil =>
    obtain rfl : n = 0 := by simpa using hn
    exact ⟨[], [], [], rfl, rfl, rfl, .inl rfl⟩
  | cons a as ih =>
    rw [List.flatMap_cons, List.length_append] at hn
    by_cases hlt : n < a.bytes.length
    · have hlen : ((a.bytes).take n).length = n := by simp; omega
      refine ⟨[], a :: as, a.bytes.take n, rfl, ?_, by simp; omega, .inr ⟨a, as, rfl, by rw [hlen], by omega⟩⟩
      rw [List.flatMap_cons, List.take_append_of_le_length (by omega)]
      rfl
    · obtain ⟨b, c, rest, rfl, htake, hlen, hrest⟩ := ih (n := n - a.bytes.length) (by omega)
      refine ⟨a :: b, c, rest, rfl, ?_, ?_, hrest⟩
      · rw [List.flatMap_cons, take_append_ge (by omega), htake, List.flatMap_cons, List.append_assoc]
      · rw [List.flatMap_cons, List.length_append]
        omega

end Cut

section Probe

theorem probe_name_length (c : Char) : [c].length + 4 < 2 ^ 16 := by
  rw [List.length_singleton]
  decide

theorem probe_header_lt : (npyHeader "<f4".toList false [2] 0).length < 2 ^ 32 := by decide +kernel

theorem probe_size_lt (x y : UInt8) :
    (npyBytes (npyHeader "<f4".toList false [2] 0) [x, 0, 0, 0, y, 0, 0, 0]).length < 2 ^ 63 := by
  have hstart : npyStart (npyHeader "<f4".toList false [2] 0) < 2 ^ 62 := by decide +kernel
  have hpayload : [x, 0, 0, 0, y, 0, 0, 0].length = 8 := rfl
  rw [npyBytes_length, hpayload]
  omega

theorem float32_quote : '\'' ∉ "<f4".toList := by simp

theorem float32_chars : ∀ c ∈ "<f4".toList, c.toNat < 256 := by simp

/-- Two values under a name of one letter. -/
def probeArray (c : Char) (hc : c.toNat < 256) (x y : UInt8) : NpzArray where
  zip := ⟨45, 0, 0, 0, 0, true⟩
  name := [c]
  descr := "<f4".toList
  fortran := false
  shape := [2]
  pad := 0
  payload := [x, 0, 0, 0, y, 0, 0, 0]
  name_ne := List.cons_ne_nil _ _
  name_chars := List.forall_mem_singleton.mpr hc
  name_length := probe_name_length c
  descr_quote := float32_quote
  descr_chars := float32_chars
  shape_lt := by simp
  numel_lt := by simp
  header_lt := probe_header_lt
  size_lt := probe_size_lt x y

/-- The third array has the name of the first one. -/
def probeArrays : List NpzArray :=
  [probeArray 'w' (by decide) 1 2, probeArray 'b' (by decide) 5 6, probeArray 'w' (by decide) 7 8]

def probeFiles (n : Nat) : String → Option (List UInt8) := fun _ =>
  some ((probeArrays.flatMap NpzArray.bytes).take n)

theorem probe_accepted_fits : ∀ a ∈ probeArrays, a.Accepted ∧ a.Fits := by
  have hone : ∀ c hc x y, (probeArray c hc x y).Accepted ∧ (probeArray c hc x y).Fits :=
    fun _ _ _ _ => ⟨⟨rfl, .inl rfl⟩, le_rfl⟩
  simp [probeArrays, hone]

theorem length_probeArrays : (probeArrays.flatMap NpzArray.bytes).length = 393 := by decide +kernel

theorem probeFiles_whole : probeFiles 393 (withSlash "" ++ "weights.npz") =
    some (probeArrays.flatMap NpzArray.bytes ++ []) := by
  unfold probeFiles
  rw [← length_probeArrays, List.take_length, List.append_nil]

end Probe

section Load

variable {R : Type} (f32 : Nat → R) {files : String → Option (List UInt8)} {dir : String}

theorem loadWeightsNpz_file {file : List UInt8} (hfile : files (withSlash dir ++ "weights.npz") = some file) :
    loadWeightsNpz f32 files dir = weightsOf f32 file := by
  unfold loadWeightsNpz
  simp only [hfile]
  rfl

theorem loadWeightsNpz_accepted {as : List NpzArray} {tail : List UInt8} (hstop : Stops tail)
    (hfile : files (withSlash dir ++ "weights.npz") = some (as.flatMap NpzArray.bytes ++ tail))
    (h : ∀ a ∈ as, a.Accepted) :
    loadWeightsNpz f32 files dir = ⟨.ok (collect f32 as), as.all fun a => decide a.Fits⟩ := by
  rw [loadWeightsNpz_file f32 hfile, weightsOf_archive f32 as hstop, foldlM_accepted f32 h]
  rfl

theorem exists_first_not {α : Type*} {p : α → Prop} {l : List α} (h : ¬ ∀ x ∈ l, p x) :
    ∃ b a c, l = b ++ a :: c ∧ (∀ x ∈ b, p x) ∧ ¬ p a := by
  induction l with
  | nil => simp at h
  | cons x l ih =>
    by_cases hx : p x
    · obtain ⟨b, a, c, rfl, hb, ha⟩ := ih fun hl => h (by simpa [hx] using hl)
      exact ⟨x :: b, a, c, rfl, by simpa [hx] using hb, ha⟩
    · exact ⟨[], x, l, rfl, by simp, hx⟩

/-- An archive is read back: it is taken exactly if every entry is, and then gives the
first tensor of each name. The first entry that is not taken is named in the error. No
read leaves its buffer exactly if every entry has the values that its shape asks for. -/
theorem loadWeightsNpz_archive (as : List NpzArray) {tail : List UInt8} (hstop : Stops tail)
    (hfile : files (withSlash dir ++ "weights.npz") = some (as.flatMap NpzArray.bytes ++ tail)) :
    (∀ m, (loadWeightsNpz f32 files dir).Returns m ↔ (∀ a ∈ as, a.Accepted) ∧ m = collect f32 as) ∧
      (∀ b a c, as = b ++ a :: c → (∀ x ∈ b, x.Accepted) → ¬ a.Accepted →
        (loadWeightsNpz f32 files dir).result = .error a.rejection) ∧
      ((∀ a ∈ as, a.Accepted) → ((loadWeightsNpz f32 files dir).Safe ↔ ∀ a ∈ as, a.Fits)) ∧
      ((as.map NpzArray.name).Nodup → collect f32 as = as.map fun a => (a.name, a.tensor f32)) := by
  rw [loadWeightsNpz_file f32 hfile, weightsOf_archive f32 as hstop]
  refine ⟨fun m => ?_, fun b a c heq hb ha => ?_, fun hall => ?_, collect_of_nodup f32⟩
  · by_cases hall : ∀ a ∈ as, a.Accepted
    · rw [foldlM_accepted f32 hall]
      constructor
      · intro h
        exact ⟨hall, (Except.ok.inj h).symm⟩
      · rintro ⟨-, rfl⟩
        rfl
    · -- the first entry that is not taken
      obtain ⟨b, a, c, rfl, hb, ha⟩ := exists_first_not hall
      rw [foldlM_rejected f32 hb ha]
      constructor
      · intro h
        cases h
      · intro h
        exact absurd h.1 hall
  · subst heq
    rw [foldlM_rejected f32 hb ha]
  · rw [foldlM_accepted f32 hall]
    simp [Checked.Safe]

theorem loadWeightsNpz_archive_probe : (loadWeightsNpz (id : Nat → Nat) (probeFiles 393) "").Returns
    [(['w'], ⟨[2], [1, 2]⟩), (['b'], ⟨[2], [5, 6]⟩)] ∧ (loadWeightsNpz (id : Nat → Nat) (probeFiles 393) "").Safe := by
  have hstop : Stops [] := .inl (by simp)
  have hall := loadWeightsNpz_archive (id : Nat → Nat) probeArrays hstop probeFiles_whole
  refine ⟨(hall.1 _).mpr ⟨fun a ha => (probe_accepted_fits a ha).1, rfl⟩, ?_⟩
  exact (hall.2.2.1 fun a ha => (probe_accepted_fits a ha).1).mpr fun a ha => (probe_accepted_fits a ha).2

/-- A file that is cut gives an error or, within the next local header, the whole entries
before the cut. In no case is a tensor wrong or a read out of its buffer. -/
theorem loadWeightsNpz_cut (as : List NpzArray) (hok : ∀ a ∈ as, a.Accepted ∧ a.Fits) {n : Nat}
    (hn : n ≤ (as.flatMap NpzArray.bytes).length)
    (hfile : files (withSlash dir ++ "weights.npz") = some ((as.flatMap NpzArray.bytes).take n)) :
    ∃ b c, as = b ++ c ∧ (b.flatMap NpzArray.bytes).length ≤ n ∧
      (∀ a ∈ c.head?, n < (b.flatMap NpzArray.bytes).length + a.bytes.length) ∧
      if n < (b.flatMap NpzArray.bytes).length + 30 then
        loadWeightsNpz f32 files dir = ⟨.ok (collect f32 b), true⟩
      else ∃ e, loadWeightsNpz f32 files dir = ⟨.error e, true⟩ := by
  obtain ⟨b, c, rest, rfl, htake, hlen, hrest⟩ := take_archive as hn
  rw [loadWeightsNpz_file f32 hfile, htake]
  have hacc : ∀ a ∈ b, a.Accepted := fun a ha => (hok a (List.mem_append_left _ ha)).1
  have hfits : (b.all fun a => decide a.Fits) = true := by
    simpa using fun a ha => (hok a (List.mem_append_left _ ha)).2
  refine ⟨b, c, rfl, by omega, fun a ha => ?_, ?_⟩
  · have ha30 := length_bytes_ge a
    rcases hrest with rfl | ⟨a', d, rfl, -, hlt⟩
    · rw [List.length_nil] at hlen
      omega
    · obtain rfl : a' = a := by simpa using ha
      omega
  · by_cases hshort : n < (b.flatMap NpzArray.bytes).length + 30
    · rw [if_pos hshort, weightsOf_archive f32 b (.inl (by omega)), foldlM_accepted f32 hacc, hfits]
      rfl
    · rw [if_neg hshort]
      obtain rfl | ⟨a, d, rfl, hcut, hlt⟩ := hrest
      · rw [List.length_nil] at hlen
        omega
      · obtain ⟨e, he⟩ := readEntry_cut f32 a (n := rest.length) (by omega) hlt
        rw [← hcut] at he
        have hb := length_archive_ge b
        obtain ⟨k, hk⟩ : ∃ k, (b.flatMap NpzArray.bytes ++ rest).length - b.length = k + 1 :=
          ⟨(b.flatMap NpzArray.bytes ++ rest).length - b.length - 1, by rw [List.length_append]; omega⟩
        refine ⟨e, ?_⟩
        unfold weightsOf
        rw [readEntries_bytes f32 b rest (by rw [List.length_append]; omega), hk, foldlM_accepted f32 hacc, hfits]
        simp only [readEntries, if_neg (by simp : ¬ true = false), he]
        rfl

theorem loadWeightsNpz_cut_probe :
    ∃ e, loadWeightsNpz (id : Nat → Nat) (probeFiles 40) "" = ⟨.error e, true⟩ := by
  have hlen := length_probeArrays
  have hfile : probeFiles 40 (withSlash "" ++ "weights.npz") =
      some ((probeArrays.flatMap NpzArray.bytes).take 40) := rfl
  obtain ⟨b, c, heq, hb, -, hres⟩ := loadWeightsNpz_cut (id : Nat → Nat) probeArrays probe_accepted_fits
    (by omega) hfile
  have hnil : b = [] := by
    cases b with
    | nil => rfl
    | cons x b =>
      obtain ⟨rfl, -⟩ := List.cons.inj heq
      have hfirst : (probeArray 'w' (by decide) 1 2).bytes.length = 131 := by decide +kernel
      rw [List.flatMap_cons, List.length_append, hfirst] at hb
      omega
  subst hnil
  rwa [if_neg (by simp)] at hres

end Load

end SslaRt
