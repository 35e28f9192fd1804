import SslaRt.NpzSpec

/-! What the reader returns for a file of any bytes: a map with distinct names, whose
tensors have the values of their shapes unless a product of sizes wraps around. -/

namespace SslaRt

open CheckedRun LittleEndian TextSearch

section Progress

variable {R : Type} (f32 : Nat → R)

theorem length_read (f : InStream) (n : Nat) : (f.read n).2.rest.length ≤ f.rest.length := by
  unfold InStream.read
  split_ifs <;> simp

theorem length_read_of_good {f : InStream} {n : Nat} (h : (f.read n).2.good = true) :
    (f.read n).2.rest.length + n = f.rest.length := by
  unfold InStream.read at h ⊢
  by_cases hgood : f.good = true
  · rw [if_pos hgood] at h ⊢
    by_cases hn : n ≤ f.rest.length
    · rw [if_pos hn]
      simp
      omega
    · rw [if_neg hn] at h
      simp at h
  · rw [if_neg hgood] at h
    exact absurd h hgood

theorem readArray_returns {h : LocalFileHeader} {name : List Char} {extra : List UInt8} {f f' : InStream}
    {e : List Char × NpyTensor R} (hret : (readArray f32 h name extra f).Returns (some (e, f'))) :
    f'.rest.length ≤ f.rest.length ∧ ∃ raw, (readTensor f32 e.1 raw).Returns e.2 := by
  unfold readArray at hret
  cases hc : h.csize extra with
  | none => simp [hc, Checked.Returns, Checked.throw] at hret
  | some csize =>
    simp only [hc, Checked.returns_bind, Checked.returns_pure] at hret
    obtain ⟨-, -, -, -, t, ht, heq⟩ := hret
    cases heq
    exact ⟨length_read f csize, _, ht⟩

/-- A round that goes on has read the 30 bytes of a local header. -/
theorem readEntry_returns {f f' : InStream} {e : List Char × NpyTensor R}
    (hret : (readEntry f32 f).Returns (some (e, f'))) :
    f'.rest.length + 30 ≤ f.rest.length ∧ ∃ raw, (readTensor f32 e.1 raw).Returns e.2 := by
  unfold readEntry at hret
  dsimp only at hret
  by_cases hstop : (f.read 30).2.good = false ∨ (localFileHeader (f.read 30).1).signature ≠ 0x04034b50
  · rw [if_pos hstop, Checked.returns_pure] at hret
    cases hret
  · rw [if_neg hstop, Checked.returns_bind] at hret
    obtain ⟨-, -, hret⟩ := hret
    obtain ⟨hlen, hraw⟩ := readArray_returns f32 hret
    have hgood : (f.read 30).2.good = true := by simpa using (not_or.mp hstop).1
    have h30 := length_read_of_good hgood
    have h₁ := length_read (f.read 30).2 (localFileHeader (f.read 30).1).filename_length
    have h₂ := length_read ((f.read 30).2.read (localFileHeader (f.read 30).1).filename_length).2
      (localFileHeader (f.read 30).1).extra_length
    exact ⟨by omega, hraw⟩

/-- A file with its length as fuel is read to the end: more fuel changes nothing. -/
theorem readEntries_fuel {fuel : Nat} {f : InStream} (h : f.rest.length ≤ fuel)
    (out : List (List Char × NpyTensor R)) :
    readEntries f32 (fuel + 1) f out = readEntries f32 fuel f out := by
  induction fuel generalizing f out with
  | zero =>
    -- nothing is left for a header, so that another round is a `break`
    have hnil : f.rest = [] := List.eq_nil_of_length_eq_zero (Nat.le_zero.mp h)
    have hread : (f.read 30).2.good = false := by
      unfold InStream.read
      by_cases hgood : f.good = true <;> simp [hgood, hnil]
    have hnone : readEntry f32 f = pure none := by
      unfold readEntry
      simp only [hread, true_or, if_true]
    rw [readEntries.eq_2, hnone, Checked.ok_bind]
    split <;> rfl
  | succ fuel ih =>
    rw [readEntries, readEntries]
    by_cases hgood : f.good = false
    · rw [if_pos hgood, if_pos hgood]
    · rw [if_neg hgood, if_neg hgood]
      cases hres : readEntry f32 f with
      | mk result in_range =>
        cases result with
        | error msg => rfl
        | ok r =>
          cases r with
          | none => rfl
          | some ef =>
            obtain ⟨e, f'⟩ := ef
            have hret : (readEntry f32 f).Returns (some (e, f')) := by rw [hres]; rfl
            obtain ⟨hlen, -⟩ := readEntry_returns f32 hret
            exact congrArg (fun x : Checked _ => (⟨x.result, in_range && x.in_range⟩ : Checked _))
              (ih (by omega) (emplace out e))

end Progress

section WellFormed

variable {R : Type} (f32 : Nat → R)

/-- The names are distinct, and every tensor has as many values as `numel` counts. -/
structure NpzMap (m : List (List Char × NpyTensor R)) : Prop where
  keys_nodup : (m.map Prod.fst).Nodup
  numel : ∀ e ∈ m, e.2.data.length = numel e.2.shape

theorem readTensor_returns {key : List Char} {raw : List UInt8} {t : NpyTensor R}
    (h : (readTensor f32 key raw).Returns t) : t.data.length = numel t.shape := by
  simp only [readTensor, Checked.returns_bind, Checked.returns_pure] at h
  obtain ⟨info, -, -, -, -, -, -, -, -, -, rfl⟩ := h
  simp

theorem NpzMap.emplace {m : List (List Char × NpyTensor R)} (h : NpzMap m) {e : List Char × NpyTensor R}
    (he : e.2.data.length = SslaRt.numel e.2.shape) : NpzMap (emplace m e) := by
  refine ⟨emplace_keys_nodup h.keys_nodup e, fun x hx => ?_⟩
  unfold SslaRt.emplace at hx
  split at hx
  · exact h.numel x hx
  · rcases List.mem_append.mp hx with hx | hx
    · exact h.numel x hx
    · rw [List.mem_singleton.mp hx]
      exact he

theorem readEntries_map {fuel : Nat} {f : InStream} {out m : List (List Char × NpyTensor R)}
    (hout : NpzMap out) (h : (readEntries f32 fuel f out).Returns m) : NpzMap m := by
  induction fuel generalizing f out with
  | zero =>
    rw [readEntries, Checked.returns_pure] at h
    exact h ▸ hout
  | succ fuel ih =>
    rw [readEntries] at h
    split at h
    · rw [Checked.returns_pure] at h
      exact h ▸ hout
    · rw [Checked.returns_bind] at h
      obtain ⟨r, hr, h⟩ := h
      cases r with
      | none =>
        rw [Checked.returns_pure] at h
        exact h ▸ hout
      | some ef =>
        obtain ⟨e, f'⟩ := ef
        obtain ⟨-, raw, hraw⟩ := readEntry_returns f32 hr
        exact ih (hout.emplace (readTensor_returns f32 hraw)) h

end WellFormed

section Map

variable {R : Type}

def Tensor.raw (t : Tensor R) : NpyTensor R := ⟨t.shape, t.data⟩

/-- The map as the reader holds it. -/
def WeightsMap.raw (W : WeightsMap R) : List (List Char × NpyTensor R) :=
  W.entries.map fun e => (e.1.toList, e.2.raw)

/-- Entries with values for their shapes are those of a weights map. -/
theorem exists_entries {m : List (List Char × NpyTensor R)}
    (h : ∀ e ∈ m, e.2.data.length = e.2.shape.prod) :
    ∃ entries : List (String × Tensor R), entries.map (fun e => (e.1.toList, e.2.raw)) = m := by
  induction m with
  | nil => exact ⟨[], rfl⟩
  | cons e m ih =>
    obtain ⟨entries, rfl⟩ := ih fun x hx => h x (List.mem_cons_of_mem e hx)
    refine ⟨(String.ofList e.1, ⟨e.2.shape, e.2.data, h e List.mem_cons_self⟩) :: entries, ?_⟩
    simp [Tensor.raw]

theorem NpzMap.exists_raw {m : List (List Char × NpyTensor R)} (h : NpzMap m) :
    (∃ W : WeightsMap R, W.raw = m) ↔ ∀ e ∈ m, e.2.shape.prod < 2 ^ 64 := by
  constructor
  · rintro ⟨W, rfl⟩ e he
    have hcount := h.numel e he
    obtain ⟨w, -, rfl⟩ := List.mem_map.mp he
    rw [show (w.2.raw).data.length = _ from w.2.numel, numel_eq] at hcount
    change w.2.shape.prod < 2 ^ 64
    rw [show w.2.shape.prod = _ from hcount]
    exact Nat.mod_lt _ (by norm_num)
  · intro hlt
    obtain ⟨entries, rfl⟩ := exists_entries fun e he => by
      rw [h.numel e he, numel_eq, Nat.mod_eq_of_lt (hlt e he)]
    refine ⟨⟨entries, ?_⟩, rfl⟩
    have hnodup := h.keys_nodup
    rw [List.map_map] at hnodup
    exact List.Nodup.of_map String.toList (by rwa [List.map_map])

variable (f32 : Nat → R) {files : String → Option (List UInt8)} {dir : String}

theorem loadWeightsNpz_map {m : List (List Char × NpyTensor R)}
    (h : (loadWeightsNpz f32 files dir).Returns m) : NpzMap m := by
  unfold loadWeightsNpz at h
  dsimp only at h
  split at h
  · cases h
  · have hnil : NpzMap ([] : List (List Char × NpyTensor R)) := ⟨by simp, by simp⟩
    exact readEntries_map f32 hnil h

/-- Whatever the bytes of the file are, the names that the reader returns are distinct and
every tensor has as many values as the product of its sizes modulo `2 ^ 64`. So it is a
weights map as the pipelines take it, exactly if no product of sizes wraps around. -/
theorem loadWeightsNpz_wellFormed {m : List (List Char × NpyTensor R)}
    (h : (loadWeightsNpz f32 files dir).Returns m) :
    (m.map Prod.fst).Nodup ∧ (∀ e ∈ m, e.2.data.length = e.2.shape.prod % 2 ^ 64) ∧
      ((∃ W : WeightsMap R, W.raw = m) ↔ ∀ e ∈ m, e.2.shape.prod < 2 ^ 64) := by
  have hmap := loadWeightsNpz_map f32 h
  exact ⟨hmap.keys_nodup, fun e he => by rw [hmap.numel e he, numel_eq], hmap.exists_raw⟩

theorem probeFiles_returns : (loadWeightsNpz (id : Nat → Nat) (probeFiles 393) "").Returns
    [(['w'], ⟨[2], [1, 2]⟩), (['b'], ⟨[2], [5, 6]⟩)] := by
  rw [loadWeightsNpz_accepted _ (.inl (by simp)) probeFiles_whole fun a ha => (probe_accepted_fits a ha).1]
  rfl

theorem loadWeightsNpz_wellFormed_probe :
    ∃ W : WeightsMap Nat, W.raw = [(['w'], ⟨[2], [1, 2]⟩), (['b'], ⟨[2], [5, 6]⟩)] :=
  (loadWeightsNpz_wellFormed (id : Nat → Nat) probeFiles_returns).2.2.mpr (by simp)

end Map

end SslaRt
