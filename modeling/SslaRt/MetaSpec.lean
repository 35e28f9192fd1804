import SslaRt.MetaDump

/-! `load_meta` reads back what `json.dump` wrote, in whatever order the members are and
whatever other members there are, unless a text is like a key. -/

namespace SslaRt

open CheckedRun TextSearch

section Number

theorem isDigit_ne {c : Char} (hc : c.isDigit = true) {d : Char} (hd : d.isDigit = false) : c ≠ d := by
  rintro rfl
  rw [hc] at hd
  cases hd

theorem decimal_cons (n : Nat) : ∃ c cs, decimal n = c :: cs ∧ c.isDigit = true := by
  obtain ⟨c, cs, h⟩ := List.exists_cons_of_ne_nil (decimal_ne_nil n)
  exact ⟨c, cs, h, isDigit_of_mem_decimal (n := n) (by simp [h])⟩

theorem takeWhile_digits (n : Nat) : (decimal n).takeWhile Char.isDigit = decimal n := by
  have h := takeWhile_decimal n (s := []) (by simp)
  rwa [List.append_nil] at h

theorem fromChars_intText {n : Int} (h : -2 ^ 63 ≤ n ∧ n < 2 ^ 63) : fromChars (intText n) = some n := by
  unfold intText
  by_cases hn : n < 0
  · have hval : -(n.natAbs : Int) = n := by omega
    rw [if_pos hn]
    simp only [fromChars, List.head?_cons, List.tail_cons, if_true, takeWhile_digits, decimal_ne_nil, if_false,
      digitsValue_decimal, hval]
    rw [if_pos h]
  · obtain ⟨c, cs, hc, hdigit⟩ := decimal_cons n.natAbs
    have hhead : ¬ (decimal n.natAbs).head? = some '-' := by
      rw [hc, List.head?_cons]
      exact fun heq => isDigit_ne hdigit rfl (Option.some.inj heq)
    have hval : (n.natAbs : Int) = n := by omega
    rw [if_neg hn]
    simp only [fromChars, hhead, if_false, takeWhile_digits, decimal_ne_nil, digitsValue_decimal, hval]
    rw [if_pos h]

/-- The characters of a number. -/
theorem mem_intText {n : Int} {c : Char} (h : c ∈ intText n) : c.isDigit = true ∨ c = '-' := by
  unfold intText at h
  split at h
  · rcases List.mem_cons.mp h with rfl | h
    · exact .inr rfl
    · exact .inl (isDigit_of_mem_decimal h)
  · exact .inl (isDigit_of_mem_decimal h)

theorem intText_ne {n : Int} {c d : Char} (h : c ∈ intText n) (hd : d.isDigit = false) (hne : d ≠ '-') :
    c ≠ d := by
  rcases mem_intText h with hc | rfl
  · exact isDigit_ne hc hd
  · exact hne.symm

theorem intText_cons (n : Int) : ∃ c cs, intText n = c :: cs := by
  unfold intText
  split
  · exact ⟨_, _, rfl⟩
  · obtain ⟨c, cs, h, -⟩ := decimal_cons n.natAbs
    exact ⟨c, cs, h⟩

end Number

section Value

variable {blob A rest : List Char} {key : String}

theorem valuePlace_found (hblob : blob = A ++ (quoted key ++ ':' :: rest))
    (hfind : find blob (quoted key) 0 = A.length) (hlt : blob.length < npos) :
    valuePlace blob key = some (A.length + (quoted key).length + 1) ∧
      blob.drop (A.length + (quoted key).length + 1) = rest := by
  have hlen : A.length + (quoted key).length < blob.length := by
    rw [hblob]
    simp
  have hcolon : find blob [':'] (A.length + (quoted key).length) = A.length + (quoted key).length := by
    have hsplit : blob = (A ++ quoted key) ++ ':' :: rest := by rw [hblob, List.append_assoc]
    have hsearch : search [':'] (':' :: rest) = some 0 := search_prefix (by simp)
    simpa using find_append hsplit hsearch
  refine ⟨?_, ?_⟩
  · unfold valuePlace
    simp only [hfind, hcolon]
    rw [if_neg (by omega), if_neg (by omega)]
  · have hdrop : A ++ (quoted key ++ ':' :: rest) = (A ++ quoted key ++ [':']) ++ rest := by simp
    rw [hblob, hdrop]
    exact List.drop_left' (by simp [Nat.add_assoc])

/-- The number behind a key. -/
theorem jsonGetInt_found {n : Int} (hn : -2 ^ 63 ≤ n ∧ n < 2 ^ 63)
    (hblob : blob = A ++ (quoted key ++ ':' :: ' ' :: (intText n ++ rest)))
    (hrest : ∃ c ∈ [',', '\n'], rest.head? = some c)
    (hfind : find blob (quoted key) 0 = A.length) (hlt : blob.length < npos) : jsonGetInt blob key = n := by
  obtain ⟨hplace, hdrop⟩ := valuePlace_found hblob hfind hlt
  obtain ⟨c, cs, hcons⟩ := intText_cons n
  have hc : c ∈ intText n := by simp [hcons]
  have hblank : (' ' :: (intText n ++ rest)).dropWhile (fun c => decide (c = ' ' ∨ c = '\t')) =
      intText n ++ rest := by
    rw [hcons]
    simp [intText_ne hc (d := ' ') rfl (by decide), intText_ne hc (d := '\t') rfl (by decide)]
  have htake : (intText n ++ rest).takeWhile (fun c => decide (c ≠ ',' ∧ c ≠ '\x7d' ∧ c ≠ '\n')) =
      intText n := by
    rw [List.takeWhile_append_of_pos fun d hd => by
      simp [intText_ne hd (d := ',') rfl (by decide), intText_ne hd (d := '\x7d') rfl (by decide),
        intText_ne hd (d := '\n') rfl (by decide)]]
    obtain ⟨d, hd, hhead⟩ := hrest
    cases rest with
    | nil => simp
    | cons x rest =>
      obtain rfl : x = d := by simpa using hhead
      simp at hd
      rcases hd with rfl | rfl <;> simp
  have htrim : trim (intText n) = intText n := by
    refine trimBy_self fun d hd => ?_
    simp [isBlank, intText_ne hd (d := ' ') rfl (by decide), intText_ne hd (d := '\t') rfl (by decide),
      intText_ne hd (d := '\r') rfl (by decide), intText_ne hd (d := '\n') rfl (by decide)]
  unfold jsonGetInt
  simp only [hplace, hdrop, hblank, htake, htrim]
  rw [if_neg (by simp [hcons]), fromChars_intText hn]
  rfl

/-- A text where a number is asked for is zero. -/
theorem jsonGetInt_text {s : List Char}
    (hblob : blob = A ++ (quoted key ++ ':' :: ' ' :: '"' :: s))
    (hfind : find blob (quoted key) 0 = A.length) (hlt : blob.length < npos) : jsonGetInt blob key = 0 := by
  obtain ⟨hplace, hdrop⟩ := valuePlace_found hblob hfind hlt
  have hblank : (' ' :: '"' :: s).dropWhile (fun c => decide (c = ' ' ∨ c = '\t')) = '"' :: s := by simp
  unfold jsonGetInt
  simp only [hplace, hdrop, hblank]
  generalize hnum : trim _ = num
  cases num with
  | nil => simp
  | cons c num =>
    -- the first character stays in front
    have hc : c = '"' := by
      have hhead := congrArg List.head? hnum
      simp only [trim, trimBy, List.takeWhile_cons, List.head?_cons] at hhead
      simp [isBlank, List.rdropWhile, List.dropWhile_append] at hhead
      split at hhead
      · simpa using hhead.symm
      · simpa using hhead.symm
    subst hc
    rw [if_neg (by simp)]
    simp [fromChars]

theorem jsonGetString_found {s : List Char} (hs : '"' ∉ s)
    (hblob : blob = A ++ (quoted key ++ ':' :: ' ' :: '"' :: (s ++ '"' :: rest)))
    (hfind : find blob (quoted key) 0 = A.length) (hlt : blob.length < npos) : jsonGetString blob key = s := by
  obtain ⟨hplace, -⟩ := valuePlace_found hblob hfind hlt
  have hlen : A.length + (quoted key).length + 3 + s.length < blob.length := by
    rw [hblob]
    simp
    omega
  have hq : find blob ['"'] (A.length + (quoted key).length + 1) = A.length + (quoted key).length + 2 := by
    have hsplit : blob = (A ++ quoted key ++ [':']) ++ ' ' :: '"' :: (s ++ '"' :: rest) := by
      rw [hblob]
      simp
    have hsearch : search ['"'] (' ' :: '"' :: (s ++ '"' :: rest)) = some 1 := rfl
    simpa [Nat.add_assoc] using find_append hsplit hsearch
  have hsplit : blob = (A ++ quoted key ++ [':', ' ', '"']) ++ (s ++ '"' :: rest) := by
    rw [hblob]
    simp
  have hr : find blob ['"'] (A.length + (quoted key).length + 2 + 1) =
      A.length + (quoted key).length + 3 + s.length := by
    simpa [Nat.add_assoc] using find_append hsplit (search_first hs)
  have hdrop : blob.drop (A.length + (quoted key).length + 2 + 1) = s ++ '"' :: rest := by
    rw [hsplit]
    exact List.drop_left' (by simp [Nat.add_assoc])
  unfold jsonGetString
  simp only [hplace, hq, hr, hdrop]
  rw [if_neg (by omega), if_neg (by omega)]
  have hcount : A.length + (quoted key).length + 3 + s.length - (A.length + (quoted key).length + 2) - 1 =
      s.length := by omega
  rw [hcount, List.take_left]

end Value

section Dictionary

variable (ms : List JsonMember)

def memberOf (key : String) : Option JsonValue := (ms.find? fun m => m.key = key).map JsonMember.value

def intOf (key : String) : Int :=
  match memberOf ms key with
  | some (.int n) => n
  | _ => 0

def textOf (key : String) : List Char :=
  match memberOf ms key with
  | some (.text s) => s.chars
  | _ => []

def metaTextKeys : List String := ["model", "method", "dtype", "layout", "key_separator", "checkpoint"]

def metaIntKeys : List String :=
  ["schema_version", "height", "width", "num_classes", "num_anchors", "ssla_tdrop_window", "total_params"]

/-- Members that the text search can tell apart. -/
structure Searchable : Prop where
  texts : ∀ key ∈ metaTextKeys ++ metaIntKeys, key.toList ∉ memberTexts ms
  typed : ∀ m ∈ ms, m.key ∈ metaTextKeys → ∃ s, m.value = .text s
  ints : ∀ m ∈ ms, ∀ n, m.value = .int n → -2 ^ 63 ≤ n ∧ n < 2 ^ 63
  size : (jsonDump ms).length < npos

theorem metaKeys_keyText : ∀ key ∈ metaTextKeys ++ metaIntKeys, KeyText key.toList := by decide

variable {ms}

/-- Either no member has the key, or the first one that has it is found. -/
theorem find_member (h : Searchable ms) {key : String} (hkey : key ∈ metaTextKeys ++ metaIntKeys) :
    (memberOf ms key = none ∧ find (jsonDump ms) (quoted key) 0 = npos) ∨
      ∃ m ∈ ms, m.key = key ∧ memberOf ms key = some m.value ∧ ∃ A rest,
        (∃ c ∈ [',', '\n'], rest.head? = some c) ∧
        jsonDump ms = A ++ (quoted key ++ ':' :: ' ' :: (m.value.written ++ rest)) ∧
        find (jsonDump ms) (quoted key) 0 = A.length := by
  have hw := metaKeys_keyText key hkey
  have htext := h.texts key hkey
  unfold memberOf
  cases hfind : ms.find? fun m => decide (m.key = key) with
  | none =>
    refine .inl ⟨rfl, find_noKey hw (fun hmem => ?_) htext⟩
    obtain ⟨m, hm, heq⟩ := List.mem_map.mp hmem
    have hne := List.find?_eq_none.mp hfind m hm
    exact hne (by simpa using String.toList_injective heq)
  | some m =>
    obtain ⟨hm, us, vs, rfl, hus⟩ := List.find?_eq_some_iff_append.mp hfind
    obtain rfl : m.key = key := by simpa using hm
    rw [memberTexts_append] at htext
    have hbefore : m.key.toList ∉ memberKeys us := by
      intro hmem
      obtain ⟨u, hu, heq⟩ := List.mem_map.mp hmem
      have hne := hus u hu
      rw [String.toList_injective heq] at hne
      simp at hne
    obtain ⟨A, hdump, hA⟩ := find_key vs hw hbefore fun hmem => htext (List.mem_append_left _ hmem)
    refine .inr ⟨m, by simp, rfl, rfl, A, memberEnd vs ++ membersText vs, ?_, hdump, hA⟩
    rcases memberEnd_cases vs with he | he
    · exact ⟨'\n', by simp, by rw [he]; rfl⟩
    · exact ⟨',', by simp, by rw [he]; rfl⟩

theorem valuePlace_noKey {blob : List Char} {key : String} (h : find blob (quoted key) 0 = npos) :
    valuePlace blob key = none := by
  unfold valuePlace
  simp only [h, if_true]

theorem jsonGetInt_dump (h : Searchable ms) {key : String} (hkey : key ∈ metaIntKeys) :
    jsonGetInt (jsonDump ms) key = intOf ms key := by
  unfold intOf
  rcases find_member h (List.mem_append_right _ hkey) with ⟨hnone, hfind⟩ | ⟨m, hm, -, hsome, A, rest, hrest, hdump, hfind⟩
  · unfold jsonGetInt
    rw [hnone, valuePlace_noKey hfind]
  · rw [hsome]
    cases hv : m.value with
    | int n =>
      rw [hv] at hdump
      exact jsonGetInt_found (h.ints m hm n hv) hdump hrest hfind h.size
    | text s =>
      rw [hv] at hdump
      exact jsonGetInt_text hdump hfind h.size

theorem jsonGetString_dump (h : Searchable ms) {key : String} (hkey : key ∈ metaTextKeys) :
    jsonGetString (jsonDump ms) key = textOf ms key := by
  unfold textOf
  rcases find_member h (List.mem_append_left _ hkey) with ⟨hnone, hfind⟩ | ⟨m, hm, rfl, hsome, A, rest, -, hdump, hfind⟩
  · unfold jsonGetString
    rw [hnone, valuePlace_noKey hfind]
  · rw [hsome]
    obtain ⟨s, hs⟩ := h.typed m hm hkey
    rw [hs] at hdump ⊢
    have hsplit : jsonDump ms = A ++ (quoted m.key ++ ':' :: ' ' :: '"' :: (s.chars ++ '"' :: rest)) := by
      rw [hdump]
      simp [JsonValue.written]
    exact jsonGetString_found (plain_quote s.plain) hsplit hfind h.size

end Dictionary

section Load

variable {ms : List JsonMember} {files : String → Option (List UInt8)} {dir : String}

/-- The meaning of the members. -/
def metaOf (ms : List JsonMember) : MetaJson := metaFrom (textOf ms) (intOf ms)

theorem metaFrom_dump (h : Searchable ms) :
    metaFrom (jsonGetString (jsonDump ms)) (jsonGetInt (jsonDump ms)) = metaOf ms := by
  have hi : ∀ key ∈ metaIntKeys, jsonGetInt (jsonDump ms) key = intOf ms key := fun _ => jsonGetInt_dump h
  have ht : ∀ key ∈ metaTextKeys, jsonGetString (jsonDump ms) key = textOf ms key := fun _ => jsonGetString_dump h
  simp only [metaIntKeys, List.forall_mem_cons] at hi
  simp only [metaTextKeys, List.forall_mem_cons] at ht
  unfold metaOf metaFrom
  simp only [hi, ht]

theorem written_lt (v : JsonValue) : ∀ c ∈ v.written, c.toNat < 256 := by
  intro c hc
  cases v with
  | int n =>
    rcases mem_intText hc with h | rfl
    · have h' : c.toNat ≤ 57 := by
        simp only [Char.isDigit, Bool.and_eq_true, decide_eq_true_eq] at h
        exact h.2
      omega
    · decide
  | text s =>
    simp only [JsonValue.written, List.mem_cons, List.mem_append, List.not_mem_nil, or_false] at hc
    rcases hc with rfl | hc | rfl
    · decide
    · have h := (s.plain c hc).2.1
      omega
    · decide

theorem membersText_lt (ms : List JsonMember) : ∀ c ∈ membersText ms, c.toNat < 256 := by
  induction ms with
  | nil => simp [membersText]
  | cons m ms ih =>
    have hend : ∀ c ∈ memberEnd ms, c.toNat < 256 := by
      rcases memberEnd_cases ms with h | h <;> simp [h]
    have hsep : ∀ c ∈ ": ".toList, c.toNat < 256 := by simp
    intro c hc
    simp only [membersText, quoted, List.mem_append, List.mem_cons, List.not_mem_nil, or_false] at hc
    rcases hc with (rfl | hc | rfl) | hc | hc | hc | hc
    · decide
    · have h := (m.plain c hc).2.1
      omega
    · decide
    · exact hsep c hc
    · exact written_lt m.value c hc
    · exact hend c hc
    · exact ih c hc

theorem jsonDump_lt (ms : List JsonMember) : ∀ c ∈ jsonDump ms, c.toNat < 256 := by
  unfold jsonDump
  have hopen : ∀ c ∈ "\x7b\n  ".toList, c.toNat < 256 := by simp
  split
  · simp
  · intro c hc
    exact (List.mem_append.mp hc).elim (hopen c) (membersText_lt ms c)

theorem loadMeta_eq (h : Searchable ms)
    (hfile : files (withSlash dir ++ "meta.json") = some (ascii (jsonDump ms))) : loadMeta files dir = (do
      Checked.throwIf ((metaOf ms).schema_version ≠ 0 ∧ (metaOf ms).schema_version > kSupportedSchemaVersion)
        (withSlash dir ++ "meta.json" ++ ": schema_version=" ++ toString (metaOf ms).schema_version ++
          " is newer than this C++ build supports (" ++ toString kSupportedSchemaVersion ++ "). " ++
          "Rebuild C++ runtime from the matching commit.")
      return metaOf ms) := by
  unfold loadMeta
  simp only [hfile, latin1_ascii (jsonDump_lt ms), metaFrom_dump h]

theorem loadMeta_ok (h : Searchable ms)
    (hfile : files (withSlash dir ++ "meta.json") = some (ascii (jsonDump ms)))
    (hversion : (metaOf ms).schema_version ≤ 1) : loadMeta files dir = pure (metaOf ms) := by
  have hok : ¬ ((metaOf ms).schema_version ≠ 0 ∧ (metaOf ms).schema_version > kSupportedSchemaVersion) :=
    fun hnew => absurd hversion (not_le.mpr hnew.2)
  rw [loadMeta_eq h hfile, Checked.throwIf_neg hok, Checked.ok_bind]

/-- The file is read back to the values of its members, a missing one as zero or the empty
text, unless its version is a newer one. -/
theorem loadMeta_dump (h : Searchable ms)
    (hfile : files (withSlash dir ++ "meta.json") = some (ascii (jsonDump ms))) :
    (∀ m, (loadMeta files dir).Returns m ↔ (metaOf ms).schema_version ≤ 1 ∧ m = metaOf ms) ∧
      (1 < (metaOf ms).schema_version → (loadMeta files dir).result = .error
        (withSlash dir ++ "meta.json" ++ ": schema_version=" ++ toString (metaOf ms).schema_version ++
          " is newer than this C++ build supports (1). Rebuild C++ runtime from the matching commit.")) := by
  by_cases hnew : 1 < (metaOf ms).schema_version
  · have hthrow : (metaOf ms).schema_version ≠ 0 ∧ (metaOf ms).schema_version > kSupportedSchemaVersion :=
      ⟨by omega, hnew⟩
    rw [loadMeta_eq h hfile, Checked.throwIf_pos hthrow, Checked.throw_bind]
    refine ⟨fun m => ⟨fun hret => ?_, fun hm => ?_⟩, fun _ => ?_⟩
    · cases hret
    · exact absurd hm.1 (by omega)
    · simp only [Checked.throw, String.append_assoc]
      rfl
  · have hle := not_lt.mp hnew
    rw [loadMeta_ok h hfile hle]
    refine ⟨fun m => ?_, fun hh => absurd hh hnew⟩
    rw [Checked.returns_pure]
    exact ⟨fun heq => ⟨hle, heq.symm⟩, fun hm => hm.2.symm⟩

theorem probe_plain : (∀ c ∈ "schema_version".toList, Plain c) ∧ (∀ c ∈ "model".toList, Plain c) ∧
    (∀ c ∈ "height".toList, Plain c) ∧ ∀ c ∈ "ssla_s_yolox_det".toList, Plain c := by simp [Plain]

/-- A file without a method and without most numbers. -/
def probeMembers : List JsonMember :=
  [⟨"height", .int 240, probe_plain.2.2.1⟩, ⟨"schema_version", .int 1, probe_plain.1⟩,
    ⟨"model", .text ⟨"ssla_s_yolox_det".toList, probe_plain.2.2.2⟩, probe_plain.2.1⟩]

theorem probeMembers_searchable : Searchable probeMembers := by
  refine ⟨by decide, ?_, ?_, by decide +kernel⟩
  · intro m hm hkey
    simp only [probeMembers, List.mem_cons, List.not_mem_nil, or_false] at hm
    rcases hm with rfl | rfl | rfl
    · exact absurd hkey (by decide)
    · exact absurd hkey (by decide)
    · exact ⟨_, rfl⟩
  · intro m hm n hn
    simp only [probeMembers, List.mem_cons, List.not_mem_nil, or_false] at hm
    rcases hm with rfl | rfl | rfl
    · cases hn
      decide
    · cases hn
      decide
    · cases hn

theorem loadMeta_dump_probe : ∃ m, (loadMeta (fun _ => some (ascii (jsonDump probeMembers))) "").Returns m ∧
    m.model = "ssla_s_yolox_det" ∧ m.method = "ssla" ∧ m.height = 240 ∧ m.width = 0 := by
  refine ⟨metaOf probeMembers, ?_, by decide +kernel⟩
  exact ((loadMeta_dump probeMembers_searchable rfl).1 _).mpr ⟨by decide +kernel, rfl⟩

end Load

end SslaRt
