import SslaRt.LittleEndian
import SslaRt.TextSearch
import SslaRt.WeightsFile

/-! The header of a `.npy` entry. A `std::string` is the list of its bytes, each as the
character of its number. -/

namespace SslaRt

open CheckedRun LittleEndian TextSearch

def latin1 (bytes : List UInt8) : List Char := bytes.map fun b => Char.ofNat b.toNat

def npos : Nat := 2 ^ 64 - 1

/-- `std::string::find`. -/
def find (s pat : List Char) (pos : Nat) : Nat := ((search pat (s.drop pos)).map (pos + ·)).getD npos

/-- `substr(a + 1, b - a - 1)` with sizes of 64 bits. The places come from `find`, so that
the first argument is not behind the end. -/
def between (s : List Char) (a b : Nat) : List Char :=
  (s.drop ((a + 1) % 2 ^ 64)).take ((b + 2 ^ 64 - (a + 1) % 2 ^ 64) % 2 ^ 64)

def isBlank (c : Char) : Bool := c ∈ [' ', '\t', '\r', '\n']

def trim (s : List Char) : List Char := trimBy isBlank s

/-- `std::stoull`: it takes a sign, and a negative number is one modulo `2 ^ 64`. -/
def stoull (cs : List Char) : Checked Nat :=
  let cs := cs.dropWhile isSpace
  let neg := cs.head? = some '-'
  let cs := if cs.head? = some '-' ∨ cs.head? = some '+' then cs.tail else cs
  let digits := cs.takeWhile Char.isDigit
  if digits = [] ∨ 2 ^ 64 ≤ digitsValue digits then Checked.throw "stoull"
  else pure (if neg then (2 ^ 64 - digitsValue digits) % 2 ^ 64 else digitsValue digits)

structure NpyInfo where
  shape : List Nat
  dtype : List Char
  fortran : Bool
  header_len : Nat

def npyDescr (header : List Char) : List Char :=
  let d1 := find header "'descr':".toList 0
  if d1 = npos then []
  else
    let q1 := find header "'".toList (d1 + 8)
    let q2 := find header "'".toList ((q1 + 1) % 2 ^ 64)
    between header q1 q2

def npyShape (header : List Char) : Checked (List Nat) :=
  let s1 := find header "'shape':".toList 0
  if s1 = npos then pure []
  else do
    let lp := find header "(".toList s1
    let rp := find header ")".toList s1
    let toks := ((pieces ',' [] (between header lp rp)).map trim).filter (· ≠ [])
    let shape ← toks.foldlM (fun shape tok => do return shape ++ [← stoull tok]) []
    return if shape = [] then [1] else shape

def npyMagic : List UInt8 := [0x93, 0x4E, 0x55, 0x4D, 0x50, 0x59]

/-- The length field of a version other than 1 is read before the size is checked for it. -/
def parseNpyHeader (data : List UInt8) : Checked NpyInfo := do
  Checked.throwIf (data.length < 10 ∨ data.take 6 ≠ npyMagic) "weights.npz: entry is not a .npy file"
  let major := data.getD 6 0
  Checked.access (decide (major = 1 ∨ 12 ≤ data.length))
  let header_len := if major = 1 then field data 8 2 else field data 8 4
  let header_start := if major = 1 then 10 else 12
  Checked.throwIf (header_start + header_len > data.length) "weights.npz: .npy header overruns entry"
  let header := latin1 ((data.drop header_start).take header_len)
  let fortran := decide (find header "'fortran_order': True".toList 0 ≠ npos)
  let shape ← npyShape header
  return ⟨shape, npyDescr header, fortran, header_start + header_len⟩

section Places

theorem find_append {s a b pat : List Char} {i : Nat} (hs : s = a ++ b) (h : search pat b = some i) :
    find s pat a.length = a.length + i := by
  subst hs
  simp [find, h]

theorem find_none {s pat : List Char} (h : search pat s = none) : find s pat 0 = npos := by
  simp [find, h]

theorem between_append {s a x b : List Char} {p q : Nat} (hs : s = a ++ (x ++ b)) (hp : p + 1 = a.length)
    (hq : q = a.length + x.length) (hlt : s.length < 2 ^ 64) : between s p q = x := by
  subst hs
  simp only [List.length_append] at hlt
  have hcount : (q + 2 ^ 64 - a.length) % 2 ^ 64 = x.length := by omega
  unfold between
  rw [hp, Nat.mod_eq_of_lt (by omega : a.length < 2 ^ 64), hcount]
  simp

end Places

section Written

/-- Sizes as Python prints them in a tuple. -/
def sizesText : List Nat → List Char
  | [] => []
  | [n] => decimal n
  | n :: ns => decimal n ++ ", ".toList ++ sizesText ns

def tupleText (shape : List Nat) : List Char :=
  sizesText shape ++ if shape.length = 1 then ",".toList else []

/-- The header that numpy writes, with blanks up to a multiple of its alignment. -/
def npyHeader (descr : List Char) (fortran : Bool) (shape : List Nat) (pad : Nat) : List Char :=
  "\x7b'descr': '".toList ++ (descr ++ ("', 'fortran_order': ".toList ++
    ((if fortran then "True".toList else "False".toList) ++ (", 'shape': (".toList ++
      (tupleText shape ++ ("), \x7d".toList ++ (List.replicate pad ' ' ++ ['\n'])))))))

def ascii (s : List Char) : List UInt8 := s.map fun c => UInt8.ofNat c.toNat

/-- Version 2 of the format has a length field of four bytes in place of two. -/
def npyVersion (header : List Char) : Nat := if header.length < 2 ^ 16 then 1 else 2

/-- An array as `np.save` writes it. -/
def npyBytes (header : List Char) (payload : List UInt8) : List UInt8 :=
  npyMagic ++ [UInt8.ofNat (npyVersion header), 0] ++
    (encode (2 * npyVersion header) header.length ++ (ascii header ++ payload))

/-- Where the values of an array begin. -/
def npyStart (header : List Char) : Nat := 8 + 2 * npyVersion header + header.length

theorem latin1_ascii {s : List Char} (h : ∀ c ∈ s, c.toNat < 256) : latin1 (ascii s) = s := by
  unfold latin1 ascii
  rw [List.map_map]
  refine (List.map_congr_left fun c hc => ?_).trans (List.map_id s)
  have hc : c.toNat % 256 = c.toNat := Nat.mod_eq_of_lt (h c hc)
  simp [UInt8.toNat_ofNat', hc]

theorem mem_sizesText {shape : List Nat} {c : Char} (h : c ∈ sizesText shape) :
    c.isDigit = true ∨ c = ',' ∨ c = ' ' := by
  induction shape using sizesText.induct with
  | case1 => simp [sizesText] at h
  | case2 n => exact .inl (isDigit_of_mem_decimal (by simpa [sizesText] using h))
  | case3 n ns hns ih =>
    rw [sizesText.eq_3 n ns hns] at h
    simp only [List.mem_append] at h
    rcases h with (h | h) | h
    · exact .inl (isDigit_of_mem_decimal h)
    · right
      simpa using h
    · exact ih h

theorem isDigit_notMem {c : Char} {l : List Char} (hc : c.isDigit = true)
    (hl : l.all (fun d => !d.isDigit) = true) : c ∉ l := by
  intro h
  have hh := List.all_eq_true.mp hl c h
  rw [hc] at hh
  exact absurd hh (by decide)

theorem notMem_decimal {n : Nat} {d : Char} (hd : d.isDigit = false) : d ∉ decimal n := by
  intro h
  rw [isDigit_of_mem_decimal h] at hd
  exact absurd hd (by decide)

theorem isBlank_digit {c : Char} (hc : c.isDigit = true) : isBlank c = false := by
  simpa [isBlank] using isDigit_notMem (l := [' ', '\t', '\r', '\n']) hc (by decide)

theorem isSpace_digit {c : Char} (hc : c.isDigit = true) : isSpace c = false := by
  simpa [isSpace] using isDigit_notMem (l := [' ', '\t', '\n', '\x0b', '\x0c', '\r']) hc (by decide)

theorem trim_decimal {a : List Char} (ha : ∀ c ∈ a, c = ' ') (n : Nat) : trim (a ++ decimal n) = decimal n := by
  unfold trim
  rw [trimBy_blank fun c hc => by rw [ha c hc]; rfl]
  exact trimBy_self fun c hc => isBlank_digit (isDigit_of_mem_decimal hc)

theorem stoull_decimal {n : Nat} (h : n < 2 ^ 64) : stoull (decimal n) = pure n := by
  obtain ⟨d, ds, hds⟩ := List.exists_cons_of_ne_nil (decimal_ne_nil n)
  have hd : d.isDigit = true := isDigit_of_mem_decimal (n := n) (by simp [hds])
  have hdrop : (decimal n).dropWhile isSpace = decimal n := by
    rw [hds]
    simp [isSpace_digit hd]
  have hsign : d ≠ '-' ∧ d ≠ '+' := by
    simpa using isDigit_notMem (l := ['-', '+']) hd (by decide)
  have htake : (decimal n).takeWhile Char.isDigit = decimal n := by
    simpa using takeWhile_decimal n (s := []) (by simp)
  have hhead : (decimal n).head? = some d := by simp [hds]
  unfold stoull
  simp only [hdrop, hhead, Option.some.injEq, hsign.1, hsign.2, or_self, if_false, htake,
    digitsValue_decimal, decimal_ne_nil, not_le.mpr h]

/-- The pieces of a tuple, without blanks and empty pieces. -/
theorem pieces_sizesText (shape : List Nat) {a t : List Char} (ha : ∀ c ∈ a, c = ' ')
    (ht : t = [] ∨ t = [',']) : ((pieces ',' [] (a ++ (sizesText shape ++ t))).map trim).filter (· ≠ []) =
      shape.map decimal := by
  have hcomma : ',' ∉ a := fun h => absurd (ha _ h) (by decide)
  induction shape using sizesText.induct generalizing a with
  | case1 =>
    have hblank : trim a = [] := by
      have hh := trimBy_blank (p := isBlank) (a := a) (s := []) fun c hc => by rw [ha c hc]; rfl
      simpa [trim, trimBy] using hh
    rcases ht with rfl | rfl
    · simp only [sizesText, List.append_nil, List.map_nil]
      rw [← List.append_nil a, pieces_skip hcomma]
      by_cases hnil : a = [] <;> simp [pieces, hnil, hblank]
    · simp only [sizesText, List.nil_append, List.map_nil]
      rw [pieces_sep hcomma]
      simp [pieces, hblank]
  | case2 n =>
    have hno : ',' ∉ a ++ decimal n := by simp [hcomma, notMem_decimal]
    rcases ht with rfl | rfl
    · rw [sizesText, List.append_nil, ← List.append_nil (a ++ decimal n), pieces_skip hno]
      simp [pieces, decimal_ne_nil, trim_decimal ha]
    · rw [sizesText, ← List.append_assoc, pieces_sep hno]
      simp [pieces, decimal_ne_nil, trim_decimal ha]
  | case3 n ns hns ih =>
    have hno : ',' ∉ a ++ decimal n := by simp [hcomma, notMem_decimal]
    have hsplit : a ++ (sizesText (n :: ns) ++ t) =
        (a ++ decimal n) ++ ',' :: ([' '] ++ (sizesText ns ++ t)) := by
      rw [sizesText.eq_3 n ns hns]
      simp
    have hrest := ih (a := [' ']) (by simp) (by decide)
    rw [hsplit, pieces_sep hno, List.map_cons, trim_decimal ha, List.filter_cons_of_pos (by simp [decimal_ne_nil]),
      hrest, List.map_cons]

section Header

variable {descr : List Char} (hd : '\'' ∉ descr) (fortran : Bool) (shape : List Nat) (pad : Nat)
include hd

theorem npyDescr_header (hlt : (npyHeader descr fortran shape pad).length < 2 ^ 64) :
    npyDescr (npyHeader descr fortran shape pad) = descr := by
  obtain ⟨rest, hrest⟩ : ∃ rest, npyHeader descr fortran shape pad =
      "\x7b'descr': '".toList ++ (descr ++ '\'' :: rest) := ⟨_, rfl⟩
  rw [hrest] at hlt ⊢
  have h₁ : find ("\x7b'descr': '".toList ++ (descr ++ '\'' :: rest)) "'descr':".toList 0 = 1 := by
    simp [find, search]
  have h₂ : find ("\x7b'descr': '".toList ++ (descr ++ '\'' :: rest)) "'".toList 9 = 10 := by
    simp [find, search]
  have h₃ : find ("\x7b'descr': '".toList ++ (descr ++ '\'' :: rest)) "'".toList 11 = 11 + descr.length :=
    find_append rfl (search_first hd)
  unfold npyDescr
  simp only [h₁, h₂]
  rw [if_neg (by decide), show (10 + 1) % 2 ^ 64 = 11 by decide, h₃]
  exact between_append rfl rfl rfl hlt

omit hd in
theorem mem_tupleText {c : Char} (h : c ∈ tupleText shape) : c.isDigit = true ∨ c = ',' ∨ c = ' ' := by
  unfold tupleText at h
  rcases List.mem_append.mp h with h | h
  · exact mem_sizesText h
  · split at h
    · exact .inr (.inl (by simpa using h))
    · simp at h

omit hd in
theorem notMem_tupleText {c : Char} (h : c.isDigit = false ∧ c ≠ ',' ∧ c ≠ ' ') : c ∉ tupleText shape := by
  intro hc
  rcases mem_tupleText shape hc with hc | hc | hc
  · rw [h.1] at hc
    exact absurd hc (by decide)
  · exact h.2.1 hc
  · exact h.2.2 hc

/-- What follows the parenthesis of the shape. -/
def npyTail (shape : List Nat) (pad : Nat) : List Char :=
  tupleText shape ++ ("), \x7d".toList ++ (List.replicate pad ' ' ++ ['\n']))

omit hd in
theorem quote_notMem_tail : '\'' ∉ npyTail shape pad := by
  unfold npyTail
  simp [notMem_tupleText]

/-- What follows the description and a comma. -/
def npyMiddle (fortran : Bool) (shape : List Nat) (pad : Nat) : List Char :=
  " 'fortran_order': ".toList ++ ((if fortran then "True".toList else "False".toList) ++
    (", 'shape': (".toList ++ npyTail shape pad))

omit hd in
theorem npyHeader_eq : npyHeader descr fortran shape pad =
    "\x7b'descr': ".toList ++ '\'' :: (descr ++ '\'' :: ',' :: npyMiddle fortran shape pad) := rfl

/-- The place of the shape in a header. -/
def shapePlace (descr : List Char) (fortran : Bool) : Nat := descr.length + if fortran then 37 else 38

theorem search_shape : search "'shape':".toList (npyHeader descr fortran shape pad) =
    some (shapePlace descr fortran) := by
  have hskip : ∀ s, search "'shape':".toList ("\x7b'descr': ".toList ++ s) =
      (search "'shape':".toList s).map (· + 10) := by
    intro s
    simp [search, Function.comp_def]
  have htoken : ∀ s, search "'shape':".toList ('\'' :: (descr ++ '\'' :: (',' :: s))) =
      (search "'shape':".toList ('\'' :: (',' :: s))).map (· + (descr.length + 1)) :=
    fun s => search_token (w := "shape".toList) (r := [':']) (by decide) hd (by simp)
  have hrest : search "'shape':".toList ('\'' :: ',' :: npyMiddle fortran shape pad) =
      some (if fortran then 26 else 27) := by
    cases fortran <;> rfl
  rw [npyHeader_eq, hskip, htoken, hrest]
  cases fortran <;> simp [shapePlace] <;> omega

theorem search_cOrder : search "'fortran_order': True".toList (npyHeader descr false shape pad) = none := by
  have hskip : ∀ s, search "'fortran_order': True".toList ("\x7b'descr': ".toList ++ s) =
      (search "'fortran_order': True".toList s).map (· + 10) := by
    intro s
    simp [search, Function.comp_def]
  have htoken : ∀ s, search "'fortran_order': True".toList ('\'' :: (descr ++ '\'' :: (',' :: s))) =
      (search "'fortran_order': True".toList ('\'' :: (',' :: s))).map (· + (descr.length + 1)) :=
    fun s => search_token (w := "fortran_order".toList) (r := ": True".toList) (by decide) hd (by simp)
  have hmiddle : ∀ s, search "'fortran_order': True".toList
      ("', 'fortran_order': False, 'shape': (".toList ++ s) =
        (search "'fortran_order': True".toList s).map (· + 37) := by
    intro s
    simp [search, Function.comp_def]
  have hrest : search "'fortran_order': True".toList ('\'' :: ',' :: npyMiddle false shape pad) = none := by
    refine (hmiddle (npyTail shape pad)).trans ?_
    rw [show search "'fortran_order': True".toList (npyTail shape pad) = none from
      search_eq_none (quote_notMem_tail shape pad)]
    rfl
  rw [npyHeader_eq, hskip, htoken, hrest]
  rfl

omit hd in
theorem search_fortranOrder : ∃ i ≤ descr.length + 14,
    search "'fortran_order': True".toList (npyHeader descr true shape pad) = some i := by
  obtain ⟨i, hi, hs⟩ := search_isSome (a := "\x7b'descr': '".toList ++ (descr ++ "', ".toList))
    (b := ", 'shape': (".toList ++ npyTail shape pad)
  refine ⟨i, ?_, hs.symm ▸ congrArg _ ?_⟩
  · simp at hi
    omega
  · rw [List.append_assoc, List.append_assoc]
    rfl

omit hd in
theorem foldlM_stoull (ns acc : List Nat) (hs : ∀ n ∈ ns, n < 2 ^ 64) :
    (ns.map decimal).foldlM (fun shape tok => do return shape ++ [← stoull tok]) acc = pure (acc ++ ns) := by
  induction ns generalizing acc with
  | nil => simp
  | cons n ns ih =>
    rw [List.map_cons, List.foldlM_cons, stoull_decimal (hs n List.mem_cons_self), Checked.ok_bind,
      Checked.ok_bind, ih _ fun m hm => hs m (List.mem_cons_of_mem n hm)]
    simp

omit hd in
theorem npyHeader_split : ∃ H rest, H.length = shapePlace descr fortran ∧
    npyHeader descr fortran shape pad = H ++ ("'shape': (".toList ++ (tupleText shape ++ ')' :: rest)) := by
  refine ⟨"\x7b'descr': '".toList ++ (descr ++ ("', 'fortran_order': ".toList ++
    ((if fortran then "True".toList else "False".toList) ++ ", ".toList))),
    ", \x7d".toList ++ (List.replicate pad ' ' ++ ['\n']), ?_, ?_⟩
  · cases fortran <;> simp [shapePlace]
  · simp only [List.append_assoc]
    rfl

theorem npyShape_header (hs : ∀ n ∈ shape, n < 2 ^ 64)
    (hlt : (npyHeader descr fortran shape pad).length < 2 ^ 64) :
    npyShape (npyHeader descr fortran shape pad) = pure (if shape = [] then [1] else shape) := by
  obtain ⟨H, rest, hH, hsplit⟩ := @npyHeader_split descr fortran shape pad
  have h₁ : find (npyHeader descr fortran shape pad) "'shape':".toList 0 = H.length := by
    unfold find
    rw [List.drop_zero, search_shape hd fortran shape pad, hH]
    simp
  have h₂ : find (npyHeader descr fortran shape pad) "(".toList H.length = H.length + 9 :=
    find_append hsplit rfl
  have hno : ')' ∉ "'shape': (".toList ++ tupleText shape := by
    rw [List.mem_append, not_or]
    exact ⟨by decide, notMem_tupleText shape (by decide)⟩
  have hclose : search [')'] ("'shape': (".toList ++ (tupleText shape ++ ')' :: rest)) =
      some (10 + (tupleText shape).length) := by
    rw [← List.append_assoc, search_first hno, List.length_append]
    rfl
  have h₃ : find (npyHeader descr fortran shape pad) ")".toList H.length =
      H.length + (10 + (tupleText shape).length) := find_append hsplit hclose
  have hbetween : between (npyHeader descr fortran shape pad) (H.length + 9)
      (H.length + (10 + (tupleText shape).length)) = tupleText shape := by
    refine between_append (a := H ++ "'shape': (".toList) (b := ')' :: rest) ?_ ?_ ?_ hlt
    · rw [hsplit, List.append_assoc]
    · simp
    · simp
      omega
  have hne : H.length ≠ npos := by
    rw [hsplit] at hlt
    simp at hlt
    unfold npos
    omega
  have hpieces := pieces_sizesText shape (a := []) (t := if shape.length = 1 then [','] else [])
    (by simp) (by split <;> simp)
  rw [List.nil_append] at hpieces
  unfold npyShape
  simp only [h₁, h₂, h₃, hbetween, if_neg hne]
  unfold tupleText
  rw [show ",".toList = [','] from rfl, hpieces, foldlM_stoull shape [] hs, Checked.ok_bind,
    List.nil_append]

omit hd in
theorem header_chars (hc : ∀ c ∈ descr, c.toNat < 256) :
    ∀ c ∈ npyHeader descr fortran shape pad, c.toNat < 256 := by
  have hlit : ∀ l : List Char, (l.all fun c => decide (c.toNat < 256)) = true → ∀ c ∈ l, c.toNat < 256 := by
    intro l hl c hc
    simpa using List.all_eq_true.mp hl c hc
  have hdigits : ∀ c ∈ tupleText shape, c.toNat < 256 := by
    intro c h
    rcases mem_tupleText shape h with h | rfl | rfl
    · simp only [Char.isDigit, Bool.and_eq_true, decide_eq_true_eq] at h
      have hle : c.toNat ≤ 57 := h.2
      omega
    · decide
    · decide
  intro c h
  unfold npyHeader at h
  simp only [List.mem_append] at h
  rcases h with h | h | h | h | h | h | h | h | h
  · exact hlit _ (by decide) c h
  · exact hc c h
  · exact hlit _ (by decide) c h
  · cases fortran
    · exact hlit "False".toList (by decide) c h
    · exact hlit "True".toList (by decide) c h
  · exact hlit _ (by decide) c h
  · exact hdigits c h
  · exact hlit _ (by decide) c h
  · obtain rfl := List.eq_of_mem_replicate h
    decide
  · exact hlit _ (by decide) c h

omit hd in
theorem find_fortran (hd : '\'' ∉ descr) (hlt : (npyHeader descr fortran shape pad).length < 2 ^ 32) :
    decide (find (npyHeader descr fortran shape pad) "'fortran_order': True".toList 0 ≠ npos) = fortran := by
  cases fortran with
  | false =>
    rw [find_none (search_cOrder hd shape pad)]
    decide
  | true =>
    obtain ⟨i, hi, hs⟩ := @search_fortranOrder descr shape pad
    have hplace : i ≠ npos := by
      obtain ⟨H, rest, hH, hsplit⟩ := @npyHeader_split descr true shape pad
      rw [hsplit, List.length_append, hH] at hlt
      unfold shapePlace npos at *
      omega
    unfold find
    rw [List.drop_zero, hs]
    simpa using hplace

end Header

section Layout

variable (header : List Char) (payload : List UInt8)

theorem npyVersion_cases : npyVersion header = 1 ∨ npyVersion header = 2 := by
  unfold npyVersion
  split <;> simp

theorem npyBytes_length : (npyBytes header payload).length = npyStart header + payload.length := by
  simp [npyBytes, npyStart, npyMagic, ascii]
  omega

theorem npyBytes_header (hlt : header.length < 2 ^ 32) :
    field (npyBytes header payload) 8 (2 * npyVersion header) = header.length := by
  have hh := field_append_right (npyMagic ++ [UInt8.ofNat (npyVersion header), 0])
    (encode (2 * npyVersion header) header.length ++ (ascii header ++ payload)) 0 (2 * npyVersion header)
  rw [field_encode] at hh
  refine hh.trans (Nat.mod_eq_of_lt ?_)
  unfold npyVersion
  split <;> omega

theorem npyBytes_text : ((npyBytes header payload).drop (8 + 2 * npyVersion header)).take header.length =
    ascii header := by
  have hpre : (npyMagic ++ [UInt8.ofNat (npyVersion header), 0] ++
      encode (2 * npyVersion header) header.length).length = 8 + 2 * npyVersion header := by
    simp [npyMagic]
    omega
  have hascii : (ascii header).length = header.length := by simp [ascii]
  unfold npyBytes
  rw [← List.append_assoc, List.drop_left' hpre, List.take_left' hascii]

theorem npyBytes_drop : (npyBytes header payload).drop (npyStart header) = payload := by
  have hpre : (npyMagic ++ [UInt8.ofNat (npyVersion header), 0] ++
      (encode (2 * npyVersion header) header.length ++ ascii header)).length = npyStart header := by
    simp [npyMagic, npyStart, ascii]
    omega
  unfold npyBytes
  rw [← List.append_assoc (encode _ _), ← List.append_assoc, List.drop_left' hpre]

end Layout

/-- A written array is read back. -/
theorem parseNpyHeader_npyBytes {descr : List Char} (hd : '\'' ∉ descr) (hc : ∀ c ∈ descr, c.toNat < 256)
    (fortran : Bool) {shape : List Nat} (hs : ∀ n ∈ shape, n < 2 ^ 64) (pad : Nat)
    (hlt : (npyHeader descr fortran shape pad).length < 2 ^ 32) (payload : List UInt8) :
    parseNpyHeader (npyBytes (npyHeader descr fortran shape pad) payload) =
      pure ⟨if shape = [] then [1] else shape, descr, fortran,
        npyStart (npyHeader descr fortran shape pad)⟩ := by
  have hshape := npyShape_header hd fortran shape pad hs (by omega)
  have hdescr := npyDescr_header hd fortran shape pad (by omega)
  have hfortran := find_fortran fortran shape pad hd hlt
  have hchars := header_chars fortran shape pad hc
  generalize npyHeader descr fortran shape pad = header at *
  have hlen := npyBytes_length header payload
  have hfield := npyBytes_header header payload hlt
  have htext := npyBytes_text header payload
  have hmajor : (npyBytes header payload).getD 6 0 = UInt8.ofNat (npyVersion header) := rfl
  have hmagic : (npyBytes header payload).take 6 = npyMagic := rfl
  have hstart : npyStart header = 8 + 2 * npyVersion header + header.length := rfl
  have hsize : ¬ ((npyBytes header payload).length < 10 ∨ (npyBytes header payload).take 6 ≠ npyMagic) := by
    rw [hlen, hmagic]
    rcases npyVersion_cases header with h | h <;> simp [hstart, h] <;> omega
  unfold parseNpyHeader
  rw [Checked.throwIf_neg hsize, Checked.ok_bind, hmajor]
  rcases npyVersion_cases header with h | h
  · rw [h] at hfield htext hstart ⊢
    simp only [show UInt8.ofNat 1 = 1 from rfl, true_or, if_true]
    rw [Checked.access_bind trivial, hfield, Checked.throwIf_neg (by omega), Checked.ok_bind, htext,
      latin1_ascii hchars, hshape, Checked.ok_bind, hdescr, hfortran, hstart]
  · rw [h] at hfield htext hstart ⊢
    simp only [show ¬ UInt8.ofNat 2 = 1 by decide, false_or, if_false]
    rw [Checked.access_bind (by omega), hfield, Checked.throwIf_neg (by omega), Checked.ok_bind, htext,
      latin1_ascii hchars, hshape, Checked.ok_bind, hdescr, hfortran, hstart]

end Written

end SslaRt
