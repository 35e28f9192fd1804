import SslaRt.MetaFile

/-! A `meta.json` as `json.dump` writes it with an indent of two, and what the text
search finds in it under a key. -/

namespace SslaRt

open TextSearch

/-- A character that is written as it is: printable ASCII without the quote and the backslash. -/
def Plain (c : Char) : Prop := 0x20 ≤ c.toNat ∧ c.toNat < 0x7F ∧ c ≠ '"' ∧ c ≠ '\\'

instance : DecidablePred Plain := fun c =>
  inferInstanceAs (Decidable (0x20 ≤ c.toNat ∧ c.toNat < 0x7F ∧ c ≠ '"' ∧ c ≠ '\\'))

/-- A text that is written without an escape. -/
structure PlainText where
  chars : List Char
  plain : ∀ c ∈ chars, Plain c

/-- The values of an export: no fraction, list, dictionary or null. -/
inductive JsonValue where
  | int (n : Int)
  | text (s : PlainText)

structure JsonMember where
  key : String
  value : JsonValue
  plain : ∀ c ∈ key.toList, Plain c

def intText (n : Int) : List Char := if n < 0 then '-' :: decimal n.natAbs else decimal n.natAbs

def JsonValue.written : JsonValue → List Char
  | .int n => intText n
  | .text s => '"' :: (s.chars ++ ['"'])

/-- What stands behind a member. -/
def memberEnd (ms : List JsonMember) : List Char := if ms = [] then "\n\x7d".toList else ",\n  ".toList

def membersText : List JsonMember → List Char
  | [] => []
  | m :: ms => quoted m.key ++ (": ".toList ++ (m.value.written ++ (memberEnd ms ++ membersText ms)))

def jsonDump (ms : List JsonMember) : List Char :=
  if ms = [] then "\x7b\x7d".toList else "\x7b\n  ".toList ++ membersText ms

def memberKeys (ms : List JsonMember) : List (List Char) := ms.map fun m => m.key.toList

def memberTexts (ms : List JsonMember) : List (List Char) := ms.filterMap fun m =>
  match m.value with
  | .int _ => none
  | .text s => some s.chars

section Pieces

/-- The parts of the members between quotes. -/
def memberPieces (m : JsonMember) (ending : List Char) : List (List Char) :=
  match m.value with
  | .int n => [m.key.toList, ": ".toList ++ (intText n ++ ending)]
  | .text s => [m.key.toList, ": ".toList, s.chars, ending]

def dumpPieces : List JsonMember → List (List Char)
  | [] => []
  | m :: ms => memberPieces m (memberEnd ms) ++ dumpPieces ms

theorem membersText_pieces (ms : List JsonMember) (t : List Char) :
    t ++ membersText ms = joinQuotes '"' t (dumpPieces ms) := by
  induction ms generalizing t with
  | nil => simp [membersText, dumpPieces, joinQuotes]
  | cons m ms ih =>
    rw [dumpPieces, membersText, memberPieces]
    cases m.value with
    | int n =>
      simp only [List.cons_append, List.nil_append, joinQuotes]
      rw [← ih]
      simp [quoted, JsonValue.written]
    | text s =>
      simp only [List.cons_append, List.nil_append, joinQuotes]
      rw [← ih]
      simp [quoted, JsonValue.written]

theorem jsonDump_cons (m : JsonMember) (ms : List JsonMember) :
    jsonDump (m :: ms) = joinQuotes '"' "\x7b\n  ".toList (dumpPieces (m :: ms)) := by
  rw [← membersText_pieces]
  rfl

/-- A key that no punctuation of the file is like. -/
def KeyText (w : List Char) : Prop := ∀ c ∈ w, c ∉ ['"', ':', ',', '\n']

instance (w : List Char) : Decidable (KeyText w) := List.decidableBAll _ w

theorem KeyText.ne_cons {w : List Char} (hw : KeyText w) {c : Char} (hc : c ∈ ['"', ':', ',', '\n'])
    (u : List Char) : c :: u ≠ w := by
  rintro rfl
  exact hw c List.mem_cons_self hc

theorem quote_notMem_intText (n : Int) : '"' ∉ intText n := by
  have hdec : '"' ∉ decimal n.natAbs := notMem_decimal rfl
  unfold intText
  split <;> simp [hdec]

theorem memberEnd_cases (ms : List JsonMember) :
    memberEnd ms = '\n' :: "\x7d".toList ∨ memberEnd ms = ',' :: "\n  ".toList := by
  unfold memberEnd
  split
  · exact .inl rfl
  · exact .inr rfl

theorem plain_quote {s : List Char} (h : ∀ c ∈ s, Plain c) : '"' ∉ s := fun hq => (h _ hq).2.2.1 rfl

theorem memberEnd_ne {w : List Char} (hw : KeyText w) (ms : List JsonMember) :
    '"' ∉ memberEnd ms ∧ memberEnd ms ≠ w := by
  rcases memberEnd_cases ms with h | h
  · rw [h]
    exact ⟨by decide, hw.ne_cons (by simp) _⟩
  · rw [h]
    exact ⟨by decide, hw.ne_cons (by simp) _⟩

/-- No part of a member is like a word that is neither its key nor its text. -/
theorem memberPieces_ne {w : List Char} (hw : KeyText w) {m : JsonMember} (hkey : m.key.toList ≠ w)
    (htext : ∀ s, m.value = .text s → s.chars ≠ w) (ms : List JsonMember) :
    ∀ u ∈ memberPieces m (memberEnd ms), '"' ∉ u ∧ u ≠ w := by
  have hend := memberEnd_ne hw ms
  have hk := plain_quote m.plain
  intro u hu
  unfold memberPieces at hu
  cases hv : m.value with
  | int n =>
    have hn := quote_notMem_intText n
    simp only [hv, List.mem_cons, List.not_mem_nil, or_false] at hu
    rcases hu with rfl | rfl
    · exact ⟨hk, hkey⟩
    · exact ⟨by simp [hn, hend.1], hw.ne_cons (c := ':') (by simp) _⟩
  | text s =>
    simp only [hv, List.mem_cons, List.not_mem_nil, or_false] at hu
    rcases hu with rfl | rfl | rfl | rfl
    · exact ⟨hk, hkey⟩
    · exact ⟨by decide, hw.ne_cons (c := ':') (by simp) _⟩
    · exact ⟨plain_quote s.plain, htext s hv⟩
    · exact hend

theorem memberTexts_append (us vs : List JsonMember) :
    memberTexts (us ++ vs) = memberTexts us ++ memberTexts vs := List.filterMap_append

theorem text_mem {ms : List JsonMember} {m : JsonMember} (hm : m ∈ ms) {s : PlainText}
    (hs : m.value = .text s) : s.chars ∈ memberTexts ms := by
  unfold memberTexts
  exact List.mem_filterMap.mpr ⟨m, hm, by simp [hs]⟩

theorem dumpPieces_append {w : List Char} (hw : KeyText w) (us vs : List JsonMember)
    (hkey : w ∉ memberKeys us) (htext : w ∉ memberTexts us) :
    ∃ pre, dumpPieces (us ++ vs) = pre ++ dumpPieces vs ∧ ∀ u ∈ pre, '"' ∉ u ∧ u ≠ w := by
  induction us with
  | nil => exact ⟨[], rfl, by simp⟩
  | cons m us ih =>
    rw [memberKeys, List.map_cons, List.mem_cons, not_or] at hkey
    have hrest : w ∉ memberTexts us := by
      intro h
      exact htext (by rw [← List.singleton_append, memberTexts_append]; exact List.mem_append_right _ h)
    obtain ⟨pre, heq, hpre⟩ := ih hkey.2 hrest
    have hm := memberPieces_ne hw (Ne.symm hkey.1)
      (fun s hs heq => htext (heq ▸ text_mem List.mem_cons_self hs)) (us ++ vs)
    refine ⟨memberPieces m (memberEnd (us ++ vs)) ++ pre, ?_, fun u hu => ?_⟩
    · rw [List.cons_append, dumpPieces, heq, List.append_assoc]
    · exact (List.mem_append.mp hu).elim (hm u) (hpre u)

end Pieces

section Found

variable {key : String} {ms : List JsonMember}

/-- A key is found where it is, if no text before it is like it. -/
theorem find_key {us : List JsonMember} (vs : List JsonMember) {m : JsonMember} (hw : KeyText m.key.toList)
    (hkey : m.key.toList ∉ memberKeys us) (htext : m.key.toList ∉ memberTexts us) :
    ∃ A, jsonDump (us ++ m :: vs) = A ++ membersText (m :: vs) ∧
      find (jsonDump (us ++ m :: vs)) (quoted m.key) 0 = A.length := by
  obtain ⟨pre, heq, hpre⟩ := dumpPieces_append hw us (m :: vs) hkey htext
  obtain ⟨v, rest, hrest⟩ : ∃ v rest, dumpPieces (m :: vs) = m.key.toList :: v :: rest := by
    unfold dumpPieces memberPieces
    cases m.value with
    | int n => exact ⟨_, _, rfl⟩
    | text s => exact ⟨_, _, rfl⟩
  have hdump : jsonDump (us ++ m :: vs) =
      joinQuotes '"' "\x7b\n  ".toList (pre ++ m.key.toList :: v :: rest) := by
    have hcons : ∃ x xs, us ++ m :: vs = x :: xs := by
      cases us with
      | nil => exact ⟨_, _, rfl⟩
      | cons x xs => exact ⟨_, _, rfl⟩
    obtain ⟨x, xs, hx⟩ := hcons
    rw [← hrest, ← heq, hx, jsonDump_cons]
  have htail : membersText (m :: vs) = '"' :: joinQuotes '"' m.key.toList (v :: rest) := by
    rw [← List.nil_append (membersText _), membersText_pieces, hrest]
    rfl
  refine ⟨joinQuotes '"' "\x7b\n  ".toList pre, ?_, ?_⟩
  · rw [hdump, joinQuotes_append, htail]
  · have hfind := search_quoted (plain_quote m.plain) (t := "\x7b\n  ".toList) (by decide) hpre v rest
    unfold find
    rw [List.drop_zero, hdump]
    simp only [quoted, hfind, Option.map_some, Option.getD_some, Nat.zero_add]

theorem find_noKey {key : String} (hw : KeyText key.toList) (hkey : key.toList ∉ memberKeys ms)
    (htext : key.toList ∉ memberTexts ms) : find (jsonDump ms) (quoted key) 0 = npos := by
  apply find_none
  cases ms with
  | nil => exact search_eq_none (by decide)
  | cons m ms =>
    obtain ⟨pre, heq, hpre⟩ := dumpPieces_append hw (m :: ms) [] hkey htext
    rw [List.append_nil] at heq
    rw [jsonDump_cons, heq, dumpPieces, List.append_nil]
    exact search_quoted_none (fun h => hw _ h (by simp)) (by decide) hpre

end Found

end SslaRt
