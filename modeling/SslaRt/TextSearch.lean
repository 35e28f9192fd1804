import Mathlib.Data.List.Basic
import Mathlib.Data.List.DropRight
import Mathlib.Data.Nat.Digits.Defs

/-! Texts as lists of characters: the first place of a pattern, the part between
two places, pieces at a separator, blanks at the ends, and decimal numbers. -/

namespace TextSearch

section Search

variable {α : Type*} [DecidableEq α]

/-- The first place at which the text goes on with the pattern. -/
def search (pat : List α) : List α → Option Nat
  | [] => if pat = [] then some 0 else none
  | c :: s => if pat <+: c :: s then some 0 else (search pat s).map (· + 1)

theorem search_prefix {pat s : List α} (h : pat <+: s) : search pat s = some 0 := by
  cases s with
  | nil => simp [search, List.prefix_nil.mp h]
  | cons c s => simp [search, h]

theorem search_skip {pat a b : List α} (h : ∀ i < a.length, ¬ pat <+: (a ++ b).drop i) :
    search pat (a ++ b) = (search pat b).map (· + a.length) := by
  induction a with
  | nil => simp
  | cons c a ih =>
    have hhere : ¬ pat <+: c :: (a ++ b) := h 0 (by simp)
    have hrest : ∀ i < a.length, ¬ pat <+: (a ++ b).drop i := by
      intro i hi
      exact h (i + 1) (by simpa using hi)
    rw [List.cons_append, search, if_neg hhere, ih hrest, Option.map_map]
    simp [Function.comp_def, Nat.add_assoc]

omit [DecidableEq α] in
theorem prefix_cons_drop {p : α} {pat s : List α} {i : Nat} (h : p :: pat <+: s.drop i) :
    s[i]? = some p := by
  obtain ⟨t, ht⟩ := h
  have hget : (s.drop i)[0]? = some p := by simp [← ht]
  simpa using hget

/-- A pattern does not begin where its first character is not. -/
theorem search_skip_of_notMem {p : α} {pat a b : List α} (h : p ∉ a) :
    search (p :: pat) (a ++ b) = (search (p :: pat) b).map (· + a.length) := by
  apply search_skip
  intro i hi hpre
  have hget := prefix_cons_drop hpre
  rw [List.getElem?_append_left hi] at hget
  exact h (List.mem_of_getElem? hget)

theorem search_eq_none {p : α} {pat s : List α} (h : p ∉ s) : search (p :: pat) s = none := by
  have hh : search (p :: pat) (s ++ []) = _ := search_skip_of_notMem h
  simpa [search] using hh

theorem search_first {p : α} {a b : List α} (h : p ∉ a) : search [p] (a ++ p :: b) = some a.length := by
  rw [search_skip_of_notMem h, search_prefix (by simp)]
  simp

omit [DecidableEq α] in
/-- Words between quotes agree with other words between quotes only as a whole. -/
theorem token_unique {q : α} {w d r s : List α} (hw : q ∉ w) (hd : q ∉ d) :
    w ++ q :: r <+: d ++ q :: s ↔ w = d ∧ r <+: s := by
  induction w generalizing d with
  | nil =>
    cases d with
    | nil => simp
    | cons x d =>
      rw [List.mem_cons, not_or] at hd
      simp [hd.1]
  | cons y w ih =>
    rw [List.mem_cons, not_or] at hw
    cases d with
    | nil => simp [Ne.symm hw.1]
    | cons x d =>
      rw [List.mem_cons, not_or] at hd
      simp [List.cons_prefix_cons, ih hw.2 hd.2, and_assoc]

theorem search_token {q : α} {w d r s : List α} (hw : q ∉ w) (hd : q ∉ d) (hne : ¬ (w = d ∧ r <+: s)) :
    search (q :: (w ++ q :: r)) (q :: (d ++ q :: s)) =
      (search (q :: (w ++ q :: r)) (q :: s)).map (· + (d.length + 1)) := by
  have hhere : ¬ q :: (w ++ q :: r) <+: q :: (d ++ q :: s) := by
    rw [List.cons_prefix_cons, token_unique hw hd]
    simpa using hne
  rw [search, if_neg hhere, search_skip_of_notMem hd, Option.map_map]
  rfl

/-- Pieces with a quote between any two of them. -/
def joinQuotes (q : α) : List α → List (List α) → List α
  | t, [] => t
  | t, u :: us => t ++ q :: joinQuotes q u us

omit [DecidableEq α] in
theorem joinQuotes_append (q : α) (t : List α) (us : List (List α)) (v : List α) (vs : List (List α)) :
    joinQuotes q t (us ++ v :: vs) = joinQuotes q t us ++ q :: joinQuotes q v vs := by
  induction us generalizing t with
  | nil => rfl
  | cons u us ih => simp [joinQuotes, ih]

/-- A word between quotes is found at the first piece that it is. -/
theorem search_quoted {q : α} {w t : List α} {us : List (List α)} (hw : q ∉ w) (ht : q ∉ t)
    (hus : ∀ u ∈ us, q ∉ u ∧ u ≠ w) (v : List α) (vs : List (List α)) :
    search (q :: (w ++ [q])) (joinQuotes q t (us ++ w :: v :: vs)) = some (joinQuotes q t us).length := by
  induction us generalizing t with
  | nil =>
    simp only [List.nil_append, joinQuotes]
    rw [search_skip_of_notMem ht, search_prefix (by simp)]
    simp
  | cons u us ih =>
    obtain ⟨hu, hne⟩ := hus u List.mem_cons_self
    have hrest := ih (t := []) List.not_mem_nil fun x hx => hus x (List.mem_cons_of_mem u hx)
    -- behind the quote that ends `u` the search goes on
    have hsplit : ∀ ws : List (List α), ws ≠ [] → joinQuotes q u ws = u ++ joinQuotes q [] ws := by
      intro ws hws
      cases ws with
      | nil => exact absurd rfl hws
      | cons x xs => rfl
    have hquote : ∃ rest, joinQuotes q [] (us ++ w :: v :: vs) = q :: rest := by
      cases us with
      | nil => exact ⟨_, rfl⟩
      | cons x xs => exact ⟨_, rfl⟩
    obtain ⟨rest, hq⟩ := hquote
    rw [List.cons_append, joinQuotes, search_skip_of_notMem ht, hsplit _ (by simp), hq,
      search_token hw hu fun h => hne h.1.symm, ← hq, hrest]
    cases us with
    | nil =>
      simp [joinQuotes]
      omega
    | cons x xs =>
      simp [joinQuotes]
      omega

theorem search_quoted_none {q : α} {w t : List α} {us : List (List α)} (hw : q ∉ w) (ht : q ∉ t)
    (hus : ∀ u ∈ us, q ∉ u ∧ u ≠ w) : search (q :: (w ++ [q])) (joinQuotes q t us) = none := by
  induction us generalizing t with
  | nil => exact search_eq_none ht
  | cons u us ih =>
    obtain ⟨hu, hne⟩ := hus u List.mem_cons_self
    have hrest := ih (t := []) List.not_mem_nil fun x hx => hus x (List.mem_cons_of_mem u hx)
    rw [joinQuotes, search_skip_of_notMem ht, Option.map_eq_none_iff]
    cases us with
    | nil =>
      -- behind the last quote there is no second one
      have hhere : ¬ q :: (w ++ [q]) <+: q :: u := by
        intro hpre
        rw [List.cons_prefix_cons] at hpre
        exact hu (hpre.2.subset (by simp))
      rw [joinQuotes, search, if_neg hhere, search_eq_none hu]
      rfl
    | cons x xs =>
      rw [joinQuotes, search_token hw hu fun h => hne h.1.symm, Option.map_eq_none_iff]
      exact hrest

theorem search_isSome {pat a b : List α} : ∃ i ≤ a.length, search pat (a ++ (pat ++ b)) = some i := by
  induction a with
  | nil => exact ⟨0, le_rfl, search_prefix (List.prefix_append _ _)⟩
  | cons c a ih =>
    obtain ⟨i, hi, hs⟩ := ih
    by_cases hpre : pat <+: c :: (a ++ (pat ++ b))
    · exact ⟨0, Nat.zero_le _, search_prefix hpre⟩
    · refine ⟨i + 1, by simpa using hi, ?_⟩
      rw [List.cons_append, search, if_neg hpre, hs]
      rfl

end Search

section Pieces

variable {α : Type*} [DecidableEq α]

/-- The pieces between separators; a last piece without characters is none. -/
def pieces (sep : α) : List α → List α → List (List α)
  | cur, [] => if cur = [] then [] else [cur]
  | cur, c :: s => if c = sep then cur :: pieces sep [] s else pieces sep (cur ++ [c]) s

theorem pieces_skip {sep : α} {a : List α} (h : sep ∉ a) (cur s : List α) :
    pieces sep cur (a ++ s) = pieces sep (cur ++ a) s := by
  induction a generalizing cur with
  | nil => simp
  | cons c a ih =>
    rw [List.mem_cons, not_or] at h
    rw [List.cons_append, pieces, if_neg fun hc => h.1 hc.symm, ih h.2]
    simp

theorem pieces_sep {sep : α} {a : List α} (h : sep ∉ a) (s : List α) :
    pieces sep [] (a ++ sep :: s) = a :: pieces sep [] s := by
  rw [pieces_skip h, pieces, if_pos rfl, List.nil_append]

end Pieces

section Trim

variable {α : Type*} (p : α → Bool)

def trimBy (s : List α) : List α := (s.dropWhile p).rdropWhile p

variable {p}

theorem trimBy_blank {a s : List α} (ha : ∀ c ∈ a, p c = true) : trimBy p (a ++ s) = trimBy p s := by
  unfold trimBy
  rw [List.dropWhile_append_of_pos ha]

theorem trimBy_self {s : List α} (hs : ∀ c ∈ s, p c = false) : trimBy p s = s := by
  have hdrop : s.dropWhile p = s := by
    cases s with
    | nil => rfl
    | cons c s => simp [hs c List.mem_cons_self]
  unfold trimBy
  rw [hdrop]
  cases s using List.reverseRecOn with
  | nil => rfl
  | append_singleton s c => simp [hs c (by simp)]

end Trim

section Decimal

/-- The value of digits, the first one the highest. -/
def digitsValue (cs : List Char) : Nat := cs.foldl (fun n c => 10 * n + (c.toNat - 48)) 0

def decimal (n : Nat) : List Char := Nat.toDigits 10 n

theorem digitsValue_append (cs : List Char) (c : Char) :
    digitsValue (cs ++ [c]) = 10 * digitsValue cs + (c.toNat - 48) := by
  simp [digitsValue]

theorem digitChar_value : ∀ d < 10, (Nat.digitChar d).toNat - 48 = d := by decide

theorem digitsValue_decimal (n : Nat) : digitsValue (decimal n) = n := by
  induction n using Nat.strong_induction_on with
  | _ n ih =>
    unfold decimal at *
    by_cases h : n < 10
    · rw [Nat.toDigits_of_lt_base h]
      simp [digitsValue, digitChar_value n h]
    · rw [Nat.toDigits_of_base_le (by decide) (by omega), digitsValue_append, ih _ (by omega),
        digitChar_value _ (by omega)]
      omega

theorem isDigit_of_mem_decimal {n : Nat} {c : Char} (h : c ∈ decimal n) : c.isDigit = true :=
  Nat.isDigit_of_mem_toDigits (by decide) (by decide) h

theorem decimal_ne_nil (n : Nat) : decimal n ≠ [] := by
  unfold decimal
  by_cases h : n < 10
  · simp [Nat.toDigits_of_lt_base h]
  · simp [Nat.toDigits_of_base_le (b := 10) (by decide) (by omega : 10 ≤ n)]

theorem takeWhile_decimal (n : Nat) {s : List Char} (hs : s.head?.all fun c => !c.isDigit) :
    (decimal n ++ s).takeWhile Char.isDigit = decimal n := by
  rw [List.takeWhile_append_of_pos fun c hc => isDigit_of_mem_decimal hc]
  cases s with
  | nil => simp
  | cons c s =>
    simp at hs
    simp [hs]

end Decimal

end TextSearch
