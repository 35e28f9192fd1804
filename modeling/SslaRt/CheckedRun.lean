import Mathlib.Data.List.Basic
import Mathlib.Tactic.Ring

/-! Code that may throw and that indexes arrays without a check: the result of
a run, and whether every access so far was inside its array. -/

namespace CheckedRun

universe u

structure Checked (α : Type u) where
  result : Except String α
  in_range : Bool

namespace Checked

variable {α β : Type u}

def throw (msg : String) : Checked α := ⟨.error msg, true⟩

def access (b : Bool) : Checked PUnit := ⟨.ok ⟨⟩, b⟩

def bind (x : Checked α) (f : α → Checked β) : Checked β :=
  match x.result with
  | .error e => ⟨.error e, x.in_range⟩
  | .ok a => ⟨(f a).result, x.in_range && (f a).in_range⟩

instance : Monad Checked where
  pure a := ⟨.ok a, true⟩
  bind := bind

def Returns (x : Checked α) (a : α) : Prop := x.result = .ok a

def Safe (x : Checked α) : Prop := x.in_range = true

theorem bind_of_returns {x : Checked α} {a : α} (f : α → Checked β) (hx : x.Returns a) :
    x >>= f = ⟨(f a).result, x.in_range && (f a).in_range⟩ := by
  change bind x f = _
  unfold bind
  rw [show x.result = .ok a from hx]

theorem bind_bind {γ : Type u} (x : Checked α) (f : α → Checked β) (g : β → Checked γ) :
    (x >>= f >>= g) = x >>= fun a => f a >>= g := by
  change bind (bind x f) g = bind x fun a => bind (f a) g
  unfold bind
  cases x.result with
  | error e => rfl
  | ok a => cases hf : (f a).result <;> simp [hf, Bool.and_assoc]

theorem bind_pure (x : Checked α) : (x >>= pure) = x := by
  change bind x pure = x
  unfold bind
  obtain ⟨result, in_range⟩ := x
  cases result with
  | error e => rfl
  | ok a => exact congrArg (mk _) (Bool.and_true in_range)

theorem returns_unique {x : Checked α} {a b : α} (ha : x.Returns a) (hb : x.Returns b) : a = b :=
  Except.ok.inj (ha.symm.trans hb)

theorem returns_bind {x : Checked α} {f : α → Checked β} {b : β} :
    (x >>= f).Returns b ↔ ∃ a, x.Returns a ∧ (f a).Returns b := by
  constructor
  · intro h
    cases hx : x.result with
    | error e =>
      change (bind x f).result = _ at h
      unfold bind at h
      rw [hx] at h
      exact absurd h (by simp)
    | ok a =>
      refine ⟨a, hx, ?_⟩
      rw [bind_of_returns f hx] at h
      exact h
  · rintro ⟨a, hx, hf⟩
    rw [bind_of_returns f hx]
    exact hf

theorem exists_returns_bind {x : Checked α} {a : α} {f : α → Checked β} (hx : x.Returns a)
    (hf : ∃ b, (f a).Returns b) : ∃ b, (x >>= f).Returns b :=
  hf.imp fun _ hb => returns_bind.mpr ⟨a, hx, hb⟩

theorem safe_bind_iff {x : Checked α} {a : α} {f : α → Checked β} (hx : x.Returns a) :
    (x >>= f).Safe ↔ x.Safe ∧ (f a).Safe := by
  rw [bind_of_returns f hx]
  exact Bool.and_eq_true_iff

theorem safe_bind {x : Checked α} {a : α} {f : α → Checked β} (hx : x.Returns a) (hr : x.Safe)
    (hf : (f a).Safe) : (x >>= f).Safe := (safe_bind_iff hx).mpr ⟨hr, hf⟩

theorem safe_bind_all {x : Checked α} {f : α → Checked β} (hr : x.Safe) (hf : ∀ a, (f a).Safe) :
    (x >>= f).Safe := by
  change (bind x f).in_range = true
  unfold bind
  split
  · exact hr
  · next a _ => exact Bool.and_eq_true_iff.mpr ⟨hr, hf a⟩

theorem returns_pure {a b : α} : (pure a : Checked α).Returns b ↔ a = b :=
  ⟨Except.ok.inj, fun h => congrArg _ h⟩

theorem ok_bind (a : α) (f : α → Checked β) : (pure a >>= f) = f a := rfl

theorem safe_pure (a : α) : (pure a : Checked α).Safe := rfl

theorem safe_access_pure {c : Prop} [Decidable c] (hc : c) (a : α) :
    (access (decide c) >>= fun _ => pure a).Safe :=
  safe_bind_all (decide_eq_true hc) fun _ => safe_pure a

def throwIf (c : Prop) [Decidable c] (msg : String) : Checked PUnit :=
  if c then throw msg else pure ⟨⟩

theorem throwIf_neg {c : Prop} [Decidable c] {msg : String} (h : ¬ c) : throwIf c msg = pure ⟨⟩ := if_neg h

theorem throwIf_pos {c : Prop} [Decidable c] {msg : String} (h : c) : throwIf c msg = throw msg := if_pos h

theorem throw_bind (msg : String) (f : α → Checked β) : (throw msg >>= f) = throw msg := rfl

theorem access_bind {c : Prop} [Decidable c] (h : c) (f : PUnit → Checked β) :
    (access (decide c) >>= f) = f ⟨⟩ := by
  rw [decide_eq_true h]
  rfl

theorem safe_access_bind {c : Prop} [Decidable c] {f : PUnit → Checked β} :
    (access (decide c) >>= f).Safe ↔ c ∧ (f ⟨⟩).Safe := by
  change (decide c && (f ⟨⟩).in_range) = true ↔ _
  rw [Bool.and_eq_true, decide_eq_true_iff]
  exact Iff.rfl

/-- An integer division: by zero it does not return. -/
def divisor (d : Nat) : Checked PUnit := if d = 0 then ⟨.error "division by zero", false⟩ else pure ⟨⟩

theorem divisor_pos {d : Nat} (h : 0 < d) : divisor d = pure ⟨⟩ := if_neg h.ne'

theorem returns_divisor {d : Nat} {u : PUnit} : (divisor d).Returns u ↔ 0 < d := by
  unfold divisor Returns
  split
  · next h => simp [h]
  · next h => exact ⟨fun _ => Nat.pos_of_ne_zero h, fun _ => rfl⟩

theorem returns_throwIf {c : Prop} [Decidable c] {msg : String} {u : PUnit} :
    (throwIf c msg).Returns u ↔ ¬ c := by
  unfold throwIf Returns
  by_cases hc : c
  · rw [if_pos hc]
    exact ⟨fun h => absurd h (by simp [throw]), fun h => absurd hc h⟩
  · rw [if_neg hc]
    exact ⟨fun _ => hc, fun _ => rfl⟩

theorem safe_throwIf {c : Prop} [Decidable c] {msg : String} : (throwIf c msg).Safe := by
  unfold throwIf
  split <;> rfl

section Fold

variable {ι : Type*} {f : β → ι → Checked β} {l : List ι}

theorem foldlM_returns (h : ∀ b, ∀ a ∈ l, ∃ b', (f b a).Returns b') (b : β) :
    ∃ b', (l.foldlM f b).Returns b' := by
  induction l generalizing b with
  | nil => exact ⟨b, rfl⟩
  | cons a l ih =>
    obtain ⟨b₁, hb₁⟩ := h b a List.mem_cons_self
    obtain ⟨b', hb'⟩ := ih (fun b a ha => h b a (List.mem_cons_of_mem _ ha)) b₁
    exact ⟨b', returns_bind.mpr ⟨b₁, hb₁, hb'⟩⟩

theorem foldlM_safe (h : ∀ b, ∀ a ∈ l, (f b a).Safe) (b : β) : (l.foldlM f b).Safe := by
  induction l generalizing b with
  | nil => rfl
  | cons a l ih =>
    have hl := ih fun b a ha => h b a (List.mem_cons_of_mem _ ha)
    exact safe_bind_all (h b a List.mem_cons_self) hl

theorem foldlM_returns_inv {I : β → Prop} (h : ∀ b, I b → ∀ a ∈ l, ∃ b', (f b a).Returns b' ∧ I b') {b : β}
    (hb : I b) : ∃ b', (l.foldlM f b).Returns b' ∧ I b' := by
  induction l generalizing b with
  | nil => exact ⟨b, rfl, hb⟩
  | cons a l ih =>
    obtain ⟨b₁, hb₁, hI⟩ := h b hb a List.mem_cons_self
    obtain ⟨b', hb', hI'⟩ := ih (fun b hb a ha => h b hb a (List.mem_cons_of_mem _ ha)) hI
    exact ⟨b', returns_bind.mpr ⟨b₁, hb₁, hb'⟩, hI'⟩

/-- A run that returns is safe exactly if each of its steps is. -/
theorem foldlM_safe_iff {I : β → Prop} {p : ι → Prop}
    (h : ∀ b, I b → ∀ a ∈ l, ((f b a).Safe ↔ p a) ∧ ∃ b', (f b a).Returns b' ∧ I b') {b : β} (hb : I b) :
    (l.foldlM f b).Safe ↔ ∀ a ∈ l, p a := by
  induction l generalizing b with
  | nil => exact ⟨fun _ _ ha => absurd ha List.not_mem_nil, fun _ => rfl⟩
  | cons a l ih =>
    obtain ⟨hsafe, b₁, hb₁, hI⟩ := h b hb a List.mem_cons_self
    rw [List.foldlM_cons, safe_bind_iff hb₁, hsafe, List.forall_mem_cons,
      ih (fun b hb a ha => h b hb a (List.mem_cons_of_mem _ ha)) hI]

theorem foldlM_keeps {I : β → Prop} {b b' : β}
    (hkeep : ∀ b a b', (f b a).Returns b' → I b → I b') (h : (l.foldlM f b).Returns b') (hb : I b) :
    I b' := by
  induction l generalizing b with
  | nil =>
    obtain rfl : b = b' := Except.ok.inj h
    exact hb
  | cons a l ih =>
    obtain ⟨b₁, hb₁, hl⟩ := returns_bind.mp h
    exact ih hl (hkeep b a b₁ hb₁ hb)

/-- What the step of `a` establishes holds in the end if no step destroys it. -/
theorem foldlM_inv {I : ι → β → Prop} {b b' : β}
    (hnew : ∀ b a b', (f b a).Returns b' → I a b')
    (hkeep : ∀ b a b' a', (f b a).Returns b' → I a' b → I a' b')
    (h : (l.foldlM f b).Returns b') : ∀ a, a ∈ l ∨ I a b → I a b' := by
  induction l generalizing b with
  | nil =>
    intro a ha
    obtain rfl : b = b' := Except.ok.inj h
    exact ha.resolve_left List.not_mem_nil
  | cons a l ih =>
    obtain ⟨b₁, hb₁, hl⟩ := returns_bind.mp h
    intro a' ha'
    refine ih hl a' ?_
    obtain ha' | ha' := ha'
    · obtain rfl | ha' := List.mem_cons.mp ha'
      · exact .inr (hnew b a' b₁ hb₁)
      · exact .inl ha'
    · exact .inr (hkeep b a b₁ a' hb₁ ha')

end Fold

end Checked

/-! ### Row-major arrays -/

variable {R : Type u}

def tabulate (rows cols : Nat) (f : Nat → Nat → R) : List R :=
  (List.range rows).flatMap fun i => (List.range cols).map (f i)

@[simp] theorem tabulate_length (rows cols : Nat) (f : Nat → Nat → R) :
    (tabulate rows cols f).length = rows * cols := by
  simp [tabulate]

theorem tabulate_succ (rows cols : Nat) (f : Nat → Nat → R) : tabulate (rows + 1) cols f =
    tabulate rows cols f ++ (List.range cols).map (f rows) := by
  simp [tabulate, List.range_succ]

theorem tabulate_getElem? {rows cols : Nat} (f : Nat → Nat → R) {i j : Nat} (hi : i < rows)
    (hj : j < cols) : (tabulate rows cols f)[i * cols + j]? = some (f i j) := by
  induction rows with
  | zero => omega
  | succ n ih =>
    rw [tabulate_succ]
    by_cases hin : i < n
    · have hlt : i * cols + j < n * cols :=
        calc i * cols + j < (i + 1) * cols := by rw [Nat.succ_mul]; omega
          _ ≤ n * cols := Nat.mul_le_mul_right _ hin
      rw [List.getElem?_append_left (by rw [tabulate_length]; exact hlt)]
      exact ih hin
    · obtain rfl : i = n := by omega
      rw [List.getElem?_append_right (by rw [tabulate_length]; omega), tabulate_length,
        Nat.add_sub_cancel_left]
      simp [hj]

/-- An index computed in signed arithmetic, before it is used. -/
def InRange (buf : List R) (i : Int) : Prop := 0 ≤ i ∧ i < buf.length

instance (buf : List R) (i : Int) : Decidable (InRange buf i) := inferInstanceAs (Decidable (_ ∧ _))

def readAt [Zero R] (buf : List R) (i : Int) : R :=
  if 0 ≤ i then buf.getD i.toNat 0 else 0

theorem readAt_natCast [Zero R] (buf : List R) (i : Nat) : readAt buf i = buf.getD i 0 := by
  simp [readAt]

theorem readAt_tabulate [Zero R] {rows cols : Nat} (f : Nat → Nat → R) {i j : Nat} (hi : i < rows)
    (hj : j < cols) : readAt (tabulate rows cols f) (i * cols + j : Nat) = f i j := by
  rw [readAt_natCast, List.getD_eq_getElem?_getD, tabulate_getElem? f hi hj, Option.getD_some]

theorem inRange_rowMajor {buf : List R} {rows cols i j : Nat} (hlen : buf.length = rows * cols)
    (hi : i < rows) (hj : j < cols) : InRange buf (i * cols + j : Nat) := by
  have hlt : i * cols + j < rows * cols :=
    calc i * cols + j < (i + 1) * cols := by rw [Nat.succ_mul]; omega
      _ ≤ rows * cols := Nat.mul_le_mul_right _ hi
  refine ⟨by omega, ?_⟩
  rw [hlen]
  exact_mod_cast hlt

end CheckedRun
