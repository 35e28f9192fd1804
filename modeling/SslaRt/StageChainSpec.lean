import SslaRt.StageChain
import Mathlib.Data.List.Nodup

/-! What the marker of a chain says: when the last stage has stored it, no work
is left, and every stage has handled the messages of the whole input. -/

namespace StageChain

variable {σ : Type*} {M B : Nat → Type*}

section Messages

variable {α : Type*}

/-- The numbers that a sender gives from `n` on. -/
def Numbered : Nat → List (Msg α) → Prop
  | _, [] => True
  | n, .work seq _ :: l => seq = n ∧ Numbered (n + 1) l
  | n, .marker seq :: l => seq = n ∧ Numbered n l
  | n, .eof :: l => Numbered n l

/-- No work comes after a marker `N`. -/
def Sealed (N : Nat) : List (Msg α) → Prop
  | [] => True
  | .marker seq :: l => (seq = N → NoWork l) ∧ Sealed N l
  | _ :: l => Sealed N l

def seqs : List (Msg α) → List Nat
  | [] => []
  | .work seq _ :: l => seq :: seqs l
  | _ :: l => seqs l

variable {n N : Nat} {l l' : List (Msg α)}

theorem noWork_append : NoWork (l ++ l') ↔ NoWork l ∧ NoWork l' :=
  List.forall_mem_append

theorem noWork_of_countP (h : l.countP isWork = 0) : NoWork l := by
  intro m hm
  have hne := List.countP_eq_zero.mp h m hm
  simpa using hne

theorem countP_work (seq : Nat) (m : α) :
    (.work seq m :: l).countP isWork = l.countP isWork + 1 :=
  List.countP_cons_of_pos rfl

theorem countP_marker (seq : Nat) : (.marker seq :: l).countP isWork = l.countP isWork :=
  List.countP_cons_of_neg Bool.false_ne_true

theorem countP_eof : (.eof :: l).countP isWork = l.countP isWork :=
  List.countP_cons_of_neg Bool.false_ne_true

theorem numbered_append :
    Numbered n (l ++ l') ↔ Numbered n l ∧ Numbered (n + l.countP isWork) l' := by
  induction l generalizing n with
  | nil => simp [Numbered]
  | cons m l ih =>
    cases m with
    | work seq m =>
      have hn : n + 1 + l.countP isWork = n + (l.countP isWork + 1) := by omega
      simp only [List.cons_append, Numbered, ih, countP_work, and_assoc, hn]
    | marker seq => simp only [List.cons_append, Numbered, ih, countP_marker, and_assoc]
    | eof => simp only [List.cons_append, Numbered, ih, countP_eof]

theorem Numbered.sealed (h : Numbered n l) (hN : n + l.countP isWork = N) : Sealed N l := by
  induction l generalizing n with
  | nil => trivial
  | cons m l ih =>
    cases m with
    | work seq m =>
      refine ih h.2 ?_
      rw [← hN, countP_work]
      omega
    | marker seq =>
      rw [countP_marker] at hN
      refine ⟨fun hseq => noWork_of_countP ?_, ih h.2 hN⟩
      have hs := h.1
      omega
    | eof =>
      rw [countP_eof] at hN
      exact ih h hN

theorem Numbered.marker_le {k : Nat} (h : Numbered n l) (hk : .marker k ∈ l) :
    k ≤ n + l.countP isWork := by
  induction l generalizing n with
  | nil => exact absurd hk List.not_mem_nil
  | cons m l ih =>
    cases m with
    | work seq m =>
      have hl := ih h.2 (by simpa using hk)
      rw [countP_work]
      omega
    | marker seq =>
      rw [countP_marker]
      rcases List.mem_cons.mp hk with hk | hk
      · have hs := h.1
        injection hk with hk
        omega
      · exact ih h.2 hk
    | eof =>
      rw [countP_eof]
      exact ih h (by simpa using hk)

theorem Numbered.seqs (h : Numbered n l) : seqs l = List.range' n (l.countP isWork) := by
  induction l generalizing n with
  | nil => rfl
  | cons m l ih =>
    cases m with
    | work seq m =>
      rw [countP_work, List.range'_succ, ← ih h.2, ← h.1]
      rfl
    | marker seq =>
      rw [countP_marker]
      exact ih h.2
    | eof =>
      rw [countP_eof]
      exact ih h

theorem Sealed.left (h : Sealed N (l ++ l')) : Sealed N l := by
  induction l with
  | nil => trivial
  | cons m l ih =>
    cases m with
    | work seq m => exact ih h
    | marker seq => exact ⟨fun hs => (noWork_append.mp (h.1 hs)).1, ih h.2⟩
    | eof => exact ih h

theorem Sealed.right (h : Sealed N (l ++ l')) (hN : .marker N ∈ l) : NoWork l' := by
  induction l with
  | nil => exact absurd hN List.not_mem_nil
  | cons m l ih =>
    cases m with
    | work seq m => exact ih h (by simpa using hN)
    | marker seq =>
      rcases List.mem_cons.mp hN with hN | hN
      · injection hN with hN
        exact (noWork_append.mp (h.1 hN.symm)).2
      · exact ih h.2 hN
    | eof => exact ih h (by simpa using hN)

theorem seqs_noWork (h : NoWork l) : seqs l = [] := by
  induction l with
  | nil => rfl
  | cons m l ih =>
    have hl := ih fun x hx => h x (List.mem_cons_of_mem _ hx)
    cases m with
    | work seq m => exact absurd (h _ List.mem_cons_self) (by simp [isWork])
    | marker seq => exact hl
    | eof => exact hl

end Messages

namespace Chain

variable (C : Chain σ M B)

theorem emit_sealed {N i : Nat} {s : σ} {l : List (Msg (M i))} (h : Sealed N l) :
    Sealed N (C.emit i s l) := by
  induction l generalizing s with
  | nil => trivial
  | cons m l ih =>
    cases m with
    | work seq m =>
      simp only [emit]
      split
      · exact ih h
      · exact ih h
    | marker seq => exact ⟨fun hs => C.emit_noWork s (h.1 hs), ih h.2⟩
    | eof => exact ih h

/-- Work ends at a stage or is handed on. -/
theorem ends_append_seqs_perm (i : Nat) (s : σ) (l : List (Msg (M i))) :
    (C.ends i s l ++ seqs (C.emit i s l)).Perm (seqs l) := by
  induction l generalizing s with
  | nil => exact .refl _
  | cons m l ih =>
    cases m with
    | work seq m =>
      simp only [ends, emit, seqs]
      split
      · exact (ih _).cons seq
      · exact List.perm_middle.trans ((ih _).cons seq)
    | marker seq => exact ih s
    | eof => exact ih s

theorem emit_last_noWork (s : σ) (l : List (Msg (M C.last))) : NoWork (C.emit C.last s l) := by
  induction l generalizing s with
  | nil => exact fun m hm => absurd hm List.not_mem_nil
  | cons m l ih =>
    cases m with
    | work seq m =>
      have hnone : (C.work C.last s m).2 = none := C.finish_last _ _ _
      simp only [emit, hnone]
      exact ih _
    | marker seq => exact List.forall_mem_cons.mpr ⟨rfl, ih s⟩
    | eof => exact List.forall_mem_cons.mpr ⟨rfl, ih s⟩

end Chain

end StageChain
