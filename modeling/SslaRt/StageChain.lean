import Mathlib.Data.List.Perm.Basic
import Mathlib.Logic.Function.Basic
import Mathlib.Logic.Relation

/-! Threads in a chain, each with a bounded queue before it and a shared state.
The messages of the sender are work, which a stage turns into at most one
message for the next stage, and markers, which every stage hands on. -/

namespace StageChain

inductive Msg (α : Type*)
  | work (seq : Nat) (m : α)
  | marker (seq : Nat)
  | eof

/-- A thread between two accesses of what it shares with the others. -/
inductive Thread (α β γ : Type*)
  | idle
  | missed
  | taken (seq : Nat) (m : α)
  | halfway (seq : Nat) (m : α) (b : β)
  | pushing (out : Msg γ)
  | storing (seq : Nat)
  | stopped

/-- Stage `i` handles work in two accesses of the shared state. -/
structure Chain (σ : Type*) (M B : Nat → Type*) where
  last : Nat
  forward : (i : Nat) → σ → M i → σ × B i
  finish : (i : Nat) → σ → M i → B i → σ × Option (M (i + 1))
  finish_last : ∀ s m b, (finish last s m b).2 = none

structure State (σ : Type*) (M B : Nat → Type*) where
  shared : σ
  queue : (i : Nat) → List (Msg (M i))
  thread : (i : Nat) → Thread (M i) (B i) (M (i + 1))
  marker_done : Nat → Nat
  /-- Work that ended at stage `i`. -/
  ended : Nat → List Nat
  /-- Everything the sender has pushed. -/
  sent : List (Msg (M 0))
  done : Bool

variable {σ : Type*} {M B : Nat → Type*}

def isWork {α : Type*} : Msg α → Bool
  | .work _ _ => true
  | _ => false

def NoWork {α : Type*} (l : List (Msg α)) : Prop := ∀ m ∈ l, isWork m = false

def State.init (shared : σ) : State σ M B where
  shared := shared
  queue := fun _ => []
  thread := fun _ => .idle
  marker_done := fun _ => 0
  ended := fun _ => []
  sent := []
  done := false

/-- The sender numbers its work; a marker carries the number of the work before it. -/
def Sendable (sent : List (Msg (M 0))) : Msg (M 0) → Prop
  | .work seq _ => .eof ∉ sent ∧ seq = sent.countP isWork
  | .marker seq => .eof ∉ sent ∧ seq = sent.countP isWork
  | .eof => .eof ∉ sent

namespace Chain

variable (C : Chain σ M B)

/-- What a thread does next with the message it has popped. -/
def takes (i : Nat) : Msg (M i) → Thread (M i) (B i) (M (i + 1))
  | .work seq m => .taken seq m
  | .marker seq => if i = C.last then .storing seq else .pushing (.marker seq)
  | .eof => if i = C.last then .stopped else .pushing .eof

/-- What it does after it has handed a message on. -/
def handedOn {i : Nat} : Msg (M (i + 1)) → Thread (M i) (B i) (M (i + 1))
  | .work _ _ => .idle
  | .marker seq => .storing seq
  | .eof => .stopped

inductive Step (capacity : Nat) (s : State σ M B) : State σ M B → Prop
  | send (m : Msg (M 0)) (hroom : (s.queue 0).length < capacity) (hm : Sendable s.sent m) :
      Step capacity s
        { s with queue := Function.update s.queue 0 (s.queue 0 ++ [m]), sent := s.sent ++ [m] }
  | setDone (h : .eof ∈ s.sent) : Step capacity s { s with done := true }
  | miss (i : Nat) (hi : i ≤ C.last) (hidle : s.thread i = .idle) (hq : s.queue i = []) :
      Step capacity s { s with thread := Function.update s.thread i .missed }
  | retry (i : Nat) (ht : s.thread i = .missed) (hd : i = 0 → s.done = false) :
      Step capacity s { s with thread := Function.update s.thread i .idle }
  | giveUp (ht : s.thread 0 = .missed) (hd : s.done = true) :
      Step capacity s { s with thread := Function.update s.thread 0 .stopped }
  | pop (i : Nat) (hi : i ≤ C.last) (m : Msg (M i)) (q : List (Msg (M i)))
      (hidle : s.thread i = .idle) (hq : s.queue i = m :: q) : Step capacity s
        { s with
          queue := Function.update s.queue i q
          thread := Function.update s.thread i (C.takes i m) }
  | forward (i seq : Nat) (m : M i) (ht : s.thread i = .taken seq m) : Step capacity s
      { s with
        shared := (C.forward i s.shared m).1
        thread := Function.update s.thread i (.halfway seq m (C.forward i s.shared m).2) }
  | finishEnd (i seq : Nat) (m : M i) (b : B i) (ht : s.thread i = .halfway seq m b)
      (hout : (C.finish i s.shared m b).2 = none) : Step capacity s
        { s with
          shared := (C.finish i s.shared m b).1
          thread := Function.update s.thread i .idle
          ended := Function.update s.ended i (s.ended i ++ [seq]) }
  | finishOn (i seq : Nat) (m : M i) (b : B i) (out : M (i + 1)) (ht : s.thread i = .halfway seq m b)
      (hout : (C.finish i s.shared m b).2 = some out) : Step capacity s
        { s with
          shared := (C.finish i s.shared m b).1
          thread := Function.update s.thread i (.pushing (.work seq out)) }
  | push (i : Nat) (out : Msg (M (i + 1))) (ht : s.thread i = .pushing out)
      (hroom : (s.queue (i + 1)).length < capacity) : Step capacity s
        { s with
          queue := Function.update s.queue (i + 1) (s.queue (i + 1) ++ [out])
          thread := Function.update s.thread i (handedOn out) }
  | store (i seq : Nat) (ht : s.thread i = .storing seq) : Step capacity s
      { s with
        marker_done := Function.update s.marker_done i seq
        thread := Function.update s.thread i .idle }

def Reachable (capacity : Nat) (s₀ : σ) (s : State σ M B) : Prop :=
  Relation.ReflTransGen (C.Step capacity) (.init s₀) s

/-! ### One stage alone -/

section Stage

def work (i : Nat) (s : σ) (m : M i) : σ × Option (M (i + 1)) :=
  let r := C.forward i s m
  C.finish i r.1 m r.2

variable (i : Nat)

def after : σ → List (Msg (M i)) → σ
  | s, [] => s
  | s, .work _ m :: l => after (C.work i s m).1 l
  | s, _ :: l => after s l

/-- What the stage hands on. -/
def emit : σ → List (Msg (M i)) → List (Msg (M (i + 1)))
  | _, [] => []
  | s, .work seq m :: l => match (C.work i s m).2 with
    | none => emit (C.work i s m).1 l
    | some out => .work seq out :: emit (C.work i s m).1 l
  | s, .marker seq :: l => .marker seq :: emit s l
  | s, .eof :: l => .eof :: emit s l

/-- The work that ends at the stage. -/
def ends : σ → List (Msg (M i)) → List Nat
  | _, [] => []
  | s, .work seq m :: l => match (C.work i s m).2 with
    | none => seq :: ends (C.work i s m).1 l
    | some _ => ends (C.work i s m).1 l
  | s, _ :: l => ends s l

variable {i} (s : σ) (l l' : List (Msg (M i)))

theorem after_append : C.after i s (l ++ l') = C.after i (C.after i s l) l' := by
  induction l generalizing s with
  | nil => rfl
  | cons m l ih =>
    cases m with
    | work seq m => exact ih _
    | marker seq => exact ih _
    | eof => exact ih _

theorem emit_append : C.emit i s (l ++ l') = C.emit i s l ++ C.emit i (C.after i s l) l' := by
  induction l generalizing s with
  | nil => rfl
  | cons m l ih =>
    cases m with
    | work seq m =>
      simp only [List.cons_append, emit, after]
      split
      · exact ih _
      · rw [ih, List.cons_append]
    | marker seq => exact congrArg _ (ih s)
    | eof => exact congrArg _ (ih s)

theorem ends_append : C.ends i s (l ++ l') = C.ends i s l ++ C.ends i (C.after i s l) l' := by
  induction l generalizing s with
  | nil => rfl
  | cons m l ih =>
    cases m with
    | work seq m =>
      simp only [List.cons_append, ends, after]
      split
      · rw [ih, List.cons_append]
      · exact ih _
    | marker seq => exact ih s
    | eof => exact ih s

theorem marker_mem_emit {k : Nat} : .marker k ∈ C.emit i s l ↔ .marker k ∈ l := by
  induction l generalizing s with
  | nil => simp [emit]
  | cons m l ih =>
    cases m with
    | work seq m =>
      simp only [emit]
      split
      · rw [ih]
        simp
      · simp [ih]
    | marker seq => simp [emit, ih]
    | eof => simp [emit, ih]

variable {l}

theorem after_noWork (h : NoWork l) : C.after i s l = s := by
  induction l with
  | nil => rfl
  | cons m l ih =>
    have hl := ih fun x hx => h x (List.mem_cons_of_mem _ hx)
    cases m with
    | work seq m => exact absurd (h _ List.mem_cons_self) (by simp [isWork])
    | marker seq => exact hl
    | eof => exact hl

theorem ends_noWork (h : NoWork l) : C.ends i s l = [] := by
  induction l with
  | nil => rfl
  | cons m l ih =>
    have hl := ih fun x hx => h x (List.mem_cons_of_mem _ hx)
    cases m with
    | work seq m => exact absurd (h _ List.mem_cons_self) (by simp [isWork])
    | marker seq => exact hl
    | eof => exact hl

theorem emit_noWork (h : NoWork l) : NoWork (C.emit i s l) := by
  induction l with
  | nil => exact fun m hm => absurd hm List.not_mem_nil
  | cons m l ih =>
    have hl := ih fun x hx => h x (List.mem_cons_of_mem _ hx)
    cases m with
    | work seq m => exact absurd (h _ List.mem_cons_self) (by simp [isWork])
    | marker seq => exact List.forall_mem_cons.mpr ⟨rfl, hl⟩
    | eof => exact List.forall_mem_cons.mpr ⟨rfl, hl⟩

end Stage

/-- The input of stage `i` when everything before it has been handled. -/
def input (s₀ : σ) (sent : List (Msg (M 0))) : (i : Nat) → List (Msg (M i))
  | 0 => sent
  | i + 1 => C.emit i s₀ (input s₀ sent i)

/-- One message through the stages from `i` on, with nothing else under way. -/
def through : Nat → (i : Nat) → σ → M i → σ
  | 0, _, s, _ => s
  | k + 1, i, s, m => match (C.work i s m).2 with
    | none => (C.work i s m).1
    | some out => through k (i + 1) (C.work i s m).1 out

variable {C} in
theorem through_ended {k i : Nat} {s u : σ} {m : M i} (h : C.work i s m = (u, none)) :
    C.through (k + 1) i s m = u := by
  rw [through, h]

variable {C} in
theorem through_handed {k i : Nat} {s u : σ} {m : M i} {out : M (i + 1)}
    (h : C.work i s m = (u, some out)) : C.through (k + 1) i s m = C.through k (i + 1) u out := by
  rw [through, h]

theorem through_keeps {Q : σ → Prop} (hwork : ∀ i s (m : M i), Q s → Q (C.work i s m).1) (k i : Nat)
    (s : σ) (m : M i) (hs : Q s) : Q (C.through k i s m) := by
  induction k generalizing i s with
  | zero => exact hs
  | succ k ih =>
    have hnext := hwork i s m hs
    unfold through
    cases (C.work i s m).2 with
    | none => exact hnext
    | some out => exact ih (i + 1) _ out hnext

/-- The work of the sender one by one. -/
def sequential (s : σ) : List (Msg (M 0)) → σ
  | [] => s
  | .work _ m :: l => sequential (C.through (C.last + 1) 0 s m) l
  | _ :: l => sequential s l

/-- Each stage has a part of the shared state: its accesses depend on this part
only and keep the parts of the others. -/
structure Local (Part : Nat → σ → σ → Prop) : Prop where
  refl : ∀ i s, Part i s s
  symm : ∀ i s t, Part i s t → Part i t s
  trans : ∀ i s t u, Part i s t → Part i t u → Part i s u
  forward_own : ∀ i s t m, Part i s t → (C.forward i s m).2 = (C.forward i t m).2 ∧
    Part i (C.forward i s m).1 (C.forward i t m).1
  forward_other : ∀ i j s m, j ≠ i → Part j s (C.forward i s m).1
  finish_own : ∀ i s t m b, Part i s t → (C.finish i s m b).2 = (C.finish i t m b).2 ∧
    Part i (C.finish i s m b).1 (C.finish i t m b).1
  finish_other : ∀ i j s m b, j ≠ i → Part j s (C.finish i s m b).1

end Chain

end StageChain
