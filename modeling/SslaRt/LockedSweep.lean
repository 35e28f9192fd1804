import SslaRt.CellMemory
import Mathlib.Algebra.GroupWithZero.Nat
import Mathlib.Logic.Relation

/-! Threads that sweep over a shared memory of cells. Every update of a cell
reads it and writes it under the lock of that cell, in separate steps, and the
steps of the threads interleave in any way. -/

namespace LockedSweep

open CellMemory

/-- The calls of the threads. A call updates the cells of its patch in order,
adds up the contributions and makes its output of the sum. -/
structure Program (ι δ S A C O : Type*) where
  patch : C → List (ι × δ)
  update : C → δ → S → S × A
  finish : C → A → O
  nodup : ∀ call, (cells (patch call)).Nodup

/-- Where a call is with the first cell of the patch that is left. -/
inductive Phase (S A : Type*)
  | idle
  | locked
  | read (h : S)
  | written (a : A)

/-- A call on the way, with the part of its patch that is left. -/
structure Frame (ι δ S A C : Type*) where
  call : C
  todo : List (ι × δ)
  acc : A
  phase : Phase S A

structure Thread (ι δ S A C O : Type*) where
  calls : List C
  frame : Option (Frame ι δ S A C)
  outs : List O

structure State (τ ι δ S A C O : Type*) where
  mem : ι → S
  lock : ι → Bool
  threads : τ → Thread ι δ S A C O

variable {τ ι δ S A C O : Type*} [DecidableEq τ] [DecidableEq ι]

def State.setThread (s : State τ ι δ S A C O) (t : τ) (th : Thread ι δ S A C O) :
    State τ ι δ S A C O :=
  { s with threads := Function.update s.threads t th }

/-- A step of one thread. `spin` is a failed `testAndSet`. -/
inductive Step [AddMonoid A] (P : Program ι δ S A C O) :
    State τ ι δ S A C O → State τ ι δ S A C O → Prop
  | start {s t call calls outs} (h : s.threads t = ⟨call :: calls, none, outs⟩) :
      Step P s (s.setThread t ⟨calls, some ⟨call, P.patch call, 0, .idle⟩, outs⟩)
  | testAndSet {s t calls outs call c d todo acc}
      (h : s.threads t = ⟨calls, some ⟨call, (c, d) :: todo, acc, .idle⟩, outs⟩)
      (hfree : s.lock c = false) :
      Step P s { s.setThread t ⟨calls, some ⟨call, (c, d) :: todo, acc, .locked⟩, outs⟩ with
        lock := Function.update s.lock c true }
  | spin {s t calls outs call c d todo acc}
      (h : s.threads t = ⟨calls, some ⟨call, (c, d) :: todo, acc, .idle⟩, outs⟩)
      (htaken : s.lock c = true) : Step P s s
  | readCell {s t calls outs call c d todo acc}
      (h : s.threads t = ⟨calls, some ⟨call, (c, d) :: todo, acc, .locked⟩, outs⟩) :
      Step P s (s.setThread t ⟨calls, some ⟨call, (c, d) :: todo, acc, .read (s.mem c)⟩, outs⟩)
  | writeCell {s t calls outs call c d todo acc h₀}
      (h : s.threads t = ⟨calls, some ⟨call, (c, d) :: todo, acc, .read h₀⟩, outs⟩) :
      Step P s { s.setThread t
          ⟨calls, some ⟨call, (c, d) :: todo, acc, .written (P.update call d h₀).2⟩, outs⟩ with
        mem := Function.update s.mem c (P.update call d h₀).1 }
  | clear {s t calls outs call c d todo acc a}
      (h : s.threads t = ⟨calls, some ⟨call, (c, d) :: todo, acc, .written a⟩, outs⟩) :
      Step P s { s.setThread t ⟨calls, some ⟨call, todo, acc + a, .idle⟩, outs⟩ with
        lock := Function.update s.lock c false }
  | return_ {s t calls outs call acc}
      (h : s.threads t = ⟨calls, some ⟨call, [], acc, .idle⟩, outs⟩) :
      Step P s (s.setThread t ⟨calls, none, outs ++ [P.finish call acc]⟩)

/-- All locks are clear, and every thread is before its first call. -/
def initial (m : ι → S) (calls : τ → List C) : State τ ι δ S A C O :=
  ⟨m, fun _ => false, fun t => ⟨calls t, none, []⟩⟩

def Reaches [AddMonoid A] (P : Program ι δ S A C O) :
    State τ ι δ S A C O → State τ ι δ S A C O → Prop :=
  Relation.ReflTransGen (Step P)

def Finished (s : State τ ι δ S A C O) : Prop := ∀ t, (s.threads t).calls = [] ∧
  (s.threads t).frame = none

/-- What the call does to the cell `c`. -/
def Program.updateAt (P : Program ι δ S A C O) (c : ι) (call : C) (h : S) : S :=
  match (P.patch call).find? fun e => e.1 = c with
  | some e => (P.update call e.2 h).1
  | none => h

/-- Every cell holds the updates of the calls whose patch contains it, one after
another: each once, and those of a thread in its order. -/
def Serialised (P : Program ι δ S A C O) (calls : τ → List C) (m m' : ι → S) : Prop :=
  ∀ c, ∃ l : List (τ × C),
    (∀ t, (l.filter fun e => e.1 = t).map Prod.snd = (calls t).filter fun call => c ∈ cells (P.patch call)) ∧
      m' c = l.foldl (fun h e => P.updateAt c e.2 h) (m c)

/-- The calls one after another, without locks. -/
def runCalls [AddMonoid A] (P : Program ι δ S A C O) : List C → (ι → S) → (ι → S) × List O
  | [], m => (m, [])
  | call :: calls, m =>
    let r := sweep (P.update call) (P.patch call) m 0
    let rest := runCalls P calls r.1
    (rest.1, P.finish call r.2 :: rest.2)

theorem find?_cell {l : List (ι × δ)} (hnd : (cells l).Nodup) {c : ι} {d : δ} (h : (c, d) ∈ l) :
    (l.find? fun e => e.1 = c) = some (c, d) := by
  obtain ⟨e, he⟩ : ∃ e, (l.find? fun e => e.1 = c) = some e :=
    Option.isSome_iff_exists.mp (List.find?_isSome.mpr ⟨(c, d), h, by simp⟩)
  have hmem := List.mem_of_find?_eq_some he
  have hcell : e.1 = c := by simpa using List.find?_some he
  rw [he, List.inj_on_of_nodup_map hnd hmem h hcell]

theorem Program.updateAt_of_mem (P : Program ι δ S A C O) {c : ι} {d : δ} {call : C}
    (h : (c, d) ∈ P.patch call) (x : S) : P.updateAt c call x = (P.update call d x).1 := by
  rw [updateAt, find?_cell (P.nodup call) h]

end LockedSweep
