import Mathlib.Logic.Function.Basic
import Mathlib.Data.List.Basic

/-! Vectors striped over the 32 lanes of a warp: lane `l` holds the components
`l`, `l + 32`, .. in its registers. The lanes execute every statement together. -/

namespace LaneStripe

variable {R ι : Type*}

abbrev LANES : Nat := 32

def slots (OUT : Nat) : Nat := (OUT + 31) / 32

/-- The registers of the warp under one name, by lane and slot. -/
abbrev Registers (R : Type*) := Nat → Nat → R

/-- The pairs of a lane and a slot that hold one of `OUT` components. -/
def active (OUT : Nat) : List (Nat × Nat) :=
  (List.range (slots OUT)).flatMap fun k =>
    ((List.range LANES).filter fun lane => lane + 32 * k < OUT).map fun lane => (lane, k)

theorem mem_active {OUT : Nat} {c : Nat × Nat} :
    c ∈ active OUT ↔ c.1 < LANES ∧ c.1 + 32 * c.2 < OUT := by
  simp only [active, slots, List.mem_flatMap, List.mem_range, List.mem_map, List.mem_filter,
    decide_eq_true_eq]
  constructor
  · rintro ⟨k, -, lane, ⟨hlane, hlt⟩, rfl⟩
    exact ⟨hlane, hlt⟩
  · rintro ⟨hlane, hlt⟩
    exact ⟨c.2, by omega, c.1, ⟨hlane, hlt⟩, rfl⟩

def component (y : Registers R) (o : Nat) : R := y (o % 32) (o / 32)

theorem component_of_lane (y : Registers R) {lane k : Nat} (h : lane < LANES) :
    component y (lane + 32 * k) = y lane k := by
  have hlane : lane < 32 := h
  have hmod : (lane + 32 * k) % 32 = lane := by omega
  have hdiv : (lane + 32 * k) / 32 = k := by omega
  rw [component, hmod, hdiv]

/-- Each lane writes its components to their addresses. -/
def warpStore [DecidableEq ι] (OUT : Nat) (addr : Nat → ι) (y : Registers R) (mem : ι → R) : ι → R :=
  (active OUT).foldl (fun mem c => Function.update mem (addr (c.1 + 32 * c.2)) (y c.1 c.2)) mem

theorem foldl_update_addr {κ : Type*} [DecidableEq ι] (addr : κ → ι) (val : κ → R) (g : ι → R)
    {l : List κ} (hg : ∀ k ∈ l, val k = g (addr k)) (mem : ι → R) :
    l.foldl (fun mem k => Function.update mem (addr k) (val k)) mem =
      fun i => if i ∈ l.map addr then g i else mem i := by
  induction l generalizing mem with
  | nil => simp
  | cons k l ih =>
    rw [List.foldl_cons, ih (fun k' hk' => hg k' (by simp [hk']))]
    funext i
    by_cases hi : i ∈ l.map addr
    · simp only [hi, if_true, List.map_cons, List.mem_cons, or_true]
    · by_cases hk : i = addr k
      · subst hk
        simp [hi, hg k (by simp)]
      · simp [hi, hk]

section Store

variable [DecidableEq ι] {OUT : Nat} {addr : Nat → ι} (y : Registers R) (mem : ι → R)

theorem warpStore_at (haddr : Function.Injective addr) {o : Nat} (ho : o < OUT) :
    warpStore OUT addr y mem (addr o) = component y o := by
  obtain ⟨g, hg⟩ : ∃ g : ι → R, ∀ o, g (addr o) = component y o :=
    ⟨Function.extend addr (component y) mem, fun o => haddr.extend_apply _ _ o⟩
  have hval : ∀ c ∈ active OUT, y c.1 c.2 = g (addr (c.1 + 32 * c.2)) := by
    intro c hc
    rw [hg, component_of_lane y (mem_active.mp hc).1]
  have hmem : addr o ∈ (active OUT).map fun c => addr (c.1 + 32 * c.2) := by
    refine List.mem_map.mpr ⟨(o % 32, o / 32), mem_active.mpr ⟨?_, ?_⟩, congrArg addr ?_⟩
    · exact Nat.mod_lt _ (by decide)
    · omega
    · omega
  rw [warpStore, foldl_update_addr (fun c : Nat × Nat => addr (c.1 + 32 * c.2)) _ g hval]
  exact (if_pos hmem).trans (hg o)

theorem warpStore_frame {i : ι} (hi : ∀ o < OUT, i ≠ addr o) :
    warpStore OUT addr y mem i = mem i := by
  have hkeep : ∀ l : List (Nat × Nat), (∀ c ∈ l, c.1 + 32 * c.2 < OUT) → ∀ mem : ι → R,
      l.foldl (fun mem c => Function.update mem (addr (c.1 + 32 * c.2)) (y c.1 c.2)) mem i = mem i := by
    intro l
    induction l with
    | nil => exact fun _ _ => rfl
    | cons c l ih =>
      intro hl mem
      rw [List.foldl_cons, ih fun d hd => hl d (by simp [hd])]
      exact Function.update_of_ne (hi _ (hl c (by simp))) _ _
  exact hkeep _ (fun c hc => (mem_active.mp hc).2) mem

end Store

end LaneStripe
