import SslaRt.Neon
import SslaRt.Primitives
import SslaRt.GatedRecurrence
import Mathlib.Algebra.Order.Ring.Rat
import Mathlib.Algebra.Order.Field.Rat
import Mathlib.Data.Rat.Defs
import Mathlib.Tactic.Positivity

/-! The four-lane `lru_step` with its approximate sigmoid, over the rationals. -/

namespace Neon

def vminq_f32 (a b : float32x4 ℚ) : float32x4 ℚ := fun l => min (a l) (b l)

def vmaxq_f32 (a b : float32x4 ℚ) : float32x4 ℚ := fun l => max (a l) (b l)

def vdivq_f32 (a b : float32x4 ℚ) : float32x4 ℚ := fun l => a l / b l

def vst1q_f32 {R : Type*} (p : Nat → R) (off : Nat) (v : float32x4 R) : Nat → R :=
  fun i => if h : off ≤ i ∧ i - off < 4 then v ⟨i - off, h.2⟩ else p i

end Neon

namespace SslaRt

open Neon

def neonSigmoidTanhPade (x : float32x4 ℚ) : float32x4 ℚ :=
  let hi := vdupq_n_f32 6
  let lo := vdupq_n_f32 (-6)
  let half := vdupq_n_f32 (1 / 2)
  let c27 := vdupq_n_f32 27
  let c9 := vdupq_n_f32 9
  let x := vminq_f32 (vmaxq_f32 x lo) hi
  let t := vmulq_f32 x half
  let t2 := vmulq_f32 t t
  let num := vmulq_f32 t (vaddq_f32 c27 t2)
  let den := vfmaq_f32 c27 c9 t2
  let tanh_t := vdivq_f32 num den
  vfmaq_f32 half half tanh_t

/-- The arguments that are read; `h` and `y` are the state. -/
structure LruCall where
  g : Nat → ℚ
  v : Nat → ℚ
  q : Nat → ℚ

/-- One iteration of the loop: the lanes `4 * i` to `4 * i + 3`. -/
def lruLanes (call : LruCall) (st : (Nat → ℚ) × (Nat → ℚ)) (i : Nat) : (Nat → ℚ) × (Nat → ℚ) :=
  let c := 4 * i
  let gc := neonSigmoidTanhPade (vld1q_f32 call.g c)
  let hc := vfmaq_f32 (vld1q_f32 call.v c) gc (vld1q_f32 st.1 c)
  (vst1q_f32 st.1 c hc, vst1q_f32 st.2 c (vmulq_f32 (vld1q_f32 call.q c) hc))

/-- On the state `(h, y)`. -/
def lruStepNeonCore (DIM : Nat) (st : (Nat → ℚ) × (Nat → ℚ)) (call : LruCall) :
    (Nat → ℚ) × (Nat → ℚ) :=
  (List.range ((DIM + 3) / 4)).foldl (lruLanes call) st

section Gate

/-- One lane of the approximate sigmoid. -/
def padeGate (x : ℚ) : ℚ := neonSigmoidTanhPade (vdupq_n_f32 x) 0

theorem neonSigmoidTanhPade_apply (x : float32x4 ℚ) (l : Fin 4) :
    neonSigmoidTanhPade x l = padeGate (x l) := by
  simp only [padeGate, neonSigmoidTanhPade, vfmaq_f32, vdivq_f32, vmulq_f32, vaddq_f32, vminq_f32,
    vmaxq_f32, vdupq_n_f32]

def padeTanh (t : ℚ) : ℚ := t * (27 + t * t) / (27 + 9 * (t * t))

def clampHalf (x : ℚ) : ℚ := min (max x (-6)) 6 * (1 / 2)

theorem padeGate_eq (x : ℚ) : padeGate x = 1 / 2 + 1 / 2 * padeTanh (clampHalf x) := by
  simp only [padeGate, neonSigmoidTanhPade, padeTanh, clampHalf, vfmaq_f32, vdivq_f32, vmulq_f32,
    vaddq_f32, vminq_f32, vmaxq_f32, vdupq_n_f32]

theorem padeTanh_den_pos (t : ℚ) : 0 < 27 + 9 * (t * t) := by
  have h := mul_self_nonneg t
  linarith

/-- The numerator of the difference is a sum of two squares. -/
theorem padeTanh_mono : Monotone padeTanh := by
  intro a b hab
  rw [padeTanh, padeTanh, div_le_div_iff₀ (padeTanh_den_pos a) (padeTanh_den_pos b), ← sub_nonneg]
  have hfactor : b * (27 + b * b) * (27 + 9 * (a * a)) - a * (27 + a * a) * (27 + 9 * (b * b)) =
      (b - a) * (9 * ((a * b - 9) * (a * b - 9)) + 27 * ((a - b) * (a - b))) := by ring
  rw [hfactor]
  have hprod := mul_self_nonneg (a * b - 9)
  have hdiff := mul_self_nonneg (a - b)
  exact mul_nonneg (sub_nonneg.mpr hab) (by linarith)

theorem padeTanh_neg (t : ℚ) : padeTanh (-t) = -padeTanh t := by
  rw [padeTanh, padeTanh, neg_mul_neg, neg_mul, neg_div]

theorem one_sub_padeTanh (t : ℚ) : 1 - padeTanh t = (3 - t) ^ 3 / (27 + 9 * (t * t)) := by
  have hne := (padeTanh_den_pos t).ne'
  rw [padeTanh, eq_div_iff hne, sub_mul, div_mul_cancel₀ _ hne]
  ring

theorem clampHalf_mono : Monotone clampHalf := by
  intro a b hab
  have hmax : max a (-6) ≤ max b (-6) := max_le_max_right _ hab
  have hmin : min (max a (-6)) 6 ≤ min (max b (-6)) 6 := min_le_min_right _ hmax
  exact mul_le_mul_of_nonneg_right hmin (by norm_num)

theorem clampHalf_neg (x : ℚ) : clampHalf (-x) = -clampHalf x := by
  have h : min (max (-x) (-6)) 6 = -min (max x (-6)) 6 := by
    rcases le_total x (-6) with hlo | hlo
    · rw [max_eq_right hlo, max_eq_left (by linarith), min_eq_right (by linarith), min_eq_left (by norm_num)]
      norm_num
    · rcases le_total x 6 with hhi | hhi
      · rw [max_eq_left hlo, max_eq_left (by linarith), min_eq_left hhi, min_eq_left (by linarith)]
      · rw [max_eq_left hlo, max_eq_right (by linarith), min_eq_right hhi, min_eq_left (by norm_num)]
  rw [clampHalf, clampHalf, h, neg_mul]

theorem clampHalf_le (x : ℚ) : clampHalf x ≤ 3 := by
  have h : min (max x (-6)) 6 ≤ 6 := min_le_right _ _
  rw [clampHalf]
  linarith

theorem clampHalf_lt {x : ℚ} (hx : x < 6) : clampHalf x < 3 := by
  have h : min (max x (-6)) 6 ≤ max x (-6) := min_le_left _ _
  have hlt : max x (-6) < 6 := max_lt hx (by norm_num)
  rw [clampHalf]
  linarith

theorem padeGate_mono : Monotone padeGate := by
  intro a b hab
  have h := padeTanh_mono (clampHalf_mono hab)
  rw [padeGate_eq, padeGate_eq]
  linarith

theorem padeGate_neg (x : ℚ) : padeGate (-x) = 1 - padeGate x := by
  rw [padeGate_eq, padeGate_eq, clampHalf_neg, padeTanh_neg]
  ring

theorem padeGate_le_one (x : ℚ) : padeGate x ≤ 1 := by
  have hpos : 0 ≤ (3 - clampHalf x) ^ 3 / (27 + 9 * (clampHalf x * clampHalf x)) := by
    have h := sub_nonneg.mpr (clampHalf_le x)
    exact div_nonneg (pow_nonneg h 3) (padeTanh_den_pos _).le
  rw [← one_sub_padeTanh] at hpos
  rw [padeGate_eq]
  linarith

theorem padeGate_nonneg (x : ℚ) : 0 ≤ padeGate x := by
  have h := padeGate_le_one (-x)
  rw [padeGate_neg] at h
  linarith

theorem padeGate_lt_one {x : ℚ} (hx : x < 6) : padeGate x < 1 := by
  have hpos : 0 < (3 - clampHalf x) ^ 3 / (27 + 9 * (clampHalf x * clampHalf x)) := by
    have h := sub_pos.mpr (clampHalf_lt hx)
    exact div_pos (pow_pos h 3) (padeTanh_den_pos _)
  rw [← one_sub_padeTanh] at hpos
  rw [padeGate_eq]
  linarith

end Gate

section Core

variable {DIM : Nat} {st : (Nat → ℚ) × (Nat → ℚ)} {call : LruCall}

theorem vst1q_vld1q {p f : Nat → ℚ} {off : Nat} {v : float32x4 ℚ} (hv : ∀ l : Fin 4, v l = f (off + l))
    (c : Nat) : vst1q_f32 p off v c = if off ≤ c ∧ c < off + 4 then f c else p c := by
  unfold vst1q_f32
  by_cases h : off ≤ c ∧ c < off + 4
  · rw [dif_pos ⟨h.1, by omega⟩, if_pos h, hv, Nat.add_sub_cancel' h.1]
  · rw [dif_neg (by omega), if_neg h]

theorem lruLanes_fst (i c : Nat) : (lruLanes call st i).1 c =
    if 4 * i ≤ c ∧ c < 4 * i + 4 then padeGate (call.g c) * st.1 c + call.v c else st.1 c :=
  vst1q_vld1q (f := fun c => padeGate (call.g c) * st.1 c + call.v c)
    (fun l => by rw [vfmaq_f32, neonSigmoidTanhPade_apply, add_comm]; rfl) c

theorem lruLanes_snd (i c : Nat) : (lruLanes call st i).2 c =
    if 4 * i ≤ c ∧ c < 4 * i + 4 then call.q c * (padeGate (call.g c) * st.1 c + call.v c)
    else st.2 c :=
  vst1q_vld1q (f := fun c => call.q c * (padeGate (call.g c) * st.1 c + call.v c))
    (fun l => by rw [vmulq_f32, vfmaq_f32, neonSigmoidTanhPade_apply,
      add_comm (vld1q_f32 call.v _ _)]; rfl) c

/-- After the first `n` iterations the lanes below `4 * n` are stepped. -/
theorem lruLanes_foldl (call : LruCall) (st : (Nat → ℚ) × (Nat → ℚ)) (n c : Nat) :
    ((List.range n).foldl (lruLanes call) st).1 c =
        (if c < 4 * n then padeGate (call.g c) * st.1 c + call.v c else st.1 c) ∧
      ((List.range n).foldl (lruLanes call) st).2 c =
        if c < 4 * n then call.q c * (padeGate (call.g c) * st.1 c + call.v c) else st.2 c := by
  induction n with
  | zero => exact ⟨by simp, by simp⟩
  | succ n ih =>
    obtain ⟨hh, hy⟩ := ih
    rw [List.range_succ, List.foldl_append, List.foldl_cons, List.foldl_nil, lruLanes_fst,
      lruLanes_snd, hh, hy]
    by_cases hlo : c < 4 * n
    · rw [if_neg (by omega), if_pos hlo, if_pos (by omega), if_neg (by omega), if_pos hlo, if_pos (by omega)]
      exact ⟨rfl, rfl⟩
    · by_cases hhi : c < 4 * n + 4
      · rw [if_pos (by omega), if_neg hlo, if_pos (by omega), if_pos (by omega), if_pos (by omega)]
        exact ⟨rfl, rfl⟩
      · rw [if_neg (by omega), if_neg hlo, if_neg (by omega), if_neg (by omega), if_neg hlo, if_neg (by omega)]
        exact ⟨rfl, rfl⟩

theorem lruStepNeonCore_fst (hDIM : DIM % 4 = 0) {c : Nat} (hc : c < DIM) :
    (lruStepNeonCore DIM st call).1 c = padeGate (call.g c) * st.1 c + call.v c := by
  rw [lruStepNeonCore, (lruLanes_foldl call st _ c).1, if_pos (by omega)]

theorem lruStepNeonCore_snd (hDIM : DIM % 4 = 0) {c : Nat} (hc : c < DIM) :
    (lruStepNeonCore DIM st call).2 c = call.q c * (padeGate (call.g c) * st.1 c + call.v c) := by
  rw [lruStepNeonCore, (lruLanes_foldl call st _ c).2, if_pos (by omega)]

/-- The specialisation is `lru_step` with the approximate gate as its sigmoid. -/
theorem lruStepNeonCore_lruStep (hDIM : DIM % 4 = 0) {ar : Arith ℚ} (har : ar.sigmoid = padeGate) :
    (readFeat DIM (lruStepNeonCore DIM st call).1, readFeat DIM (lruStepNeonCore DIM st call).2) =
      lruStep ar (readFeat DIM call.g) (readFeat DIM call.v) (readFeat DIM call.q)
        (readFeat DIM st.1) := by
  refine Prod.ext (funext fun c => ?_) (funext fun c => ?_)
  · simp only [readFeat, lruStep, har, lruStepNeonCore_fst hDIM c.isLt]
  · simp only [readFeat, lruStep, har, lruStepNeonCore_snd hDIM c.isLt]

/-- One lane over a run of calls is a gated recurrence. -/
theorem foldl_lruStepNeonCore (hDIM : DIM % 4 = 0) {c : Nat} (hc : c < DIM) (calls : List LruCall) :
    (calls.foldl (lruStepNeonCore DIM) st).1 c =
      GatedRecurrence.run (st.1 c) (calls.map fun call => (padeGate (call.g c), call.v c)) := by
  induction calls generalizing st with
  | nil => rfl
  | cons call calls ih =>
    rw [List.foldl_cons, ih, lruStepNeonCore_fst hDIM hc]
    rfl

theorem neonLru_stable (DIM : Nat) (hDIM : DIM % 4 = 0) :
    (∀ x l, 0 ≤ neonSigmoidTanhPade x l ∧ neonSigmoidTanhPade x l ≤ 1) ∧
    Monotone neonSigmoidTanhPade ∧
    (∀ x, neonSigmoidTanhPade (-x) = 1 - neonSigmoidTanhPade x) ∧
    (∀ st call, ∀ c < DIM, |(lruStepNeonCore DIM st call).1 c| ≤ |st.1 c| + |call.v c|) ∧
    ∀ st (calls : List LruCall) (x0 B : ℚ), x0 < 6 → ∀ c < DIM,
      (∀ call ∈ calls, call.g c ≤ x0 ∧ |call.v c| ≤ B) →
      |(calls.foldl (lruStepNeonCore DIM) st).1 c| ≤
        max |st.1 c| (B / (1 - neonSigmoidTanhPade (vdupq_n_f32 x0) 0)) := by
  refine ⟨fun x l => ?_, fun x y hxy l => ?_, fun x => funext fun l => ?_, fun st call c hc => ?_,
    fun st calls x0 B hx0 c hc h => ?_⟩
  · rw [neonSigmoidTanhPade_apply]
    exact ⟨padeGate_nonneg _, padeGate_le_one _⟩
  · rw [neonSigmoidTanhPade_apply, neonSigmoidTanhPade_apply]
    exact padeGate_mono (hxy l)
  · rw [neonSigmoidTanhPade_apply, Pi.neg_apply, padeGate_neg, Pi.sub_apply, Pi.one_apply,
      neonSigmoidTanhPade_apply]
  · rw [lruStepNeonCore_fst hDIM hc]
    exact GatedRecurrence.abs_gated_le (padeGate_nonneg _) (padeGate_le_one _)
  · rw [foldl_lruStepNeonCore hDIM hc]
    refine GatedRecurrence.abs_run_le_max (padeGate_lt_one hx0) fun p hp => ?_
    obtain ⟨call, hcall, rfl⟩ := List.mem_map.mp hp
    obtain ⟨hg, hv⟩ := h call hcall
    exact ⟨padeGate_nonneg _, padeGate_mono hg, hv⟩

theorem neonLru_stable_zero :
    let call : LruCall := ⟨fun _ => 0, fun _ => 1, fun _ => 1⟩
    |([call, call].foldl (lruStepNeonCore 12) (fun _ => 0, fun _ => 0)).1 5| ≤
      max 0 (1 / (1 - neonSigmoidTanhPade (vdupq_n_f32 0) 0)) := by
  intro call
  have h := (neonLru_stable 12 (by decide)).2.2.2.2 (fun _ => 0, fun _ => 0) [call, call] 0 1
    (by norm_num) 5 (by decide) (by simp [call])
  rwa [abs_zero] at h

end Core

end SslaRt
