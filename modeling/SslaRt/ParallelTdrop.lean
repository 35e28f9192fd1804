import SslaRt.CelledSpec
import SslaRt.Tdrop

/-! The kernel distributes the dropout counters over its nine warps. Every
interleaving of the warps decides as the serial counter does. -/

namespace SslaRt

open CellMemory Interleave

variable {R : Type*}

def tdropTask (window : Int) (event_slots : Nat → EventSlot R) (Wl : Nat)
    (mask : Option (Nat → Bool)) (st : (Nat → UInt8) × (Nat → Bool)) (t : Fin N_WARPS × Nat) :
    (Nat → UInt8) × (Nat → Bool) :=
  if selected mask t.2 = false then
    if t.1.val = 0 then (st.1, Function.update st.2 t.2 false) else st
  else
    let evx := (event_slots t.2).evx
    let evy := (event_slots t.2).evy
    if evy % 3 ≠ t.1.val / 3 ∨ evx % 3 ≠ t.1.val % 3 then st
    else
      let idx := evy * Wl + evx
      let pre := st.1 idx
      (Function.update st.1 idx (pre + 1), Function.update st.2 t.2
        (if window > 1 ∧ (pre.toNat : Int) % window ≠ 0 then false else true))

def parallelTdrop {batch_size : Nat} (sched : Schedule N_WARPS batch_size) (window : Int)
    (td : Nat → UInt8) (event_slots : Nat → EventSlot R) (Wl : Nat) (mask : Option (Nat → Bool))
    (pass_flags : Nat → Bool) : (Nat → UInt8) × (Nat → Bool) :=
  sched.order.foldl (tdropTask window event_slots Wl mask) (td, pass_flags)

section

variable (window : Int) (event_slots : Nat → EventSlot R) (Wl : Nat) (mask : Option (Nat → Bool))

def tdropIdx (e : Nat) : Nat := (event_slots e).evy * Wl + (event_slots e).evx

def tdropOwner (e : Nat) : Fin N_WARPS :=
  if selected mask e then
    ⟨(event_slots e).evy % 3 * 3 + (event_slots e).evx % 3, by unfold N_WARPS; omega⟩
  else 0

def tdropEvent (st : (Nat → UInt8) × (Nat → Bool)) (e : Nat) : (Nat → UInt8) × (Nat → Bool) :=
  if selected mask e then
    ((tdrop st.1 window (tdropIdx event_slots Wl e)).1,
      Function.update st.2 e (tdrop st.1 window (tdropIdx event_slots Wl e)).2)
  else (st.1, Function.update st.2 e false)

theorem tdropTask_eq (st : (Nat → UInt8) × (Nat → Bool)) (t : Fin N_WARPS × Nat) :
    tdropTask window event_slots Wl mask st t =
      if t.1 = tdropOwner event_slots mask t.2 then tdropEvent window event_slots Wl mask st t.2
      else st := by
  have hw : t.1.val < 9 := t.1.isLt
  unfold tdropTask tdropOwner tdropEvent
  cases hs : selected mask t.2 with
  | false => simp only [if_true, Bool.false_eq_true, if_false, Fin.val_eq_zero_iff]
  | true =>
    by_cases ho : t.1.val = (event_slots t.2).evy % 3 * 3 + (event_slots t.2).evx % 3
    · rw [if_neg (by simp), if_neg (by omega), if_pos (by simp [Fin.ext_iff, ho])]
      simp only [if_true, tdrop, tdropIdx]
      refine Prod.ext rfl ?_
      congr 1
      by_cases h1 : window ≤ 1
      · rw [if_neg (by omega), if_pos h1]
      · rw [if_neg h1]
        split <;> simp_all
    · rw [if_neg (by simp), if_pos (by omega), if_neg (by simp [Fin.ext_iff, ho])]

theorem tdropIdx_ne {e e' : Nat} (hx : (event_slots e).evx < Wl) (hx' : (event_slots e').evx < Wl)
    (hs : selected mask e = true) (hs' : selected mask e' = true)
    (h : tdropOwner event_slots mask e ≠ tdropOwner event_slots mask e') :
    tdropIdx event_slots Wl e ≠ tdropIdx event_slots Wl e' := by
  intro he
  obtain ⟨hy, hxe⟩ := rowMajor_inj hx hx' he
  apply h
  simp only [tdropOwner, hs, hs', if_true, hy, hxe]

theorem tdropEvent_comm {e e' : Nat} (st : (Nat → UInt8) × (Nat → Bool)) (hne : e ≠ e')
    (hidx : selected mask e = true → selected mask e' = true →
      tdropIdx event_slots Wl e ≠ tdropIdx event_slots Wl e') :
    tdropEvent window event_slots Wl mask (tdropEvent window event_slots Wl mask st e) e' =
      tdropEvent window event_slots Wl mask (tdropEvent window event_slots Wl mask st e') e := by
  unfold tdropEvent
  cases hs : selected mask e with
  | false => cases hs' : selected mask e' <;> simp [Function.update_comm hne]
  | true =>
    cases hs' : selected mask e' with
    | false => simp [Function.update_comm hne]
    | true =>
      have hi := hidx hs hs'
      simp only [if_true, tdrop, Function.update_of_ne hi, Function.update_of_ne hi.symm]
      exact Prod.ext (Function.update_comm hi _ _ _) (Function.update_comm hne _ _ _)

theorem round_tdrop (k : Nat) (ws : List (Fin N_WARPS)) (hnd : ws.Nodup)
    (st : (Nat → UInt8) × (Nat → Bool)) :
    (ws.map (fun w => (w, k))).foldl (tdropTask window event_slots Wl mask) st =
      if tdropOwner event_slots mask k ∈ ws then tdropEvent window event_slots Wl mask st k
      else st := by
  induction ws generalizing st with
  | nil => simp
  | cons w ws ih =>
    have hw := List.nodup_cons.mp hnd
    simp only [List.map_cons, List.foldl_cons, ih hw.2, tdropTask_eq, List.mem_cons]
    by_cases ho : w = tdropOwner event_slots mask k
    · simp [ho, ho ▸ hw.1]
    · simp [ho, Ne.symm ho]

section History

variable {n : Nat} (hx : ∀ e < n, selected mask e = true → (event_slots e).evx < Wl)

include hx in
theorem tdropTask_comm (st : (Nat → UInt8) × (Nat → Bool)) (t t' : Fin N_WARPS × Nat)
    (ht : t.2 < n) (ht' : t'.2 < n) (hne : t.1 ≠ t'.1) :
    tdropTask window event_slots Wl mask (tdropTask window event_slots Wl mask st t) t' =
      tdropTask window event_slots Wl mask (tdropTask window event_slots Wl mask st t') t := by
  simp only [tdropTask_eq]
  by_cases h : t.1 = tdropOwner event_slots mask t.2
  · by_cases h' : t'.1 = tdropOwner event_slots mask t'.2
    · have hown : tdropOwner event_slots mask t.2 ≠ tdropOwner event_slots mask t'.2 := by
        rwa [← h, ← h']
      simp only [if_pos h, if_pos h']
      exact tdropEvent_comm window event_slots Wl mask st (fun he => hown (he ▸ rfl))
        (fun hs hs' => tdropIdx_ne event_slots Wl mask (hx _ ht hs) (hx _ ht' hs') hs hs' hown)
    · simp only [if_neg h']
  · simp only [if_neg h]

variable (td : Nat → UInt8) (pass_flags : Nat → Bool) (tdseq : Nat → Nat → UInt8)
  (h0 : tdseq 0 = td)
  (hstep : ∀ e < n, tdseq (e + 1) = if selected mask e then
    (tdrop (tdseq e) window (tdropIdx event_slots Wl e)).1 else tdseq e)

include h0 hstep

theorem tdropRounds_spec {k : Nat} (hk : k ≤ n) :
    let st := (rounds N_WARPS k).foldl (tdropTask window event_slots Wl mask) (td, pass_flags)
    st.1 = tdseq k ∧ ∀ e < k,
      st.2 e = (selected mask e && (tdrop (tdseq e) window (tdropIdx event_slots Wl e)).2) := by
  induction k with
  | zero => exact ⟨h0.symm, fun e he => absurd he (Nat.not_lt_zero e)⟩
  | succ k ih =>
    obtain ⟨h1, h2⟩ := ih (Nat.le_of_succ_le hk)
    simp only [rounds_succ, List.foldl_append,
      round_tdrop window event_slots Wl mask k _ (List.nodup_finRange _), List.mem_finRange, if_true]
    unfold tdropEvent
    rw [hstep k hk, h1]
    cases hs : selected mask k with
    | false =>
      refine ⟨rfl, fun e he => ?_⟩
      rcases Nat.lt_succ_iff_lt_or_eq.mp he with he | rfl
      · simpa [Function.update_of_ne he.ne] using h2 e he
      · simp [hs]
    | true =>
      refine ⟨rfl, fun e he => ?_⟩
      rcases Nat.lt_succ_iff_lt_or_eq.mp he with he | rfl
      · simpa [Function.update_of_ne he.ne] using h2 e he
      · simp [hs]

include hx

/-- `tdseq` is the history of the counters, one entry before each event: the
kernel ends in the last entry and decides each event as the entry before it
does; an event outside the mask is flagged as dropped. -/
theorem parallelTdrop_spec (sched : Schedule N_WARPS n) :
    let r := parallelTdrop sched window td event_slots Wl mask pass_flags
    r.1 = tdseq n ∧ ∀ e < n,
      r.2 e = (selected mask e && (tdrop (tdseq e) window (tdropIdx event_slots Wl e)).2) := by
  have hh := tdropRounds_spec window event_slots Wl mask td pass_flags tdseq h0 hstep le_rfl
  rwa [← sched.foldl_eq _ (tdropTask_comm window event_slots Wl mask hx)] at hh

end History

/-- Without a window every selected event passes, also outside the grid. -/
theorem parallelTdrop_of_le_one {n : Nat} (sched : Schedule N_WARPS n) (td : Nat → UInt8)
    (pass_flags : Nat → Bool) (hw : window ≤ 1) {e : Nat} (he : e < n) :
    (parallelTdrop sched window td event_slots Wl mask pass_flags).2 e = selected mask e := by
  have hfold : ∀ (l : List (Fin N_WARPS × Nat)) (st : (Nat → UInt8) × (Nat → Bool)),
      (tdropOwner event_slots mask e, e) ∈ l ∨ st.2 e = selected mask e →
      (l.foldl (tdropTask window event_slots Wl mask) st).2 e = selected mask e := by
    intro l
    induction l with
    | nil => intro st h; simpa using h
    | cons t l ih =>
      intro st h
      rw [List.foldl_cons]
      apply ih
      rw [tdropTask_eq]
      by_cases ht : t.1 = tdropOwner event_slots mask t.2
      · rw [if_pos ht]
        by_cases he : t.2 = e
        · right
          unfold tdropEvent
          subst he
          cases selected mask t.2 <;> simp [tdrop, hw]
        · rcases h with h | h
          · rcases List.mem_cons.mp h with h | h
            · exact absurd (congrArg Prod.snd h).symm he
            · exact .inl h
          · right
            unfold tdropEvent
            cases selected mask t.2 <;> simpa [Function.update_of_ne (Ne.symm he)] using h
      · rw [if_neg ht]
        refine h.imp_left fun h => ?_
        rcases List.mem_cons.mp h with rfl | h
        · exact absurd rfl ht
        · exact h
  have hmem : (tdropOwner event_slots mask e, e) ∈
      sched.order.filter (fun t => t.1 = tdropOwner event_slots mask e) := by
    rw [sched.program_order]
    exact List.mem_map.mpr ⟨e, List.mem_range.mpr he, rfl⟩
  exact hfold sched.order _ (.inl (List.mem_of_mem_filter hmem))

end

end SslaRt
