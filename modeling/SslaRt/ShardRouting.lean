import SslaRt.ShardWorker
import Mathlib.Data.Int.Basic

/-! The distribution of events to the queues of the CPU shards: each shard owns
a strip of columns and also gets the events of the halo columns beside it. -/

namespace SslaRt

structure S01gHandle where
  N : Nat
  halo : Int
  W_full : Nat
  H_full : Nat
  N_pos : 0 < N

namespace S01gHandle

/-- The handle of `s01g_init_full` for the grid of a loaded pipeline. -/
def init (n_shards halo : Int) (W H : Nat) : S01gHandle where
  N := if n_shards < 1 then 1 else n_shards.toNat
  halo := halo
  W_full := W
  H_full := H
  N_pos := by split <;> omega

variable (h : S01gHandle)

def strip_w : Nat := (h.W_full + h.N - 1) / h.N

def OutOfBounds (ex ey : Int) : Prop := ex < 0 ∨ ex ≥ h.W_full ∨ ey < 0 ∨ ey ≥ h.H_full

instance (ex ey : Int) : Decidable (h.OutOfBounds ex ey) := inferInstanceAs (Decidable (_ ∨ _))

def lo (k : Int) : Int := k * h.strip_w - h.halo
def hi (k : Int) : Int := (k + 1) * h.strip_w + h.halo

def owner (ex : Int) : Int := min (ex / h.strip_w) (h.N - 1)

variable {R : Type*}

/-- The body of the loop over `dk`: the message of shard `k`, if it gets one. -/
def cover (e : Event R) (k : Int) : Option (Nat × ShardMsg R) :=
  let ex := castInt e.x
  if k < 0 ∨ k ≥ h.N then none
  else if ex < h.lo k ∨ ex ≥ h.hi k then none
  else some (k.toNat, ⟨e, decide (k = h.owner ex), false⟩)

def covering (e : Event R) : List (Nat × ShardMsg R) :=
  [-1, 0, 1].filterMap fun dk : Int => h.cover e (castInt e.x / h.strip_w + dk)

structure Submitted (R : Type*) where
  q_in : Nat → List (ShardMsg R)
  n_oob : Nat
  accepted : Nat

def push (q_in : Nat → List (ShardMsg R)) (m : Nat × ShardMsg R) : Nat → List (ShardMsg R) :=
  Function.update q_in m.1 (q_in m.1 ++ [m.2])

def submit (st : Submitted R) (e : Event R) : Submitted R :=
  if h.OutOfBounds (castInt e.x) (castInt e.y) then { st with n_oob := st.n_oob + 1 }
  else { st with q_in := (h.covering e).foldl push st.q_in, accepted := st.accepted + 1 }

/-- The queues after a batch; the queues are not bounded here. -/
def submitBatch (q_in : Nat → List (ShardMsg R)) (n_oob : Nat) (events : List (Event R)) :
    Submitted R :=
  events.foldl h.submit ⟨q_in, n_oob, 0⟩

/-- What one shard gets of an event. -/
def route (k : Nat) (e : Event R) : Option (ShardMsg R) :=
  if h.OutOfBounds (castInt e.x) (castInt e.y) then none
  else if k ≤ castInt e.x / h.strip_w + 1 ∧ castInt e.x / h.strip_w ≤ k + 1 then
    (h.cover e k).map Prod.snd
  else none

def Covers (k : Nat) (ex : Int) : Prop :=
  k < h.N ∧ (k ≤ ex / h.strip_w + 1 ∧ ex / h.strip_w ≤ k + 1) ∧ h.lo k ≤ ex ∧ ex < h.hi k

instance (k : Nat) (ex : Int) : Decidable (h.Covers k ex) := inferInstanceAs (Decidable (_ ∧ _))

def Owns (k : Nat) (e : Event R) : Prop :=
  ¬ h.OutOfBounds (castInt e.x) (castInt e.y) ∧ k = h.owner (castInt e.x)

instance (k : Nat) (e : Event R) : Decidable (h.Owns k e) := inferInstanceAs (Decidable (_ ∧ _))

theorem route_eq (k : Nat) (e : Event R) : h.route k e =
    if ¬ h.OutOfBounds (castInt e.x) (castInt e.y) ∧ h.Covers k (castInt e.x) then
      some ⟨e, decide (k = h.owner (castInt e.x)), false⟩ else none := by
  unfold route
  by_cases hb : h.OutOfBounds (castInt e.x) (castInt e.y)
  · rw [if_pos hb, if_neg (fun hh => hh.1 hb)]
  rw [if_neg hb]
  by_cases hnear : (k : Int) ≤ castInt e.x / h.strip_w + 1 ∧ castInt e.x / h.strip_w ≤ k + 1
  · rw [if_pos hnear]
    by_cases hc : h.Covers k (castInt e.x)
    · obtain ⟨hN, -, hlo, hhi⟩ := id hc
      simp only [cover, hb, hc, if_neg (show ¬ ((k : Int) < 0 ∨ (k : Int) ≥ h.N) by omega),
        if_neg (show ¬ (castInt e.x < h.lo k ∨ castInt e.x ≥ h.hi k) by omega), not_false_eq_true,
        and_self, if_true, Option.map_some]
    · have hnone : h.cover e k = none := by
        unfold cover
        dsimp only
        split
        · rfl
        · split
          · rfl
          · exact absurd ⟨by omega, hnear, by omega, by omega⟩ hc
      rw [hnone, if_neg (fun hh => hc hh.2)]
      rfl
  · rw [if_neg hnear, if_neg (fun hh => hnear hh.2.2.1)]

theorem route_eq_some {k : Nat} {e : Event R} {m : ShardMsg R} : h.route k e = some m ↔
    (¬ h.OutOfBounds (castInt e.x) (castInt e.y) ∧ h.Covers k (castInt e.x)) ∧
      ⟨e, decide (k = h.owner (castInt e.x)), false⟩ = m := by
  rw [route_eq, Option.ite_none_right_eq_some, Option.some.injEq]

theorem route_eq_none {k : Nat} {e : Event R} : h.route k e = none ↔
    ¬ (¬ h.OutOfBounds (castInt e.x) (castInt e.y) ∧ h.Covers k (castInt e.x)) := by
  rw [route_eq, ite_eq_right_iff]
  simp only [reduceCtorEq, imp_false]

section Strips

variable {ex : Int} (h0 : 0 ≤ ex) (hW : ex < h.W_full)

include h0 hW

theorem strip_pos : 0 < h.strip_w := by
  have hN := h.N_pos
  exact Nat.div_pos (by omega) hN

theorem W_le_strips : h.W_full ≤ h.N * h.strip_w := by
  have hN := h.N_pos
  have hmod := Nat.div_add_mod (h.W_full + h.N - 1) h.N
  have hlt := Nat.mod_lt (h.W_full + h.N - 1) hN
  rw [strip_w]
  omega

omit hW in
theorem owner_nonneg : 0 ≤ h.owner ex := by
  have hN := h.N_pos
  exact le_min (Int.ediv_nonneg h0 (Int.natCast_nonneg _)) (by omega)

theorem owner_eq : h.owner ex = ex / h.strip_w := by
  have hpos := h.strip_pos h0 hW
  have hle := h.W_le_strips h0 hW
  have hlt : ex / h.strip_w < h.N := Int.ediv_lt_of_lt_mul (by omega) (by
    calc ex < h.W_full := hW
      _ ≤ (h.N * h.strip_w : Nat) := by omega
      _ = (h.N : Int) * h.strip_w := by push_cast; rfl)
  exact min_eq_left (by omega)

theorem owner_bounds : h.owner ex * h.strip_w ≤ ex ∧ ex < (h.owner ex + 1) * h.strip_w := by
  have hpos := h.strip_pos h0 hW
  rw [h.owner_eq h0 hW]
  refine ⟨Int.ediv_mul_le ex (by omega), ?_⟩
  exact Int.lt_ediv_add_one_mul_self ex (by omega)

theorem covers_owner (hhalo : 0 ≤ h.halo) {k : Nat} (hk : k = h.owner ex) : h.Covers k ex := by
  have hb := h.owner_bounds h0 hW
  have heq := h.owner_eq h0 hW
  have hN := min_le_right (ex / (h.strip_w : Int)) ((h.N : Int) - 1)
  rw [← owner] at hN
  rw [← hk] at hb heq hN
  refine ⟨by omega, by omega, ?_, ?_⟩
  · rw [lo]
    omega
  · rw [hi]
    omega

theorem covers_iff (hhalo : h.halo ≤ h.strip_w) {k : Nat} (hk : k < h.N) :
    h.Covers k ex ↔ h.lo k ≤ ex ∧ ex < h.hi k := by
  refine ⟨fun hc => hc.2.2, fun hr => ⟨hk, ?_, hr⟩⟩
  have hpos : (0 : Int) < h.strip_w := by exact_mod_cast h.strip_pos h0 hW
  obtain ⟨hlo, hhi⟩ := hr
  rw [lo] at hlo
  rw [hi] at hhi
  have hge : ((k : Int) - 1) * h.strip_w ≤ ex := by
    rw [Int.sub_mul, Int.one_mul]
    omega
  have hlt : ex < ((k : Int) + 2) * h.strip_w := by
    rw [Int.add_mul] at hhi ⊢
    omega
  have h1 := (Int.le_ediv_iff_mul_le hpos).mpr hge
  have h2 := Int.ediv_lt_of_lt_mul hpos hlt
  omega

end Strips

theorem covers_of_owns (hhalo : 0 ≤ h.halo) {k : Nat} {e : Event R} (ho : h.Owns k e) :
    h.Covers k (castInt e.x) := by
  obtain ⟨hb, hk⟩ := ho
  simp only [OutOfBounds, not_or] at hb
  exact h.covers_owner (by omega) (by omega) hhalo hk

theorem push_foldl (msgs : List (Nat × ShardMsg R)) (q_in : Nat → List (ShardMsg R)) (k : Nat) :
    msgs.foldl push q_in k = q_in k ++ (msgs.filter fun m => m.1 = k).map Prod.snd := by
  induction msgs generalizing q_in with
  | nil => simp
  | cons m msgs ih =>
    rw [List.foldl_cons, ih, push]
    by_cases hk : m.1 = k
    · subst hk
      simp
    · simp [hk, Function.update_of_ne (Ne.symm hk)]

theorem cover_fst {e : Event R} {k : Int} {m : Nat × ShardMsg R} (hm : h.cover e k = some m) :
    (m.1 : Int) = k := by
  unfold cover at hm
  dsimp only at hm
  split at hm
  · cases hm
  · split at hm
    · cases hm
    · cases hm
      simp only
      omega

theorem cover_filter (e : Event R) (k : Nat) (k' : Int) :
    (h.cover e k').filter (fun m => m.1 = k) = if k' = k then h.cover e k else none := by
  cases hc : h.cover e k' with
  | none =>
    split
    · next hk => rw [← hk, hc]; rfl
    · rfl
  | some m =>
    have hfst := h.cover_fst hc
    by_cases hk : k' = k
    · rw [if_pos hk, ← hk, hc]
      exact Option.filter_some_pos (by simp; omega)
    · rw [if_neg hk]
      exact Option.filter_some_neg (by simp; omega)

theorem covering_filter {e : Event R} (hb : ¬ h.OutOfBounds (castInt e.x) (castInt e.y)) (k : Nat) :
    ((h.covering e).filter fun m => m.1 = k).map Prod.snd = (h.route k e).toList := by
  rw [covering, List.filter_filterMap, route, if_neg hb]
  simp only [h.cover_filter]
  generalize castInt e.x / (h.strip_w : Int) = q
  have hm : (q + -1 = k) = (q = k + 1) := propext (by omega)
  have hp : (q + 1 = k) = (k = q + 1) := propext (by omega)
  simp only [List.filterMap_cons, List.filterMap_nil, Int.add_zero, hm, hp]
  by_cases hnear : (k : Int) ≤ q + 1 ∧ q ≤ k + 1
  · rw [if_pos hnear]
    have hk : q = k + 1 ∨ q = k ∨ (k : Int) = q + 1 := by omega
    rcases hk with hk | hk | hk
    · rw [if_pos hk, if_neg (by omega), if_neg (by omega)]
      cases h.cover e k <;> rfl
    · rw [if_neg (by omega), if_pos hk, if_neg (by omega)]
      cases h.cover e k <;> rfl
    · rw [if_neg (by omega), if_neg (by omega), if_pos hk]
      cases h.cover e k <;> rfl
  · rw [if_neg hnear, if_neg (by omega), if_neg (by omega), if_neg (by omega)]
    rfl

theorem submit_q_in (st : Submitted R) (e : Event R) (k : Nat) :
    (h.submit st e).q_in k = st.q_in k ++ (h.route k e).toList := by
  unfold submit
  split
  · next hb => simp [route, hb]
  · next hb => simp only [push_foldl, h.covering_filter hb]

theorem submitBatch_q_in (q_in : Nat → List (ShardMsg R)) (n_oob : Nat) (events : List (Event R))
    (k : Nat) : (h.submitBatch q_in n_oob events).q_in k = q_in k ++ events.filterMap (h.route k) := by
  have hrun : ∀ st : Submitted R,
      (events.foldl h.submit st).q_in k = st.q_in k ++ events.filterMap (h.route k) := by
    induction events with
    | nil => simp
    | cons e events ih =>
      intro st
      rw [List.foldl_cons, ih, submit_q_in, List.append_assoc]
      cases hr : h.route k e with
      | none => simp [List.filterMap_cons_none hr]
      | some m => simp [List.filterMap_cons_some hr]
  exact hrun ⟨q_in, n_oob, 0⟩

end S01gHandle

end SslaRt
