import SslaRt.ShardRouting
import SslaRt.ProbePipeline

/-! Which shards get an event. The dispatchers try the strip of the event and
its two neighbours; with strips narrower than the halo further shards need the
event as well. -/

namespace SslaRt

variable {R : Type*}

/-- The loop of `s0_submit_batch` is the same. -/
def Stage01Capi.submit (h : S01gHandle) (st : S01gHandle.Submitted R) (e : Event R) :
    S01gHandle.Submitted R :=
  h.submit st e

structure Synth (R : Type*) where
  state : UInt64
  ev_t_us : ℚ
  q_in : Nat → List (ShardMsg R)
  synth_n_pushed : Nat

def xorshift (state : UInt64) : UInt64 :=
  let state := state ^^^ (state <<< 13)
  let state := state ^^^ (state >>> 7)
  state ^^^ (state <<< 17)

namespace S01gHandle

variable (h : S01gHandle)

def synthEvent [NatCast R] (t : ℚ) (r : UInt64) : Event R where
  t := t
  x := (r.toNat % h.W_full : Nat)
  y := ((r >>> 16).toNat % h.H_full : Nat)
  p := ((r >>> 32) &&& 1).toNat

/-- One iteration of `synth_thread_main`. -/
def synthStep [NatCast R] (dt_per_event_us : ℚ) (s : Synth R) : Synth R :=
  let r := xorshift s.state
  let ev_t_us := s.ev_t_us + dt_per_event_us
  let e : Event R := h.synthEvent ev_t_us r
  ⟨r, ev_t_us, (h.covering e).foldl push s.q_in, s.synth_n_pushed + 1⟩

def InExtendedStrip (k : Nat) (ex : Int) : Prop := k < h.N ∧ h.lo k ≤ ex ∧ ex < h.hi k

/-- An event goes to exactly the shards whose extended strip contains it, once
to each, and exactly one of them owns it. -/
structure DeliversExactly (e : Event R) (q_in q_in' : Nat → List (ShardMsg R)) : Prop where
  covered : ∀ k, h.InExtendedStrip k (castInt e.x) → ∃ m, m.ev = e ∧ q_in' k = q_in k ++ [m]
  others : ∀ k, ¬ h.InExtendedStrip k (castInt e.x) → q_in' k = q_in k
  owner : ∃! k, ∃ m, m.is_owner = true ∧ q_in' k = q_in k ++ [m]

/-- The halo does not reach past the neighbouring strips at this column. -/
def NearStrips (ex : Int) : Prop :=
  (ex / h.strip_w < 2 ∨ h.halo ≤ h.strip_w + ex % h.strip_w) ∧
    (h.N ≤ ex / h.strip_w + 2 ∨ h.halo < 2 * h.strip_w - ex % h.strip_w)

instance (ex : Int) : Decidable (h.NearStrips ex) := inferInstanceAs (Decidable (_ ∧ _))

section Columns

variable {ex : Int} (h0 : 0 ≤ ex) (hW : ex < h.W_full)

include h0 hW

/-- The two strips beside the neighbours decide about all further ones. -/
theorem nearStrips_iff (hhalo : 0 ≤ h.halo) :
    h.NearStrips ex ↔ ∀ k, h.InExtendedStrip k ex → h.Covers k ex := by
  have hpos : (0 : Int) < h.strip_w := by exact_mod_cast h.strip_pos h0 hW
  have hq := Int.ediv_nonneg h0 hpos.le
  have hdm := Int.mul_ediv_add_emod ex h.strip_w
  have hr := Int.emod_nonneg ex hpos.ne'
  have hlt := Int.emod_lt_of_pos ex hpos
  have hN := h.owner_eq h0 hW
  have hNle := min_le_right (ex / (h.strip_w : Int)) ((h.N : Int) - 1)
  rw [← owner, hN] at hNle
  unfold NearStrips InExtendedStrip Covers lo hi
  generalize ex / (h.strip_w : Int) = q at *
  generalize ex % (h.strip_w : Int) = r at *
  generalize (h.strip_w : Int) = w at *
  subst hdm
  constructor
  · rintro ⟨hleft, hright⟩ k ⟨hk, hlo, hhi⟩
    refine ⟨hk, ⟨?_, ?_⟩, hlo, hhi⟩
    · by_contra hfar
      have hmul : (q + 2) * w ≤ k * w := Int.mul_le_mul_of_nonneg_right (by omega) hpos.le
      have hexp : (q + 2) * w = w * q + 2 * w := by ring
      omega
    · by_contra hfar
      have hmul : ((k : Int) + 1) * w ≤ (q - 1) * w :=
        Int.mul_le_mul_of_nonneg_right (by omega) hpos.le
      have hexp : (q - 1) * w = w * q - w := by ring
      omega
  · intro hall
    constructor
    · by_contra hnot
      have hk : (((q - 2).toNat : Nat) : Int) = q - 2 := Int.toNat_of_nonneg (by omega)
      have hexp : (q - 2) * w = w * q - 2 * w ∧ (q - 2 + 1) * w = w * q - w := ⟨by ring, by ring⟩
      have hnear := (hall (q - 2).toNat (by rw [hk]; omega)).2.1.2
      omega
    · by_contra hnot
      have hk : (((q + 2).toNat : Nat) : Int) = q + 2 := Int.toNat_of_nonneg (by omega)
      have hexp : (q + 2) * w = w * q + 2 * w ∧ (q + 2 + 1) * w = w * q + 3 * w := ⟨by ring, by ring⟩
      have hnear := (hall (q + 2).toNat (by rw [hk]; omega)).2.1.1
      omega

end Columns

theorem strip_le (hW : 0 < h.W_full) : h.strip_w ≤ h.W_full := by
  obtain ⟨n, hn⟩ := Nat.exists_eq_add_of_lt h.N_pos
  obtain ⟨w, hw⟩ := Nat.exists_eq_add_of_lt hW
  refine Nat.div_le_of_le_mul ?_
  rw [hn, hw]
  have hmul : (0 + n + 1) * (0 + w + 1) = n * w + n + w + 1 := by ring
  omega

/-- Over the whole grid: with more than two shards the halo must not be wider
than a strip. -/
theorem nearStrips_all_iff (hW : 0 < h.W_full) :
    (∀ ex : Nat, ex < h.W_full → h.NearStrips ex) ↔ h.N ≤ 2 ∨ h.halo ≤ h.strip_w := by
  have hw : (0 : Int) < h.strip_w := by
    exact_mod_cast h.strip_pos (Int.le_refl 0) (by exact_mod_cast hW)
  constructor
  · intro hall
    by_contra hnot
    have hle := h.strip_le hW
    have hlast := (hall (h.strip_w - 1) (by omega)).2
    have hdiv : ((h.strip_w - 1 : Nat) : Int) / h.strip_w = 0 :=
      Int.ediv_eq_zero_of_lt (Int.natCast_nonneg _) (by omega)
    have hmod : ((h.strip_w - 1 : Nat) : Int) % h.strip_w = (h.strip_w - 1 : Nat) :=
      Int.emod_eq_of_lt (Int.natCast_nonneg _) (by omega)
    rw [hdiv, hmod] at hlast
    omega
  · intro hcond ex hex
    have hdiv := h.owner_eq (Int.natCast_nonneg ex) (by exact_mod_cast hex)
    have hNle := min_le_right ((ex : Int) / (h.strip_w : Int)) ((h.N : Int) - 1)
    rw [← owner, hdiv] at hNle
    have hr := Int.emod_nonneg ex hw.ne'
    have hlt := Int.emod_lt_of_pos ex hw
    have hq := Int.ediv_nonneg (Int.natCast_nonneg ex) hw.le
    unfold NearStrips
    omega

section Delivery

variable {h} {e : Event R} {q q' : Nat → List (ShardMsg R)}

theorem delivers_iff (hhalo : 0 ≤ h.halo) (hin : ¬ h.OutOfBounds (castInt e.x) (castInt e.y))
    (hq : ∀ k, q' k = q k ++ (h.route k e).toList) :
    h.DeliversExactly e q q' ↔ h.NearStrips (castInt e.x) := by
  have hb := hin
  simp only [OutOfBounds, not_or, not_lt, ge_iff_le, not_le] at hb
  rw [h.nearStrips_iff hb.1 hb.2.1 hhalo]
  constructor
  · intro hd k hk
    obtain ⟨m, -, hm⟩ := hd.covered k hk
    rw [hq k, List.append_cancel_left_eq] at hm
    cases hr : h.route k e with
    | none => simp [hr] at hm
    | some m' => exact (h.route_eq_some.mp hr).1.2
  · intro hall
    have hmsg : ∀ k, h.Covers k (castInt e.x) →
        q' k = q k ++ [⟨e, decide ((k : Int) = h.owner (castInt e.x)), false⟩] := by
      intro k hk
      rw [hq k, h.route_eq, if_pos ⟨hin, hk⟩]
      rfl
    have hnone : ∀ k, ¬ h.Covers k (castInt e.x) → q' k = q k := by
      intro k hk
      rw [hq k, h.route_eq, if_neg (fun hh => hk hh.2)]
      exact List.append_nil _
    obtain ⟨k, hk⟩ := Int.eq_ofNat_of_zero_le (h.owner_nonneg hb.1)
    constructor
    · exact fun k hk => ⟨_, rfl, hmsg k (hall k hk)⟩
    · exact fun k hk => hnone k (fun hc => hk ⟨hc.1, hc.2.2⟩)
    · refine ⟨k, ⟨_, decide_eq_true hk.symm, hmsg k (h.covers_owner hb.1 hb.2.1 hhalo hk.symm)⟩, ?_⟩
      rintro j ⟨m, hm, hj⟩
      by_cases hc : h.Covers j (castInt e.x)
      · rw [hmsg j hc, List.append_cancel_left_eq] at hj
        cases hj
        exact Int.natCast_inj.mp ((of_decide_eq_true hm).trans hk)
      · rw [hnone j hc] at hj
        simp at hj

theorem synthStep_q_in [NatCast R] (dt : ℚ) (s : Synth R)
    (hin : ¬ h.OutOfBounds (castInt (h.synthEvent (R := R) (s.ev_t_us + dt) (xorshift s.state)).x)
      (castInt (h.synthEvent (R := R) (s.ev_t_us + dt) (xorshift s.state)).y)) (k : Nat) :
    (h.synthStep dt s).q_in k =
      s.q_in k ++ (h.route k (h.synthEvent (s.ev_t_us + dt) (xorshift s.state))).toList := by
  rw [← h.covering_filter hin, ← push_foldl]
  rfl

theorem synthEvent_inside [NatCast R] (hW : 0 < h.W_full) (hH : 0 < h.H_full) (t : ℚ) (r : UInt64) :
    ¬ h.OutOfBounds (castInt (h.synthEvent (R := R) t r).x) (castInt (h.synthEvent (R := R) t r).y) := by
  have hx := Nat.mod_lt r.toNat hW
  have hy := Nat.mod_lt (r >>> 16).toNat hH
  unfold OutOfBounds synthEvent
  dsimp only
  rw [castInt_natCast, castInt_natCast]
  omega

end Delivery

end S01gHandle

def pixelEventAt [Zero R] (x y : Nat) : Event R := ⟨0, x, y, 0⟩

/-- All dispatchers reach exactly the shards that need the event if and only if
the halo ends within the neighbouring strips at its column. Every column of a
grid is so if there are at most two shards or the halo is no wider than a
strip. -/
theorem routing_iff [CommRing R] (n_shards : Int) (halo W H : Nat) :
    (let h := S01gHandle.init n_shards halo W H
     (∀ (st : S01gHandle.Submitted R) (e : Event R), ¬ h.OutOfBounds (castInt e.x) (castInt e.y) →
       (h.DeliversExactly e st.q_in (h.submit st e).q_in ↔ h.NearStrips (castInt e.x)) ∧
       (h.DeliversExactly e st.q_in (Stage01Capi.submit h st e).q_in ↔ h.NearStrips (castInt e.x))) ∧
     (0 < W → 0 < H →
       (∀ (dt_per_event_us : ℚ) (s : Synth R),
         let e := h.synthEvent (s.ev_t_us + dt_per_event_us) (xorshift s.state)
         h.DeliversExactly e s.q_in (h.synthStep dt_per_event_us s).q_in ↔
           h.NearStrips (castInt e.x)) ∧
       ((∀ (st : S01gHandle.Submitted R) (e : Event R),
         ¬ h.OutOfBounds (castInt e.x) (castInt e.y) →
         h.DeliversExactly e st.q_in (h.submit st e).q_in) ↔ h.N ≤ 2 ∨ h.halo ≤ h.strip_w))) := by
  intro h
  have hhalo : 0 ≤ h.halo := Int.natCast_nonneg halo
  have hsubmit : ∀ (st : S01gHandle.Submitted R) (e : Event R),
      ¬ h.OutOfBounds (castInt e.x) (castInt e.y) →
      (h.DeliversExactly e st.q_in (h.submit st e).q_in ↔ h.NearStrips (castInt e.x)) :=
    fun st e hin => S01gHandle.delivers_iff hhalo hin (h.submit_q_in st e)
  refine ⟨fun st e hin => ⟨hsubmit st e hin, hsubmit st e hin⟩, fun hW hH => ⟨fun dt s => ?_, ?_⟩⟩
  · have hin := h.synthEvent_inside (R := R) hW hH (s.ev_t_us + dt) (xorshift s.state)
    exact S01gHandle.delivers_iff hhalo hin (h.synthStep_q_in dt s hin)
  · rw [← h.nearStrips_all_iff hW]
    constructor
    · intro hall ex hex
      have hx : castInt (pixelEventAt (R := R) ex 0).x = ex := castInt_natCast ex
      have hin : ¬ h.OutOfBounds (castInt (pixelEventAt (R := R) ex 0).x)
          (castInt (pixelEventAt (R := R) ex 0).y) := by
        have hy : castInt (pixelEventAt (R := R) ex 0).y = (0 : Nat) := castInt_natCast 0
        have hHfull : h.H_full = H := rfl
        rw [hx, hy, S01gHandle.OutOfBounds]
        omega
      have hd := (hsubmit ⟨fun _ => [], 0, 0⟩ _ hin).mp (hall _ _ hin)
      rwa [hx] at hd
    · intro hall st e hin
      refine (hsubmit st e hin).mpr ?_
      simp only [S01gHandle.OutOfBounds, not_or, not_lt, ge_iff_le, not_le] at hin
      obtain ⟨ex, hex⟩ := Int.eq_ofNat_of_zero_le hin.1
      rw [hex] at hin ⊢
      exact hall ex (by exact_mod_cast hin.2.1)

theorem delivers_fourShards :
    let h := S01gHandle.init 4 2 80 64
    let st : S01gHandle.Submitted ℤ := ⟨fun _ => [], 0, 0⟩
    let e := pixelEventAt 10 0
    h.DeliversExactly e st.q_in (h.submit st e).q_in := by
  intro h st e
  have hx : castInt e.x = (10 : Nat) := castInt_natCast 10
  have hy : castInt e.y = (0 : Nat) := castInt_natCast 0
  have hin : ¬ h.OutOfBounds (castInt e.x) (castInt e.y) := by
    rw [hx, hy]
    decide
  have hall := (routing_iff (R := ℤ) 4 2 80 64).2 (by decide) (by decide)
  exact hall.2.mpr (by decide) st e hin

/-- Eighty shards on the 80 columns of the default geometry: the halo of two
reaches past the neighbouring strips, which are one column wide. -/
theorem not_delivers_eightyShards :
    let h := S01gHandle.init 80 2 80 64
    let st : S01gHandle.Submitted ℤ := ⟨fun _ => [], 0, 0⟩
    let e := pixelEventAt 10 0
    ¬ h.OutOfBounds (castInt e.x) (castInt e.y) ∧
      ¬ h.DeliversExactly e st.q_in (h.submit st e).q_in := by
  intro h st e
  have hx : castInt e.x = (10 : Nat) := castInt_natCast 10
  have hy : castInt e.y = (0 : Nat) := castInt_natCast 0
  have hin : ¬ h.OutOfBounds (castInt e.x) (castInt e.y) := by
    rw [hx, hy]
    decide
  refine ⟨hin, fun hd => ?_⟩
  have hnear := (S01gHandle.delivers_iff (Int.natCast_nonneg 2) hin (h.submit_q_in st e)).mp hd
  rw [hx] at hnear
  exact absurd hnear (by decide)

end SslaRt
