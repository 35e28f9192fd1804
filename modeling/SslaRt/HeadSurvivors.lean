import SslaRt.HeadWrites
import SslaRt.CelledRefinement
import SslaRt.ByteCounter

/-! When the head writes of a batch depend on the pace of the warps: two events
of the batch have to pass both dropouts at one s3 cell. -/

namespace SslaRt

open Interleave ByteCounter

variable {R : Type*}

def ReachesHead (n : Nat) (sm : Smem R) (e : Nat) : Prop :=
  e < n ∧ (sm.event_slots e).is_owner = true ∧ sm.pass2 e = true ∧ sm.pass3 e = true

instance (n : Nat) (sm : Smem R) (e : Nat) : Decidable (ReachesHead n sm e) :=
  inferInstanceAs (Decidable (_ ∧ _))

def eventCell (strip : HybridStrip) (sm : Smem R) (e : Nat) : Option Int :=
  headCell strip (sm.event_slots e).evx (sm.event_slots e).evy

/-- What the warp of event `e` writes; `head` is the configured head. -/
def headWrites (strip : HybridStrip) (head : (Fin C3 → R) → Nat → R) (n : Nat) (sm : Smem R)
    (e : Nat) : Option (Int × (Nat → R)) :=
  if ReachesHead n sm e then
    (eventCell strip sm e).map fun cell_idx =>
      (cell_idx, head (readFeat C3 (sm.event_slots e).in_feat))
  else none

/-- Whatever the pace of the warps, every cell ends with the last prediction
for it in ring order and its version counts the predictions. -/
def HeadOrderIndependent (strip : HybridStrip) (head : (Fin C3 → R) → Nat → R) (n : Nat)
    (sm : Smem R) : Prop :=
  ∀ (st : HeadState R) (sched : Schedule N_WARPS HEAD_STEPS),
    HeadResult (headWrites strip head n sm) st (headPhase (headWrites strip head n sm) sched st)

def SharedCell (strip : HybridStrip) (n : Nat) (sm : Smem R) : Prop :=
  ∃ e e' cell_idx, e < e' ∧ ReachesHead n sm e ∧ ReachesHead n sm e' ∧
    eventCell strip sm e = some cell_idx ∧ eventCell strip sm e' = some cell_idx

theorem headWrites_eq_some {strip : HybridStrip} {head : (Fin C3 → R) → Nat → R} {n : Nat}
    {sm : Smem R} {e : Nat} {w : Int × (Nat → R)} : headWrites strip head n sm e = some w ↔
      ReachesHead n sm e ∧ eventCell strip sm e = some w.1 ∧
        w.2 = head (readFeat C3 (sm.event_slots e).in_feat) := by
  unfold headWrites
  split
  · next h =>
    rw [Option.map_eq_some_iff]
    constructor
    · rintro ⟨c, hc, rfl⟩
      exact ⟨h, hc, rfl⟩
    · rintro ⟨-, hc, hw⟩
      exact ⟨w.1, hc, Prod.ext rfl hw.symm⟩
  · next h => simp [h]

theorem distinctCells_iff {strip : HybridStrip} {head : (Fin C3 → R) → Nat → R} {n : Nat}
    (hn : n ≤ N_WARPS) (sm : Smem R) :
    DistinctCells (headWrites strip head n sm) ↔ ¬ SharedCell strip n sm := by
  constructor
  · rintro h ⟨e, e', c, hlt, hr, hr', hc, hc'⟩
    exact h e (hr.1.trans_le hn) e' (hr'.1.trans_le hn) hlt.ne (c, _)
      (headWrites_eq_some.mpr ⟨hr, hc, rfl⟩) (c, _) (headWrites_eq_some.mpr ⟨hr', hc', rfl⟩) rfl
  · rintro h e - e' - hne w hw w' hw' heq
    obtain ⟨hr, hc, -⟩ := headWrites_eq_some.mp hw
    obtain ⟨hr', hc', -⟩ := headWrites_eq_some.mp hw'
    rcases Nat.lt_or_gt_of_ne hne with hlt | hlt
    · exact h ⟨e, e', w.1, hlt, hr, hr', hc, heq ▸ hc'⟩
    · exact h ⟨e', e, w.1, hlt, hr', hr, heq ▸ hc', hc⟩

theorem orderIndependent_iff {strip : HybridStrip} {head : (Fin C3 → R) → Nat → R} {n : Nat}
    (hn : n ≤ N_WARPS) (sm : Smem R) (st : HeadState R) :
    HeadOrderIndependent strip head n sm ↔ ¬ SharedCell strip n sm := by
  rw [← distinctCells_iff hn]
  constructor
  · exact fun h => (headResult_iff_distinct _ st).mp (h st)
  · exact fun h st => (headResult_iff_distinct _ st).mpr h

section Batch

variable [CommRing R] (ar : Arith R) {g : S2Grid} (cfg : CelledConfig R g) (st : S2S3State R)
  (sm : Smem R) (b : Batch R g)

theorem celledStage2_sameEvent {n : Nat} (sched : BatchSchedule n) (slots : Nat → EventSlot R)
    (pass2 : Nat → Bool) (e : Nat) :
    SameEvent ((celledStage2 ar cfg st sched slots pass2).slots e) (slots e) :=
  (runLayerPhases_sameEvent ar C2 C2 sched.L5 _ _ _ _ _ _ _ _ e).trans
    (runLayerPhases_sameEvent ar C1 C2 sched.L4 _ _ _ _ _ _ _ _ e)

theorem celledStage3_sameEvent {n : Nat} (sched : BatchSchedule n) (slots : Nat → EventSlot R)
    (pass2 pass3 : Nat → Bool) (e : Nat) :
    SameEvent ((celledStage3 ar cfg st sched slots pass2 pass3).slots e) (slots e) :=
  (runLayerPhases_sameEvent ar C3 C3 sched.L7 _ _ _ _ _ _ _ _ e).trans
    (runLayerPhases_sameEvent ar C2 C3 sched.L6 _ _ _ _ _ _ _ _ e)

theorem celledBatch_pooled : HoldsPooled b.recs (celledBatch ar cfg st sm b).2.event_slots := by
  have hload := loadBatch_holds b.recs cfg.strip sm.event_slots
  have hpool := poolSlots_holds b.recs (hload.of_sameEvent b.recs
    (celledStage2_sameEvent ar cfg st b.sched _ sm.pass2))
  constructor
  · exact fun e he => (celledStage3_sameEvent ar cfg st b.sched _ _ sm.pass3 e).evx.trans
      (hpool.evx e he)
  · exact fun e he => (celledStage3_sameEvent ar cfg st b.sched _ _ sm.pass3 e).evy.trans
      (hpool.evy e he)

end Batch

section Counters

variable [CommRing R] (ar : Arith R) {g : S2Grid} (layers : S2S3Layers R) (cfg : CelledConfig R g)
  (st : S2S3State R) (recs : List (S2Record R g))

def recIdx2 (k : Nat) : Nat := (recs[k]?.map idx2).getD 0

def recIdx3 (k : Nat) : Nat := (recs[k]?.map idx3).getD 0

omit [CommRing R] in
theorem recIdx2_of_lt {k : Nat} (hk : k < recs.length) : recIdx2 recs k = idx2 recs[k] := by
  rw [recIdx2, List.getElem?_eq_getElem hk]
  rfl

omit [CommRing R] in
theorem recIdx3_of_lt {k : Nat} (hk : k < recs.length) : recIdx3 recs k = idx3 recs[k] := by
  rw [recIdx3, List.getElem?_eq_getElem hk]
  rfl

theorem tdrop_pass_max (counter : Nat → UInt8) (window : Int) (idx : Nat) :
    (tdrop counter window idx).2 = true ↔ (counter idx).toNat % (max 1 window).toNat = 0 := by
  by_cases h1 : 1 ≤ window
  · rw [max_eq_right h1]
    exact tdrop_pass_iff counter h1 idx
  · rw [max_eq_left (by omega), tdrop_snd, if_pos (by omega)]
    simp [Nat.mod_one]

theorem toNat_succ (c : UInt8) {n m : Nat} (h : c.toNat = (n + m) % 256) :
    (c + 1).toNat = (n + (m + 1)) % 256 := by
  rw [UInt8.toNat_add, h, UInt8.toNat_one]
  omega

theorem oracleAt_tdrop_s2 {e : Nat} (he : e ≤ recs.length) (i : Nat) :
    ((oracleAt ar layers cfg st recs e).tdrop_s2 i).toNat =
      ((st.tdrop_s2 i).toNat + Nat.count (fun k => recIdx2 recs k = i) e) % 256 := by
  induction e with
  | zero => exact (Nat.mod_eq_of_lt (UInt8.toNat_lt _)).symm
  | succ e ih =>
    have hlt : e < recs.length := he
    rw [oracleAt_succ ar layers cfg st recs hlt, oracleStep_tdrop_s2, Nat.count_succ,
      recIdx2_of_lt recs hlt]
    by_cases hi : idx2 recs[e] = i
    · subst hi
      rw [tdrop_self, if_pos rfl]
      exact toNat_succ _ (ih hlt.le)
    · rw [tdrop_of_ne _ _ (Ne.symm hi), if_neg hi]
      exact ih hlt.le

theorem oracleAt_tdrop_s3 {pass : Nat → Prop} [DecidablePred pass]
    (hpass : ∀ k (hk : k < recs.length), oraclePass2 ar layers cfg st recs k hk = decide (pass k))
    {e : Nat} (he : e ≤ recs.length) (i : Nat) :
    ((oracleAt ar layers cfg st recs e).tdrop_s3 i).toNat =
      ((st.tdrop_s3 i).toNat + Nat.count (fun k => pass k ∧ recIdx3 recs k = i) e) % 256 := by
  induction e with
  | zero => exact (Nat.mod_eq_of_lt (UInt8.toNat_lt _)).symm
  | succ e ih =>
    have hlt : e < recs.length := he
    have hp := hpass e hlt
    rw [oraclePass2] at hp
    rw [oracleAt_succ ar layers cfg st recs hlt, oracleStep_tdrop_s3, hp, Nat.count_succ,
      recIdx3_of_lt recs hlt]
    by_cases h : pass e
    · simp only [h, decide_true, if_true, true_and]
      by_cases hi : idx3 recs[e] = i
      · subst hi
        rw [tdrop_self, if_pos rfl]
        exact toNat_succ _ (ih hlt.le)
      · rw [tdrop_of_ne _ _ (Ne.symm hi), if_neg hi]
        exact ih hlt.le
    · simp only [h, decide_false, Bool.false_eq_true, if_false, false_and]
      exact ih hlt.le

end Counters

section Flags

variable [CommRing R] (ar : Arith R) {g : S2Grid} (layers : S2S3Layers R) (cfg : CelledConfig R g)
  (st : S2S3State R) (sm : Smem R) (b : Batch R g)

theorem batch_flags (hw : cfg.weights.Represents layers) (hg : g.W2 % 2 = 0)
    {e : Nat} (he : e < b.recs.length) :
    let r := (celledBatch ar cfg st sm b).2
    (r.event_slots e).is_owner = decide (cfg.strip.Owns b.recs[e].x b.recs[e].y) ∧
      r.pass2 e = oraclePass2 ar layers cfg st b.recs e he ∧
      r.pass3 e = (oraclePass2 ar layers cfg st b.recs e he &&
        (tdrop (oracleAt ar layers cfg st b.recs e).tdrop_s3 cfg.tdrop_window
          (idx3 b.recs[e])).2) := by
  intro r
  have hres := (celledBatch_agrees ar layers cfg st b hw (Agrees.refl g st) sm).2
  have hget := (List.forall₂_iff_get.mp hres).2 e (by simpa using he) (by simpa [batchResults] using he)
  simp only [List.get_eq_getElem, Scan.visits_getElem _ _ _ e he, batchResults, List.getElem_map,
    List.getElem_range] at hget
  have h2 : r.pass2 e = oraclePass2 ar layers cfg st b.recs e he := hget.pass2
  exact ⟨hget.is_owner, h2, by rw [← h2]; exact hget.pass3 hg⟩

/-- The arrival `k` of a batch passes the dropout of stage 2, by the counters
before the batch. -/
def Passes2 (window : Int) (st : S2S3State R) (recs : List (S2Record R g)) (k : Nat) : Prop :=
  ((st.tdrop_s2 (recIdx2 recs k)).toNat +
    Nat.count (fun j => recIdx2 recs j = recIdx2 recs k) k) % 256 % (max 1 window).toNat = 0

omit [CommRing R] in
instance (window : Int) (st : S2S3State R) (recs : List (S2Record R g)) (k : Nat) :
    Decidable (Passes2 window st recs k) :=
  inferInstanceAs (Decidable (_ = _))

def Passes3 (window : Int) (st : S2S3State R) (recs : List (S2Record R g)) (k : Nat) : Prop :=
  Passes2 window st recs k ∧
    ((st.tdrop_s3 (recIdx3 recs k)).toNat +
      Nat.count (fun j => Passes2 window st recs j ∧ recIdx3 recs j = recIdx3 recs k) k) %
        256 % (max 1 window).toNat = 0

/-- Two owned records of a batch pass both dropouts at one s3 cell. -/
def SharedSurvivors (window : Int) (strip : HybridStrip) (st : S2S3State R)
    (recs : List (S2Record R g)) : Prop :=
  ∃ e e', ∃ (he : e < recs.length) (he' : e' < recs.length), ∃ cell_idx, e < e' ∧
    (strip.Owns recs[e].x recs[e].y ∧ Passes3 window st recs e ∧
      headCell strip (recs[e].x / 2 : Nat) (recs[e].y / 2 : Nat) = some cell_idx) ∧
    (strip.Owns recs[e'].x recs[e'].y ∧ Passes3 window st recs e' ∧
      headCell strip (recs[e'].x / 2 : Nat) (recs[e'].y / 2 : Nat) = some cell_idx)

theorem oraclePass2_iff {k : Nat} (hk : k < recs.length) :
    oraclePass2 ar layers cfg st recs k hk = true ↔ Passes2 cfg.tdrop_window st recs k := by
  rw [oraclePass2, tdrop_pass_max, oracleAt_tdrop_s2 ar layers cfg st recs hk.le, Passes2,
    recIdx2_of_lt recs hk]

theorem reachesHead_iff (hw : cfg.weights.Represents layers) (hg : g.W2 % 2 = 0) {e : Nat}
    (he : e < b.recs.length) : ReachesHead b.recs.length (celledBatch ar cfg st sm b).2 e ↔
      cfg.strip.Owns b.recs[e].x b.recs[e].y ∧ Passes3 cfg.tdrop_window st b.recs e := by
  obtain ⟨howner, hp2, hp3⟩ := batch_flags ar layers cfg st sm b hw hg he
  have hpass : ∀ k (hk : k < b.recs.length), oraclePass2 ar layers cfg st b.recs k hk =
      decide (Passes2 cfg.tdrop_window st b.recs k) := by
    intro k hk
    rw [Bool.eq_iff_iff, oraclePass2_iff, decide_eq_true_iff]
  have hcount := oracleAt_tdrop_s3 ar layers cfg st b.recs hpass he.le (idx3 b.recs[e])
  rw [ReachesHead, howner, hp2, hp3, Bool.and_eq_true, oraclePass2_iff, tdrop_pass_max, hcount,
    decide_eq_true_iff, Passes3, recIdx3_of_lt b.recs he]
  exact ⟨fun h => ⟨h.2.1, h.2.2.2⟩, fun h => ⟨he, h.1, h.2.1, h.2⟩⟩

theorem sharedCell_iff (hw : cfg.weights.Represents layers) (hg : g.W2 % 2 = 0) :
    SharedCell cfg.strip b.recs.length (celledBatch ar cfg st sm b).2 ↔
      SharedSurvivors cfg.tdrop_window cfg.strip st b.recs := by
  have hpool := celledBatch_pooled ar cfg st sm b
  have hcell : ∀ k (hk : k < b.recs.length), eventCell cfg.strip (celledBatch ar cfg st sm b).2 k =
      headCell cfg.strip (b.recs[k].x / 2 : Nat) (b.recs[k].y / 2 : Nat) := by
    intro k hk
    rw [eventCell, hpool.evx k hk, hpool.evy k hk]
  constructor
  · rintro ⟨e, e', c, hlt, hr, hr', hc, hc'⟩
    obtain ⟨how, hp⟩ := (reachesHead_iff ar layers cfg st sm b hw hg hr.1).mp hr
    obtain ⟨how', hp'⟩ := (reachesHead_iff ar layers cfg st sm b hw hg hr'.1).mp hr'
    exact ⟨e, e', hr.1, hr'.1, c, hlt, ⟨how, hp, (hcell e hr.1) ▸ hc⟩,
      ⟨how', hp', (hcell e' hr'.1) ▸ hc'⟩⟩
  · rintro ⟨e, e', he, he', c, hlt, ⟨how, hp, hc⟩, ⟨how', hp', hc'⟩⟩
    exact ⟨e, e', c, hlt, (reachesHead_iff ar layers cfg st sm b hw hg he).mpr ⟨how, hp⟩,
      (reachesHead_iff ar layers cfg st sm b hw hg he').mpr ⟨how', hp'⟩,
      (hcell e he).trans hc, (hcell e' he').trans hc'⟩

theorem headCell_inj {strip : HybridStrip} {x y x' y' : Nat} {cell_idx : Int}
    (h : headCell strip x y = some cell_idx) (h' : headCell strip x' y' = some cell_idx) :
    x = x' ∧ y = y' := by
  unfold headCell at h h'
  dsimp only at h h'
  split_ifs at h with hin
  split_ifs at h' with hin'
  have heq := (Option.some.inj h).trans (Option.some.inj h').symm
  generalize strip.s3_owned_hi - strip.s3_owned_lo = w at hin hin' heq
  obtain ⟨a, ha⟩ := Int.eq_ofNat_of_zero_le hin.1
  obtain ⟨a', ha'⟩ := Int.eq_ofNat_of_zero_le hin'.1
  obtain ⟨c, hc⟩ := Int.eq_ofNat_of_zero_le hin.2.2.1
  obtain ⟨c', hc'⟩ := Int.eq_ofNat_of_zero_le hin'.2.2.1
  obtain ⟨v, rfl⟩ := Int.eq_ofNat_of_zero_le (by omega : 0 ≤ w)
  rw [ha, hc, ha', hc'] at heq
  have hnat : c * v + a = c' * v + a' := by exact_mod_cast heq
  obtain ⟨hy, hx⟩ := rowMajor_inj (by omega) (by omega) hnat
  omega

def childCells (W2 cx cy : Nat) : Finset Nat :=
  {2 * cy * W2 + 2 * cx, 2 * cy * W2 + (2 * cx + 1), (2 * cy + 1) * W2 + 2 * cx,
    (2 * cy + 1) * W2 + (2 * cx + 1)}

omit [CommRing R] in
theorem idx2_mem_childCells {rec rec' : S2Record R g} (hg : g.W2 % 2 = 0) (h : idx3 rec = idx3 rec') :
    idx2 rec ∈ childCells g.W2 (rec'.x / 2) (rec'.y / 2) := by
  have hx := rec.x_lt
  have hx' := rec'.x_lt
  obtain ⟨hcy, hcx⟩ := rowMajor_inj (W := g.W3) (by unfold S2Grid.W3; omega)
    (by unfold S2Grid.W3; omega) h
  have hy : rec.y = 2 * (rec'.y / 2) ∨ rec.y = 2 * (rec'.y / 2) + 1 := by omega
  have hx : rec.x = 2 * (rec'.x / 2) ∨ rec.x = 2 * (rec'.x / 2) + 1 := by omega
  unfold idx2 childCells
  rcases hy with hy | hy <;> rcases hx with hx | hx <;> rw [hy, hx] <;> simp

omit [CommRing R] in
/-- With passes far enough apart no two records of a batch survive at one
cell. -/
theorem not_shared_of_gap (hg : g.W2 % 2 = 0) {window : Int} (strip : HybridStrip)
    (st : S2S3State R) {recs : List (S2Record R g)} (hsize : recs.length ≤ 8)
    (hgap : 5 ≤ passGap (max 1 window).toNat) : ¬ SharedSurvivors window strip st recs := by
  rintro ⟨e, e', he, he', c, hlt, ⟨-, ⟨hp2, hp3⟩, hc⟩, ⟨-, ⟨hp2', hp3'⟩, hc'⟩⟩
  obtain ⟨hxx, hyy⟩ := headCell_inj hc hc'
  have hidx3 : recIdx3 recs e' = recIdx3 recs e := by
    rw [recIdx3_of_lt recs he, recIdx3_of_lt recs he', idx3, idx3, hxx, hyy]
  rw [hidx3] at hp3'
  have hcells : ∀ k < recs.length, recIdx3 recs k = recIdx3 recs e →
      recIdx2 recs k ∈ childCells g.W2 (recs[e].x / 2) (recs[e].y / 2) := by
    intro k hk htop
    rw [recIdx3_of_lt recs hk, recIdx3_of_lt recs he] at htop
    rw [recIdx2_of_lt recs hk]
    exact idx2_mem_childCells hg htop
  exact @not_two_passes (max 1 window).toNat Nat _ recs.length (recIdx2 recs)
    (Passes2 window st recs) _ (fun i => (st.tdrop_s2 i).toNat) (by omega) (fun k _ hpk => hpk)
    (by omega) (fun k => recIdx3 recs k = recIdx3 recs e) _
    (childCells g.W2 (recs[e].x / 2) (recs[e].y / 2)) hcells (Finset.card_le_four.trans (by omega))
    _ e e' hlt he' ⟨hp2, rfl⟩ ⟨hp2', hidx3⟩ hp3 hp3'

end Flags

end SslaRt
