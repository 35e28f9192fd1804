import SslaRt.CelledBatch

/-! A batch of the kernel leaves the state and the results that the reference
leaves after the same events. -/

namespace SslaRt

open Interleave

variable {R : Type*} [CommRing R]

/-- Equal up to the counters of the last dropout, which no layer depends on. -/
structure AgreeLayers (s t : S2S3State R) : Prop where
  H4 : s.H4 = t.H4
  H5 : s.H5 = t.H5
  H6 : s.H6 = t.H6
  H7 : s.H7 = t.H7
  tdrop_s2 : s.tdrop_s2 = t.tdrop_s2

section

variable (ar : Arith R) {g : S2Grid} (layers : S2S3Layers R) (cfg : CelledConfig R g)
  (s : S2S3State R) (recs : List (S2Record R g))

def oracleAt (e : Nat) : S2S3State R :=
  Scan.final (oracleStep ar layers cfg.tdrop_window) s (recs.take e)

theorem oracleAt_succ {e : Nat} (he : e < recs.length) :
    oracleAt ar layers cfg s recs (e + 1) =
      (oracleStep ar layers cfg.tdrop_window (oracleAt ar layers cfg s recs e) recs[e]).1 :=
  Scan.final_take_succ _ _ _ _ he

structure HoldsRecords (slots : Nat → EventSlot R) : Prop where
  evx : ∀ e (he : e < recs.length), (slots e).evx = recs[e].x
  evy : ∀ e (he : e < recs.length), (slots e).evy = recs[e].y

structure HoldsPooled (slots : Nat → EventSlot R) : Prop where
  evx : ∀ e (he : e < recs.length), (slots e).evx = recs[e].x / 2
  evy : ∀ e (he : e < recs.length), (slots e).evy = recs[e].y / 2

theorem loadBatch_of_lt (strip : HybridStrip) (event_slots : Nat → EventSlot R) {e : Nat}
    (he : e < recs.length) :
    loadBatch strip recs event_slots e = loadSlot strip recs[e] (event_slots e) := by
  simp only [loadBatch, List.getElem?_eq_getElem he]

theorem loadBatch_holds (strip : HybridStrip) (event_slots : Nat → EventSlot R) :
    HoldsRecords recs (loadBatch strip recs event_slots) :=
  ⟨fun e he => by rw [loadBatch_of_lt recs strip event_slots he]; rfl,
    fun e he => by rw [loadBatch_of_lt recs strip event_slots he]; rfl⟩

theorem loadBatch_feat (strip : HybridStrip) (event_slots : Nat → EventSlot R) {e : Nat}
    (he : e < recs.length) :
    readFeat C1 (loadBatch strip recs event_slots e).in_feat = recs[e].feat1 := by
  rw [loadBatch_of_lt recs strip event_slots he]
  funext i
  simp [readFeat, loadSlot]

omit [CommRing R] in
theorem poolSlots_holds {slots : Nat → EventSlot R} (h : HoldsRecords recs slots) :
    HoldsPooled recs (poolSlots recs.length slots) :=
  ⟨fun e he => by rw [poolSlots, if_pos he, ← h.evx e he],
    fun e he => by rw [poolSlots, if_pos he, ← h.evy e he]⟩

omit [CommRing R] in
theorem HoldsRecords.of_sameEvent {slots slots' : Nat → EventSlot R} (h : HoldsRecords recs slots)
    (hs : ∀ e, SameEvent (slots' e) (slots e)) : HoldsRecords recs slots' :=
  ⟨fun e he => (hs e).evx.trans (h.evx e he), fun e he => (hs e).evy.trans (h.evy e he)⟩

def oraclePass2 (e : Nat) (he : e < recs.length) : Bool :=
  (tdrop (oracleAt ar layers cfg s recs e).tdrop_s2 cfg.tdrop_window (idx2 recs[e])).2

structure Stage2Agrees (slots : Nat → EventSlot R) (r : Stage2Result R) : Prop where
  H4 : r.H4 = (oracleAt ar layers cfg s recs recs.length).H4
  H5 : r.H5 = (oracleAt ar layers cfg s recs recs.length).H5
  tdrop_s2 : r.tdrop_s2 = (oracleAt ar layers cfg s recs recs.length).tdrop_s2
  pass2 : ∀ e (he : e < recs.length), r.pass2 e = oraclePass2 ar layers cfg s recs e he
  out_feat : ∀ e (he : e < recs.length), r.pass2 e = true → readFeat C2 (r.slots e).in_feat =
    (s2Out ar layers (oracleAt ar layers cfg s recs e) recs[e]).2
  event : ∀ e, SameEvent (r.slots e) (slots e)

variable (hw : cfg.weights.Represents layers) (hn : recs.length ≤ N_WARPS) {st : S2S3State R}
  (h : AgreeLayers st s) (sched : BatchSchedule recs.length) {slots : Nat → EventSlot R}

include hw hn h

theorem celledStage2_agrees (hs : HoldsRecords recs slots)
    (hf : ∀ e (he : e < recs.length), readFeat C1 (slots e).in_feat = recs[e].feat1)
    (pass2 : Nat → Bool) :
    Stage2Agrees ar layers cfg s recs slots (celledStage2 ar cfg st sched slots pass2) := by
  have hsucc := fun e (he : e < recs.length) => oracleAt_succ ar layers cfg s recs he
  set os := oracleAt ar layers cfg s recs with hos
  have hidx : ∀ e (he : e < recs.length), tdropIdx slots g.W2 e = idx2 recs[e] := by
    intro e he
    rw [tdropIdx, hs.evx e he, hs.evy e he]
    rfl
  have hbuf : ∀ e (he : e < recs.length),
      layerStep ar layers.L4 (readFeat C1 (slots e).in_feat) (os e).H4 (slots e).evx (slots e).evy
        g.H2 g.W2 = s2Buf ar layers (os e) recs[e] := by
    intro e he
    rw [hf e he, hs.evx e he, hs.evy e he]
    rfl
  obtain ⟨htd, hpass⟩ := parallelTdrop_spec cfg.tdrop_window slots g.W2 none
    (fun e he _ => by rw [hs.evx e he]; exact recs[e].x_lt) st.tdrop_s2 pass2
    (fun k => (os k).tdrop_s2) h.tdrop_s2.symm
    (fun e he => by rw [hsucc e he, oracleStep_tdrop_s2, hidx e he]; rfl) sched.tdrop_s2
  have run4 := runLayerCelledImplicit_spec ar layers.L4_K hw.L4 hn sched.L4 g.H2 g.W2 slots
    (fun e => readFeat C1 (slots e).in_feat) st.H4 (fun k => (os k).H4) h.H4.symm none
    (fun _ _ _ => rfl)
    (fun e he => by rw [hbuf e he, hsucc e he, oracleStep_H4]; rfl)
  set td := parallelTdrop sched.tdrop_s2 cfg.tdrop_window st.tdrop_s2 slots g.W2 none pass2
  set L4 := runLayerCelledImplicit ar C1 C2 sched.L4 g.H2 g.W2 slots none cfg.weights.L4 st.H4
  have hout : ∀ e (he : e < recs.length),
      layerStep ar layers.L5 (readFeat C2 (L4.1 e).in_feat) (os e).H5 (L4.1 e).evx (L4.1 e).evy
        g.H2 g.W2 = s2Out ar layers (os e) recs[e] := by
    intro e he
    rw [run4.out_feat e he rfl, hbuf e he, (run4.event e).evx, (run4.event e).evy, hs.evx e he,
      hs.evy e he]
    rfl
  have run5 := runLayerCelledImplicitSplit_spec ar layers.L5_K hw.L5 hn sched.L5 g.H2 g.W2 L4.1
    (fun e => readFeat C2 (L4.1 e).in_feat) st.H5 (fun k => (os k).H5) h.H5.symm none (some td.2)
    (fun _ _ _ => rfl)
    (fun e he => by rw [hout e he, hsucc e he, oracleStep_H5]; rfl)
  refine ⟨run4.hidden, run5.hidden, htd, fun e he => ?_, fun e he hp => ?_, fun e => ?_⟩
  · exact (hpass e he).trans (by rw [hidx e he]; rfl)
  · exact (run5.out_feat e he ⟨rfl, hp⟩).trans (congrArg Prod.snd (hout e he))
  · exact (run5.event e).trans (run4.event e)

structure Stage3Agrees (slots : Nat → EventSlot R) (pass2 : Nat → Bool) (r : Stage3Result R) :
    Prop where
  H6 : r.H6 = (oracleAt ar layers cfg s recs recs.length).H6
  H7 : r.H7 = (oracleAt ar layers cfg s recs recs.length).H7
  out_feat : ∀ e (he : e < recs.length), pass2 e = true → r.pass3 e = true →
    readFeat C3 (r.slots e).in_feat = (s3Out ar layers (oracleAt ar layers cfg s recs e) recs[e]).2
  event : ∀ e, SameEvent (r.slots e) (slots e)

theorem celledStage3_agrees (hs : HoldsPooled recs slots) {pass2 : Nat → Bool}
    (hp2 : ∀ e (he : e < recs.length), pass2 e = oraclePass2 ar layers cfg s recs e he)
    (hf : ∀ e (he : e < recs.length), pass2 e = true → readFeat C2 (slots e).in_feat =
      (s2Out ar layers (oracleAt ar layers cfg s recs e) recs[e]).2)
    (pass3 : Nat → Bool) :
    Stage3Agrees ar layers cfg s recs slots pass2
      (celledStage3 ar cfg st sched slots pass2 pass3) := by
  have hsucc := fun e (he : e < recs.length) => oracleAt_succ ar layers cfg s recs he
  have hsel : ∀ e, selected (some pass2) e = pass2 e := fun _ => rfl
  simp only [oraclePass2] at hp2
  set os := oracleAt ar layers cfg s recs with hos
  have hbuf : ∀ e (he : e < recs.length), pass2 e = true →
      layerStep ar layers.L6 (readFeat C2 (slots e).in_feat) (os e).H6 (slots e).evx (slots e).evy
        g.H3 g.W3 = s3Buf ar layers (os e) recs[e] := by
    intro e he hp
    rw [hf e he hp, hs.evx e he, hs.evy e he]
    rfl
  have run6 := runLayerCelledImplicit_spec ar layers.L6_K hw.L6 hn sched.L6 g.H3 g.W3 slots
    (fun e => readFeat C2 (slots e).in_feat) st.H6 (fun k => (os k).H6) h.H6.symm (some pass2)
    (fun _ _ _ => rfl)
    (fun e he => by
      rw [hsucc e he, oracleStep_H6, ← hp2 e he, hsel]
      split
      · next hp => rw [hbuf e he hp]
      · rfl)
  set L6 := runLayerCelledImplicit ar C2 C3 sched.L6 g.H3 g.W3 slots (some pass2) cfg.weights.L6
    st.H6
  have hout : ∀ e (he : e < recs.length), pass2 e = true →
      layerStep ar layers.L7 (readFeat C3 (L6.1 e).in_feat) (os e).H7 (L6.1 e).evx (L6.1 e).evy
        g.H3 g.W3 = s3Out ar layers (os e) recs[e] := by
    intro e he hp
    rw [run6.out_feat e he hp, hbuf e he hp, (run6.event e).evx, (run6.event e).evy, hs.evx e he,
      hs.evy e he]
    rfl
  set td := parallelTdrop sched.tdrop_s3 cfg.tdrop_window st.tdrop_s3 slots g.W3 (some pass2) pass3
  have run7 := runLayerCelledImplicitSplit_spec ar layers.L7_K hw.L7 hn sched.L7 g.H3 g.W3 L6.1
    (fun e => readFeat C3 (L6.1 e).in_feat) st.H7 (fun k => (os k).H7) h.H7.symm (some pass2)
    (some td.2) (fun _ _ _ => rfl)
    (fun e he => by
      rw [hsucc e he, oracleStep_H7, ← hp2 e he, hsel]
      split
      · next hp => rw [hout e he hp]
      · rfl)
  refine ⟨run6.hidden, run7.hidden, fun e he hp hp' => ?_, fun e => ?_⟩
  · exact (run7.out_feat e he ⟨hp, hp'⟩).trans (congrArg Prod.snd (hout e he hp))
  · exact (run7.event e).trans (run6.event e)

omit hw hn h in
/-- Where the s3 grid covers the s2 grid, the last dropout agrees as well. -/
theorem celledStage3_tdrop (hg : g.W2 % 2 = 0) (hs : HoldsPooled recs slots) {pass2 : Nat → Bool}
    (hp2 : ∀ e (he : e < recs.length), pass2 e = oraclePass2 ar layers cfg s recs e he)
    (htd3 : st.tdrop_s3 = s.tdrop_s3) (pass3 : Nat → Bool) :
    let r := celledStage3 ar cfg st sched slots pass2 pass3
    r.tdrop_s3 = (oracleAt ar layers cfg s recs recs.length).tdrop_s3 ∧
      ∀ e (he : e < recs.length), r.pass3 e = (pass2 e &&
        (tdrop (oracleAt ar layers cfg s recs e).tdrop_s3 cfg.tdrop_window (idx3 recs[e])).2) := by
  have hsucc := fun e (he : e < recs.length) => oracleAt_succ ar layers cfg s recs he
  have hsel : ∀ e, selected (some pass2) e = pass2 e := fun _ => rfl
  simp only [oraclePass2] at hp2
  set os := oracleAt ar layers cfg s recs with hos
  have hidx : ∀ e (he : e < recs.length), tdropIdx slots g.W3 e = idx3 recs[e] := by
    intro e he
    rw [tdropIdx, hs.evx e he, hs.evy e he]
    rfl
  have hx : ∀ e < recs.length, (slots e).evx < g.W3 := by
    intro e he
    have hx := recs[e].x_lt
    rw [hs.evx e he, S2Grid.W3]
    omega
  obtain ⟨htd, hpass⟩ := parallelTdrop_spec cfg.tdrop_window slots g.W3 (some pass2)
    (fun e he _ => hx e he) st.tdrop_s3 pass3 (fun k => (os k).tdrop_s3) htd3.symm
    (fun e he => by
      rw [hsucc e he, oracleStep_tdrop_s3, ← hp2 e he, hidx e he, hsel]) sched.tdrop_s3
  exact ⟨htd, fun e he => (hpass e he).trans (by rw [hidx e he, hsel])⟩

end

section

variable (ar : Arith R) {g : S2Grid} (layers : S2S3Layers R) (cfg : CelledConfig R g)
  (s : S2S3State R) (b : Batch R g)

/-- The states agree; the last counters only where the s3 grid covers the s2 grid. -/
structure Agrees (g : S2Grid) (s t : S2S3State R) : Prop extends AgreeLayers s t where
  tdrop_s3 : g.W2 % 2 = 0 → s.tdrop_s3 = t.tdrop_s3

omit [CommRing R] in
theorem Agrees.refl (g : S2Grid) (s : S2S3State R) : Agrees g s s :=
  ⟨⟨rfl, rfl, rfl, rfl, rfl⟩, fun _ => rfl⟩

omit [CommRing R] in
theorem Agrees.eq {s t : S2S3State R} (h : Agrees g s t) (hg : g.W2 % 2 = 0) : s = t := by
  obtain ⟨⟨h4, h5, h6, h7, h2⟩, h3⟩ := h
  cases s
  cases t
  simp only at h4 h5 h6 h7 h2 h3
  rw [h4, h5, h6, h7, h2, h3 hg]

structure ResultAgrees (p : S2S3State R × S2Record R g) (r : EventResult R) : Prop where
  is_owner : r.is_owner = decide (cfg.strip.Owns p.2.x p.2.y)
  pass2 : r.pass2 = (tdrop p.1.tdrop_s2 cfg.tdrop_window (idx2 p.2)).2
  pass3 : g.W2 % 2 = 0 →
    r.pass3 = (r.pass2 && (tdrop p.1.tdrop_s3 cfg.tdrop_window (idx3 p.2)).2)
  pass3_of_le_one : cfg.tdrop_window ≤ 1 → r.pass3 = r.pass2
  s3_feat : r.pass2 = true → r.pass3 = true → r.s3_feat = (s3Out ar layers p.1 p.2).2

theorem celledBatch_agrees (hw : cfg.weights.Represents layers) {st : S2S3State R}
    (h : Agrees g st s) (sm : Smem R) :
    let r := celledBatch ar cfg st sm b
    Agrees g r.1 (Scan.final (oracleStep ar layers cfg.tdrop_window) s b.recs) ∧
      List.Forall₂ (ResultAgrees ar layers cfg)
        (Scan.visits (oracleStep ar layers cfg.tdrop_window) s b.recs)
        (batchResults b.recs.length r.2) := by
  have hn : b.recs.length ≤ N_WARPS := b.size_le.trans (by decide)
  have hload := loadBatch_holds b.recs cfg.strip sm.event_slots
  set slots := loadBatch cfg.strip b.recs sm.event_slots with hslots
  have h2 := celledStage2_agrees ar layers cfg s b.recs hw hn h.toAgreeLayers b.sched hload
    (fun e he => loadBatch_feat b.recs cfg.strip sm.event_slots he) sm.pass2
  set s2 := celledStage2 ar cfg st b.sched slots sm.pass2
  have hpool := poolSlots_holds b.recs (hload.of_sameEvent b.recs h2.event)
  have h3 := celledStage3_agrees ar layers cfg s b.recs hw hn h.toAgreeLayers b.sched hpool h2.pass2
    (fun e he hp => by
      rw [poolSlots, if_pos he]
      exact h2.out_feat e he hp) sm.pass3
  have h3t := fun hg => celledStage3_tdrop ar layers cfg s b.recs b.sched hg hpool h2.pass2
    (h.tdrop_s3 hg) sm.pass3
  set s3 := celledStage3 ar cfg st b.sched (poolSlots b.recs.length s2.slots) s2.pass2 sm.pass3
  have hfin : oracleAt ar layers cfg s b.recs b.recs.length =
      Scan.final (oracleStep ar layers cfg.tdrop_window) s b.recs := by
    rw [oracleAt, List.take_length]
  refine ⟨?_, ?_⟩
  · rw [← hfin]
    exact ⟨⟨h2.H4, h2.H5, h3.H6, h3.H7, h2.tdrop_s2⟩, fun hg => (h3t hg).1⟩
  · refine List.forall₂_iff_get.mpr ⟨by simp [batchResults], fun e he he' => ?_⟩
    have hlt : e < b.recs.length := by simpa using he
    simp only [List.get_eq_getElem, Scan.visits_getElem _ _ _ e hlt, batchResults, List.getElem_map,
      List.getElem_range]
    refine ⟨?_, h2.pass2 e hlt, fun hg => (h3t hg).2 e hlt, fun hw1 =>
      parallelTdrop_of_le_one _ _ _ _ _ _ _ hw1 hlt, h3.out_feat e hlt⟩
    have hown : (s3.slots e).is_owner = (slots e).is_owner := by
      rw [(h3.event e).is_owner, poolSlots, if_pos hlt]
      exact (h2.event e).is_owner
    exact hown.trans (by rw [hslots, loadBatch_of_lt b.recs cfg.strip sm.event_slots hlt]; rfl)

end

end SslaRt
