import SslaRt.BatchRefinement

/-! A run of the kernel over any batches refines the reference. -/

namespace SslaRt

variable {R : Type*} [CommRing R] (ar : Arith R) {g : S2Grid} (layers : S2S3Layers R)

theorem celledRun_agrees (cfg : CelledConfig R g) (hw : cfg.weights.Represents layers)
    {st s : S2S3State R} (h : Agrees g st s) (sm : Smem R) (batches : List (Batch R g)) :
    Agrees g (celledRun ar cfg st sm batches).1
        (Scan.final (oracleStep ar layers cfg.tdrop_window) s (batches.flatMap Batch.recs)) ∧
      List.Forall₂ (ResultAgrees ar layers cfg)
        (Scan.visits (oracleStep ar layers cfg.tdrop_window) s (batches.flatMap Batch.recs))
        (celledRun ar cfg st sm batches).2 := by
  induction batches generalizing st s sm with
  | nil => exact ⟨h, .nil⟩
  | cons b batches ih =>
    obtain ⟨h1, h2⟩ := celledBatch_agrees ar layers cfg s b hw h sm
    obtain ⟨h3, h4⟩ := ih h1 (celledBatch ar cfg st sm b).2
    rw [List.flatMap_cons, Scan.final_append, Scan.visits_append]
    exact ⟨h3, List.rel_append h2 h4⟩

/-- The flags and the feature that count: `pass3` is 0 for an event that the
first dropout rejected, and only an event that passes both has a feature. -/
def EventResult.reported (r : EventResult R) : Bool × Bool × Option (Fin C3 → R) :=
  (r.pass2, r.pass2 && r.pass3, if r.pass2 && r.pass3 then some r.s3_feat else none)

theorem ResultAgrees.reported_eq {cfg : CelledConfig R g} (hg : g.W2 % 2 = 0)
    {p : S2S3State R × S2Record R g} {r : EventResult R} (h : ResultAgrees ar layers cfg p r) :
    r.reported = (oracleStep ar layers cfg.tdrop_window p.1 p.2).2 := by
  have h3 := h.pass3 hg
  rw [oracleStep_out, EventResult.reported, h3, h.pass2]
  have hf := h.s3_feat
  rw [h3, h.pass2] at hf
  cases h2 : (tdrop p.1.tdrop_s2 cfg.tdrop_window (idx2 p.2)).2 with
  | false => rfl
  | true =>
    rw [h2] at hf
    simp only [Bool.true_and] at hf ⊢
    cases hd : (tdrop p.1.tdrop_s3 cfg.tdrop_window (idx3 p.2)).2 with
    | false => rfl
    | true => simp only [if_true, hf trivial hd]

/-- For every cut of a record sequence into batches, every interleaving of the
warps and every content of the shared memory, the batch flow has the final
state, the flags and the features of the reference. -/
theorem celledRun_eq_cpuOracle (g : EvenGrid) (window : Int) (strip : HybridStrip)
    (qvg_l4_sm : Nat → R) (s : S2S3State R) (sm : Smem R) (batches : List (Batch R g.toS2Grid)) :
    let cfg : CelledConfig R g.toS2Grid := ⟨window, strip, layers.upload.cacheL4 qvg_l4_sm⟩
    let r := celledRun ar cfg s sm batches
    (r.1, r.2.map EventResult.reported) =
      cpuOracle ar layers window s (batches.flatMap Batch.recs) := by
  intro cfg r
  have hw : cfg.weights.Represents layers := layers.upload_represents.cacheL4 qvg_l4_sm
  obtain ⟨h1, h2⟩ := celledRun_agrees ar layers cfg hw (Agrees.refl _ s) sm batches
  have houts : r.2.map EventResult.reported =
      Scan.outs (oracleStep ar layers window) s (batches.flatMap Batch.recs) := by
    rw [Scan.outs_eq_map_visits, eq_comm, ← List.forall₂_eq_eq_eq, List.forall₂_map_left_iff,
      List.forall₂_map_right_iff]
    exact h2.imp (fun p e h => (h.reported_eq ar layers g.W2_even).symm)
  rw [cpuOracle, ← h1.eq g.W2_even, houts]

end SslaRt
