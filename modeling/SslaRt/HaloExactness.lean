import SslaRt.HaloLeak

/-! Which events may arrive so that a block with its halo computes the
features of a single block. -/

namespace SslaRt

open CellMemory Contamination Scan

variable {g : S2Grid}

def SameFeature {R : Type*} (r r' : EventResult R) : Prop :=
  r.pass2 = true → r.pass3 = true → r'.pass2 = true → r'.pass3 = true → r.s3_feat = r'.s3_feat

/-- In every run over events of `X` the block computes, for every event it
owns, the feature of a single block that is fed all events. -/
def FeaturesExact (t : BlockTopo) (X : Set (S2Cell g)) : Prop :=
  ∀ (R : Type) [CommRing R] (ar : Arith R) (layers : S2S3Layers R) (window : Int)
    (strip : HybridStrip) (qvg_l4_sm qvg_l4_sm' : Nat → R) (s : S2S3State R) (sm sm' : Smem R)
    (batches batches' : List (Batch R g)),
    (∀ rec ∈ batches.flatMap Batch.recs, rec.cell ∈ X) →
    batches'.flatMap Batch.recs = procRecs t (batches.flatMap Batch.recs) →
    List.Forall₂ SameFeature
      (ownedResults (buildStrip t) (batches.flatMap Batch.recs)
        (celledRun ar ⟨window, strip, layers.upload.cacheL4 qvg_l4_sm⟩ s sm batches).2)
      (ownedResults (buildStrip t) (batches'.flatMap Batch.recs)
        (celledRun ar ⟨window, buildStrip t, layers.upload.cacheL4 qvg_l4_sm'⟩ s sm' batches').2)

theorem featuresExact_of_not_reached {t : BlockTopo} {X : Set (S2Cell g)}
    (hproc : ∀ a : S2Cell g, (buildStrip t).Owns a.1.val a.2.val → t.InProc a.1.val a.2.val)
    (hX : ∀ o ∈ X, (buildStrip t).Owns o.1.val o.2.val → o ∉ reachL7 t X) : FeaturesExact t X := by
  intro R _ ar layers window strip qvg_l4_sm qvg_l4_sm' s sm sm' batches batches' hok hfed
  have hs : LayersAgree t X s s :=
    ⟨.refl _ _ _, .refl _ _ _, .refl _ _ _, .refl _ _ _, fun _ _ _ _ => rfl⟩
  have hagree := ownedResults_agree ar layers
    ⟨window, strip, layers.upload.cacheL4 qvg_l4_sm⟩
    ⟨window, buildStrip t, layers.upload.cacheL4 qvg_l4_sm'⟩
    (layers.upload_represents.cacheL4 qvg_l4_sm) (layers.upload_represents.cacheL4 qvg_l4_sm') rfl
    (fun rec ho => hproc rec.cell ho) (layers_partialView ar layers t X window) hs sm sm' hok hfed
  refine hagree.imp (fun r r' h hp2 hp3 hp2' hp3' => ?_)
  obtain ⟨s, s', rec, hmem, ho, hl, hr, hr'⟩ := h
  rw [hr.s3_feat hp2 hp3, hr'.s3_feat hp2' hp3']
  exact s3Out_out_eq ar layers hl hmem (hX rec.cell hmem ho)

theorem ownedResults_concat {R : Type*} {strip : HybridStrip} {recs : List (S2Record R g)}
    {rec : S2Record R g} {rs : List (EventResult R)} {r : EventResult R}
    (hlen : recs.length = rs.length) (ho : strip.Owns rec.x rec.y) :
    ownedResults strip (recs ++ [rec]) (rs ++ [r]) = ownedResults strip recs rs ++ [r] := by
  rw [ownedResults, List.zip_append hlen, List.filter_append, List.map_append]
  congr 1
  simp [ho]

theorem celledRun_concat {R : Type*} [CommRing R] (ar : Arith R) (layers : S2S3Layers R)
    (cfg : CelledConfig R g) (hw : cfg.weights.Represents layers) (s : S2S3State R) (sm : Smem R) {batches : List (Batch R g)}
    {recs : List (S2Record R g)} {rec : S2Record R g}
    (hrecs : batches.flatMap Batch.recs = recs ++ [rec]) :
    ∃ rs r, (celledRun ar cfg s sm batches).2 = rs ++ [r] ∧ recs.length = rs.length ∧
      ResultAgrees ar layers cfg (final (oracleStep ar layers cfg.tdrop_window) s recs, rec) r := by
  have hall := (celledRun_agrees ar layers cfg hw (Agrees.refl g s) sm batches).2
  rw [hrecs, visits_append] at hall
  obtain ⟨rs, r, hres, hrs, hr⟩ := forall₂_concat_left hall
  refine ⟨rs, r, hres, ?_, hr⟩
  rw [← hrs.length_eq, visits_length]

/-- The kernels with mixing layers, over the events `l` in this order. -/
def MixingRunExact (t : BlockTopo) (l : List (S2Cell g)) : Prop :=
  let cfg : CelledConfig ℝ g := ⟨1, buildStrip t, mixingLayers.upload.cacheL4 0⟩
  let recs := l.map (markedRecord t)
  List.Forall₂ SameFeature
    (ownedResults (buildStrip t) recs
      (celledRun realArith cfg zeroState zeroSmem (serialBatches recs)).2)
    (ownedResults (buildStrip t) (procRecs t recs)
      (celledRun realArith cfg zeroState zeroSmem (serialBatches (procRecs t recs))).2)

theorem FeaturesExact.mixingRunExact {t : BlockTopo} {X : Set (S2Cell g)} (h : FeaturesExact t X)
    {l : List (S2Cell g)} (hl : ∀ e ∈ l, e ∈ X) : MixingRunExact t l := by
  have hok : ∀ rec ∈ (serialBatches (l.map (markedRecord t))).flatMap Batch.recs, rec.cell ∈ X := by
    intro rec hrec
    rw [serialBatches_recs] at hrec
    obtain ⟨a, ha, rfl⟩ := List.mem_map.mp hrec
    exact hl a ha
  have hh := h ℝ realArith mixingLayers 1 (buildStrip t) 0 0 zeroState zeroSmem zeroSmem _
    (serialBatches (procRecs t (l.map (markedRecord t)))) hok
    (by rw [serialBatches_recs, serialBatches_recs])
  rw [serialBatches_recs, serialBatches_recs] at hh
  exact hh

theorem MixingRunExact.s3Out_eq {t : BlockTopo} {l : List (S2Cell g)} {o : S2Cell g}
    (h : MixingRunExact t (l ++ [o])) (ho : (buildStrip t).Owns o.1.val o.2.val)
    (hin : t.InProc o.1.val o.2.val) :
    (s3Out realArith mixingLayers (wholeAt t l) (markedRecord t o)).2 =
      (s3Out realArith mixingLayers (partAt t l) (markedRecord t o)).2 := by
  have hw : (mixingLayers.upload.cacheL4 0).Represents mixingLayers :=
    mixingLayers.upload_represents.cacheL4 0
  have hpart : procRecs t (l.map (markedRecord t) ++ [markedRecord t o]) =
      (l.map (markedRecord t)).filterMap (procRoute t) ++ [markedRecord t o] := by
    rw [procRoute, List.filterMap_eq_filter, procRecs, List.filter_append]
    congr 1
    exact List.filter_cons_of_pos (decide_eq_true hin)
  obtain ⟨rs, r, hres, hlen, hr⟩ := celledRun_concat realArith mixingLayers
    ⟨1, buildStrip t, mixingLayers.upload.cacheL4 0⟩ hw zeroState zeroSmem
    (serialBatches_recs (l.map (markedRecord t) ++ [markedRecord t o]))
  obtain ⟨rs', r', hres', hlen', hr'⟩ := celledRun_concat realArith mixingLayers
    ⟨1, buildStrip t, mixingLayers.upload.cacheL4 0⟩ hw zeroState zeroSmem
    ((serialBatches_recs _).trans hpart)
  simp only [MixingRunExact, List.map_append, List.map_cons, List.map_nil] at h
  rw [hres, hres', hpart, ownedResults_concat hlen ho, ownedResults_concat hlen' ho] at h
  obtain ⟨rs'', r'', heq, -, hsame⟩ := forall₂_concat_left h
  cases (List.append_inj_right' heq rfl : [r'] = [r''])
  have h2 : r.pass2 = true := hr.pass2
  have h2' : r'.pass2 = true := hr'.pass2
  have h3 : r.pass3 = true := (hr.pass3_of_le_one le_rfl).trans h2
  have h3' : r'.pass3 = true := (hr'.pass3_of_le_one le_rfl).trans h2'
  rw [wholeAt, partAt, ← hr.s3_feat h2 h3, ← hr'.s3_feat h2' h3']
  exact hsame h2 h3 h2' h3'

/-- A mark on the value of the single block is not on the value of the block. -/
theorem MixingRunExact.not_exposed {t : BlockTopo} {l : List (S2Cell g)} {o : S2Cell g}
    (h : MixingRunExact t (l ++ [o])) (ho : (buildStrip t).Owns o.1.val o.2.val)
    (hin : t.InProc o.1.val o.2.val) :
    ¬ 0 < signal (s3Out realArith mixingLayers (wholeAt t l) (markedRecord t o)).2 := by
  rw [h.s3Out_eq ho hin, (s3Out_unmarked (partAt_unlit t l) (markedRecord_unmarked hin)).zero]
  exact lt_irrefl 0

/-- The features of a block are exact for all runs over `X` exactly if no event
of `X` that the block owns is reached from an event that it is not fed, over
shared cells of the patches of L4, L5, L6 and L7 in turn. -/
theorem featuresExact_iff {n_blocks : Nat} {topo : List BlockTopo}
    (ht : gridTopology n_blocks g.W2 g.H2 = some topo) {b : Nat} {t : BlockTopo}
    (hb : topo[b]? = some t) (X : Set (S2Cell g)) :
    FeaturesExact t X ↔ ∀ o ∈ X, (buildStrip t).Owns o.1.val o.2.val → o ∉ reachL7 t X := by
  obtain ⟨⟨nw, nh⟩, hs, -⟩ := Option.map_eq_some_iff.mp ht
  obtain ⟨-, rfl⟩ := topo_block hs ht hb
  have hproc : ∀ a : S2Cell g,
      (buildStrip (blockTopo g.W2 g.H2 nw nh (b / nh) (b % nh))).Owns a.1.val a.2.val →
      (blockTopo g.W2 g.H2 nw nh (b / nh) (b % nh)).InProc a.1.val a.2.val :=
    fun a ho => inProc_of_near ho (by omega) (by omega) (by omega) (by omega) a.1.isLt a.2.isLt
  refine ⟨fun h o hoX ho hreach => ?_, featuresExact_of_not_reached hproc⟩
  obtain ⟨l, hl, hmark⟩ := exposed_L7 _ X o hreach (hproc o ho)
  have hmem : ∀ e ∈ l ++ [o], e ∈ X := by
    intro e he
    rcases List.mem_append.mp he with he | he
    · exact hl e he
    · exact List.mem_singleton.mp he ▸ hoX
  exact (h.mixingRunExact hmem).not_exposed ho (hproc o ho) hmark

theorem featuresExact_withinHalo : ∃ topo t, gridTopology 2 20 4 = some topo ∧
    topo[0]? = some t ∧ @FeaturesExact ⟨4, 20⟩ t {a | a.1.val < 12} := by
  refine ⟨_, ⟨0, 10, 0, 4, 0, 12, 0, 4⟩, rfl, rfl,
    (@featuresExact_iff ⟨4, 20⟩ 2 _ rfl 0 ⟨0, 10, 0, 4, 0, 12, 0, 4⟩ rfl _).mpr fun o _ _ => ?_⟩
  refine reach_of_no_bad (reach_of_no_bad (reach_of_no_bad (reach_of_no_bad ?_))) o
  rintro a ⟨hX, hout⟩
  have hx : a.1.val < 12 := hX
  have hy : a.2.val < 4 := a.2.isLt
  exact hout ⟨Int.natCast_nonneg _, by dsimp only; omega, Int.natCast_nonneg _, by dsimp only; omega⟩

/-- Two blocks, with the first one owning the columns up to 10: it is not fed
the event in column 12, which changes the event in column 11, which changes the
owned event in column 9. -/
theorem not_mixingRunExact_outsideHalo :
    ∃ topo t, gridTopology 2 20 4 = some topo ∧ topo[0]? = some t ∧
      ¬ @MixingRunExact ⟨4, 20⟩ t [(12, 1), (11, 1), (9, 1)] := by
  let t : BlockTopo := ⟨0, 10, 0, 4, 0, 12, 0, 4⟩
  refine ⟨_, t, rfl, rfl, fun h => ?_⟩
  let g : S2Grid := ⟨4, 20⟩
  let u : S2Cell g := (12, 1)
  let a : S2Cell g := (11, 1)
  let o : S2Cell g := (9, 1)
  have hu : ¬ t.InProc u.1.val u.2.val := by decide
  have ho : t.InProc o.1.val o.2.val := by decide
  have hlit := wholeAt_lit t [u]
  have hlit' := wholeAt_lit t [u, a]
  have hL4 : 0 < signal (s2Buf realArith mixingLayers (wholeAt t [u]) (markedRecord t a)).2 := by
    have hH4 : 0 < featBuf ((wholeAt t [u]).H4 32) 0 := by
      rw [wholeAt_singleton, oracleStep_H4]
      exact Mixes.cell_pos mixingLayers_L4 realArith_spreads unlit_zero.lit.H4 (markedRecord_marked hu) (by decide)
    exact Mixes.signal_pos mixingLayers_L4 realArith_spreads (markedRecord_tracked a) hlit.H4
      (.inr ⟨32, by decide, hH4⟩)
  have hL5 : 0 < signal (s2Out realArith mixingLayers (wholeAt t [u, a]) (markedRecord t o)).2 := by
    have hH5 : 0 < featBuf ((wholeAt t [u, a]).H5 30) 0 := by
      rw [show [u, a] = [u] ++ [a] from rfl, wholeAt_append, oracleStep_H5]
      exact Mixes.cell_pos mixingLayers_L5 realArith_spreads hlit.H5 hL4 (by decide)
    exact Mixes.signal_pos mixingLayers_L5 realArith_spreads (s2Buf_tracked hlit' (markedRecord_tracked o)) hlit'.H5
      (.inr ⟨30, by decide, hH5⟩)
  have hL6 : 0 < signal (s3Buf realArith mixingLayers (wholeAt t [u, a]) (markedRecord t o)).2 :=
    Mixes.signal_pos mixingLayers_L6 realArith_spreads (s2Out_tracked hlit' (markedRecord_tracked o)) hlit'.H6 (.inl hL5)
  have hL7 : 0 < signal (s3Out realArith mixingLayers (wholeAt t [u, a]) (markedRecord t o)).2 :=
    Mixes.signal_pos mixingLayers_L7 realArith_spreads (s3Buf_tracked hlit' (markedRecord_tracked o)) hlit'.H7 (.inl hL6)
  exact MixingRunExact.not_exposed (l := [u, a]) h (by decide) ho hL7

end SslaRt
