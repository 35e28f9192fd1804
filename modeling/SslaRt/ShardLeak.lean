import SslaRt.ShardExactness

/-! Two events of different owners that touch a common cell of stage 1: the
owner of the second one decides otherwise than one pipeline, or computes
another feature, because its stage 1 never got the mark of the first one. -/

namespace SslaRt

open CellMemory Contamination Scan

variable {R : Type*}

section LastEvent

variable [CommRing R] {P : SslaSPipeline R}

structure Stage1Kept (s s' : PipeState R) : Prop where
  counter_0 : s'.tdrop_counter_ 0 = s.tdrop_counter_ 0
  counter_1 : s'.tdrop_counter_ 1 = s.tdrop_counter_ 1
  hidden_2 : s'.hidden_2 = s.hidden_2
  hidden_3 : s'.hidden_3 = s.hidden_3

theorem halo_stage1Kept {e : Event R} (hs : ¬ e.Skipped P) (s : PipeState R) :
    Stage1Kept s (msgPipe P s ⟨e, false, false⟩) := by
  have hs' : ¬ (ShardMsg.mk e false false).ev.Skipped P := hs
  have hpass : msgPass0 P s ⟨e, false, false⟩ = false := by rw [msgPass0_eq hs', Bool.false_and]
  refine ⟨?_, ?_, ?_, ?_⟩
  · rw [msgPipe_counter_0 hs']
    rfl
  · rw [msgPipe_counter_1 hs', hpass]
    rfl
  · rw [msgPipe_hidden_2 hs', hpass]
    rfl
  · rw [msgPipe_hidden_3 hs', hpass]
    rfl

variable {gpu : GpuRings} {w : WorkerState R} {n_shards : Int} {k : Nat} {b a : Event R}

/-- What exactness says about an owned event after a foreign one. -/
theorem RunExact.after_foreign (h : RunExact P gpu w n_shards k [b, a]) (hsb : ¬ b.Skipped P)
    (hb : ¬ (S01gHandle.init n_shards 2 P.W_ P.H_).Owns k b)
    (ha : (S01gHandle.init n_shards 2 P.W_ P.H_).Owns k a) :
    ∃ w', Stage1Kept w.pipe w'.pipe ∧ OwnedExact gpu (a, (wholeStep P (wholeStep P w b).1 a).2)
      (Stage01ToGpu.shardStep P gpu w' (ownMessage a)).2 := by
  rw [runExact_eq] at h
  simp only at h
  have hP := init_for P n_shards 2
  have hhalo : 0 ≤ (S01gHandle.init n_shards 2 P.W_ P.H_).halo := Int.natCast_nonneg 2
  generalize S01gHandle.init n_shards 2 P.W_ P.H_ = sh at *
  have hra : sh.route k a = some (ownMessage a) :=
    sh.route_eq_some.mpr ⟨⟨ha.1, sh.covers_of_owns hhalo ha⟩, by rw [decide_eq_true ha.2]; rfl⟩
  have hwhole : ownedOutcomes sh k [b, a] (outs (wholeStep P) w [b, a]) =
      [(a, (wholeStep P (wholeStep P w b).1 a).2)] := by
    simp [ownedOutcomes, outs, hb, ha]
  rw [hwhole] at h
  cases hrb : sh.route k b with
  | none =>
    rw [List.filterMap_cons_none hrb, List.filterMap_cons_some hra, List.filterMap_nil] at h
    refine ⟨w, ⟨rfl, rfl, rfl, rfl⟩, ?_⟩
    simpa [ownerOutcomes, outs, ownMessage] using h
  | some m =>
    obtain ⟨⟨hoob, -⟩, rfl⟩ := sh.route_eq_some.mp hrb
    have hno : ¬ k = sh.owner (castInt b.x) := fun hk => hb ⟨hoob, hk⟩
    rw [List.filterMap_cons_some hrb, List.filterMap_cons_some hra, List.filterMap_nil,
      decide_eq_false hno] at h
    refine ⟨(Stage01ToGpu.shardStep P gpu w ⟨b, false, false⟩).1, ?_, ?_⟩
    · rw [(Stage01ToGpu.shardStep_spec P gpu w _).pipe]
      exact halo_stage1Kept hsb w.pipe
    · simpa [ownerOutcomes, outs, ownMessage] using h

theorem OwnedExact.decisions {w w' : WorkerState R} {e : Event R}
    (h : OwnedExact gpu (e, (wholeStep P w e).2) (Stage01ToGpu.shardStep P gpu w' (ownMessage e)).2) :
    msgPass0 P w'.pipe (ownMessage e) = msgPass0 P w.pipe (ownMessage e) ∧
      msgPass1 P w'.pipe (ownMessage e) = msgPass1 P w.pipe (ownMessage e) := by
  have hw := Stage01Capi.shardStep_spec P w (ownMessage e)
  have hw' := Stage01ToGpu.shardStep_spec P gpu w' (ownMessage e)
  exact ⟨hw'.pass0.symm.trans (h.pass0.trans hw.pass0), hw'.pass1.symm.trans (h.pass1.trans hw.pass1)⟩

theorem OwnedExact.features {w w' : WorkerState R} {e : Event R} (hs : ¬ e.Skipped P)
    (h : OwnedExact gpu (e, (wholeStep P w e).2) (Stage01ToGpu.shardStep P gpu w' (ownMessage e)).2)
    (hp : msgPass1 P w'.pipe (ownMessage e) = true) :
    (evLayer3 P w'.pipe e).2 = (evLayer3 P w.pipe e).2 := by
  have hw := Stage01Capi.shardStep_spec P w (ownMessage e)
  have hw' := Stage01ToGpu.shardStep_spec P gpu w' (ownMessage e)
  have hp' : (wholeStep P w e).2.pass1 = true := hw.pass1.trans (h.decisions.2.symm.trans hp)
  have hs' : ¬ (ownMessage e).ev.Skipped P := hs
  have hf := hw'.feat1 (hw'.pass1.trans hp)
  have hf' := hw.feat1 hp'
  rw [evStage1_eq hs'] at hf hf'
  exact hf.symm.trans ((h.feat1 hp').trans hf')

end LastEvent

section Probes

variable {W H : Nat} {window : Int} {a b : Pixel} {p : ℝ}

theorem polarEvent_in_grid (ha : a.1 < W ∧ a.2 < H) :
    ¬ (polarEvent p a).Skipped (signalPipeline W H window) := by
  have hx : castInt (polarEvent p a).x = a.1 := castInt_natCast a.1
  have hy : castInt (polarEvent p a).y = a.2 := castInt_natCast a.2
  rw [Event.Skipped, SslaSPipeline.OutOfBounds, hx, hy]
  simp only [signalPipeline]
  omega

theorem own_in_grid (ha : a.1 < W ∧ a.2 < H) :
    ¬ (ownMessage (polarEvent p a)).ev.Skipped (signalPipeline W H window) := polarEvent_in_grid ha

theorem polarEvent_owns {n_shards : Int} {k : Nat} (ha : a.1 < W ∧ a.2 < H) :
    (S01gHandle.init n_shards 2 W H).Owns k (polarEvent p a) ↔
      k = (S01gHandle.init n_shards 2 W H).owner a.1 := by
  have hs : ¬ (polarEvent p a).Skipped (signalPipeline W H 1) := polarEvent_in_grid ha
  have hx : castInt (polarEvent p a).x = a.1 := castInt_natCast a.1
  rw [← outOfBounds_iff (init_for (signalPipeline W H 1) n_shards 2)] at hs
  rw [S01gHandle.Owns, ← hx]
  exact ⟨fun h => h.2, fun h => ⟨hs, h⟩⟩

noncomputable def afterEvent (W H : Nat) (window : Int) (b : Pixel) : PipeState ℝ :=
  msgPipe (signalPipeline W H window) SslaSPipeline.reset (ownMessage (polarEvent 1 b))

theorem tdrop_of_one {counter : Nat → UInt8} {idx : Nat} (h : counter idx = 1) :
    (tdrop counter 2 idx).2 = false := by
  simp [tdrop, h]

variable {s' : PipeState ℝ} (hkept : Stage1Kept SslaSPipeline.reset s')
  (ha : a.1 < W ∧ a.2 < H) (hb : b.1 < W ∧ b.2 < H)

section Kept

include hkept ha

theorem kept_msgPass0 : msgPass0 (signalPipeline W H window) s' (ownMessage (polarEvent p a)) = true := by
  rw [msgPass0_eq (own_in_grid ha)]
  exact tdrop_of_zero (congrFun hkept.counter_0 _)

theorem kept_msgPass1 : msgPass1 (signalPipeline W H window) s' (ownMessage (polarEvent p a)) = true := by
  rw [msgPass1_eq (own_in_grid ha),
    kept_msgPass0 hkept ha]
  exact tdrop_of_zero (congrFun hkept.counter_1 _)

end Kept

section After

include hb

theorem afterEvent_counter_0 : (afterEvent W H window b).tdrop_counter_ 0 =
    (evCount0 (signalPipeline W H window) SslaSPipeline.reset (polarEvent 1 b)).1 :=
  msgPipe_counter_0 (own_in_grid hb)

theorem reset_msgPass0 :
    msgPass0 (signalPipeline W H window) SslaSPipeline.reset (ownMessage (polarEvent 1 b)) = true :=
  kept_msgPass0 ⟨rfl, rfl, rfl, rfl⟩ hb

theorem afterEvent_counter_1 : (afterEvent W H window b).tdrop_counter_ 1 =
    (evCount1 (signalPipeline W H window) SslaSPipeline.reset (polarEvent 1 b)).1 := by
  have hs : ¬ (ownMessage (polarEvent 1 b)).ev.Skipped (signalPipeline W H window) :=
    own_in_grid hb
  rw [afterEvent, msgPipe_counter_1 hs, if_pos (reset_msgPass0 hb)]
  rfl

theorem afterEvent_hidden_2 : (afterEvent W H window b).hidden_2 =
    (evLayer2 (signalPipeline W H window) SslaSPipeline.reset (polarEvent 1 b)).1 := by
  have hs : ¬ (ownMessage (polarEvent 1 b)).ev.Skipped (signalPipeline W H window) :=
    own_in_grid hb
  rw [afterEvent, msgPipe_hidden_2 hs, if_pos (reset_msgPass0 hb)]
  rfl

end After

include ha hb

theorem afterEvent_msgPass0 (hcell : count0 (signalPipeline W H 2) a = count0 (signalPipeline W H 2) b) :
    msgPass0 (signalPipeline W H 2) (afterEvent W H 2 b) (ownMessage (polarEvent 0 a)) = false := by
  have hidx : (polarEvent 0 a).idx0 (signalPipeline W H 2) = (polarEvent 1 b).idx0 (signalPipeline W H 2) := by
    simpa [count0, Event.idx0] using hcell
  rw [msgPass0_eq (own_in_grid ha)]
  refine tdrop_of_one ?_
  rw [afterEvent_counter_0 hb]
  exact hidx ▸ tdrop_self _ _ _

theorem afterEvent_msgPass1 (hcell : count1 (signalPipeline W H 2) a = count1 (signalPipeline W H 2) b) :
    msgPass1 (signalPipeline W H 2) (afterEvent W H 2 b) (ownMessage (polarEvent 0 a)) = false := by
  have hidx : (polarEvent 0 a).idx1 (signalPipeline W H 2) = (polarEvent 1 b).idx1 (signalPipeline W H 2) := by
    simpa [count1, Event.idx1] using hcell
  rw [msgPass1_eq (own_in_grid ha)]
  refine Bool.and_eq_false_imp.mpr fun _ => tdrop_of_one ?_
  rw [afterEvent_counter_1 hb]
  exact hidx ▸ tdrop_self _ _ _

omit ha in
/-- Without the first event the second one carries no mark, with it it does. -/
theorem afterEvent_feat1 (ha : a.1 < W ∧ a.2 < H) (hkept : Stage1Kept SslaSPipeline.reset s') {c : Nat}
    (hcb : c ∈ patch1 (signalPipeline W H window) b) (hca : c ∈ patch1 (signalPipeline W H window) a) :
    signal (evLayer3 (signalPipeline W H window) s' (polarEvent 0 a)).2 = 0 ∧
      0 < signal (evLayer3 (signalPipeline W H window) (afterEvent W H window b) (polarEvent 0 a)).2 := by
  have hsa : ¬ (polarEvent (0 : ℝ) a).Skipped (signalPipeline W H window) := polarEvent_in_grid ha
  have hsb : ¬ (polarEvent (1 : ℝ) b).Skipped (signalPipeline W H window) := polarEvent_in_grid hb
  have hmix := signal_ref2 signal_projected
  have hzero : Uncharged (SslaSPipeline.reset : PipeState ℝ).hidden_2 := uncharged_zero
  have hfresh : Charged (SslaSPipeline.reset : PipeState ℝ).hidden_2 := fun d => (hzero d).ge
  obtain ⟨hone, t, -, hsig⟩ := signal_evLayer1 s' hsa
  obtain ⟨hone', t', -, hsig'⟩ := signal_evLayer1 (afterEvent W H window b) hsa
  obtain ⟨honeb, tb, htb, hsigb⟩ := signal_evLayer1 SslaSPipeline.reset hsb
  obtain ⟨u, -, hout⟩ := signal_evLayer3 W H window s' (polarEvent 0 a)
  obtain ⟨u', hu', hout'⟩ := signal_evLayer3 W H window (afterEvent W H window b) (polarEvent 0 a)
  rw [show (polarEvent (0 : ℝ) a).p = 0 from rfl, mul_zero] at hsig hsig'
  rw [show (polarEvent (1 : ℝ) b).p = 1 from rfl, mul_one] at hsigb
  have hposb : 0 < signal (evLayer1 (signalPipeline W H window) SslaSPipeline.reset (polarEvent 1 b)).2 :=
    hsigb.symm ▸ htb
  refine ⟨?_, ?_⟩
  · rw [hout, signal_evLayer2, hkept.hidden_2]
    rw [(Mixes.unmarked hmix realArith_spreads ⟨hone, hsig⟩ hzero).zero, mul_zero]
  · rw [hout', signal_evLayer2, afterEvent_hidden_2 hb, signal_evLayer2]
    refine mul_pos hu' (Mixes.signal_pos hmix realArith_spreads ⟨hone', hsig'.ge⟩
      (Mixes.cell_nonneg hmix realArith_spreads ⟨honeb, hposb.le⟩ hfresh) (.inr ⟨c, ?_, ?_⟩))
    · rw [LayerRef.patch_eq _ rfl, polarEvent_px, polarEvent_py]
      exact hca
    · refine Mixes.cell_pos hmix realArith_spreads hfresh hposb ?_
      rw [LayerRef.patch_eq _ rfl, polarEvent_px, polarEvent_py]
      exact hcb

end Probes

section Leak

variable {W H : Nat} {window : Int} {a b : Pixel} {gpu : GpuRings} {n_shards : Int} {k : Nat}
  (ha : a.1 < W ∧ a.2 < H) (hb : b.1 < W ∧ b.2 < H)
  (hka : k = (S01gHandle.init n_shards 2 W H).owner a.1)
  (hkb : k ≠ (S01gHandle.init n_shards 2 W H).owner b.1)

include ha hb hka hkb

theorem RunExact.probe
    (h : RunExact (signalPipeline W H window) gpu zeroWorker n_shards k [polarEvent 1 b, polarEvent 0 a]) :
    ∃ w', Stage1Kept SslaSPipeline.reset w'.pipe ∧ ∃ w, w.pipe = afterEvent W H window b ∧
      OwnedExact gpu (polarEvent 0 a, (wholeStep (signalPipeline W H window) w (polarEvent 0 a)).2)
        (Stage01ToGpu.shardStep (signalPipeline W H window) gpu w' (ownMessage (polarEvent 0 a))).2 := by
  obtain ⟨w', hkept, hex⟩ := h.after_foreign (polarEvent_in_grid hb)
    (fun ho => hkb ((polarEvent_owns hb).mp ho)) ((polarEvent_owns ha).mpr hka)
  exact ⟨w', hkept, _, (Stage01Capi.shardStep_spec _ zeroWorker _).pipe, hex⟩

theorem RunExact.count0_ne
    (h : RunExact (signalPipeline W H 2) gpu zeroWorker n_shards k [polarEvent 1 b, polarEvent 0 a]) :
    count0 (signalPipeline W H 2) a ≠ count0 (signalPipeline W H 2) b := by
  intro hcell
  obtain ⟨w', hkept, w, hw, hex⟩ := h.probe ha hb hka hkb
  have hpass := hex.decisions.1
  rw [kept_msgPass0 hkept ha, hw, afterEvent_msgPass0 ha hb hcell] at hpass
  exact absurd hpass (by decide)

theorem RunExact.count1_ne
    (h : RunExact (signalPipeline W H 2) gpu zeroWorker n_shards k [polarEvent 1 b, polarEvent 0 a]) :
    count1 (signalPipeline W H 2) a ≠ count1 (signalPipeline W H 2) b := by
  intro hcell
  obtain ⟨w', hkept, w, hw, hex⟩ := h.probe ha hb hka hkb
  have hpass := hex.decisions.2
  rw [kept_msgPass1 hkept ha, hw, afterEvent_msgPass1 ha hb hcell] at hpass
  exact absurd hpass (by decide)

theorem RunExact.patch1_disjoint
    (h : RunExact (signalPipeline W H window) gpu zeroWorker n_shards k [polarEvent 1 b, polarEvent 0 a])
    {c : Nat} (hcb : c ∈ patch1 (signalPipeline W H window) b) :
    c ∉ patch1 (signalPipeline W H window) a := by
  intro hca
  obtain ⟨w', hkept, w, hw, hex⟩ := h.probe ha hb hka hkb
  have hfeat := hex.features (polarEvent_in_grid ha) (kept_msgPass1 hkept ha)
  obtain ⟨hclean, hmarked⟩ := afterEvent_feat1 hb ha hkept hcb hca
  rw [hfeat, hw] at hclean
  exact hmarked.ne' hclean

end Leak

/-- The shards of a grid are exact for all runs over `X` exactly if no two
events of `X` with different owners touch a common cell of stage 1. -/
theorem shardsExact_iff {n_shards : Int} {W H : Nat} (hH : 2 ≤ H) {X : Set Pixel}
    (hX : ∀ a ∈ X, a.1 < W ∧ a.2 < H) :
    ShardsExact n_shards W H X ↔ SplitFree (S01gHandle.init n_shards 2 W H) X := by
  constructor
  · intro h a ha b hb hne htouch
    obtain ⟨k, hk⟩ := Int.eq_ofNat_of_zero_le
      ((S01gHandle.init n_shards 2 W H).owner_nonneg (Int.natCast_nonneg a.1))
    have hrun (window : Int) : RunExact (signalPipeline W H window) ⟨false, [], 2, 0⟩ zeroWorker
        n_shards k [polarEvent 1 b, polarEvent 0 a] := by
      refine h ℝ (signalPipeline W H window) rfl rfl ⟨rfl, rfl, rfl, rfl⟩ _ _ k _ fun e he _ => ?_
      rcases List.mem_pair.mp he with rfl | rfl
      · exact (polarEvent_at 1 b).symm ▸ hb
      · exact (polarEvent_at 0 a).symm ▸ ha
    have hkb : k ≠ (S01gHandle.init n_shards 2 W H).owner b.1 := fun heq => hne (hk.trans heq)
    rcases htouch with h0 | h1 | ⟨c, hcb, hca⟩
    · exact (hrun 2).count0_ne (hX a ha) (hX b hb) hk.symm hkb (congrArg (fun c => [c]) h0)
    · exact (hrun 2).count1_ne (hX a ha) (hX b hb) hk.symm hkb (congrArg (fun c => [c]) h1)
    · exact (hrun 1).patch1_disjoint (hX a ha) (hX b hb) hk.symm hkb hcb hca
  · intro hfree R _ P hW hH' hpos gpu w k events hok
    subst hW hH'
    exact runExact_of_splitFree gpu w k events hpos hX hH hfree hok

theorem shardsExact_apart : ShardsExact 2 16 8 {(3, 1), (12, 5)} := by
  refine (shardsExact_iff (by decide) ?_).mpr ?_
  · rintro a (rfl | rfl)
    · decide
    · decide
  · rintro a (rfl | rfl) b (rfl | rfl)
    · exact fun hne => absurd rfl hne
    · exact fun _ => by decide
    · exact fun _ => by decide
    · exact fun hne => absurd rfl hne

def oneBlock : GpuRings := ⟨true, [⟨0, 4, 0, 2⟩], 4, 2⟩

/-- Two shards of eight columns: the first one owns the event in column 7, whose
patch in stage 1 overlaps the patch of the event in column 8. -/
theorem not_runExact_acrossStrips : ¬ RunExact (signalPipeline 16 8 1) oneBlock zeroWorker 2 0
    [polarEvent 1 (8, 0), polarEvent 0 (7, 0)] := fun h =>
  h.patch1_disjoint (by decide) (by decide) (by decide) (by decide)
    (show 3 ∈ patch1 (signalPipeline 16 8 1) (8, 0) by decide) (by decide)

end SslaRt
