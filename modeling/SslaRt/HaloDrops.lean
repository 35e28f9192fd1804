import SslaRt.HaloView
import SslaRt.OnesKernel

/-! The dropout decisions of a block with its halo. Every s2 cell and every
2x2 group of s2 cells that lies in the processed rectangle has the counter that
a single block for the whole grid has. -/

namespace SslaRt

open Cuts

variable {R : Type*}

def Drops2Agree (t : BlockTopo) (g : S2Grid) (s s' : S2S3State R) : Prop :=
  ∀ x y : Nat, x < g.W2 → t.InProc x y → s.tdrop_s2 (y * g.W2 + x) = s'.tdrop_s2 (y * g.W2 + x)

def Drops3Agree (t : BlockTopo) (g : S2Grid) (s s' : S2S3State R) : Prop :=
  ∀ cx cy : Nat, cx < g.W3 → (∀ x y : Nat, x / 2 = cx → y / 2 = cy → t.InProc x y) →
    s.tdrop_s3 (cy * g.W3 + cx) = s'.tdrop_s3 (cy * g.W3 + cx)

section Stage2

variable {g : S2Grid} {t : BlockTopo} {s s' : S2S3State R} (window : Int) (rec : S2Record R g)
  (h : Drops2Agree t g s s')

include h

theorem Drops2Agree.pass2 (hin : t.InProc rec.x rec.y) :
    (tdrop s.tdrop_s2 window (idx2 rec)).2 = (tdrop s'.tdrop_s2 window (idx2 rec)).2 :=
  tdrop_local window (h rec.x rec.y rec.x_lt hin)

variable [CommRing R] (ar : Arith R) (layers : S2S3Layers R)

theorem drops2Agree_seen :
    Drops2Agree t g (oracleStep ar layers window s rec).1 (oracleStep ar layers window s' rec).1 := by
  intro x y hx hp
  rw [oracleStep_tdrop_s2, oracleStep_tdrop_s2]
  exact tdrop_congr window _ (h x y hx hp)

theorem drops2Agree_unseen (hout : ¬ t.InProc rec.x rec.y) :
    Drops2Agree t g (oracleStep ar layers window s rec).1 s' := by
  intro x y hx hp
  have hne : y * g.W2 + x ≠ idx2 rec := by
    intro heq
    obtain ⟨hy, hx⟩ := rowMajor_inj hx rec.x_lt heq
    exact hout (hy ▸ hx ▸ hp)
  rw [oracleStep_tdrop_s2, tdrop_of_ne _ _ hne, h x y hx hp]

end Stage2

section Stage3

variable {g : EvenGrid} {t : BlockTopo} {s s' : S2S3State R} (window : Int)
  (rec : S2Record R g.toS2Grid) (h : Drops3Agree t g.toS2Grid s s')

theorem half_lt_W3 {x : Nat} (hx : x < g.W2) : x / 2 < g.W3 := by
  have hW := g.W2_even
  rw [S2Grid.W3]
  omega

include h

theorem Drops3Agree.pass3 (hin : ∀ x y : Nat, x / 2 = rec.x / 2 → y / 2 = rec.y / 2 → t.InProc x y) :
    (tdrop s.tdrop_s3 window (idx3 rec)).2 = (tdrop s'.tdrop_s3 window (idx3 rec)).2 :=
  tdrop_local window (h (rec.x / 2) (rec.y / 2) (half_lt_W3 rec.x_lt) hin)

variable [CommRing R] (ar : Arith R) (layers : S2S3Layers R)

theorem drops3Agree_seen
    (hpass : (tdrop s.tdrop_s2 window (idx2 rec)).2 = (tdrop s'.tdrop_s2 window (idx2 rec)).2) :
    Drops3Agree t g.toS2Grid (oracleStep ar layers window s rec).1
      (oracleStep ar layers window s' rec).1 := by
  intro cx cy hcx hp
  rw [oracleStep_tdrop_s3, oracleStep_tdrop_s3, hpass]
  split
  · exact tdrop_congr window _ (h cx cy hcx hp)
  · exact h cx cy hcx hp

theorem drops3Agree_unseen (hout : ¬ t.InProc rec.x rec.y) :
    Drops3Agree t g.toS2Grid (oracleStep ar layers window s rec).1 s' := by
  intro cx cy hcx hp
  have hne : cy * g.W3 + cx ≠ idx3 rec := by
    intro heq
    obtain ⟨hy, hx⟩ := rowMajor_inj hcx (half_lt_W3 rec.x_lt) heq
    exact hout (hp rec.x rec.y hx.symm hy.symm)
  rw [oracleStep_tdrop_s3]
  split
  · rw [tdrop_of_ne _ _ hne, h cx cy hcx hp]
  · exact h cx cy hcx hp

end Stage3

section Run

variable [CommRing R] (ar : Arith R) (layers : S2S3Layers R) (g : EvenGrid)

theorem drops_partialView (t : BlockTopo) (window : Int) :
    Scan.PartialView (oracleStep ar layers (g := g.toS2Grid) window) (oracleStep ar layers window)
      (procRoute t) (fun _ => True)
      fun s s' => Drops2Agree t g.toS2Grid s s' ∧ Drops3Agree t g.toS2Grid s s' where
  seen := by
    rintro s s' rec rec' - hr ⟨h2, h3⟩
    obtain ⟨rfl, hin⟩ := procRoute_eq_some.mp hr
    exact ⟨drops2Agree_seen window _ h2 ar layers,
      drops3Agree_seen window _ h3 ar layers (h2.pass2 window _ hin)⟩
  unseen := by
    rintro s s' rec - hr ⟨h2, h3⟩
    have hout := procRoute_eq_none.mp hr
    exact ⟨drops2Agree_unseen window _ h2 ar layers hout,
      drops3Agree_unseen window _ h3 ar layers hout⟩

/-- A block that is fed the records of its processed rectangle, in any batches,
drops exactly those of its own records that a single block fed all records
drops. -/
theorem celledRun_halo_drops {n_blocks : Nat} {topo : List BlockTopo}
    (ht : gridTopology n_blocks g.W2 g.H2 = some topo) {b : Nat} {t : BlockTopo}
    (hb : topo[b]? = some t) (window : Int) (strip : HybridStrip) (qvg_l4_sm qvg_l4_sm' : Nat → R)
    (s : S2S3State R) (sm sm' : Smem R) {batches batches' : List (Batch R g.toS2Grid)}
    (hfed : batches'.flatMap Batch.recs = procRecs t (batches.flatMap Batch.recs)) :
    let cfg : CelledConfig R g.toS2Grid := ⟨window, strip, layers.upload.cacheL4 qvg_l4_sm⟩
    let cfg' : CelledConfig R g.toS2Grid :=
      ⟨window, buildStrip t, layers.upload.cacheL4 qvg_l4_sm'⟩
    (ownedResults (buildStrip t) (batches.flatMap Batch.recs)
        (celledRun ar cfg s sm batches).2).map (fun r => (r.pass2, r.pass3)) =
      (ownedResults (buildStrip t) (batches'.flatMap Batch.recs)
        (celledRun ar cfg' s sm' batches').2).map (fun r => (r.pass2, r.pass3)) := by
  intro cfg cfg'
  obtain ⟨⟨nw, nh⟩, hs, -⟩ := Option.map_eq_some_iff.mp ht
  obtain ⟨-, rfl⟩ := topo_block hs ht hb
  set t := blockTopo g.W2 g.H2 nw nh (b / nh) (b % nh)
  have hnear : ∀ rec : S2Record R g.toS2Grid, (buildStrip t).Owns rec.x rec.y →
      ∀ x y : Nat, x / 2 = rec.x / 2 → y / 2 = rec.y / 2 → t.InProc x y := by
    intro rec ho x y hx hy
    have hW := g.W2_even
    have hH := g.H2_even
    have hxl := rec.x_lt
    have hyl := rec.y_lt
    exact inProc_of_near ho (by omega) (by omega) (by omega) (by omega) (by omega) (by omega)
  have hagree := ownedResults_agree ar layers cfg cfg'
    (layers.upload_represents.cacheL4 qvg_l4_sm) (layers.upload_represents.cacheL4 qvg_l4_sm') rfl
    (fun rec ho => hnear rec ho _ _ rfl rfl) (drops_partialView ar layers g t window)
    (s := s) ⟨fun _ _ _ _ => rfl, fun _ _ _ _ => rfl⟩ sm sm' (fun _ _ => trivial) hfed
  rw [← List.forall₂_eq_eq_eq, List.forall₂_map_left_iff, List.forall₂_map_right_iff]
  refine hagree.imp (fun r r' h => ?_)
  obtain ⟨s, s', rec, -, ho, ⟨h2, h3⟩, hr, hr'⟩ := h
  have hin := hnear rec ho
  have hp2 : r.pass2 = r'.pass2 := by
    rw [hr.pass2, hr'.pass2]
    exact h2.pass2 window rec (hin _ _ rfl rfl)
  rw [hr.pass3 g.W2_even, hr'.pass3 g.W2_even, hp2]
  exact congrArg (fun d => (r'.pass2, r'.pass2 && d)) (h3.pass3 window rec hin)

end Run

theorem celledRun_halo_drops_firstBlock :
    let g : EvenGrid := ⟨⟨4, 20⟩, rfl, rfl⟩
    let t := blockTopo 20 4 2 1 0 0
    let recs : List (S2Record ℤ g.toS2Grid) := [onesRecord (12, 1), onesRecord (9, 1)]
    let weights := onesLayers.upload.cacheL4 0
    (ownedResults (buildStrip t) recs (celledRun onesArith ⟨4, buildStrip t, weights⟩ zeroState
        zeroSmem (serialBatches recs)).2).map (fun r => (r.pass2, r.pass3)) =
      (ownedResults (buildStrip t) (procRecs t recs) (celledRun onesArith
        ⟨4, buildStrip t, weights⟩ zeroState zeroSmem (serialBatches (procRecs t recs))).2).map
          (fun r => (r.pass2, r.pass3)) := by
  intro g t recs weights
  have hh := @celledRun_halo_drops ℤ _ onesArith onesLayers g 2 _ rfl 0 t rfl 4 (buildStrip t) 0 0
    zeroState zeroSmem zeroSmem (serialBatches recs) (serialBatches (procRecs t recs)) (by simp)
  simpa only [serialBatches_recs] using hh

end SslaRt
