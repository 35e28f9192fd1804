import SslaRt.CelledRefinement
import SslaRt.PartialView
import SslaRt.Predictions

/-! A block is fed the records of its processed rectangle only. Whatever
relates its reference run to the run over all records relates the results that
the two kernels hold for the records it owns. -/

namespace SslaRt

open Cuts Scan

def procRecs {R : Type*} {g : S2Grid} (t : BlockTopo) (recs : List (S2Record R g)) :
    List (S2Record R g) :=
  recs.filter fun rec => t.InProc rec.x rec.y

def ownedResults {R : Type*} {g : S2Grid} (strip : HybridStrip) (recs : List (S2Record R g))
    (results : List (EventResult R)) : List (EventResult R) :=
  ((recs.zip results).filter fun p => strip.Owns p.1.x p.1.y).map Prod.snd

def procRoute {R : Type*} {g : S2Grid} (t : BlockTopo) : S2Record R g → Option (S2Record R g) :=
  Option.guard fun rec => t.InProc rec.x rec.y

theorem procRoute_eq_some {R : Type*} {g : S2Grid} {t : BlockTopo} {rec rec' : S2Record R g} :
    procRoute t rec = some rec' ↔ rec = rec' ∧ t.InProc rec.x rec.y := by
  rw [procRoute, Option.guard_eq_some_iff, decide_eq_true_iff]

theorem procRoute_eq_none {R : Type*} {g : S2Grid} {t : BlockTopo} {rec : S2Record R g} :
    procRoute t rec = none ↔ ¬ t.InProc rec.x rec.y := by
  rw [procRoute, Option.guard_eq_none_iff, decide_eq_false_iff_not]

theorem inProc_of_near {W2 H2 nw nh bw bh x y x' y' : Nat}
    (h : (buildStrip (blockTopo W2 H2 nw nh bw bh)).Owns x y) (hx : x ≤ x' + 2) (hx' : x' ≤ x + 2)
    (hy : y ≤ y' + 2) (hy' : y' ≤ y + 2) (hxW : x' < W2) (hyH : y' < H2) :
    (blockTopo W2 H2 nw nh bw bh).InProc x' y' := by
  obtain ⟨⟨hx1, hx2⟩, hy1, hy2⟩ := (owns_iff W2 H2 nw nh bw bh).mp h
  simp only [BlockTopo.InProc, blockTopo, HALO]
  omega

section Transfer

variable {R : Type*} [CommRing R] (ar : Arith R) {g : S2Grid} (layers : S2S3Layers R)
  {t : BlockTopo} {window : Int} {ok : S2Record R g → Prop} {Rel : S2S3State R → S2S3State R → Prop}

def OwnedAgree (cfg cfg' : CelledConfig R g) (ok : S2Record R g → Prop)
    (Rel : S2S3State R → S2S3State R → Prop) (r r' : EventResult R) : Prop :=
  ∃ s s' rec, ok rec ∧ cfg'.strip.Owns rec.x rec.y ∧ Rel s s' ∧
    ResultAgrees ar layers cfg (s, rec) r ∧ ResultAgrees ar layers cfg' (s', rec) r'

theorem ownedResults_agree (cfg cfg' : CelledConfig R g) (hw : cfg.weights.Represents layers)
    (hw' : cfg'.weights.Represents layers) (hwin : cfg'.tdrop_window = cfg.tdrop_window)
    (hproc : ∀ rec : S2Record R g, cfg'.strip.Owns rec.x rec.y → t.InProc rec.x rec.y)
    (hview : PartialView (oracleStep ar layers cfg.tdrop_window)
      (oracleStep ar layers cfg.tdrop_window) (procRoute t) ok Rel)
    {s : S2S3State R} (hs : Rel s s) (sm sm' : Smem R) {batches batches' : List (Batch R g)}
    (hok : ∀ rec ∈ batches.flatMap Batch.recs, ok rec)
    (hfed : batches'.flatMap Batch.recs = procRecs t (batches.flatMap Batch.recs)) :
    List.Forall₂ (OwnedAgree ar layers cfg cfg' ok Rel)
      (ownedResults cfg'.strip (batches.flatMap Batch.recs) (celledRun ar cfg s sm batches).2)
      (ownedResults cfg'.strip (batches'.flatMap Batch.recs)
        (celledRun ar cfg' s sm' batches').2) := by
  let owns : S2Record R g → Bool := fun rec => cfg'.strip.Owns rec.x rec.y
  have hwhole := visits_filter_zip owns
    (celledRun_agrees ar layers cfg hw (Agrees.refl g s) sm batches).2
  have hpart := visits_filter_zip owns
    (celledRun_agrees ar layers cfg' hw' (Agrees.refl g s) sm' batches').2
  have hfed' : (batches.flatMap Batch.recs).filterMap (procRoute t) =
      batches'.flatMap Batch.recs := by
    rw [hfed, procRoute, List.filterMap_eq_filter]
    rfl
  have hroute : ∀ {rec rec' : S2Record R g}, procRoute t rec = some rec' → owns rec = owns rec' :=
    fun h => congrArg owns (procRoute_eq_some.mp h).1
  have hkeep : ∀ {rec : S2Record R g}, owns rec = true → procRoute t rec ≠ none :=
    fun h hnone => procRoute_eq_none.mp hnone (hproc _ (of_decide_eq_true h))
  have hvis := hview.visits hroute hkeep hok hs
  rw [hfed'] at hvis
  rw [hwin] at hpart
  have hflip := List.Forall₂.flip (R := flip (ResultAgrees ar layers cfg)) hwhole
  refine (forall₂_trans (forall₂_trans hflip hvis) hpart).imp fun r r' h => ?_
  obtain ⟨⟨s', rec'⟩, ⟨⟨s, rec⟩, hr, ho, hokr, hrec, hrel⟩, hr'⟩ := h
  cases (procRoute_eq_some.mp hrec).1
  exact ⟨s, s', _, hokr, of_decide_eq_true ho, hrel, hr, hr'⟩

end Transfer

end SslaRt
