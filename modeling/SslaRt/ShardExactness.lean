import SslaRt.ShardStage1

/-! The decisions of a shard and the records that it pushes are exact as long
as no two events of different owners touch a common cell of stage 1. -/

namespace SslaRt

open CellMemory Contamination Scan

variable {R : Type*}

section Touch

/-- The events at the two pixels use one counter of a dropout, or their patches
in stage 1 overlap. The grid has `W` columns and `H` rows. -/
def Touch (W H : Nat) (a b : Pixel) : Prop :=
  a.2 / 2 * (W / 2) + a.1 / 2 = b.2 / 2 * (W / 2) + b.1 / 2 ∨
    a.2 / 2 / 2 * (W / 4) + a.1 / 2 / 2 = b.2 / 2 / 2 * (W / 4) + b.1 / 2 / 2 ∨
    ∃ c ∈ cells (neighbours (b.1 / 2) (b.2 / 2) (H / 2) (W / 2)),
      c ∈ cells (neighbours (a.1 / 2) (a.2 / 2) (H / 2) (W / 2))

instance (W H : Nat) (a b : Pixel) : Decidable (Touch W H a b) :=
  inferInstanceAs (Decidable (_ ∨ _))

theorem touch_count0 {P : SslaSPipeline R} {a b : Pixel} {c : Nat} (hb : c ∈ count0 P b)
    (ha : c ∈ count0 P a) : Touch P.W_ P.H_ a b :=
  .inl ((List.mem_singleton.mp ha).symm.trans (List.mem_singleton.mp hb))

theorem touch_count1 {P : SslaSPipeline R} {a b : Pixel} {c : Nat} (hb : c ∈ count1 P b)
    (ha : c ∈ count1 P a) : Touch P.W_ P.H_ a b :=
  .inr (.inl ((List.mem_singleton.mp ha).symm.trans (List.mem_singleton.mp hb)))

theorem touch_patch1 {P : SslaSPipeline R} {a b : Pixel} {c : Nat} (hb : c ∈ patch1 P b)
    (ha : c ∈ patch1 P a) : Touch P.W_ P.H_ a b :=
  .inr (.inr ⟨c, hb, ha⟩)

theorem touch_patch0 {P : SslaSPipeline R} (hW : 2 ≤ P.W_) (hH : 2 ≤ P.H_) {a b : Pixel}
    (ha : a ∈ gridPixels P) (hgb : b ∈ gridPixels P) {c : Nat} (hcb : c ∈ patch0 P b)
    (hca : c ∈ patch0 P a) : Touch P.W_ P.H_ a b := by
  obtain ⟨hax, hay⟩ := ha
  obtain ⟨hbx, hby⟩ := hgb
  obtain ⟨py, px, rfl, -, hpx, -, -, -, -⟩ := id (mem_cells_neighbours.mp hca)
  obtain ⟨py₁, px₁, h₁, -, hpx₁, hya, hay', hxa, hax'⟩ := mem_cells_neighbours.mp hca
  obtain ⟨py₂, px₂, h₂, -, hpx₂, hyb, hby', hxb, hbx'⟩ := mem_cells_neighbours.mp hcb
  obtain ⟨rfl, rfl⟩ := rowMajor_inj hpx₁ hpx h₁.symm
  obtain ⟨rfl, rfl⟩ := rowMajor_inj hpx₂ hpx₁ h₂.symm
  let qy := min (min (a.2 / 2) (b.2 / 2)) (P.H_ / 2 - 1)
  let qx := min (min (a.1 / 2) (b.1 / 2)) (P.W_ / 2 - 1)
  refine .inr (.inr ⟨qy * (P.W_ / 2) + qx, mem_cells_neighbours.mpr ⟨qy, qx, rfl, ?_⟩,
    mem_cells_neighbours.mpr ⟨qy, qx, rfl, ?_⟩⟩)
  · omega
  · omega

end Touch

/-- No two events of `X` that different shards own touch a common cell. -/
def SplitFree (h : S01gHandle) (X : Set Pixel) : Prop :=
  ∀ a ∈ X, ∀ b ∈ X, h.owner a.1 ≠ h.owner b.1 → ¬ Touch h.W_full h.H_full a b

section Free

variable {P : SslaSPipeline R} {h : S01gHandle} (hP : h.For P) {k : Nat} {X : Set Pixel}
  (hfree : SplitFree h X) {a : Pixel} (ha : a ∈ X) (ho : k = h.owner a.1)

include hP hfree ha ho

theorem SplitFree.not_touch {b : Pixel} (hb : b ∈ foreign h k X) : ¬ Touch P.W_ P.H_ a b := by
  obtain ⟨hbX, hne⟩ := hb
  rw [← hP.W_full, ← hP.H_full]
  exact hfree a ha b hbX fun heq => hne (ho.trans heq)

theorem SplitFree.stage1Free : Stage1Free P h k X a where
  count0 := by
    rintro ⟨-, hf | ⟨b, hb, c, hcb, hca⟩⟩
    · exact hf.2 ho
    · exact hfree.not_touch hP ha ho hb (touch_count0 hcb hca)
  count1 := by
    rintro ⟨-, hf | ⟨b, hb, c, hcb, hca⟩⟩
    · exact hf.2 ho
    · exact hfree.not_touch hP ha ho hb (touch_count1 hcb hca)
  patch1 := by
    rintro ⟨-, hf | ⟨b, hb, c, hcb, hca⟩⟩
    · exact hf.2 ho
    · exact hfree.not_touch hP ha ho hb (touch_patch1 hcb hca)

theorem SplitFree.not_reached (hX : X ⊆ gridPixels P) (hH : 2 ≤ P.H_) (hhalo : 0 ≤ h.halo) :
    a ∉ reach (patch0 P) X (unrouted h k X) := by
  have hforeign : ∀ b ∈ unrouted h k X, b ∈ foreign h k X := by
    rintro b ⟨hb, hnc⟩
    have hbx : (b.1 : Int) < h.W_full := by exact_mod_cast hP.W_full ▸ (hX hb).1
    exact ⟨hb, fun hk => hnc (h.covers_owner (Int.natCast_nonneg b.1) hbx hhalo hk)⟩
  rintro ⟨-, hun | ⟨b, hb, c, hcb, hca⟩⟩
  · exact (hforeign a hun).2 ho
  · obtain ⟨hbX, hne⟩ := hforeign b hb
    have hcol : a.1 ≠ b.1 := fun heq => hne (heq ▸ ho)
    have hax := (hX ha).1
    have hbx := (hX hbX).1
    exact hfree.not_touch hP ha ho (hforeign b hb)
      (touch_patch0 (by omega) hH (hX ha) (hX hbX) hcb hca)

end Free

/-- What a shard does with an event that it owns, against what one pipeline
computes for the event. -/
structure OwnedExact (gpu : GpuRings) (p : Event R × MsgOutcome R)
    (o' : MsgOutcome R × List (Nat × HybridInputRec R)) : Prop where
  pass0 : o'.1.pass0 = p.2.pass0
  pass1 : o'.1.pass1 = p.2.pass1
  feat1 : p.2.pass1 = true → o'.1.feat1 = p.2.feat1
  pushed : o'.2 = if p.2.pass1 then
    gpu.push p.1 (p.1.px / 2 / 2 : Nat) (p.1.py / 2 / 2 : Nat) p.2.feat1 else []

section Exact

variable [CommRing R] {P : SslaSPipeline R} {h : S01gHandle} (hP : h.For P) (gpu : GpuRings)
  {k : Nat} {X : Set Pixel}

/-- The position counts of the layers of stages 0 and 1. -/
structure SslaSPipeline.Positions (P : SslaSPipeline R) : Prop where
  layer0 : (P.layers_ 0).num_pos = 1
  layer1 : (P.layers_ 1).num_pos = 9
  layer2 : (P.layers_ 2).num_pos = 9
  layer3 : (P.layers_ 3).num_pos = 9

structure BothStagesAgree (P : SslaSPipeline R) (h : S01gHandle) (k : Nat) (X : Set Pixel)
    (w w' : WorkerState R) : Prop where
  stage0 : Stage0Agrees P h k X w.pipe w'.pipe
  stage1 : Stage1Agrees P h k X w.pipe w'.pipe

variable (hpos : P.Positions) (hX : X ⊆ gridPixels P) (hH : 2 ≤ P.H_) (hhalo : 0 ≤ h.halo)
  (hfree : SplitFree h X)

section Owned

variable {w w' : WorkerState R} {e : Event R} (hagree : BothStagesAgree P h k X w w')
  (hs : ¬ e.Skipped P) (heX : e.at ∈ X) (ho : k = h.owner e.px)

include hP hpos hX hH hhalo hfree hagree hs heX ho

theorem owned_evLayer1_agree : (evLayer1 P w.pipe e).2 = (evLayer1 P w'.pipe e).2 := by
  have hpx : (e.px : Int) < h.W_full := by exact_mod_cast hP.W_full ▸ (hX heX).1
  have hp1 : (P.layers_ 1).num_pos ≠ 1 := by rw [hpos.layer1]; decide
  exact evLayer1_out_agree hs hagree.stage0 (fun a ha => (hX ha).1)
    (h.covers_owner (Int.natCast_nonneg _) hpx hhalo ho) hpos.layer0 hp1 heX
    (hfree.not_reached hP heX ho hX hH hhalo)

theorem owned_exact : OwnedExact gpu (e, (wholeStep P w e).2)
    (Stage01ToGpu.shardStep P gpu w' (ownMessage e)).2 := by
  have hfree1 := hfree.stage1Free hP heX ho
  have hp2 : (P.layers_ 2).num_pos ≠ 1 := by rw [hpos.layer2]; decide
  have hp3 : (P.layers_ 3).num_pos ≠ 1 := by rw [hpos.layer3]; decide
  have hw := Stage01Capi.shardStep_spec P w (ownMessage e)
  have hw' := Stage01ToGpu.shardStep_spec P gpu w' (ownMessage e)
  have hfeat0 := owned_evLayer1_agree hP hpos hX hH hhalo hfree hagree hs heX ho
  have hfeat1 := evLayer3_out_agree hp2 hp3 hagree.stage1 heX hfree1 hfeat0
  have h1 : (Stage01ToGpu.shardStep P gpu w' (ownMessage e)).2.1.pass1 = (wholeStep P w e).2.pass1 := by
    rw [hw'.pass1, wholeStep, hw.pass1, msgPass1_agree hs hagree.stage1 heX hfree1]
  have hf : (wholeStep P w e).2.pass1 = true →
      (Stage01ToGpu.shardStep P gpu w' (ownMessage e)).2.1.feat1 = (wholeStep P w e).2.feat1 := by
    intro hp
    have hs' : ¬ (ownMessage e).ev.Skipped P := hs
    rw [hw'.feat1 (h1.trans hp), wholeStep, hw.feat1 hp, evStage1_eq hs', evStage1_eq hs']
    exact hfeat1.symm
  refine ⟨?_, h1, hf, ?_⟩
  · rw [hw'.pass0, wholeStep, hw.pass0, msgPass0_agree hs hagree.stage1 heX hfree1]
  · rw [Stage01ToGpu.shardStep_push, h1]
    split
    · next hp => rw [hf hp]; rfl
    · rfl

end Owned

include hP hpos hX hH hhalo hfree in
theorem bothStages_partialView : PartialView (wholeStep P) (Stage01ToGpu.shardStep P gpu)
    (h.route k) (fun e => ¬ e.Skipped P → e.at ∈ X) (BothStagesAgree P h k X) := by
  have hp1 : (P.layers_ 1).num_pos ≠ 1 := by rw [hpos.layer1]; decide
  have hp2 : (P.layers_ 2).num_pos ≠ 1 := by rw [hpos.layer2]; decide
  have hp3 : (P.layers_ 3).num_pos ≠ 1 := by rw [hpos.layer3]; decide
  have hview := stage0_partialView hP Prod.fst (Stage01ToGpu.shardStep_spec P gpu) (k := k)
    (fun a ha => (hX ha).1) hpos.layer0 hp1
  refine ⟨?_, ?_⟩
  · intro w w' e m he hr hagree
    refine ⟨hview.seen he hr hagree.stage0, ?_⟩
    obtain ⟨⟨hb, hc⟩, rfl⟩ := h.route_eq_some.mp hr
    have hs : ¬ e.Skipped P := fun hh => hb ((outOfBounds_iff hP).mpr hh)
    rw [(Stage01ToGpu.shardStep_spec P gpu _ _).pipe, wholeStep,
      (Stage01Capi.shardStep_spec P w _).pipe]
    by_cases ho : k = h.owner (castInt e.x)
    · rw [decide_eq_true ho]
      rw [(Event.in_grid hs).1] at ho
      exact stage1Agrees_owned hs hp2 hp3 hagree.stage1 (he hs) (hfree.stage1Free hP (he hs) ho)
        (owned_evLayer1_agree hP hpos hX hH hhalo hfree hagree hs (he hs) ho)
    · rw [decide_eq_false ho]
      rw [(Event.in_grid hs).1] at ho
      exact stage1Agrees_halo hs hp2 hp3 hagree.stage1 ⟨he hs, ho⟩
  · intro w w' e he hr hagree
    refine ⟨hview.unseen he hr hagree.stage0, ?_⟩
    have hno := h.route_eq_none.mp hr
    rw [wholeStep, (Stage01Capi.shardStep_spec P w _).pipe]
    by_cases hs : e.Skipped P
    · have hskip : (ownMessage e).ev.Skipped P := hs
      rw [msgPipe, if_pos hskip]
      exact hagree.stage1
    · refine stage1Agrees_foreign hs hp2 hp3 hagree.stage1 ⟨he hs, fun ho => hno ?_⟩
      have hx := (Event.in_grid hs).1
      have hpx : (e.px : Int) < h.W_full := by exact_mod_cast hP.W_full ▸ (hX (he hs)).1
      rw [outOfBounds_iff hP, hx]
      exact ⟨hs, h.covers_owner (Int.natCast_nonneg _) hpx hhalo ho⟩

end Exact

section Runs

variable [CommRing R] (P : SslaSPipeline R) (gpu : GpuRings) (w : WorkerState R) (n_shards : Int)
  (k : Nat) (events : List (Event R))

def RunExact : Prop :=
  let h := S01gHandle.init n_shards 2 P.W_ P.H_
  let msgs := shardMsgs h k events
  List.Forall₂ (OwnedExact gpu) (ownedOutcomes h k events (wholeOutcomes P w events))
    (ownerOutcomes msgs (Stage01ToGpu.shardWorker P gpu w msgs).2)

/-- The shards of a grid are exact in every run over events of `X`. -/
def ShardsExact (n_shards : Int) (W H : Nat) (X : Set Pixel) : Prop :=
  ∀ (R : Type) [CommRing R] (P : SslaSPipeline R), P.W_ = W → P.H_ = H → P.Positions →
    ∀ (gpu : GpuRings) (w : WorkerState R) (k : Nat) (events : List (Event R)),
      (∀ e ∈ events, ¬ e.Skipped P → e.at ∈ X) → RunExact P gpu w n_shards k events

theorem runExact_eq : RunExact P gpu w n_shards k events =
    let h := S01gHandle.init n_shards 2 P.W_ P.H_
    List.Forall₂ (OwnedExact gpu) (ownedOutcomes h k events (outs (wholeStep P) w events))
      (ownerOutcomes (events.filterMap (h.route k))
        (outs (Stage01ToGpu.shardStep P gpu) w (events.filterMap (h.route k)))) := by
  simp only [RunExact, Stage01ToGpu.shardWorker, runWorker_shardMsgs]
  rw [wholeOutcomes_eq, shardMsgs_eq]

variable {P n_shards} {X : Set Pixel}

theorem runExact_of_splitFree (hpos : P.Positions) (hX : X ⊆ gridPixels P) (hH : 2 ≤ P.H_)
    (hfree : SplitFree (S01gHandle.init n_shards 2 P.W_ P.H_) X)
    (hok : ∀ e ∈ events, ¬ e.Skipped P → e.at ∈ X) : RunExact P gpu w n_shards k events := by
  have hP := init_for P n_shards 2
  have hhalo : 0 ≤ (S01gHandle.init n_shards 2 P.W_ P.H_).halo := Int.natCast_nonneg 2
  have hrefl : BothStagesAgree P (S01gHandle.init n_shards 2 P.W_ P.H_) k X w w :=
    ⟨Stage0Agrees.refl _ _ _ _ _, Stage1Agrees.refl _ _ _ _ _⟩
  rw [runExact_eq]
  refine (ownedOutcomes_related hhalo (bothStages_partialView hP gpu hpos hX hH hhalo hfree)
    hok hrefl).imp fun p o' hv => ?_
  obtain ⟨e, o⟩ := p
  obtain ⟨v, v', hin, ho, hagree, hout, rfl⟩ := hv
  have hs : ¬ e.Skipped P := fun hh => ho.1 ((outOfBounds_iff hP).mpr hh)
  have hk := ho.2
  simp only [(Event.in_grid hs).1] at hk
  simp only at hout
  rw [hout]
  exact owned_exact hP gpu hpos hX hH hhalo hfree hagree hs (hin hs) hk

end Runs

end SslaRt
