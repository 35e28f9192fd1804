import SslaRt.FusedStages
import SslaRt.RealArith
import SslaRt.ReplicatedSchemeSpec
import Mathlib.Analysis.SpecialFunctions.Exp

/-! With two owners the pipeline of the right one takes the last event left of the
border twice into layer 0, and its own next event gets another feature. -/

namespace SslaRt

open CellMemory Scan

section Border

variable {W N : Nat}

theorem shardOfCol_zero : shardOfCol W N 0 = 0 := by
  have hclamp : (clampCol W 0).toNat = 0 := by
    simp only [clampCol]
    split_ifs <;> omega
  simp only [shardOfCol, hclamp, Nat.zero_div]
  split <;> omega

/-- The first column of the next owner. -/
theorem exists_border (h : shardOfCol W N ((W : Int) - 1) ≠ 0) : ∃ c : Nat, c + 1 < W ∧
    shardOfCol W N c = 0 ∧ shardOfCol W N ((c : Int) + 1) ≠ 0 := by
  have hW : 0 < W := by
    by_contra hW
    refine h ?_
    rw [← shardOfCol_clampCol, show clampCol W ((W : Int) - 1) = -1 by simp [clampCol]; omega]
    rw [← Nat.le_zero, ← shardOfCol_zero (W := W) (N := N)]
    exact shardOfCol_mono (by omega)
  have hlast : ∃ c : Nat, shardOfCol W N c ≠ 0 := ⟨W - 1, by
    rwa [show ((W - 1 : Nat) : Int) = (W : Int) - 1 by omega]⟩
  have hfound := Nat.find_spec hlast
  have hmin := fun c hc => not_not.mp (Nat.find_min hlast (m := c) hc)
  have hle : Nat.find hlast ≤ W - 1 := Nat.find_le (by
    rwa [show ((W - 1 : Nat) : Int) = (W : Int) - 1 by omega])
  cases hc : Nat.find hlast with
  | zero =>
    rw [hc] at hfound
    exact absurd shardOfCol_zero hfound
  | succ c =>
    rw [hc] at hfound hle
    refine ⟨c, by omega, hmin c (by omega), ?_⟩
    rwa [← Int.natCast_succ]

end Border

/-- Layer 0 puts one into the event's cell and sends the other layers a mark unless the cell was
fresh; the other layers mix. -/
noncomputable def leakLayers : Nat → LayerWeights ℝ
  | 0 => signalWeights kInDim kC0 1 (unitRow 0) (unitRow 0) (some (-unitRow 0))
  | 1 => signalWeights kC0 kC0 9 (unitRow 1) markRow none
  | 2 => signalWeights kC0 kC1 9 (unitRow 1) markRow (some markRow)
  | _ => signalWeights kC1 kC1 9 (unitRow 1) markRow none

noncomputable def realHeadArith : HeadArith ℝ := ⟨fun v => v * Real.sigmoid v, Real.exp⟩

noncomputable def leakDetector (W H : Nat) : SslaSDetector ℝ where
  ar := realArith
  castFloat := fun v => v
  H_ := H
  W_ := W
  tdrop_window_ := 1
  layers_ := leakLayers
  hm := realHeadArith
  num_classes_ := 2
  num_head_levels_ := 1
  levels_pos := Nat.one_pos
  levels_le := one_le_four
  head_weights := fun _ => ⟨fun _ => 0, fun _ => 0, fun _ => 0, fun _ => 0, fun _ => 0, fun _ => 0,
    fun _ => 0, fun _ => 0, fun _ => 0, fun _ => 0⟩

section Layers

variable {W H : Nat}

variable (W H) in
theorem leak_schema : (leakDetector W H).Schema where
  layer0 := signalWeights_schema rfl
  layer1 := signalWeights_schema rfl
  layer2 := signalWeights_schema rfl
  layer3 := signalWeights_schema rfl

theorem leak_ref0 (hpass : (leakLayers 0).input_proj = none → kInDim = kC0) :
    SignalLayer (L := (leakLayers 0).ref hpass) (unitRow 0) (unitRow 0) (-unitRow 0) :=
  signalWeights_projected (by decide) _ hpass

theorem leak_ref1 (hpass : (leakLayers 1).input_proj = none → kC0 = kC0) :
    Mixes ((leakLayers 1).ref hpass) := signalWeights_plain (by decide) hpass

variable (x y : Nat)

/-- Layer 0 on an event whose first channel is one. -/
theorem leak_layer0 {f : Fin kInDim → ℝ} (hf : featBuf f 0 = 1) (H_all : Nat → Fin kC0 → ℝ) :
    let cell := y * (leakDetector W H).Ws_ 0 + x
    let r := (leakDetector W H).layer0 x y f H_all
    (∀ c ≠ cell, r.1 c = H_all c) ∧ featBuf r.2 1 = 1 ∧
      ∃ s, 0 < s ∧ signal r.2 = s * (Real.sigmoid 0 * featBuf (H_all cell) 0) := by
  intro cell r
  have hpass : (leakLayers 0).input_proj = none → kInDim = kC0 := (leak_schema W H).layer0.passthrough
  have hpatch : ((leakLayers 0).ref hpass).patch x y ((leakDetector W H).Hs_ 0) ((leakDetector W H).Ws_ 0) =
      [cell] := rfl
  have hr : r = layerStep realArith ((leakLayers 0).ref hpass) f H_all x y ((leakDetector W H).Hs_ 0)
      ((leakDetector W H).Ws_ 0) := by
    unfold r
    rw [layer0_eq (leak_schema W H)]
    exact layerForwardCt_eq (leakLayers 0) hpass realArith x y _ _ f H_all
  have hneg : dot (-unitRow 0) f = -1 := by
    rw [← zero_sub, dot_sub, dot_unitRow, hf, dot_zero]
    exact zero_sub 1
  obtain ⟨hone, s, hs, hout⟩ := SignalLayer.out (leak_ref0 hpass) realArith_spreads f H_all x y
    ((leakDetector W H).Hs_ 0) ((leakDetector W H).Ws_ 0)
  rw [hr]
  refine ⟨fun c hc => layerStep_frame _ _ (by rw [hpatch]; simpa using hc), hone, s, hs, ?_⟩
  rw [hout, hpatch, List.map_singleton, List.sum_singleton, dot_unitRow, hf, hneg]
  simp only [realArith]
  ring

theorem leak_layer1 (f : Fin kC0 → ℝ) (H_all : Nat → Fin kC0 → ℝ)
    (hpass : (leakLayers 1).input_proj = none → kC0 = kC0) :
    (leakDetector W H).layer1 x y f H_all = layerStep realArith ((leakLayers 1).ref hpass) f H_all x y
      ((leakDetector W H).Hs_ 0) ((leakDetector W H).Ws_ 0) := by
  rw [layer1_eq (leak_schema W H)]
  exact layerForwardCt_eq (leakLayers 1) hpass realArith x y _ _ f H_all

/-- The event left of the border, with and without a charge in its cell, and then the
event right of the border: only the charge leaves a mark. -/
theorem leak_outputs_ne {c : Nat} (hc : c + 1 < W) (hH : 0 < H) {f : Fin kInDim → ℝ} (hf : featBuf f 0 = 1)
    {g : Fin kC0 → ℝ} (hg : featBuf g 0 = 1) :
    let P := leakDetector W H
    let l0 := P.layer0 c 0 f 0
    let l0' := P.layer0 c 0 f (Function.update 0 (0 * P.Ws_ 0 + c) g)
    let m0 := P.layer0 (c + 1) 0 f l0.1
    let m0' := P.layer0 (c + 1) 0 f l0'.1
    (P.layer1 (c + 1) 0 m0.2 (P.layer1 c 0 l0.2 0).1).2 ≠
      (P.layer1 (c + 1) 0 m0'.2 (P.layer1 c 0 l0'.2 0).1).2 := by
  intro P l0 l0' m0 m0'
  have hW : P.Ws_ 0 = W := Nat.div_one W
  have hHs : P.Hs_ 0 = H := Nat.div_one H
  have hpass : (leakLayers 1).input_proj = none → kC0 = kC0 := fun _ => rfl
  have hmix := leak_ref1 hpass
  have hzero : ∀ c, featBuf ((0 : Nat → Fin kC0 → ℝ) c) 0 = 0 := uncharged_zero
  have hcell : 0 * P.Ws_ 0 + (c + 1) ≠ 0 * P.Ws_ 0 + c := by omega
  obtain ⟨hframe, hone, s, hs, hsig⟩ := leak_layer0 (W := W) (H := H) c 0 hf 0
  obtain ⟨hframe', hone', s', hs', hsig'⟩ := leak_layer0 (W := W) (H := H) c 0 hf
    (Function.update 0 (0 * P.Ws_ 0 + c) g)
  obtain ⟨-, hmone, t, ht, hmsig⟩ := leak_layer0 (W := W) (H := H) (c + 1) 0 hf l0.1
  obtain ⟨-, hmone', t', ht', hmsig'⟩ := leak_layer0 (W := W) (H := H) (c + 1) 0 hf l0'.1
  -- the next cell of layer 0 is fresh in both runs
  rw [hframe _ hcell, hzero, mul_zero, mul_zero] at hmsig
  rw [hframe' _ hcell, Function.update_of_ne hcell, hzero, mul_zero, mul_zero] at hmsig'
  rw [hzero, mul_zero, mul_zero] at hsig
  rw [Function.update_self, hg, mul_one] at hsig'
  have hmark : 0 < signal l0'.2 := hsig' ▸ mul_pos hs' (Real.sigmoid_pos 0)
  have hmem : ∀ x, x ≤ c + 1 → c ≤ x → 0 * P.Ws_ 0 + (c + 1) ∈
      ((leakLayers 1).ref hpass).patch x 0 (P.Hs_ 0) (P.Ws_ 0) := by
    intro x hx hx'
    rw [LayerRef.patch_eq _ rfl]
    exact mem_cells_neighbours.mpr ⟨0, c + 1, rfl, by omega, by omega, by omega, by omega, by omega, by omega⟩
  have hclean : signal (P.layer1 (c + 1) 0 m0.2 (P.layer1 c 0 l0.2 0).1).2 = 0 := by
    rw [leak_layer1 _ _ _ _ hpass, leak_layer1 _ _ _ _ hpass]
    exact (Mixes.unmarked hmix realArith_spreads ⟨hmone, hmsig⟩
      (Mixes.uncharged hmix hsig uncharged_zero)).zero
  have hmarked : 0 < signal (P.layer1 (c + 1) 0 m0'.2 (P.layer1 c 0 l0'.2 0).1).2 := by
    have hl0 : Tracked l0'.2 := ⟨hone', hmark.le⟩
    have hcharged : Charged (0 : Nat → Fin kC0 → ℝ) := fun d => (hzero d).ge
    rw [leak_layer1 _ _ _ _ hpass, leak_layer1 _ _ _ _ hpass]
    refine Mixes.signal_pos hmix realArith_spreads ⟨hmone', hmsig'.ge⟩
      (Mixes.cell_nonneg hmix realArith_spreads hl0 hcharged) (.inr ⟨_, hmem (c + 1) le_rfl (by omega), ?_⟩)
    exact Mixes.cell_pos hmix realArith_spreads hcharged hmark (hmem c (by omega) le_rfl)
  intro heq
  rw [heq] at hclean
  exact hmarked.ne' hclean

end Layers

section Events

variable {R : Type*} [CommRing R] {P : SslaSDetector R} {N : Nat} {s : DetectorState R} {e : Event R}

/-- What the stages after stage 0 leave of it. -/
theorem throughStages_stage0 {d : DetectorState R → (Fin 4 → SslaSDetector.Touched R) → DetectorState R}
    (hd : ∀ s at_, (d s at_).hidden_ = s.hidden_) (x y : Nat) (feat_in : Nat → R) :
    let f0 := P.stageForward s x y 0 feat_in fun _ => 0
    let r := P.throughStages d s x y feat_in
    r.2.feats.head? = some f0.2 ∧ ∀ l, l / 2 = 0 → r.1.hidden_ l = f0.1.hidden_ l := by
  intro f0 r
  have hf := fun (u : DetectorState R) (stage : Fin 4) (x y : Nat) (feat : Nat → R) =>
    (onlyStage_stageForward (s := u) P x y feat (fun _ => 0) stage).hidden_
  have hp := fun (u : DetectorState R) (stage x y : Nat) =>
    show (P.tdropAndPool u stage x y).1.hidden_ = u.hidden_ from rfl
  unfold r SslaSDetector.throughStages
  dsimp only
  split
  · exact ⟨rfl, fun l _ => rfl⟩
  · split
    · refine ⟨rfl, fun l hl => ?_⟩
      rw [hp, hf _ 1 _ _ _ l (by rw [hl]; decide), hp]
    · split
      · refine ⟨rfl, fun l hl => ?_⟩
        rw [hp, hf _ 2 _ _ _ l (by rw [hl]; decide), hp, hf _ 1 _ _ _ l (by rw [hl]; decide), hp]
      · refine ⟨rfl, fun l hl => ?_⟩
        rw [hd, hf _ 3 _ _ _ l (by rw [hl]; decide), hp, hf _ 2 _ _ _ l (by rw [hl]; decide), hp,
          hf _ 1 _ _ _ l (by rw [hl]; decide), hp]

theorem referenceEvent_stage0 (hin : ¬ P.OutOfBounds (castInt e.x) (castInt e.y)) :
    let f0 := P.stageForward (P.preprocess s e).1 (castInt e.x).toNat (castInt e.y).toNat 0
      (featBuf (P.preprocess s e).2) fun _ => 0
    let r := P.referenceEvent s e
    r.2.bind (fun out => out.feats.head?) = some f0.2 ∧ ∀ l, l / 2 = 0 → r.1.hidden_ l = f0.1.hidden_ l := by
  intro f0 r
  unfold r SslaSDetector.referenceEvent
  rw [if_neg hin]
  refine throughStages_stage0 (fun u at_ => ?_) _ _ _
  simp only [headDecodeCell_kept]

theorem shardEvent_owner_stage0 (x y : Nat) (mask : BitVec 16) (feat_in : Fin kInDim → R) :
    (P.shardEvent s ⟨true, mask, x, y, feat_in⟩).2.feats.head? =
      some (P.stageForward s x y 0 (featBuf feat_in) fun _ => 0).2 := by
  rw [shardEvent_owner]
  exact (throughStages_stage0 (fun u at_ => (headDecodeCell_kept 3 _ _ _).1) x y (featBuf feat_in)).1

theorem shardEvent_other_stage0 (x y : Nat) (mask : BitVec 16) (feat_in : Fin kInDim → R) (l : Nat)
    (hl : l / 2 = 0) : (P.shardEvent s ⟨false, mask, x, y, feat_in⟩).1.hidden_ l =
      (P.stageForward (P.shardLayerForward s 0 x y (featBuf feat_in) mask).1 x y 0 (featBuf feat_in)
        fun _ => 0).1.hidden_ l := by
  unfold SslaSDetector.shardEvent
  exact (throughStages_stage0 (fun _ _ => rfl) x y (featBuf feat_in)).2 l hl

theorem preprocess_fresh (hin : ¬ P.OutOfBounds (castInt e.x) (castInt e.y))
    (h : s.last_t_us_ ((castInt e.y).toNat * P.W_ + (castInt e.x).toNat) = -1) :
    (P.preprocess s e).2 = ![1, e.p] := by
  unfold SslaSDetector.preprocess SslaSPipeline.preprocess
  dsimp only
  rw [if_neg hin, show s.pipe.last_t_us_ = s.last_t_us_ from rfl, h]
  exact congrArg (fun v => ![v, e.p]) (if_pos (by norm_num))

theorem preprocess_other_pixel (hin : ¬ P.OutOfBounds (castInt e.x) (castInt e.y)) {pidx : Nat}
    (h : pidx ≠ (castInt e.y).toNat * P.W_ + (castInt e.x).toNat) :
    (P.preprocess s e).1.last_t_us_ pidx = s.last_t_us_ pidx := by
  unfold SslaSDetector.preprocess SslaSPipeline.preprocess
  dsimp only
  rw [if_neg hin]
  exact Function.update_of_ne h ..

/-- What an event adds to the queue of an affected shard that does not own it. -/
theorem pushOne_beside (st : ReplicatedState R) {k : Nat} (hk : k < N)
    (hin : ¬ P.OutOfBounds (castInt e.x) (castInt e.y)) (hne : k ≠ shardOfCol P.W_ N (castInt e.x))
    (haffected : isAffected P.W_ N (castInt e.x) k = true) :
    (P.pushOne N st e).pipes k = st.pipes k ∧
      (P.pushOne N st e).q_own k = st.q_own k ++ [⟨false,
        shardPatchMask k (castInt e.x).toNat P.W_ N, (castInt e.x).toNat, (castInt e.y).toNat,
        (P.preprocess (st.pipes (shardOfCol P.W_ N (castInt e.x))) e).2⟩] := by
  unfold SslaSDetector.pushOne
  rw [if_neg hin]
  exact ⟨Function.update_of_ne hne .., by simp [hk, haffected, hne]⟩

/-- The outcomes of an event that `k` gets beside its strip, and of one of its own. -/
theorem strict_pair {b a : Event R} {k : Nat} (hk : k < N)
    (hinb : ¬ P.OutOfBounds (castInt b.x) (castInt b.y)) (hne : k ≠ shardOfCol P.W_ N (castInt b.x))
    (haffected : isAffected P.W_ N (castInt b.x) k = true) (howner : P.ownerOf N a = some k)
    (h : P.Strict N s [b, a]) :
    (P.referenceEvent (P.referenceEvent s b).1 a).2 =
      some (P.shardEvent (P.shardEvent (P.preprocess s a).1 ⟨false,
          shardPatchMask k (castInt b.x).toNat P.W_ N, (castInt b.x).toNat, (castInt b.y).toNat,
          (P.preprocess s b).2⟩).1
        ⟨true, 0x1FF#16, (castInt a.x).toNat, (castInt a.y).toNat, (P.preprocess s a).2⟩).2 := by
  have hN : 0 < N := by omega
  have hb : P.ownerOf N b ≠ some k := by
    unfold SslaSDetector.ownerOf
    rw [if_neg hinb]
    exact fun hsome => hne (Option.some_inj.mp hsome).symm
  have hpush : P.pushAll N s [b] = P.pushOne N ⟨fun _ => s, fun _ => []⟩ b := rfl
  obtain ⟨hpipe, hq⟩ := pushOne_beside ⟨fun _ => s, fun _ => []⟩ hk hinb hne haffected
  obtain ⟨hina, hpipe', hq', -⟩ := pushOne_inside (P.pushAll N s [b]) hN howner
  rw [hpush, hpipe] at hpipe' hq'
  rw [hq, List.nil_append] at hq'
  have hstrict := h k hk
  rw [show [b, a] = [b] ++ [a] from rfl, referenceOutcomes_snoc, if_pos howner,
    referenceOutcomes_nil (by simpa using hb), List.nil_append] at hstrict
  have href : final P.referenceEvent s [b] = (P.referenceEvent s b).1 := rfl
  rw [href] at hstrict
  have hsome := congrArg List.head? hstrict
  rw [Option.head?_toList] at hsome
  rw [← hsome]
  unfold SslaSDetector.ownerOutcomes
  dsimp only
  rw [pushAll_append, hpush, hpipe', hq']
  simp [outs]

end Events

section Leak

variable {W H N : Nat}

theorem leak_stage0 (s : DetectorState ℝ) (x y : Nat) (f : Fin kInDim → ℝ) :
    let P := leakDetector W H
    let l0 := P.layer0 x y f (s.hidden_ 0)
    let l1 := P.layer1 x y l0.2 (s.hidden_ 1)
    let r := P.stageForward s x y 0 (featBuf f) fun _ => 0
    r.2 = writeFeat (fun _ => 0) l1.2 ∧ r.1.hidden_ 0 = l0.1 ∧ r.1.hidden_ 1 = l1.1 := by
  intro P l0 l1 r
  obtain ⟨hpipe, hout⟩ := pipe_stageForward0 P (s := s) x y (featBuf f) (leak_schema W H) fun _ => 0
  rw [show readFeat kInDim (featBuf f) = f from readFeat_writeFeat _ _, stageForward0_eq] at hpipe hout
  exact ⟨hout, congrArg PipeState.hidden_0 hpipe, congrArg PipeState.hidden_1 hpipe⟩

theorem leak_addsOnce (x y Hl Wl : Nat) {f : Fin kInDim → ℝ} (hf : featBuf f 0 = 1) {mask : BitVec 16}
    (hbit : mask.getLsbD 0 = true) : ∃ g : Fin kC0 → ℝ, featBuf g 0 = 1 ∧
      (shardLayerForwardCt realArith kInDim kC0 (leakLayers 0) x y Hl Wl f mask 0).1 =
        Function.update (0 : Nat → Fin kC0 → ℝ) (y * Wl + x) g := by
  have hpass : (leakLayers 0).input_proj = none → kInDim = kC0 := (leak_schema 0 0).layer0.passthrough
  have hpatches : shardPatches (leakLayers 0).num_pos mask x y Hl Wl = [(y * Wl + x, 0)] := by
    unfold shardPatches
    rw [if_pos (show (leakLayers 0).num_pos = 1 from rfl), if_pos hbit]
  unfold shardLayerForwardCt
  rw [hpatches, sweep_cons, sweep_nil, processPatch_eq (leakLayers 0) hpass]
  refine ⟨_, ?_, rfl⟩
  rw [(leak_ref0 hpass).process_charge, dot_unitRow, hf, uncharged_zero, mul_zero, zero_add]

/-- The update that a non-owner makes in a fresh layer 0 before it runs the stages. -/
theorem leak_shardLayer {s : DetectorState ℝ} (hs : s.hidden_ 0 = 0) (x y : Nat) {f : Fin kInDim → ℝ}
    (hf : featBuf f 0 = 1) {mask : BitVec 16} (hbit : mask.getLsbD 0 = true) :
    let P := leakDetector W H
    let t := (P.shardLayerForward s 0 x y (featBuf f) mask).1
    (∃ g : Fin kC0 → ℝ, featBuf g 0 = 1 ∧
        t.hidden_ 0 = Function.update (0 : Nat → Fin kC0 → ℝ) (y * P.Ws_ 0 + x) g) ∧
      t.hidden_ 1 = s.hidden_ 1 := by
  intro P t
  have hfeat : readFeat kInDim (featBuf f) = f := readFeat_writeFeat _ _
  obtain ⟨g, hg, hadd⟩ := leak_addsOnce x y (P.Hs_ 0) (P.Ws_ 0) hf hbit
  unfold t SslaSDetector.shardLayerForward DetectorState.setHidden
  dsimp only
  rw [show readFeat (inDim 0) (featBuf f) = f from hfeat, hs]
  exact ⟨⟨g, hg, (Function.update_self ..).trans hadd⟩, Function.update_of_ne Nat.one_ne_zero ..⟩

theorem leak_start (stack : Nat → ℝ) :
    let s := (leakDetector W H).reset ((leakDetector W H).load stack)
    s.hidden_ 0 = 0 ∧ s.hidden_ 1 = 0 ∧ s.last_t_us_ = fun _ => -1 := by
  intro s
  have hpipe : s.pipe = SslaSPipeline.reset := pipe_reset _
  exact ⟨congrArg PipeState.hidden_0 hpipe, congrArg PipeState.hidden_1 hpipe,
    congrArg PipeState.last_t_us_ hpipe⟩

theorem leak_preprocess {s : DetectorState ℝ} {x : Nat} (hx : x < W) (hH : 0 < H)
    (hfresh : s.last_t_us_ x = -1) :
    ¬ (leakDetector W H).OutOfBounds (castInt (polarEvent (1 : ℝ) (x, 0)).x) (castInt (polarEvent (1 : ℝ) (x, 0)).y) ∧
      ((leakDetector W H).preprocess s (polarEvent (1 : ℝ) (x, 0))).2 = ![1, 1] := by
  have hcol : castInt (polarEvent (1 : ℝ) (x, 0)).x = x := castInt_natCast x
  have hrow : castInt (polarEvent (1 : ℝ) (x, 0)).y = 0 := castInt_natCast 0
  have hin : ¬ (leakDetector W H).OutOfBounds (castInt (polarEvent (1 : ℝ) (x, 0)).x)
      (castInt (polarEvent (1 : ℝ) (x, 0)).y) := by
    unfold SslaSPipeline.OutOfBounds
    rw [hcol, hrow, show (leakDetector W H).W_ = W from rfl, show (leakDetector W H).H_ = H from rfl]
    omega
  refine ⟨hin, preprocess_fresh hin ?_⟩
  rw [hcol, hrow]
  simpa using hfresh

theorem leak_reference {s : DetectorState ℝ} {x : Nat} (hx : x < W) (hH : 0 < H)
    (hfresh : s.last_t_us_ x = -1) :
    let P := leakDetector W H
    let l0 := P.layer0 x 0 ![1, 1] (s.hidden_ 0)
    let l1 := P.layer1 x 0 l0.2 (s.hidden_ 1)
    let r := P.referenceEvent s (polarEvent (1 : ℝ) (x, 0))
    r.2.bind (fun out => out.feats.head?) = some (writeFeat (fun _ => 0) l1.2) ∧
      r.1.hidden_ 0 = l0.1 ∧ r.1.hidden_ 1 = l1.1 ∧ ∀ x' ≠ x, r.1.last_t_us_ x' = s.last_t_us_ x' := by
  intro P l0 l1 r
  have hcol : (castInt (polarEvent (1 : ℝ) (x, 0)).x).toNat = x := polarEvent_px 1 (x, 0)
  have hrow : (castInt (polarEvent (1 : ℝ) (x, 0)).y).toNat = 0 := polarEvent_py 1 (x, 0)
  obtain ⟨hin, hfeat⟩ := leak_preprocess hx hH hfresh
  obtain ⟨hhead, hkept⟩ := referenceEvent_stage0 (s := s) hin
  rw [hfeat, hcol, hrow] at hhead hkept
  obtain ⟨hout, h0, h1⟩ := leak_stage0 (W := W) (H := H)
    ((leakDetector W H).preprocess s (polarEvent (1 : ℝ) (x, 0))).1 x 0 ![1, 1]
  refine ⟨hhead.trans (congrArg some hout), (hkept 0 rfl).trans h0, (hkept 1 rfl).trans h1,
    fun x' hx' => ?_⟩
  refine (congrFun (referenceEvent_last_t_us hin) x').trans (preprocess_other_pixel hin ?_)
  rw [hcol, hrow]
  omega

theorem leak_beside {s : DetectorState ℝ} (hs : s.hidden_ 0 = 0) (x : Nat) {f : Fin kInDim → ℝ}
    (hf : featBuf f 0 = 1) {mask : BitVec 16} (hbit : mask.getLsbD 0 = true) :
    let P := leakDetector W H
    ∃ g : Fin kC0 → ℝ, featBuf g 0 = 1 ∧
      let l0 := P.layer0 x 0 f (Function.update 0 (0 * P.Ws_ 0 + x) g)
      let l1 := P.layer1 x 0 l0.2 (s.hidden_ 1)
      let t := (P.shardEvent s ⟨false, mask, x, 0, f⟩).1
      t.hidden_ 0 = l0.1 ∧ t.hidden_ 1 = l1.1 := by
  intro P
  obtain ⟨⟨g, hg, hfirst⟩, hsecond⟩ := leak_shardLayer (W := W) (H := H) hs x 0 hf hbit
  obtain ⟨-, h0, h1⟩ := leak_stage0 (W := W) (H := H)
    ((leakDetector W H).shardLayerForward s 0 x 0 (featBuf f) mask).1 x 0 f
  rw [hfirst] at h0 h1
  rw [hsecond] at h1
  exact ⟨g, hg, (shardEvent_other_stage0 x 0 mask f 0 rfl).trans h0,
    (shardEvent_other_stage0 x 0 mask f 1 rfl).trans h1⟩

/-- The two runs on an event left of the border and one right of it differ in the
features of stage 0. -/
theorem leak_not_strict {c : Nat} (hc : c + 1 < W) (hH : 0 < H) (hN : 0 < N)
    (hleft : shardOfCol W N c = 0) (hright : shardOfCol W N ((c : Int) + 1) ≠ 0) (stack : Nat → ℝ) :
    ¬ (leakDetector W H).Strict N ((leakDetector W H).reset ((leakDetector W H).load stack))
      [polarEvent (1 : ℝ) (c, 0), polarEvent (1 : ℝ) (c + 1, 0)] := by
  intro h
  obtain ⟨hs0, hs1, htime⟩ := leak_start (W := W) (H := H) stack
  generalize (leakDetector W H).reset ((leakDetector W H).load stack) = s at *
  have hfresh : ∀ x, s.last_t_us_ x = -1 := congrFun htime
  obtain ⟨hinb, hfb⟩ := leak_preprocess (s := s) (by omega : c < W) hH (hfresh c)
  obtain ⟨hina, hfa⟩ := leak_preprocess (s := s) hc hH (hfresh (c + 1))
  have hbx : castInt (polarEvent (1 : ℝ) (c, 0)).x = c := castInt_natCast c
  have hax : castInt (polarEvent (1 : ℝ) (c + 1, 0)).x = (c : Int) + 1 := castInt_natCast (c + 1)
  have hby : ∀ x, (castInt (polarEvent (1 : ℝ) (x, 0)).y).toNat = 0 := fun x => polarEvent_py 1 (x, 0)
  have hk := shardOfCol_lt (W := W) hN ((c : Int) + 1)
  have haffected : isAffected (leakDetector W H).W_ N (castInt (polarEvent (1 : ℝ) (c, 0)).x)
      (shardOfCol W N ((c : Int) + 1)) = true := by
    rw [isAffected_iff, hbx]
    exact .inr (.inr rfl)
  have howner : (leakDetector W H).ownerOf N (polarEvent (1 : ℝ) (c + 1, 0)) =
      some (shardOfCol W N ((c : Int) + 1)) := by
    unfold SslaSDetector.ownerOf
    rw [if_neg hina, hax]
    rfl
  have hbit : (shardPatchMask (shardOfCol W N ((c : Int) + 1)) c W N).getLsbD 0 = true := by
    have hcol : patchCol c 0 = (c : Int) + 1 := by simp [patchCol]
    rw [shardPatchMask_bit (by omega), hcol]
    exact ⟨by omega, by omega, rfl⟩
  have hpair := strict_pair hk hinb (by rw [hbx]; exact hleft ▸ hright) haffected howner h
  rw [hfb, hfa, hby, hby, hbx, hax, Int.toNat_natCast] at hpair
  have hout := congrArg (fun o => o.bind fun out => out.feats.head?) hpair
  obtain ⟨-, hr0, hr1, hrest⟩ := leak_reference (by omega : c < W) hH (hfresh c)
  have hnext : c + 1 ≠ c := by omega
  obtain ⟨hra, -⟩ := leak_reference hc hH ((hrest (c + 1) hnext).trans (hfresh (c + 1)))
  obtain ⟨g, hg, ht0, ht1⟩ := leak_beside (W := W) (H := H)
    (s := ((leakDetector W H).preprocess s (polarEvent (1 : ℝ) (c + 1, 0))).1) hs0 c (f := ![1, 1]) rfl hbit
  have hshard := shardEvent_owner_stage0 (P := leakDetector W H)
    (s := ((leakDetector W H).shardEvent ((leakDetector W H).preprocess s (polarEvent (1 : ℝ) (c + 1, 0))).1
      ⟨false, shardPatchMask (shardOfCol W N ((c : Int) + 1)) c W N, c, 0, ![1, 1]⟩).1)
    (c + 1) 0 (0x1FF#16) ![1, 1]
  rw [(leak_stage0 ..).1] at hshard
  have hread := congrArg (readFeat kC0) (Option.some_inj.mp (hra.symm.trans (hout.trans hshard)))
  rw [readFeat_writeFeat, readFeat_writeFeat] at hread
  let F : (Nat → Fin kC0 → ℝ) → (Nat → Fin kC0 → ℝ) → Fin kC0 → ℝ := fun G0 G1 =>
    ((leakDetector W H).layer1 (c + 1) 0 ((leakDetector W H).layer0 (c + 1) 0 ![1, 1] G0).2 G1).2
  have hF := (congrArg₂ F hr0 hr1).symm.trans (hread.trans (congrArg₂ F ht0 ht1))
  have hstart : ((leakDetector W H).preprocess s (polarEvent (1 : ℝ) (c + 1, 0))).1.hidden_ 1 = 0 := hs1
  rw [hs0, hs1, hstart] at hF
  exact leak_outputs_ne hc hH rfl hg hF

end Leak

/-- All weights and all sequences give the outcomes of the sequential scheme. -/
def StrictOver (R : Type) [CommRing R] (ar : Arith R) (W H N : Nat) : Prop :=
  ∀ P : SslaSDetector R, P.ar = ar → P.W_ = W → P.H_ = H → P.Schema →
    ∀ stack events, P.Strict N (P.reset (P.load stack)) events

def StrictEquivalence (W H N : Nat) : Prop :=
  ∀ (R : Type) [CommRing R] (ar : Arith R), StrictOver R ar W H N

theorem not_strictOver_real {W H N : Nat} (hH : H ≠ 0) (hlast : shardOfCol W N ((W : Int) - 1) ≠ 0) :
    ¬ StrictOver ℝ realArith W H N := by
  intro h
  have hN : 0 < N := by
    by_contra hN
    obtain rfl : N = 0 := by omega
    exact hlast (by simp [shardOfCol])
  obtain ⟨c, hc, hleft, hright⟩ := exists_border hlast
  exact leak_not_strict hc (Nat.pos_of_ne_zero hH) hN hleft hright (fun _ => 0)
    (h (leakDetector W H) rfl rfl rfl (leak_schema W H) _ _)

theorem strictEquivalence_of_one_owner {W H N : Nat} (h : H = 0 ∨ shardOfCol W N ((W : Int) - 1) = 0) :
    StrictEquivalence W H N := by
  intro R _ ar P _ hPW hPH _ stack events
  rcases Nat.eq_zero_or_pos N with rfl | hN
  · exact fun k hk => absurd hk (Nat.not_lt_zero k)
  refine strict_of_one_owner hN (k := 0) fun e _ j howner => ?_
  unfold SslaSDetector.ownerOf at howner
  by_cases hout : P.OutOfBounds (castInt e.x) (castInt e.y)
  · simp [hout] at howner
  · rw [if_neg hout, Option.some_inj] at howner
    unfold SslaSPipeline.OutOfBounds at hout
    rcases h with rfl | h
    · omega
    · rw [← howner, ← Nat.le_zero, ← h, ← hPW]
      exact shardOfCol_mono (by omega)

/-- The scheme is strict exactly if the first shard owns the whole grid, whatever the arithmetic,
and already with the sigmoid and the normaliser of the layers. -/
theorem strictEquivalence_iff (W H N : Nat) :
    (StrictEquivalence W H N ↔ H = 0 ∨ shardOfCol W N ((W : Int) - 1) = 0) ∧
      (StrictOver ℝ realArith W H N ↔ H = 0 ∨ shardOfCol W N ((W : Int) - 1) = 0) := by
  have hreal : StrictOver ℝ realArith W H N → H = 0 ∨ shardOfCol W N ((W : Int) - 1) = 0 := by
    intro h
    by_contra hcon
    obtain ⟨hH, hlast⟩ := not_or.mp hcon
    exact not_strictOver_real hH hlast h
  exact ⟨⟨fun h => hreal (h ℝ realArith), strictEquivalence_of_one_owner⟩,
    ⟨hreal, fun h => strictEquivalence_of_one_owner h ℝ realArith⟩⟩

/-- Two strips of eight columns, and an event on either side of the border. -/
theorem strict_fails_sixteen :
    ¬ (leakDetector 16 8).Strict 2 ((leakDetector 16 8).reset ((leakDetector 16 8).load fun _ => 0))
      [polarEvent 1 (7, 0), polarEvent 1 (8, 0)] :=
  leak_not_strict (by decide) (by decide) (by decide) (by decide) (by decide) _

end SslaRt
