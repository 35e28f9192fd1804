import SslaRt.HaloFeatures
import SslaRt.RealArith

/-! Every event that the contamination reaches does get another feature: the records that
a block is not fed carry a mark, every layer mixes the marks, and no mark is ever lost. -/

namespace SslaRt

open CellMemory Contamination Scan

variable {g : S2Grid}

noncomputable def mixingLayers : S2S3Layers ℝ where
  L4 := (signalWeights C1 C2 9 (unitRow 1) markRow (some markRow)).ref nofun
  L5 := (signalWeights C2 C2 9 (unitRow 1) markRow none).ref fun _ => rfl
  L6 := (signalWeights C2 C3 9 (unitRow 1) markRow (some markRow)).ref nofun
  L7 := (signalWeights C3 C3 9 (unitRow 1) markRow none).ref fun _ => rfl
  L4_K := rfl
  L5_K := rfl
  L6_K := rfl
  L7_K := rfl

theorem mixingLayers_L4 : Mixes mixingLayers.L4 := signalWeights_projected (by decide) _ nofun

theorem mixingLayers_L5 : Mixes mixingLayers.L5 := signalWeights_plain (by decide) fun _ => rfl

theorem mixingLayers_L6 : Mixes mixingLayers.L6 := signalWeights_projected (by decide) _ nofun

theorem mixingLayers_L7 : Mixes mixingLayers.L7 := signalWeights_plain (by decide) fun _ => rfl

variable (t : BlockTopo)

/-- Channel 1 is one, and channel 0 is one where the block is not fed the record. -/
noncomputable def markedRecord (a : S2Cell g) : S2Record ℝ g :=
  recordAt a fun i => if i.val = 1 then 1 else if i.val = 0 ∧ ¬ t.InProc a.1.val a.2.val then 1 else 0

noncomputable def wholeAt (l : List (S2Cell g)) : S2S3State ℝ :=
  final (oracleStep realArith mixingLayers 1) zeroState (l.map (markedRecord t))

noncomputable def partAt (l : List (S2Cell g)) : S2S3State ℝ :=
  final (oracleStep realArith mixingLayers 1) zeroState ((l.map (markedRecord t)).filterMap (procRoute t))

section Records

variable {t} {a : S2Cell g}

theorem markedRecord_feat1 (a : S2Cell g) : featBuf (markedRecord t a).feat1 1 = 1 ∧
    signal (markedRecord t a).feat1 = if t.InProc a.1.val a.2.val then 0 else 1 := by
  rw [signal, featBuf_lt (show 1 < C1 by decide), featBuf_lt (show 0 < C1 by decide),
    featBuf_lt (show 2 < C1 by decide)]
  by_cases h : t.InProc a.1.val a.2.val <;> simp [markedRecord, recordAt, h]

theorem markedRecord_tracked (a : S2Cell g) : Tracked (markedRecord t a).feat1 := by
  obtain ⟨hone, hmark⟩ := markedRecord_feat1 (t := t) a
  refine ⟨hone, ?_⟩
  rw [hmark]
  split
  · exact le_rfl
  · exact zero_le_one

theorem markedRecord_unmarked (ha : t.InProc a.1.val a.2.val) : Unmarked (markedRecord t a).feat1 := by
  obtain ⟨hone, hmark⟩ := markedRecord_feat1 (t := t) a
  exact ⟨hone, hmark.trans (if_pos ha)⟩

theorem markedRecord_marked (ha : ¬ t.InProc a.1.val a.2.val) : 0 < signal (markedRecord t a).feat1 := by
  rw [(markedRecord_feat1 a).2, if_neg ha]
  exact zero_lt_one

end Records

/-- No cell holds a mark. -/
structure Unlit (s : S2S3State ℝ) : Prop where
  H4 : Uncharged s.H4
  H5 : Uncharged s.H5
  H6 : Uncharged s.H6
  H7 : Uncharged s.H7

structure Lit (s : S2S3State ℝ) : Prop where
  H4 : Charged s.H4
  H5 : Charged s.H5
  H6 : Charged s.H6
  H7 : Charged s.H7

theorem unlit_zero : Unlit zeroState := ⟨uncharged_zero, uncharged_zero, uncharged_zero, uncharged_zero⟩

theorem Unlit.lit {s : S2S3State ℝ} (h : Unlit s) : Lit s :=
  ⟨fun c => (h.H4 c).ge, fun c => (h.H5 c).ge, fun c => (h.H6 c).ge, fun c => (h.H7 c).ge⟩

section Unlit

variable {s : S2S3State ℝ} (h : Unlit s) {rec : S2Record ℝ g} (hrec : Unmarked rec.feat1)

include h hrec

theorem s2Buf_unmarked : Unmarked (s2Buf realArith mixingLayers s rec).2 :=
  Mixes.unmarked mixingLayers_L4 realArith_spreads hrec h.H4

theorem s2Out_unmarked : Unmarked (s2Out realArith mixingLayers s rec).2 :=
  Mixes.unmarked mixingLayers_L5 realArith_spreads (s2Buf_unmarked h hrec) h.H5

theorem s3Buf_unmarked : Unmarked (s3Buf realArith mixingLayers s rec).2 :=
  Mixes.unmarked mixingLayers_L6 realArith_spreads (s2Out_unmarked h hrec) h.H6

theorem s3Out_unmarked : Unmarked (s3Out realArith mixingLayers s rec).2 :=
  Mixes.unmarked mixingLayers_L7 realArith_spreads (s3Buf_unmarked h hrec) h.H7

theorem Unlit.step : Unlit (oracleStep realArith mixingLayers 1 s rec).1 := by
  refine ⟨?_, ?_, ?_, ?_⟩
  · rw [oracleStep_H4]
    exact Mixes.uncharged mixingLayers_L4 hrec.zero h.H4
  · rw [oracleStep_H5]
    exact Mixes.uncharged mixingLayers_L5 (s2Buf_unmarked h hrec).zero h.H5
  · rw [oracleStep_H6]
    exact Mixes.uncharged mixingLayers_L6 (s2Out_unmarked h hrec).zero h.H6
  · rw [oracleStep_H7]
    exact Mixes.uncharged mixingLayers_L7 (s3Buf_unmarked h hrec).zero h.H7

end Unlit

section Lit

variable {s : S2S3State ℝ} (h : Lit s) {rec : S2Record ℝ g} (hrec : Tracked rec.feat1)

include h hrec

theorem s2Buf_tracked : Tracked (s2Buf realArith mixingLayers s rec).2 :=
  Mixes.tracked mixingLayers_L4 realArith_spreads hrec h.H4

theorem s2Out_tracked : Tracked (s2Out realArith mixingLayers s rec).2 :=
  Mixes.tracked mixingLayers_L5 realArith_spreads (s2Buf_tracked h hrec) h.H5

theorem s3Buf_tracked : Tracked (s3Buf realArith mixingLayers s rec).2 :=
  Mixes.tracked mixingLayers_L6 realArith_spreads (s2Out_tracked h hrec) h.H6

theorem Lit.step : Lit (oracleStep realArith mixingLayers 1 s rec).1 := by
  refine ⟨?_, ?_, ?_, ?_⟩
  · rw [oracleStep_H4]
    exact Mixes.cell_nonneg mixingLayers_L4 realArith_spreads hrec h.H4
  · rw [oracleStep_H5]
    exact Mixes.cell_nonneg mixingLayers_L5 realArith_spreads (s2Buf_tracked h hrec) h.H5
  · rw [oracleStep_H6]
    exact Mixes.cell_nonneg mixingLayers_L6 realArith_spreads (s2Out_tracked h hrec) h.H6
  · rw [oracleStep_H7]
    exact Mixes.cell_nonneg mixingLayers_L7 realArith_spreads (s3Buf_tracked h hrec) h.H7

end Lit

variable {t}

theorem wholeAt_append (l : List (S2Cell g)) (a : S2Cell g) :
    wholeAt t (l ++ [a]) = (oracleStep realArith mixingLayers 1 (wholeAt t l) (markedRecord t a)).1 := by
  rw [wholeAt, List.map_append, final_append]
  rfl

theorem wholeAt_singleton (a : S2Cell g) :
    wholeAt t [a] = (oracleStep realArith mixingLayers 1 zeroState (markedRecord t a)).1 := rfl

variable (t) in
theorem wholeAt_lit (l : List (S2Cell g)) : Lit (wholeAt t l) := by
  induction l using List.reverseRecOn with
  | nil => exact unlit_zero.lit
  | append_singleton l a ih =>
    rw [wholeAt_append]
    exact ih.step (markedRecord_tracked a)

variable (t) in
/-- The block is fed no marks. -/
theorem partAt_unlit (l : List (S2Cell g)) : Unlit (partAt t l) := by
  induction l using List.reverseRecOn with
  | nil => exact unlit_zero
  | append_singleton l a ih =>
    have hlast : partAt t (l ++ [a]) = final (oracleStep realArith mixingLayers 1) (partAt t l)
        ([markedRecord t a].filterMap (procRoute t)) := by
      rw [partAt, List.map_append, List.filterMap_append, final_append]
      rfl
    rw [hlast]
    by_cases ha : t.InProc a.1.val a.2.val
    · have hr : procRoute t (markedRecord t a) = some (markedRecord t a) := procRoute_eq_some.mpr ⟨rfl, ha⟩
      rw [List.filterMap_cons_some hr]
      exact ih.step (markedRecord_unmarked ha)
    · rw [List.filterMap_cons_none (procRoute_eq_none.mpr ha)]
      exact ih

section Levels

variable (t) (X : Set (S2Cell g))

/-- Some run over `X` leaves a mark on the value of the single block. -/
def Exposed {n : Nat} (out : S2S3State ℝ → S2Record ℝ g → Fin n → ℝ) (a : S2Cell g) : Prop :=
  ∃ l, (∀ e ∈ l, e ∈ X) ∧ 0 < signal (out (wholeAt t l) (markedRecord t a))

variable {b : S2Cell g}

theorem s2Buf_marked (hb : ¬ t.InProc b.1.val b.2.val) :
    0 < signal (s2Buf realArith mixingLayers zeroState (markedRecord t b)).2 :=
  Mixes.signal_pos mixingLayers_L4 realArith_spreads (markedRecord_tracked b) unlit_zero.lit.H4
    (.inl (markedRecord_marked hb))

theorem s2Out_marked (hb : ¬ t.InProc b.1.val b.2.val) :
    0 < signal (s2Out realArith mixingLayers zeroState (markedRecord t b)).2 :=
  Mixes.signal_pos mixingLayers_L5 realArith_spreads (s2Buf_tracked unlit_zero.lit (markedRecord_tracked b))
    unlit_zero.lit.H5 (.inl (s2Buf_marked t hb))

theorem s3Buf_marked (hb : ¬ t.InProc b.1.val b.2.val) :
    0 < signal (s3Buf realArith mixingLayers zeroState (markedRecord t b)).2 :=
  Mixes.signal_pos mixingLayers_L6 realArith_spreads (s2Out_tracked unlit_zero.lit (markedRecord_tracked b))
    unlit_zero.lit.H6 (.inl (s2Out_marked t hb))

/-- A layer that mixes shows what its input shows, and what its cells have kept. -/
theorem exposed_next {IN OUT : Nat} {L : LayerRef ℝ IN OUT} (hL : Mixes L)
    (inp : S2S3State ℝ → S2Record ℝ g → Fin IN → ℝ) (mem : S2S3State ℝ → Nat → Fin OUT → ℝ)
    (x y : S2Record ℝ g → Nat) {Hl Wl : Nat} {patch : S2Cell g → List Nat} {bad : Set (S2Cell g)}
    (hpatch : ∀ a, L.patch (x (markedRecord t a)) (y (markedRecord t a)) Hl Wl = patch a)
    (hmem : ∀ s rec, mem (oracleStep realArith mixingLayers 1 s rec).1 =
      (layerStep realArith L (inp s rec) (mem s) (x rec) (y rec) Hl Wl).1)
    (htracked : ∀ s (rec : S2Record ℝ g), Lit s → Tracked rec.feat1 → Tracked (inp s rec))
    (hlit : ∀ s, Lit s → Charged (mem s))
    (hmarked : ∀ b : S2Cell g, ¬ t.InProc b.1.val b.2.val → 0 < signal (inp zeroState (markedRecord t b)))
    (hbad : ∀ b ∈ bad, b ∈ X)
    (hinp : ∀ b ∈ bad, t.InProc b.1.val b.2.val → Exposed t X inp b) :
    ∀ a ∈ reach patch X bad, t.InProc a.1.val a.2.val →
      Exposed t X (fun s rec => (layerStep realArith L (inp s rec) (mem s) (x rec) (y rec) Hl Wl).2) a := by
  refine @exists_run_of_mem_reach _ _ _ _ _ _ _ _ (fun l c => 0 < featBuf (mem (wholeAt t l) c) 0) ?_ ?_ ?_ hbad hinp
  · intro b _ hb c hc
    rw [wholeAt_singleton, hmem]
    exact Mixes.cell_pos hL realArith_spreads (hlit _ unlit_zero.lit) (hmarked b hb) (by rwa [hpatch])
  · intro l b _ _ hpos c hc
    rw [wholeAt_append, hmem]
    exact Mixes.cell_pos hL realArith_spreads (hlit _ (wholeAt_lit t l)) hpos (by rwa [hpatch])
  · intro l a _ h
    refine Mixes.signal_pos hL realArith_spreads (htracked _ _ (wholeAt_lit t l) (markedRecord_tracked a))
      (hlit _ (wholeAt_lit t l)) ?_
    rw [hpatch]
    exact h

theorem exposed_L4 : ∀ a ∈ reachL4 t X, t.InProc a.1.val a.2.val →
    Exposed t X (fun s rec => (s2Buf realArith mixingLayers s rec).2) a :=
  exposed_next t X mixingLayers_L4 (fun _ rec => rec.feat1) S2S3State.H4 S2Record.x S2Record.y
    (fun _ => LayerRef.patch_eq _ mixingLayers.L4_K) (fun _ _ => oracleStep_H4 ..) (fun _ _ _ hrec => hrec)
    (fun _ h => h.H4) (fun _ hb => markedRecord_marked hb) (fun _ hb => hb.1) fun _ hb hs => absurd hs hb.2

theorem exposed_L5 : ∀ a ∈ reachL5 t X, t.InProc a.1.val a.2.val →
    Exposed t X (fun s rec => (s2Out realArith mixingLayers s rec).2) a :=
  exposed_next t X mixingLayers_L5 (fun s rec => (s2Buf realArith mixingLayers s rec).2) S2S3State.H5
    S2Record.x S2Record.y (fun _ => LayerRef.patch_eq _ mixingLayers.L5_K) (fun _ _ => oracleStep_H5 ..)
    (fun _ _ h hrec => s2Buf_tracked h hrec) (fun _ h => h.H5) (fun _ => s2Buf_marked t) (fun _ hb => hb.1)
    (exposed_L4 t X)

theorem exposed_L6 : ∀ a ∈ reachL6 t X, t.InProc a.1.val a.2.val →
    Exposed t X (fun s rec => (s3Buf realArith mixingLayers s rec).2) a :=
  exposed_next t X mixingLayers_L6 (fun s rec => (s2Out realArith mixingLayers s rec).2) S2S3State.H6
    (fun rec => rec.x / 2) (fun rec => rec.y / 2) (fun _ => LayerRef.patch_eq _ mixingLayers.L6_K)
    (fun _ _ => oracleStep_H6 ..) (fun _ _ h hrec => s2Out_tracked h hrec) (fun _ h => h.H6) (fun _ => s2Out_marked t)
    (fun _ hb => hb.1) (exposed_L5 t X)

theorem exposed_L7 : ∀ a ∈ reachL7 t X, t.InProc a.1.val a.2.val →
    Exposed t X (fun s rec => (s3Out realArith mixingLayers s rec).2) a :=
  exposed_next t X mixingLayers_L7 (fun s rec => (s3Buf realArith mixingLayers s rec).2) S2S3State.H7
    (fun rec => rec.x / 2) (fun rec => rec.y / 2) (fun _ => LayerRef.patch_eq _ mixingLayers.L7_K)
    (fun _ _ => oracleStep_H7 ..) (fun _ _ h hrec => s3Buf_tracked h hrec) (fun _ h => h.H7) (fun _ => s3Buf_marked t)
    (fun _ hb => hb.1) (exposed_L6 t X)

end Levels

end SslaRt
