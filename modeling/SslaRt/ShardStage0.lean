import SslaRt.ShardView

/-! Stage 0 of a shard against stage 0 of one pipeline for all events. The
timestamps and the state of layer 0 agree at every pixel whose events the shard
gets, the state of layer 1 away from the patches of the other events. -/

namespace SslaRt

open CellMemory Contamination

variable {R : Type*}

/-- Column and row. -/
abbrev Pixel := Nat × Nat

def Event.at (e : Event R) : Pixel := (e.px, e.py)

section Cells

variable (P : SslaSPipeline R) (a : Pixel)

def pixelCell : List Nat := [a.2 * P.W_ + a.1]

def patch0 : List Nat := cells (neighbours a.1 a.2 (P.Hs_ 0) (P.Ws_ 0))

def unrouted (h : S01gHandle) (k : Nat) (X : Set Pixel) : Set Pixel :=
  {a | a ∈ X ∧ ¬ h.Covers k a.1}

@[simp] theorem SslaSPipeline.Ws_zero : P.Ws_ 0 = P.W_ := Nat.div_one P.W_

end Cells

structure S01gHandle.For (h : S01gHandle) (P : SslaSPipeline R) : Prop where
  W_full : h.W_full = P.W_
  H_full : h.H_full = P.H_

section Grid

variable {P : SslaSPipeline R} {h : S01gHandle} (hP : h.For P) {e : Event R}

include hP

theorem outOfBounds_iff : h.OutOfBounds (castInt e.x) (castInt e.y) ↔ e.Skipped P := by
  rw [S01gHandle.OutOfBounds, hP.W_full, hP.H_full]
  rfl

omit hP in
theorem Event.in_grid (hs : ¬ e.Skipped P) :
    castInt e.x = e.px ∧ castInt e.y = e.py ∧ e.px < P.W_ ∧ e.py < P.H_ := by
  simp only [Event.Skipped, SslaSPipeline.OutOfBounds, not_or] at hs
  have hx : castInt e.x = e.px := (Int.toNat_of_nonneg (by omega)).symm
  have hy : castInt e.y = e.py := (Int.toNat_of_nonneg (by omega)).symm
  exact ⟨hx, hy, by omega, by omega⟩

end Grid

section Stage0

variable [CommRing R] (P : SslaSPipeline R) (h : S01gHandle) (k : Nat) (X : Set Pixel)

structure Stage0Agrees (s s' : PipeState R) : Prop where
  last_t_us_ : Clean (pixelCell P) (unrouted h k X) s.last_t_us_ s'.last_t_us_
  hidden_0 : Clean (pixelCell P) (unrouted h k X) s.hidden_0 s'.hidden_0
  hidden_1 : Clean (patch0 P) (unrouted h k X) s.hidden_1 s'.hidden_1

omit [CommRing R] in
theorem Stage0Agrees.refl (s : PipeState R) : Stage0Agrees P h k X s s :=
  ⟨Clean.refl _ _ _, Clean.refl _ _ _, Clean.refl _ _ _⟩

variable {P h k X} {s s' : PipeState R} {e : Event R} (hs : ¬ e.Skipped P)

section Features

variable (hagree : Stage0Agrees P h k X s s') (hgrid : ∀ a ∈ X, a.1 < P.W_)
  (hc : h.Covers k e.px)

include hs hgrid hc

omit [CommRing R] in
theorem pixelCell_clean : ∀ b ∈ unrouted h k X, e.pixel P ∉ pixelCell P b := by
  rintro b ⟨hb, hnc⟩ hmem
  have hpx := (Event.in_grid hs).2.2.1
  have heq : e.py * P.W_ + e.px = b.2 * P.W_ + b.1 := List.mem_singleton.mp hmem
  obtain ⟨-, hx⟩ := rowMajor_inj hpx (hgrid b hb) heq
  exact hnc (hx ▸ hc)

include hagree

theorem evFeatIn_agree : evFeatIn P s e = evFeatIn P s' e :=
  evFeatIn_congr hs (hagree.last_t_us_ _ (pixelCell_clean hs hgrid hc))

variable (hp0 : (P.layers_ 0).num_pos = 1)

include hp0

theorem evLayer0_out_agree : (evLayer0 P s e).2 = (evLayer0 P s' e).2 := by
  rw [evLayer0, evLayer0, evFeatIn_agree hs hagree hgrid hc]
  refine (layer0_isLocal P e.px e.py hp0).out _ fun c hcell => ?_
  have hce : c = e.pixel P := by simpa [Event.pixel] using hcell
  exact hce ▸ hagree.hidden_0 _ (pixelCell_clean hs hgrid hc)

theorem evLayer1_out_agree (hp1 : (P.layers_ 1).num_pos ≠ 1) (hX : e.at ∈ X)
    (hfree : e.at ∉ reach (patch0 P) X (unrouted h k X)) :
    (evLayer1 P s e).2 = (evLayer1 P s' e).2 := by
  rw [evLayer1, evLayer1, evLayer0_out_agree hs hagree hgrid hc hp0]
  exact (layer1_isLocal P e.px e.py hp1).out _ (hagree.hidden_1.on_patch hX hfree)

end Features

variable (hp0 : (P.layers_ 0).num_pos = 1) (hp1 : (P.layers_ 1).num_pos ≠ 1)

include hs hp0 hp1

theorem stage0Agrees_seen (hagree : Stage0Agrees P h k X s s') (hgrid : ∀ a ∈ X, a.1 < P.W_)
    (hc : h.Covers k e.px) (b b' : Bool) :
    Stage0Agrees P h k X (msgPipe P s ⟨e, b, false⟩) (msgPipe P s' ⟨e, b', false⟩) where
  last_t_us_ := by
    rw [msgPipe_last_t_us hs, msgPipe_last_t_us hs]
    refine hagree.last_t_us_.seen (a := e.at) fun c hcell _ => ?_
    by_cases hce : c = e.pixel P
    · subst hce
      rw [Function.update_self, Function.update_self]
    · rw [Function.update_of_ne hce, Function.update_of_ne hce, hcell]
  hidden_0 := by
    rw [msgPipe_hidden_0 hs, msgPipe_hidden_0 hs]
    refine hagree.hidden_0.seen (a := e.at) fun c hcell _ => ?_
    rw [evLayer0, evLayer0, evFeatIn_agree hs hagree hgrid hc]
    exact (layer0_isLocal P e.px e.py hp0).cell _ hcell
  hidden_1 := by
    rw [msgPipe_hidden_1 hs, msgPipe_hidden_1 hs]
    refine hagree.hidden_1.seen (a := e.at) fun c hcell _ => ?_
    rw [evLayer1, evLayer1, evLayer0_out_agree hs hagree hgrid hc hp0]
    exact (layer1_isLocal P e.px e.py hp1).cell _ hcell

theorem stage0Agrees_unseen (hagree : Stage0Agrees P h k X s s') (hX : e.at ∈ X)
    (hc : ¬ h.Covers k e.px) (b : Bool) :
    Stage0Agrees P h k X (msgPipe P s ⟨e, b, false⟩) s' where
  last_t_us_ := by
    rw [msgPipe_last_t_us hs]
    refine hagree.last_t_us_.unseen (a := e.at) ⟨hX, hc⟩ fun c hcell => ?_
    exact Function.update_of_ne (fun hce => hcell (List.mem_singleton.mpr hce)) _ _
  hidden_0 := by
    rw [msgPipe_hidden_0 hs]
    refine hagree.hidden_0.unseen (a := e.at) ⟨hX, hc⟩ fun c hcell => ?_
    refine (layer0_isLocal P e.px e.py hp0).frame _ _ fun hce => hcell ?_
    simpa [pixelCell, Event.at] using hce
  hidden_1 := by
    rw [msgPipe_hidden_1 hs]
    exact hagree.hidden_1.unseen (a := e.at) ⟨hX, hc⟩ fun c hcell =>
      (layer1_isLocal P e.px e.py hp1).frame _ _ hcell

end Stage0

end SslaRt
