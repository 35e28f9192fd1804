import SslaRt.Scan
import Mathlib.Data.List.Forall2

/-! A run that is fed only a part of the inputs of another run. A relation
that the shared inputs keep on both sides, and the other inputs on one side,
holds at every shared input. -/

namespace Scan

variable {σ τ α β γ δ : Type*}

/-- `route` says which inputs the second run is fed, and as what; `ok` are the
inputs that can occur. -/
structure PartialView (f : σ → α → σ × γ) (g : τ → β → τ × δ) (route : α → Option β)
    (ok : α → Prop) (Rel : σ → τ → Prop) : Prop where
  seen : ∀ {s t a b}, ok a → route a = some b → Rel s t → Rel (f s a).1 (g t b).1
  unseen : ∀ {s t a}, ok a → route a = none → Rel s t → Rel (f s a).1 t

variable {f : σ → α → σ × γ} {g : τ → β → τ × δ} {route : α → Option β} {ok : α → Prop}
  {Rel : σ → τ → Prop}

theorem PartialView.final (h : PartialView f g route ok Rel) {as : List α} (hok : ∀ a ∈ as, ok a)
    {s : σ} {t : τ} (hst : Rel s t) : Rel (final f s as) (final g t (as.filterMap route)) := by
  induction as generalizing s t with
  | nil => exact hst
  | cons a as ih =>
    have ha := hok a (by simp)
    have has : ∀ b ∈ as, ok b := fun b hb => hok b (by simp [hb])
    cases hr : route a with
    | none =>
      rw [List.filterMap_cons_none hr]
      exact ih has (h.unseen ha hr hst)
    | some b =>
      rw [List.filterMap_cons_some hr]
      exact ih has (h.seen ha hr hst)

/-- The visits of the inputs to keep, which are all shared, correspond one to one. -/
theorem PartialView.visits (h : PartialView f g route ok Rel) {keep : α → Bool} {keep' : β → Bool}
    (hroute : ∀ {a b}, route a = some b → keep a = keep' b)
    (hkeep : ∀ {a}, keep a = true → route a ≠ none) {as : List α} (hok : ∀ a ∈ as, ok a)
    {s : σ} {t : τ} (hst : Rel s t) :
    List.Forall₂ (fun p q => keep p.2 = true ∧ ok p.2 ∧ route p.2 = some q.2 ∧ Rel p.1 q.1)
      ((visits f s as).filter fun p => keep p.2)
      ((visits g t (as.filterMap route)).filter fun q => keep' q.2) := by
  induction as generalizing s t with
  | nil => exact .nil
  | cons a as ih =>
    have ha := hok a (by simp)
    have has : ∀ b ∈ as, ok b := fun b hb => hok b (by simp [hb])
    cases hr : route a with
    | none =>
      have hk : ¬ keep a = true := fun hk => hkeep hk hr
      rw [List.filterMap_cons_none hr, Scan.visits, List.filter_cons_of_neg (by simpa using hk)]
      exact ih has (h.unseen ha hr hst)
    | some b =>
      have hrest := ih has (h.seen ha hr hst)
      rw [List.filterMap_cons_some hr, Scan.visits, Scan.visits]
      have hkeep' := hroute hr
      cases hk : keep a with
      | true =>
        rw [List.filter_cons_of_pos (by simp [hk]), List.filter_cons_of_pos (by simp [← hkeep', hk])]
        exact .cons ⟨hk, ha, hr, hst⟩ hrest
      | false =>
        rw [List.filter_cons_of_neg (by simp [hk]), List.filter_cons_of_neg (by simp [← hkeep', hk])]
        exact hrest

theorem forall₂_trans {P : α → β → Prop} {Q : β → γ → Prop} {as : List α} {bs : List β}
    {cs : List γ} (h : List.Forall₂ P as bs) (h' : List.Forall₂ Q bs cs) :
    List.Forall₂ (fun a c => ∃ b, P a b ∧ Q b c) as cs := by
  induction h generalizing cs with
  | nil =>
    cases h'
    exact .nil
  | cons hab _ ih =>
    cases h' with
    | cons hbc h' => exact .cons ⟨_, hab, hbc⟩ (ih h')

theorem forall₂_concat_left {P : α → β → Prop} {as : List α} {a : α} {bs : List β}
    (h : List.Forall₂ P (as ++ [a]) bs) :
    ∃ bs' b, bs = bs' ++ [b] ∧ List.Forall₂ P as bs' ∧ P a b := by
  induction as generalizing bs with
  | nil =>
    obtain ⟨b, bs', hab, hnil, rfl⟩ := List.forall₂_cons_left_iff.mp h
    cases hnil
    exact ⟨[], b, rfl, .nil, hab⟩
  | cons x as ih =>
    obtain ⟨y, bs', hxy, h', rfl⟩ := List.forall₂_cons_left_iff.mp h
    obtain ⟨bs'', b, rfl, h'', hab⟩ := ih h'
    exact ⟨y :: bs'', b, rfl, .cons hxy h'', hab⟩

theorem visits_filter_zip {P : σ × α → δ → Prop} (keep : α → Bool) {as : List α} {s : σ}
    {rs : List δ} (h : List.Forall₂ P (visits f s as) rs) :
    List.Forall₂ P ((visits f s as).filter fun p => keep p.2)
      (((as.zip rs).filter fun p => keep p.1).map Prod.snd) := by
  induction as generalizing s rs with
  | nil => exact .nil
  | cons a as ih =>
    cases h with
    | cons hp h =>
      rw [Scan.visits, List.zip_cons_cons]
      cases hk : keep a with
      | false =>
        rw [List.filter_cons_of_neg (by simp [hk]), List.filter_cons_of_neg (by simp [hk])]
        exact ih h
      | true =>
        rw [List.filter_cons_of_pos (by simp [hk]), List.filter_cons_of_pos (by simp [hk])]
        exact .cons hp (ih h)

end Scan
