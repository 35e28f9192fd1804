import SslaRt.Contamination
import SslaRt.MessageStep
import SslaRt.PartialView
import SslaRt.ShardRouting

/-! A shard runs over the events that are routed to it. Whatever relates its
pipeline to the one that runs over all events relates what the two compute for
the events that the shard owns. -/

namespace SslaRt

open Scan

variable {R : Type*}

/-- One pipeline for the whole grid treats every event as its own. -/
def ownMessage (e : Event R) : ShardMsg R := ⟨e, true, false⟩

/-- The events of a shard with the outputs of a run over all events. -/
def ownedOutcomes {β : Type*} (h : S01gHandle) (k : Nat) (events : List (Event R))
    (outs : List β) : List (Event R × β) :=
  (events.zip outs).filter fun p => h.Owns k p.1

/-- The outputs of a shard that belong to its owner messages. -/
def ownerOutcomes {β : Type*} (msgs : List (ShardMsg R)) (outs : List β) : List β :=
  ((msgs.zip outs).filter fun p => p.1.is_owner).map Prod.snd

section Transfer

variable {σ τ γ δ : Type*} {f : σ → Event R → σ × γ} {g : τ → ShardMsg R → τ × δ}
  {h : S01gHandle} {k : Nat} {ok : Event R → Prop} {Rel : σ → τ → Prop}

def SharedVisit (f : σ → Event R → σ × γ) (g : τ → ShardMsg R → τ × δ) (h : S01gHandle) (k : Nat)
    (ok : Event R → Prop) (Rel : σ → τ → Prop) (p : Event R × γ) (o' : δ) : Prop :=
  ∃ s t, ok p.1 ∧ h.Owns k p.1 ∧ Rel s t ∧ p.2 = (f s p.1).2 ∧ o' = (g t (ownMessage p.1)).2

theorem ownedOutcomes_related (hhalo : 0 ≤ h.halo) (hview : PartialView f g (h.route k) ok Rel)
    {events : List (Event R)} (hok : ∀ e ∈ events, ok e) {s : σ} {t : τ} (hst : Rel s t) :
    List.Forall₂ (SharedVisit f g h k ok Rel) (ownedOutcomes h k events (outs f s events))
      (ownerOutcomes (events.filterMap (h.route k)) (outs g t (events.filterMap (h.route k)))) := by
  induction events generalizing s t with
  | nil => exact .nil
  | cons e events ih =>
    have he := hok e (by simp)
    have hes : ∀ e' ∈ events, ok e' := fun e' h' => hok e' (by simp [h'])
    cases hr : h.route k e with
    | none =>
      have hno : ¬ h.Owns k e := fun ho => h.route_eq_none.mp hr ⟨ho.1, h.covers_of_owns hhalo ho⟩
      rw [List.filterMap_cons_none hr, outs, ownedOutcomes, List.zip_cons_cons,
        List.filter_cons_of_neg (by simp [hno])]
      exact ih hes (hview.unseen he hr hst)
    | some m =>
      obtain ⟨⟨hb, hc⟩, rfl⟩ := h.route_eq_some.mp hr
      have hrest := ih hes (hview.seen he hr hst)
      rw [List.filterMap_cons_some hr, outs, outs, ownedOutcomes, ownerOutcomes,
        List.zip_cons_cons, List.zip_cons_cons]
      by_cases ho : k = h.owner (castInt e.x)
      · have hown : h.Owns k e := ⟨hb, ho⟩
        rw [List.filter_cons_of_pos (by simp [hown]), List.filter_cons_of_pos (by simp [ho])]
        refine .cons ⟨s, t, he, hown, hst, rfl, ?_⟩ hrest
        simp [ho, ownMessage]
      · have hno : ¬ h.Owns k e := fun hh => ho hh.2
        rw [List.filter_cons_of_neg (by simp [hno]), List.filter_cons_of_neg (by simp [ho])]
        exact hrest

end Transfer

end SslaRt
