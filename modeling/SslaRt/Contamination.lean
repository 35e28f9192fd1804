import Mathlib.Data.Set.Basic

/-! How a difference between two memories spreads. An event reads and writes
the cells of its patch; `bad` events write what one of the memories does not
get. The cells outside the patches of the bad events stay clean, and an event
whose patch is clean reads the same from both memories. -/

namespace Contamination

variable {ε ι S : Type*}

/-- The events of `X` that share a cell with a bad event, or are bad themselves. -/
def reach (patch : ε → List ι) (X bad : Set ε) : Set ε :=
  {a | a ∈ X ∧ (a ∈ bad ∨ ∃ b ∈ bad, ∃ c ∈ patch b, c ∈ patch a)}

def Clean (patch : ε → List ι) (bad : Set ε) (H H' : ι → S) : Prop :=
  ∀ c, (∀ b ∈ bad, c ∉ patch b) → H c = H' c

variable {patch : ε → List ι} {X bad : Set ε} {H H' G G' : ι → S} {a : ε}

theorem Clean.refl (patch : ε → List ι) (bad : Set ε) (H : ι → S) : Clean patch bad H H :=
  fun _ _ => rfl

theorem subset_reach (hX : a ∈ X) (ha : a ∈ bad) : a ∈ reach patch X bad := ⟨hX, .inl ha⟩

theorem reach_of_no_bad (h : ∀ a, a ∉ bad) : ∀ a, a ∉ reach patch X bad := by
  rintro a ⟨-, ha | ⟨b, hb, -⟩⟩
  · exact h a ha
  · exact h b hb

theorem Clean.on_patch (h : Clean patch bad H H') (hX : a ∈ X) (ha : a ∉ reach patch X bad) :
    ∀ c ∈ patch a, H c = H' c :=
  fun c hc => h c fun b hb hcb => ha ⟨hX, .inr ⟨b, hb, c, hcb, hc⟩⟩

theorem Clean.seen (h : Clean patch bad H H')
    (hstep : ∀ c, H c = H' c → (c ∈ patch a → a ∉ bad) → G c = G' c) : Clean patch bad G G' :=
  fun c hc => hstep c (h c hc) fun hca ha => hc a ha hca

theorem Clean.unseen (h : Clean patch bad H H') (ha : a ∈ bad)
    (hstep : ∀ c, c ∉ patch a → G c = H c) : Clean patch bad G H' :=
  fun c hc => (hstep c (hc a ha)).trans (h c hc)

/-- Nothing that is reached can be ruled out: if the difference between two
runs is never lost, every reached event shows it after some run over `X`. -/
theorem exists_run_of_mem_reach {seen : ε → Prop} {inp out : List ε → ε → Prop}
    {mem : List ε → ι → Prop}
    (hunseen : ∀ b ∈ X, ¬ seen b → ∀ c ∈ patch b, mem [b] c)
    (hseen : ∀ l, ∀ b ∈ X, seen b → inp l b → ∀ c ∈ patch b, mem (l ++ [b]) c)
    (hout : ∀ l a, seen a → (inp l a ∨ ∃ c ∈ patch a, mem l c) → out l a)
    (hX : ∀ b ∈ bad, b ∈ X) (hinp : ∀ b ∈ bad, seen b → ∃ l, (∀ e ∈ l, e ∈ X) ∧ inp l b) :
    ∀ a ∈ reach patch X bad, seen a → ∃ l, (∀ e ∈ l, e ∈ X) ∧ out l a := by
  rintro a ⟨-, ha | ⟨b, hb, c, hcb, hca⟩⟩ hs
  · obtain ⟨l, hl, hi⟩ := hinp a ha hs
    exact ⟨l, hl, hout l a hs (.inl hi)⟩
  · by_cases hsb : seen b
    · obtain ⟨l, hl, hi⟩ := hinp b hb hsb
      refine ⟨l ++ [b], fun e he => ?_, hout _ a hs (.inr ⟨c, hca, hseen l b (hX b hb) hsb hi c hcb⟩)⟩
      rcases List.mem_append.mp he with he | he
      · exact hl e he
      · exact List.mem_singleton.mp he ▸ hX b hb
    · refine ⟨[b], fun e he => ?_, hout _ a hs (.inr ⟨c, hca, hunseen b (hX b hb) hsb c hcb⟩)⟩
      exact List.mem_singleton.mp he ▸ hX b hb

end Contamination
