import SslaRt.OwnedCells
import SslaRt.Scan
import SslaRt.SumSchemeProgress

/-! Every hidden cell has one shard that updates it, so that a shard computes the same
in every run: what it computes alone from its own work. -/

namespace SslaRt

namespace SumScheme

open CellMemory OwnedCells

variable {R : Type*} [CommRing R] (p : SumScheme R)

def Layer.index : Layer → Nat
  | .l0 => 0
  | .l1 => 1

/-- A piece of work on the hidden state of its layer. -/
def part (l : Layer) (_k : Nat) (w : ShardWork R) (H_all : Nat → Fin kC0 → R) :
    (Nat → Fin kC0 → R) × (Fin kC0 → R) :=
  match l with
  | .l0 => shardLayerForwardCt p.ar kInDim kC0 (p.layers_ 0) w.x w.y (p.Hs_ 0) (p.Ws_ 0)
    (readFeat kInDim w.feat_in) w.owned_mask H_all
  | .l1 => shardLayerForwardCt p.ar kC0 kC0 (p.layers_ 1) w.x w.y (p.Hs_ 0) (p.Ws_ 0)
    (readFeat kC0 w.feat_in) w.owned_mask H_all

/-- The shard of a hidden cell. Bit 0 of a mask stands for the column to the right of
the event, and a layer of one position looks at no other bit. -/
def owner (l : Layer) (c : Nat) : Nat :=
  shardOfCol p.W_ p.num_shards
    ((c % p.W_ + if (p.layers_ l.index).num_pos = 1 then 1 else 0 : Nat) : Int)

def OwnWork (k : Nat) (w : ShardWork R) : Prop := w.owned_mask = shardPatchMask k w.x p.W_ p.num_shards

variable {p}

omit [CommRing R] in
theorem Ws_zero : p.Ws_ 0 = p.W_ := by simp [SslaSPipeline.Ws_]

theorem shardLayerForward_part (l : Layer) (hidden : Layer → Nat → Fin kC0 → R) (k : Nat) (w : ShardWork R) :
    p.shardLayerForward l hidden w =
      (Function.update hidden l (p.part l k w (hidden l)).1, (p.part l k w (hidden l)).2) := by
  cases l <;> rfl

theorem part_sweep (l : Layer) (k : Nat) (w : ShardWork R) :
    ∃ f : Nat → (Fin kC0 → R) → (Fin kC0 → R) × (Fin kC0 → R), ∀ H_all, p.part l k w H_all =
      sweep f (shardPatches (p.layers_ l.index).num_pos w.owned_mask w.x w.y (p.Hs_ 0) (p.Ws_ 0)) H_all 0 := by
  cases l with
  | l0 => exact ⟨_, fun _ => rfl⟩
  | l1 => exact ⟨_, fun _ => rfl⟩

theorem owner_of_patch {num_pos k x y H W N c : Nat}
    (hc : c ∈ cells (shardPatches num_pos (shardPatchMask k x W N) x y H W)) :
    shardOfCol W N ((c % W + if num_pos = 1 then 1 else 0 : Nat) : Int) = k := by
  obtain ⟨⟨c', d⟩, hmem, rfl⟩ := List.mem_map.mp hc
  by_cases hpos : num_pos = 1
  · unfold shardPatches at hmem
    rw [if_pos hpos] at hmem
    split at hmem
    · rename_i hbit
      obtain ⟨-, hlt, hown⟩ := (shardPatchMask_bit (by omega)).mp hbit
      obtain ⟨rfl, -⟩ := Prod.mk.inj (List.mem_singleton.mp hmem)
      have hx : x + 1 < W := by
        simp only [patchCol] at hlt
        omega
      have hcol : (y * W + x) % W = x := by
        rw [Nat.mul_comm, Nat.mul_add_mod, Nat.mod_eq_of_lt (by omega)]
      dsimp only
      rw [if_pos hpos, hcol, ← hown]
      congr 1
    · cases hmem
  · obtain ⟨hd, hbit, hn⟩ := (mem_shardPatches hpos).mp hmem
    obtain ⟨-, -, hown⟩ := (shardPatchMask_bit hd).mp hbit
    obtain ⟨-, rfl, hy, hyH, hx, hxW⟩ := neighbour_eq_some.mp hn
    rw [if_neg hpos, ← hown]
    congr 1
    dsimp only
    rw [Nat.add_zero, Nat.mul_comm, Nat.mul_add_mod, Nat.mod_eq_of_lt hxW]
    simp only [patchCol]
    omega

theorem part_owned (l : Layer) : Owned (p.part l) (p.owner l) p.OwnWork := by
  have hcells : ∀ {k w}, p.OwnWork k w → ∀ {c}, c ∈ cells (shardPatches (p.layers_ l.index).num_pos
      w.owned_mask w.x w.y (p.Hs_ 0) (p.Ws_ 0)) → p.owner l c = k := by
    intro k w hw c hc
    rw [show w.owned_mask = _ from hw, Ws_zero] at hc
    exact owner_of_patch hc
  constructor
  · intro k w hw m c hc
    obtain ⟨f, hf⟩ := part_sweep (p := p) l k w
    rw [hf]
    exact sweep_frame f _ _ _ fun hmem => hc (hcells hw hmem)
  · intro k w hw m m' hm c hc
    obtain ⟨f, hf⟩ := part_sweep (p := p) l k w
    rw [hf, hf]
    exact sweep_local f _ 0 0 (hm c hc)
  · intro k w hw m m' hm
    obtain ⟨f, hf⟩ := part_sweep (p := p) l k w
    rw [hf, hf]
    exact sweep_sum_local f _ 0 fun c hc => hm c (hcells hw hc)

/-- The works that a shard has taken, in their order. -/
def State.taken (s : State R) (l : Layer) (k : Nat) : List (ShardWork R) := (s.log l k).map Prod.fst

/-- The hidden states are what the shards alone would leave. -/
def Replays (p : SumScheme R) (s : State R) : Prop :=
  ∀ l, Replayed (p.part l) (p.owner l) 0 (s.taken l) (s.hidden l)

/-- A shard computes what it would compute alone. -/
def Outputs (p : SumScheme R) (s : State R) : Prop := ∀ l k, ∀ a e b, s.log l k = a ++ e :: b →
  e.2.partial_feat = (p.part l k e.1 (replay (p.part l) 0 k (a.map Prod.fst))).2

variable {s s' : State R} {ops : List (ProducerOp R)}

omit [CommRing R] in
theorem workAt_ownWork {k : Nat} {j : Job R} {w : ShardWork R} (h : p.workAt k j = some w) :
    p.OwnWork k w := by
  rw [workAt_seq h]
  rfl

/-- The work that waits for a shard is its own. -/
theorem Working.ownWork (hw : Working p ops s) {l : Layer} {k : Nat} {w : ShardWork R}
    (hmem : w ∈ s.toShard p l k) : p.OwnWork k w := by
  have hall : w ∈ (issued ops s l).filterMap (p.workAt k) := by
    rw [← hw l k]
    exact List.mem_append_right _ hmem
  obtain ⟨j, -, hj⟩ := List.mem_filterMap.mp hall
  exact workAt_ownWork hj

theorem Replays.take (hr : Replays p s) {l : Layer} {k : Nat} {w : ShardWork R} {pm : PartialMsg R}
    (hw : p.OwnWork k w) (hlog : s'.log = set2 s.log l k (s.log l k ++ [(w, pm)]))
    (hhidden : s'.hidden = (p.shardLayerForward l s.hidden w).1) : Replays p s' := by
  intro l'
  rw [shardLayerForward_part l s.hidden k w] at hhidden
  dsimp only at hhidden
  rcases eq_or_ne l' l with rfl | hl
  · rw [hhidden, Function.update_self]
    refine (hr l').snoc (part_owned l') hw ?_ fun j hj => ?_
    · simp [State.taken, hlog, set2_apply]
    · simp [State.taken, hlog, set2_apply, hj]
  · have htaken : s'.taken l' = s.taken l' := by
      funext j
      simp [State.taken, hlog, set2_apply, hl]
    rw [hhidden, Function.update_of_ne hl, htaken]
    exact hr l'

theorem Outputs.take (hr : Replays p s) (ho : Outputs p s) {l : Layer} {k : Nat} {w : ShardWork R}
    {pm : PartialMsg R} (hw : p.OwnWork k w) (hlog : s'.log = set2 s.log l k (s.log l k ++ [(w, pm)]))
    (hpm : pm.partial_feat = (p.shardLayerForward l s.hidden w).2) : Outputs p s' := by
  intro l' k' a e b heq
  rw [hlog, set2_apply] at heq
  by_cases h : l' = l ∧ k' = k
  · obtain ⟨rfl, rfl⟩ := h
    rw [if_pos ⟨rfl, rfl⟩] at heq
    rcases List.eq_nil_or_concat b with rfl | ⟨b', x, rfl⟩
    · obtain ⟨ha, he⟩ := List.append_inj' heq rfl
      obtain rfl := (List.cons.inj he).1
      rw [hpm, shardLayerForward_part l' s.hidden k' w, ← ha]
      exact (hr l').out (part_owned l') hw
    · rw [List.concat_eq_append, ← List.cons_append, ← List.append_assoc] at heq
      obtain ⟨ha, -⟩ := List.append_inj' heq rfl
      exact ho l' k' a e b' ha
  · rw [if_neg h] at heq
    exact ho l' k' a e b heq

theorem replays_step (hw : Working p ops s) (hr : Replays p s ∧ Outputs p s) (h : p.Step s s') :
    Replays p s' ∧ Outputs p s' := by
  cases h with
  | producer h => cases h <;> exact hr
  | stages h => cases h <;> exact hr
  | sum h => cases h <;> exact hr
  | shard k hk h =>
    cases h with
    | take l w q hpc hq =>
      have hown : p.OwnWork k w := by
        refine hw.ownWork (l := l) (List.mem_append_left _ ?_)
        rw [hq]
        exact List.mem_cons_self
      exact ⟨hr.1.take hown rfl rfl, Outputs.take hr.1 hr.2 hown rfl rfl⟩
    | takeEof l q hpc hq => exact hr
    | miss l hpc hq => exact hr
    | push l pm hpc hroom => exact hr
    | decide hpc => exact hr

theorem reachable_replays (hp : Driven p ops) (h : p.Reachable ops s) : Replays p s ∧ Outputs p s := by
  induction h with
  | refl =>
    refine ⟨fun l => replayed_nil, fun l k a e b heq => ?_⟩
    simp [init] at heq
  | tail hr hst ih => exact replays_step (reachable_inv hp hr).working ih hst

end SumScheme

end SslaRt
