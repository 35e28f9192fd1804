import Mathlib.Data.Nat.Count
import Mathlib.Data.Finset.Card
import Mathlib.Combinatorics.Pigeonhole

/-! A byte that counts up and passes at the multiples of a window: how far
apart two passes are at least, also where the byte wraps. -/

namespace ByteCounter

variable {w : Nat}

/-- The least distance of two passes. -/
def passGap (w : Nat) : Nat := 255 % w + 1

theorem passGap_le (hw : 1 ≤ w) : passGap w ≤ w := Nat.mod_lt 255 hw

theorem mod_zero_of_add {x d : Nat} (hx : x % w = 0) (h : (x + d) % w = 0) : d % w = 0 := by
  rwa [Nat.add_mod, hx, Nat.zero_add, Nat.mod_mod] at h

theorem le_of_mod_zero (hw : 1 ≤ w) {x : Nat} (hx : x % w = 0) (hlt : x < 256) : x + 255 % w ≤ 255 := by
  obtain ⟨k, rfl⟩ := Nat.dvd_of_mod_eq_zero hx
  have hle : k ≤ 255 / w :=
    (Nat.le_div_iff_mul_le hw).mpr (by rw [Nat.mul_comm]; exact Nat.le_of_lt_succ hlt)
  calc w * k + 255 % w ≤ w * (255 / w) + 255 % w :=
        Nat.add_le_add_right (Nat.mul_le_mul_left w hle) _
    _ = 255 := Nat.div_add_mod 255 w

theorem passGap_le_of_pass (hw : 1 ≤ w) {n d : Nat} (hd : 0 < d) (h : n % 256 % w = 0)
    (h' : (n + d) % 256 % w = 0) : passGap w ≤ d := by
  have hlt := Nat.mod_lt n (by decide : 0 < 256)
  by_cases hwrap : n % 256 + d < 256
  · have hsum : (n + d) % 256 = n % 256 + d := by omega
    rw [hsum] at h'
    have hdvd := Nat.dvd_of_mod_eq_zero (mod_zero_of_add h h')
    exact (passGap_le hw).trans (Nat.le_of_dvd hd hdvd)
  · have hle := le_of_mod_zero hw h hlt
    unfold passGap
    omega

theorem passGap_le_count (hw : 1 ≤ w) {p : Nat → Prop} [DecidablePred p] {base i j : Nat}
    (hij : i < j) (hp : p i) (hi : (base + Nat.count p i) % 256 % w = 0)
    (hj : (base + Nat.count p j) % 256 % w = 0) : Nat.count p i + passGap w ≤ Nat.count p j := by
  have hsucc : Nat.count p (i + 1) = Nat.count p i + 1 := Nat.count_succ_eq_succ_count_iff.mpr hp
  have hmono : Nat.count p (i + 1) ≤ Nat.count p j := Nat.count_monotone p hij
  obtain ⟨d, hd⟩ := Nat.exists_eq_add_of_le (Nat.le_of_lt (by omega : Nat.count p i < Nat.count p j))
  rw [hd, ← Nat.add_assoc] at hj
  have hgap := passGap_le_of_pass hw (by omega) hi hj
  omega

section TwoLevels

variable {κ : Type*} [DecidableEq κ] {n : Nat} {sub : Nat → κ} {pass : Nat → Prop}
  [DecidablePred pass] {base : κ → Nat}

/-- Between two passes of a sub-cell that follow each other, the arrivals there
do not pass. -/
theorem passGap_le_dropped (hw : 1 ≤ w)
    (hpass : ∀ e < n, pass e → (base (sub e) + Nat.count (fun k => sub k = sub e) e) % 256 % w = 0)
    {i j : Nat} (hij : i < j) (hj : j < n) (hsub : sub j = sub i) (hpi : pass i) (hpj : pass j)
    (hbetween : ∀ k, i < k → k < j → sub k = sub i → ¬ pass k) :
    passGap w ≤ 1 + ((Finset.range n).filter fun k => sub k = sub i ∧ ¬ pass k).card := by
  set p := fun k => sub k = sub i with hp
  have hj' := hpass j hj hpj
  simp only [hsub] at hj'
  have hgap : Nat.count p i + passGap w ≤ Nat.count p j :=
    passGap_le_count hw hij rfl (hpass i (hij.trans hj) hpi) hj'
  have hsplit : (Finset.range j).filter p ⊆ ((Finset.range i).filter p ∪ {i}) ∪
      (Finset.range n).filter fun k => sub k = sub i ∧ ¬ pass k := by
    intro k hk
    obtain ⟨hkj, hpk⟩ := Finset.mem_filter.mp hk
    have hlt := Finset.mem_range.mp hkj
    simp only [Finset.mem_union, Finset.mem_filter, Finset.mem_range, Finset.mem_singleton]
    rcases Nat.lt_trichotomy k i with h | h | h
    · exact Or.inl (Or.inl ⟨h, hpk⟩)
    · exact Or.inl (Or.inr h)
    · exact Or.inr ⟨hlt.trans hj, hpk, hbetween k h hlt hpk⟩
  have hcard := (Finset.card_le_card hsplit).trans (Finset.card_union_le _ _)
  have hcard' := Finset.card_union_le ((Finset.range i).filter p) {i}
  rw [Finset.card_singleton] at hcard'
  rw [← Nat.count_eq_card_filter_range p] at hcard hcard'
  omega

omit [DecidableEq κ] in
theorem exists_shared_sub {q : Nat → Prop} [DecidablePred q] {cells : Finset κ}
    (hcells : ∀ e < n, q e → sub e ∈ cells) (hcard : cells.card < Nat.count q n) :
    ∃ i < n, ∃ j < n, i < j ∧ sub j = sub i ∧ q i ∧ q j := by
  rw [Nat.count_eq_card_filter_range] at hcard
  obtain ⟨a, ha, b, hb, hab, hsub⟩ := Finset.exists_ne_map_eq_of_card_lt_of_maps_to
    (s := (Finset.range n).filter q) (t := cells) (f := sub) hcard (fun k hk =>
      hcells k (Finset.mem_range.mp (Finset.mem_filter.mp hk).1) (Finset.mem_filter.mp hk).2)
  obtain ⟨han, hqa⟩ := Finset.mem_filter.mp ha
  obtain ⟨hbn, hqb⟩ := Finset.mem_filter.mp hb
  rcases Nat.lt_or_gt_of_ne hab with h | h
  · exact ⟨a, Finset.mem_range.mp han, b, Finset.mem_range.mp hbn, h, hsub.symm, hqa, hqb⟩
  · exact ⟨b, Finset.mem_range.mp hbn, a, Finset.mem_range.mp han, h, hsub, hqb, hqa⟩

/-- Few arrivals over few sub-cells do not pass a second counter of the same
window twice. -/
theorem not_two_passes (hw : 1 ≤ w)
    (hpass : ∀ e < n, pass e → (base (sub e) + Nat.count (fun k => sub k = sub e) e) % 256 % w = 0)
    (hn : n < 2 * passGap w) {top : Nat → Prop} [DecidablePred top] {cells : Finset κ}
    (hcells : ∀ e < n, top e → sub e ∈ cells) (hcard : cells.card ≤ passGap w) {base' e e' : Nat}
    (hlt : e < e') (he' : e' < n) (h : pass e ∧ top e) (h' : pass e' ∧ top e')
    (hv : (base' + Nat.count (fun k => pass k ∧ top k) e) % 256 % w = 0)
    (hv' : (base' + Nat.count (fun k => pass k ∧ top k) e') % 256 % w = 0) : False := by
  set q := fun k => pass k ∧ top k
  -- the passing arrivals at the top cell are many
  have hmany : passGap w + 1 ≤ Nat.count q n := by
    have hgap : Nat.count q e + passGap w ≤ Nat.count q e' := passGap_le_count hw hlt h hv hv'
    have hsucc' : Nat.count q (e' + 1) = Nat.count q e' + 1 :=
      Nat.count_succ_eq_succ_count_iff.mpr h'
    have hmono' : Nat.count q (e' + 1) ≤ Nat.count q n := Nat.count_monotone q he'
    omega
  obtain ⟨i, -, j, hj, hij, hji, ⟨hpi, -⟩, hpj, -⟩ :=
    exists_shared_sub (fun k hk hqk => hcells k hk hqk.2) (hcard.trans_lt hmany)
  -- the next pass after `i` is many arrivals away, none of which passes
  have hex : ∃ k, i < k ∧ sub k = sub i ∧ pass k := ⟨j, hij, hji, hpj⟩
  obtain ⟨hik, hki, hpk⟩ := Nat.find_spec hex
  have hkn : Nat.find hex < n := (Nat.find_min' hex ⟨hij, hji, hpj⟩).trans_lt hj
  have hdropped := passGap_le_dropped hw hpass hik hkn hki hpi hpk
    (fun k hk hlt' hsk hpk' => Nat.find_min hex hlt' ⟨hk, hsk, hpk'⟩)
  have hdisj : Disjoint ((Finset.range n).filter q)
      ((Finset.range n).filter fun k => sub k = sub i ∧ ¬ pass k) :=
    Finset.disjoint_filter.mpr fun k _ hqk hk => hk.2 hqk.1
  have htotal := Finset.card_le_card (Finset.union_subset (Finset.filter_subset q (Finset.range n))
    (Finset.filter_subset (fun k => sub k = sub i ∧ ¬ pass k) (Finset.range n)))
  rw [Finset.card_union_of_disjoint hdisj, Finset.card_range] at htotal
  have hcount : Nat.count q n = ((Finset.range n).filter q).card := Nat.count_eq_card_filter_range q n
  omega

end TwoLevels

section Runs

variable (w)

/-- An arrival at sub-cell `i`: its counter counts up, and the counter above it
if the arrival passes. -/
def countStep (c : (Nat → Nat) × Nat) (i : Nat) : (Nat → Nat) × Nat :=
  (Function.update c.1 i (c.1 i + 1), if c.1 i % 256 % w = 0 then c.2 + 1 else c.2)

def countRun (c : (Nat → Nat) × Nat) (l : List Nat) : (Nat → Nat) × Nat := l.foldl (countStep w) c

theorem countRun_append (c : (Nat → Nat) × Nat) (l l' : List Nat) :
    countRun w c (l ++ l') = countRun w (countRun w c l) l' := List.foldl_append

theorem countRun_of_notMem {c : (Nat → Nat) × Nat} {l : List Nat} {i : Nat} (hi : i ∉ l) :
    (countRun w c l).1 i = c.1 i := by
  induction l generalizing c with
  | nil => rfl
  | cons j l ih =>
    obtain ⟨hij, hil⟩ := not_or.mp (mt List.mem_cons.mpr hi)
    exact (ih hil).trans (Function.update_of_ne hij _ _)

theorem countRun_passes {c : (Nat → Nat) × Nat} {l : List Nat} (hnd : l.Nodup)
    (hl : ∀ i ∈ l, c.1 i % 256 % w = 0) : (countRun w c l).2 = c.2 + l.length := by
  induction l generalizing c with
  | nil => rfl
  | cons j l ih =>
    obtain ⟨hj, hnd'⟩ := List.nodup_cons.mp hnd
    refine (ih hnd' (fun i hi => ?_)).trans ?_
    · have hne : i ≠ j := fun h => hj (h ▸ hi)
      simpa [countStep, Function.update_of_ne hne] using hl i (List.mem_cons_of_mem j hi)
    · rw [countStep, if_pos (hl j List.mem_cons_self), List.length_cons]
      omega

theorem countRun_replicate (c : (Nat → Nat) × Nat) (k i : Nat) :
    (countRun w c (List.replicate k i)).1 = Function.update c.1 i (c.1 i + k) := by
  induction k generalizing c with
  | zero => exact (Function.update_eq_self i c.1).symm
  | succ k ih =>
    refine (ih (countStep w c i)).trans ?_
    simp only [countStep, Function.update_self, Function.update_idem]
    congr 1
    omega

theorem exists_phase (c : (Nat → Nat) × Nat) (i d : Nat) (hd : (c.1 i + d) % 256 = 0) :
    ∃ k, (countRun w c (List.replicate k i)).2 = c.2 ∧ (c.1 i + k) % 256 % w = 0 := by
  induction d generalizing c with
  | zero => exact ⟨0, rfl, by rw [hd, Nat.zero_mod]⟩
  | succ d ih =>
    by_cases hp : c.1 i % 256 % w = 0
    · exact ⟨0, rfl, hp⟩
    · have hstep : (countStep w c i).1 i = c.1 i + 1 := Function.update_self _ _ _
      obtain ⟨k, hk, hphase⟩ := ih (countStep w c i) (by rw [hstep]; omega)
      refine ⟨k + 1, hk.trans (if_neg hp), ?_⟩
      rw [hstep] at hphase
      rwa [Nat.add_assoc, Nat.add_comm 1 k] at hphase

theorem exists_total (c : (Nat → Nat) × Nat) (i p : Nat) :
    ∃ k, (countRun w c (List.replicate k i)).2 = c.2 + p ∧ (c.1 i + k) % 256 % w = 0 := by
  induction p with
  | zero => exact exists_phase w c i (256 - c.1 i % 256) (by omega)
  | succ p ih =>
    obtain ⟨k, hk, hphase⟩ := ih
    have hrun := countRun_replicate w c k i
    set c' := countRun w c (List.replicate k i) with hc'
    have hi : c'.1 i = c.1 i + k := by rw [hrun, Function.update_self]
    have hstep : (countStep w c' i).1 i = c.1 i + k + 1 :=
      (Function.update_self _ _ _).trans (congrArg (· + 1) hi)
    obtain ⟨k', hk', hphase'⟩ := exists_phase w (countStep w c' i) i
      (256 - (c.1 i + k + 1) % 256) (by rw [hstep]; omega)
    refine ⟨k + (1 + k'), ?_, ?_⟩
    · rw [List.replicate_add, List.replicate_add, countRun_append, countRun_append, ← hc']
      refine hk'.trans ?_
      rw [countStep, if_pos (by rw [hi]; exact hphase), hk]
      rfl
    · rw [hstep] at hphase'
      rwa [← Nat.add_assoc, ← Nat.add_assoc]

variable {w}

/-- The arrivals between the last pass before the wrap and the wrap are
dropped. -/
theorem countRun_drops {c : (Nat → Nat) × Nat} {i : Nat} (hw : 1 ≤ w)
    (hi : c.1 i % 256 = 255 - 255 % w) {k : Nat} (hk : k ≤ 255 % w) :
    (countRun w c (List.replicate (k + 1) i)).2 = c.2 + 1 := by
  have hlast : (255 - 255 % w) % w = 0 := Nat.mod_eq_zero_of_dvd (Nat.dvd_sub_mod 255)
  induction k with
  | zero => exact if_pos (by rw [hi, hlast])
  | succ k ih =>
    have hlt := Nat.mod_lt 255 hw
    have hle := Nat.mod_le 255 w
    have hsum : (c.1 i + (k + 1)) % 256 = 255 - 255 % w + (k + 1) := by omega
    rw [List.replicate_succ', countRun_append]
    refine Eq.trans (if_neg ?_) (ih (by omega))
    rw [countRun_replicate, Function.update_self, hsum]
    intro h
    have hdvd := Nat.le_of_dvd (by omega) (Nat.dvd_of_mod_eq_zero (mod_zero_of_add hlast h))
    omega

/-- Counters from which a few arrivals pass both levels twice. -/
structure Crowded (w : Nat) (c : (Nat → Nat) × Nat) : Prop where
  first : c.1 1 % 256 = 255 - 255 % w
  others : ∀ i ∈ [0, 2, 3], c.1 i % 256 % w = 0
  top : c.2 % 256 = 255 - 255 % w

theorem exists_crowded (w : Nat) : ∃ n k,
    Crowded w (countRun w (fun _ => 0, 0) (List.replicate n 1 ++ List.replicate k 0)) := by
  set c := countRun w (fun _ => 0, 0) (List.replicate (255 - 255 % w) 1) with hc
  have hfirst : c.1 = Function.update (fun _ => 0) 1 (255 - 255 % w) := by
    rw [hc, countRun_replicate]
    simp
  obtain ⟨k, htop, hphase⟩ := exists_total w c 0 (255 - 255 % w + 256 - c.2 % 256)
  refine ⟨255 - 255 % w, k, ?_⟩
  rw [countRun_append, ← hc]
  have hrest : ∀ i, i ≠ 0 → (countRun w c (List.replicate k 0)).1 i = c.1 i := fun i hi =>
    countRun_of_notMem w (fun h => hi (List.eq_of_mem_replicate h))
  constructor
  · rw [hrest 1 (by decide), hfirst, Function.update_self]
    omega
  · intro i hi
    by_cases h0 : i = 0
    · subst h0
      rwa [countRun_replicate, Function.update_self]
    · have h1 : i ≠ 1 := by
        rintro rfl
        simp at hi
      rw [hrest i h0, hfirst, Function.update_of_ne h1]
      simp
  · rw [htop]
    omega

theorem Crowded.first_passes {c : (Nat → Nat) × Nat} (h : Crowded w c) :
    c.1 1 % 256 % w = 0 ∧ c.2 % 256 % w = 0 := by
  have hlast : (255 - 255 % w) % w = 0 := Nat.mod_eq_zero_of_dvd (Nat.dvd_sub_mod 255)
  exact ⟨by rw [h.first, hlast], by rw [h.top, hlast]⟩

theorem Crowded.later_passes {c : (Nat → Nat) × Nat} (hw : 1 ≤ w) (h : Crowded w c)
    {p q : List Nat} {i : Nat} (hsplit : [1, 0, 2, 3] = p ++ i :: q) (hp : p.length = 255 % w) :
    let c' := countRun w c (List.replicate (255 % w + 1) 1 ++ p)
    c'.1 i % 256 % w = 0 ∧ c'.2 % 256 % w = 0 := by
  intro c'
  set c₁ := countRun w c (List.replicate (255 % w + 1) 1) with hc₁
  have hle := Nat.mod_le 255 w
  have hsub := countRun_replicate w c (255 % w + 1) 1
  have htop : c₁.2 = c.2 + 1 := countRun_drops hw h.first le_rfl
  -- the first cell passes again where its counter wraps
  have hphase : ∀ j ∈ [1, 0, 2, 3], c₁.1 j % 256 % w = 0 := by
    intro j hj
    rw [hc₁, hsub]
    by_cases h1 : j = 1
    · have hwrap : (c.1 1 + (255 % w + 1)) % 256 = 0 := by
        have hfirst := h.first
        omega
      rw [h1, Function.update_self, hwrap, Nat.zero_mod]
    · rw [Function.update_of_ne h1]
      exact h.others j (by simpa [h1] using hj)
  have hnd : (p ++ i :: q).Nodup := hsplit ▸ (by decide)
  obtain ⟨hndp, -, hdisj⟩ := List.nodup_append.mp hnd
  rw [hsplit] at hphase
  have hc' : c' = countRun w c₁ p := countRun_append w c _ p
  constructor
  · have hi : i ∉ p := fun hip => hdisj i hip i List.mem_cons_self rfl
    rw [hc', countRun_of_notMem w hi]
    exact hphase i (by simp)
  · have hwrap : (c.2 + 1 + 255 % w) % 256 = 0 := by
      have htop' := h.top
      omega
    rw [hc', countRun_passes w hndp (fun j hj => hphase j (by simp [hj])), htop, hp, hwrap,
      Nat.zero_mod]

end Runs

end ByteCounter
