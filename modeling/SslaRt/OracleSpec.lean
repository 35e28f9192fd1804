import SslaRt.Oracle
import Mathlib.Tactic.Ring

/-! What the reader of the dumps sees of any byte string, and when the verdict
of the comparison says what the files hold. -/

namespace SslaRt

open LittleEndian

section Doubles

namespace Dbl

theorem gt_trans {a b c : Dbl} (h : gt a b = true) (h' : gt b c = true) : gt a c = true := by
  cases a with
  | nan => exact absurd h (by simp [gt])
  | inf s => cases b <;> cases c <;> simp_all [gt]
  | fin x =>
    cases b with
    | nan => exact absurd h (by simp [gt])
    | inf s => cases c <;> simp_all [gt]
    | fin y =>
      cases c with
      | nan => exact absurd h' (by simp [gt])
      | inf s => exact h'
      | fin z =>
        simp only [gt, decide_eq_true_eq] at h h' ⊢
        exact h'.trans h

theorem gt_of_not_gt {d c t : Dbl} (hd : gt d t = true) (hdc : gt d c = false) (hc : c ≠ .nan) :
    gt c t = true := by
  cases c with
  | nan => exact absurd rfl hc
  | inf s => cases d <;> cases t <;> cases s <;> simp_all [gt]
  | fin y =>
    cases d with
    | nan => exact absurd hd (by simp [gt])
    | inf s => cases t <;> cases s <;> simp_all [gt]
    | fin x =>
      cases t with
      | nan => exact absurd hd (by simp [gt])
      | inf s => exact hd
      | fin z =>
        simp only [gt, decide_eq_true_eq, decide_eq_false_iff_not, not_lt] at hd hdc ⊢
        exact hd.trans_le hdc

/-- Neither is a NaN, and the first is not greater. -/
def le (a b : Dbl) : Prop := a ≠ .nan ∧ b ≠ .nan ∧ gt a b = false

/-- The running maximum passes a bound exactly if its start and all values do. -/
theorem foldl_max_gt {ds : List Dbl} {c t : Dbl} (hc : c ≠ .nan) :
    gt (ds.foldl (fun m d => if gt d m then d else m) c) t = false ↔
      gt c t = false ∧ ∀ d ∈ ds, gt d t = false := by
  induction ds generalizing c with
  | nil => simp
  | cons d ds ih =>
    rw [List.foldl_cons, List.forall_mem_cons]
    by_cases hdc : gt d c = true
    · have hd : d ≠ .nan := by
        rintro rfl
        exact absurd hdc (by simp [gt])
      have hcd : gt d t = false → gt c t = false := by
        intro hd
        by_contra hct
        rw [Bool.not_eq_false] at hct
        rw [gt_trans hdc hct] at hd
        cases hd
      rw [if_pos hdc, ih hd]
      exact ⟨fun h => ⟨hcd h.1, h⟩, fun h => h.2⟩
    · rw [Bool.not_eq_true] at hdc
      have hcd : gt c t = false → gt d t = false := by
        intro hct
        by_contra hd
        rw [Bool.not_eq_false] at hd
        rw [gt_of_not_gt hd hdc hc] at hct
        cases hct
      rw [hdc, if_neg (by decide), ih hc]
      exact ⟨fun h => ⟨h.1, hcd h.1, h.2⟩, fun h => ⟨h.1, h.2.2⟩⟩

end Dbl

end Doubles

section Reading

theorem readU32_bind {β : Type*} (f : List UInt8) (k : Nat) (g : Nat × List UInt8 → Option β) :
    (readU32 (f.drop k)).bind g =
      if k + 4 ≤ f.length then g (field f k 4, f.drop (k + 4)) else none := by
  unfold readU32 fread field
  dsimp only
  rw [List.length_take, List.length_drop, List.drop_drop]
  by_cases h : k + 4 ≤ f.length
  · rw [if_pos h, if_neg (by omega)]
    rfl
  · rw [if_neg h, if_pos (by omega)]
    rfl

def headerOf (f : List UInt8) : Header :=
  ⟨field f 0 4, field f 4 4, field f 8 4, field f 12 4, field f 16 4⟩

theorem readHeader_eq (f : List UInt8) :
    readHeader f = if 20 ≤ f.length then some (headerOf f, f.drop 20) else none := by
  have hread : readHeader f = readHeader (f.drop 0) := by rw [List.drop_zero]
  rw [hread]
  unfold readHeader headerOf
  simp only [Option.bind_eq_bind, readU32_bind, Nat.zero_add, Nat.reduceAdd]
  by_cases h : 20 ≤ f.length
  · rw [if_pos h, if_pos (by omega), if_pos (by omega), if_pos (by omega), if_pos (by omega), if_pos h]
    rfl
  · rw [if_neg h]
    split_ifs <;> rfl

/-- The bytes of one checkpoint. -/
def stride (per_cp : Nat) : Nat := 8 + 4 * per_cp

/-- Checkpoint `i` of a file without its header, with zeros for what is missing. -/
def checkpointAt (per_cp : Nat) (f : List UInt8) (i : Nat) : Checkpoint where
  event_idx := UInt64.ofNat (field f (i * stride per_cp) 8)
  preds := (List.range per_cp).map fun j =>
    UInt32.ofNat (field f (i * stride per_cp + 8 + 4 * j) 4)

theorem checkpointAt_of_le {per_cp i : Nat} {f : List UInt8} (h : f.length ≤ i * stride per_cp) :
    checkpointAt per_cp f i = zeroCheckpoint per_cp := by
  unfold checkpointAt zeroCheckpoint floatBuffer
  rw [field_of_le h]
  congr 1
  refine List.map_congr_left fun j _ => ?_
  rw [field_of_le (by omega), field_of_le (Nat.zero_le _)]

theorem checkpointAt_succ (per_cp : Nat) (f : List UInt8) (i : Nat) :
    checkpointAt per_cp f (i + 1) = checkpointAt per_cp (f.drop (stride per_cp)) i := by
  unfold checkpointAt
  simp only [field_drop, Nat.add_assoc, Nat.succ_mul, Nat.add_comm (stride per_cp)]

/-- A short read leaves zeros, as reading past the end would. -/
theorem readCheckpoints_eq (per_cp n : Nat) (f : List UInt8) :
    readCheckpoints per_cp n f = (List.range n).map (checkpointAt per_cp f) := by
  induction n generalizing f with
  | zero => rfl
  | succ n ih =>
    have hnext : (List.range n).map (checkpointAt per_cp f ∘ Nat.succ) =
        (List.range n).map (checkpointAt per_cp (f.drop (stride per_cp))) :=
      List.map_congr_left fun i _ => checkpointAt_succ per_cp f i
    have hzeros : f.length ≤ stride per_cp →
        (List.range n).map (checkpointAt per_cp (f.drop (stride per_cp))) =
          List.replicate n (zeroCheckpoint per_cp) := by
      intro h
      rw [List.eq_replicate_iff]
      refine ⟨by simp, fun cp hcp => ?_⟩
      obtain ⟨i, -, rfl⟩ := List.mem_map.mp hcp
      exact checkpointAt_of_le (by rw [List.length_drop]; omega)
    rw [List.range_succ_eq_map, List.map_cons, List.map_map, hnext]
    unfold readCheckpoints fread
    dsimp only
    rw [List.length_take, List.length_take, List.length_drop]
    have hidx : decode (f.take (8 * 1)) = field f (0 * stride per_cp) 8 := by
      rw [field, Nat.zero_mul, List.drop_zero]
    have hpreds : floatBuffer per_cp ((f.drop (8 * 1)).take (4 * per_cp)) =
        (checkpointAt per_cp f 0).preds := by
      refine List.map_congr_left fun j hj => ?_
      have hj' := List.mem_range.mp hj
      rw [field_take (by omega), field_drop, Nat.zero_mul, Nat.zero_add]
    rw [hidx, hpreds]
    by_cases h8 : 8 ≤ f.length
    · rw [if_neg (by omega)]
      by_cases hall : stride per_cp ≤ f.length
      · unfold stride at hall
        rw [if_neg (by omega), ih, List.drop_drop]
        rfl
      · rw [hzeros (by omega)]
        unfold stride at hall
        rw [if_pos (by omega)]
        rfl
    · have hempty : (checkpointAt per_cp f 0).preds = floatBuffer per_cp [] := by
        rw [← hpreds, List.drop_of_length_le (by omega), List.take_nil]
      rw [if_pos (by omega), ← hempty, hzeros (by unfold stride; omega)]
      rfl

variable (alloc : Nat → Nat → Bool)

def perCp (f : List UInt8) : Nat := (headerOf f).na * (headerOf f).co

/-- The header is there and is one of this format, and there is memory for the rest. -/
def Readable (f : List UInt8) : Prop :=
  20 ≤ f.length ∧ (headerOf f).magic = 0x4F455641 ∧ (headerOf f).version = 1 ∧
    alloc (headerOf f).nc (perCp f) = true

/-- Checkpoint `i` of a file, with zeros for what is missing. -/
def stored (f : List UInt8) (i : Nat) : Checkpoint := checkpointAt (perCp f) (f.drop 20) i

/-- The file holds as many checkpoints as it announces. -/
def Complete (f : List UInt8) : Prop := 20 + (headerOf f).nc * stride (perCp f) ≤ f.length

variable {alloc} {f : List UInt8}

theorem load_ok (p : String) (h : Readable alloc f) : load alloc p f =
    .ok ⟨(headerOf f).na, (headerOf f).co, (headerOf f).nc,
      (List.range (headerOf f).nc).map (stored f)⟩ := by
  obtain ⟨hlen, hmagic, hversion, halloc⟩ := h
  rw [perCp] at halloc
  unfold load
  rw [readHeader_eq, if_pos hlen]
  dsimp only
  rw [if_neg (by simp [hmagic, hversion]), halloc, if_neg (by decide), readCheckpoints_eq]
  rfl

theorem load_error (p : String) (h : ¬ Readable alloc f) : ∃ e, load alloc p f = .error e := by
  unfold load
  rw [readHeader_eq]
  by_cases hlen : 20 ≤ f.length
  · rw [if_pos hlen]
    dsimp only
    split
    · exact ⟨_, rfl⟩
    · rename_i hformat
      rw [not_or, not_not, not_not] at hformat
      rw [if_pos]
      · exact ⟨_, rfl⟩
      · by_contra halloc
        exact h ⟨hlen, hformat.1, hformat.2, by rwa [Bool.not_eq_false] at halloc⟩
  · rw [if_neg hlen]
    exact ⟨_, rfl⟩

end Reading

section Saving

theorem floatBuffer_saved (preds : List UInt32) (rest : List UInt8) :
    floatBuffer preds.length ((preds.flatMap fun x => encode 4 x.toNat) ++ rest) = preds := by
  induction preds with
  | nil => rfl
  | cons x preds ih =>
    have hx : field (encode 4 x.toNat ++ ((preds.flatMap fun x => encode 4 x.toNat) ++ rest)) 0 4 =
        x.toNat := by
      rw [field_encode]
      exact Nat.mod_eq_of_lt x.toNat_lt
    have htail : ∀ j, field (encode 4 x.toNat ++ ((preds.flatMap fun x => encode 4 x.toNat) ++ rest))
        (4 * (j + 1)) 4 = field ((preds.flatMap fun x => encode 4 x.toNat) ++ rest) (4 * j) 4 := by
      intro j
      have hright := field_append_right (encode 4 x.toNat)
        ((preds.flatMap fun x => encode 4 x.toNat) ++ rest) (4 * j) 4
      rw [length_encode] at hright
      rw [← hright]
      congr 1
      omega
    unfold floatBuffer at ih ⊢
    rw [List.flatMap_cons, List.append_assoc, List.length_cons, List.range_succ_eq_map, List.map_cons,
      List.map_map, Nat.mul_zero, hx, UInt32.ofNat_toNat]
    refine congrArg (x :: ·) (Eq.trans (List.map_congr_left fun j _ => ?_) ih)
    exact congrArg UInt32.ofNat (htail j)

theorem length_flatMap_encode (preds : List UInt32) :
    (preds.flatMap fun x => encode 4 x.toNat).length = 4 * preds.length := by
  simp [Nat.mul_comm]

/-- The reader takes the first `n` checkpoints as they were written. -/
theorem readCheckpoints_saved {per_cp n : Nat} {cps : List Checkpoint} (hn : n ≤ cps.length)
    (hcps : ∀ cp ∈ cps, cp.preds.length = per_cp) (rest : List UInt8) :
    readCheckpoints per_cp n (cps.flatMap OracleRecorder.saveCheckpoint ++ rest) = cps.take n := by
  induction n generalizing cps with
  | zero => rfl
  | succ n ih =>
    obtain ⟨cp, cps, rfl⟩ := List.exists_cons_of_length_pos (show 0 < cps.length by omega)
    have hsize := hcps cp List.mem_cons_self
    have hfloats := length_flatMap_encode cp.preds
    have hidx : decode (encode 8 cp.event_idx.toNat) = cp.event_idx.toNat :=
      (decode_encode 8 _).trans (Nat.mod_eq_of_lt cp.event_idx.toNat_lt)
    unfold readCheckpoints fread
    rw [List.flatMap_cons, OracleRecorder.saveCheckpoint, List.append_assoc, List.append_assoc]
    dsimp only
    rw [List.take_left' (length_encode _ _), List.drop_left' (length_encode _ _), length_encode, hidx,
      List.take_left' (by rw [hfloats, hsize]), List.drop_left' (by rw [hfloats, hsize]), hfloats,
      hsize, if_neg (by decide), if_neg (by omega), UInt64.ofNat_toNat,
      ih (by simpa using hn) fun cp hcp => hcps cp (List.mem_cons_of_mem _ hcp)]
    have hbuffer := floatBuffer_saved cp.preds []
    rw [List.append_nil, hsize] at hbuffer
    rw [hbuffer]
    rfl

theorem field_skip (v off size : Nat) (rest : List UInt8) :
    field (encode 4 v ++ rest) (4 + off) size = field rest off size := by
  have h := field_append_right (encode 4 v) rest off size
  rwa [length_encode] at h

theorem headerOf_save (r : OracleRecorder) : headerOf r.save =
    ⟨0x4F455641, 1, r.num_anchors, r.cols, r.checkpoints.length % 2 ^ 32⟩ := by
  obtain ⟨hna, hco⟩ := r.shape_int
  have hna' : r.num_anchors % 256 ^ 4 = r.num_anchors := Nat.mod_eq_of_lt (by omega)
  have hco' : r.cols % 256 ^ 4 = r.cols := Nat.mod_eq_of_lt (by omega)
  unfold headerOf OracleRecorder.save
  simp only [List.append_assoc]
  rw [field_encode, field_skip _ 0, field_encode, field_skip _ 4, field_skip _ 0, field_encode, hna',
    field_skip _ 8, field_skip _ 4, field_skip _ 0, field_encode, hco', field_skip _ 12,
    field_skip _ 8, field_skip _ 4, field_skip _ 0, field_encode]
  rfl

theorem save_drop (r : OracleRecorder) :
    r.save.drop 20 = r.checkpoints.flatMap OracleRecorder.saveCheckpoint ∧ 20 ≤ r.save.length := by
  unfold OracleRecorder.save
  refine ⟨List.drop_left' (by simp), ?_⟩
  simp only [List.length_append, length_encode]
  omega

theorem load_save {alloc : Nat → Nat → Bool} (r : OracleRecorder) (p : String)
    (halloc : alloc (r.checkpoints.length % 2 ^ 32) (r.num_anchors * r.cols) = true) :
    load alloc p r.save = .ok ⟨r.num_anchors, r.cols, r.checkpoints.length % 2 ^ 32,
      r.checkpoints.take (r.checkpoints.length % 2 ^ 32)⟩ := by
  obtain ⟨hdrop, hlen⟩ := save_drop r
  have hread := readCheckpoints_saved (Nat.mod_le r.checkpoints.length (2 ^ 32)) r.sized []
  rw [List.append_nil] at hread
  unfold load
  rw [readHeader_eq, if_pos hlen, headerOf_save, hdrop]
  dsimp only
  rw [if_neg (by decide), halloc, if_neg (by decide), hread]

theorem load_save_iff {alloc : Nat → Nat → Bool} (r : OracleRecorder) (p : String)
    (halloc : ∀ n ≤ r.checkpoints.length, alloc n (r.num_anchors * r.cols) = true) :
    load alloc p r.save = .ok ⟨r.num_anchors, r.cols, r.checkpoints.length, r.checkpoints⟩ ↔
      r.checkpoints.length < 2 ^ 32 := by
  rw [load_save r p (halloc _ (Nat.mod_le _ _))]
  constructor
  · intro h
    injection h with h
    injection h with _ _ hnc
    rw [← hnc]
    exact Nat.mod_lt _ (Nat.two_pow_pos 32)
  · intro h
    rw [Nat.mod_eq_of_lt h, List.take_length]

end Saving

section Diff

variable (round : ℚ → Dbl) {tol : Dbl}

theorem cpMax_gt (a b : List UInt32) : Dbl.gt (cpMax round a b) tol = false ↔
    Dbl.gt (.fin 0) tol = false ∧
      ∀ j < a.length, Dbl.gt (absDelta round (a.getD j 0) (b.getD j 0)) tol = false := by
  have hfold : cpMax round a b = ((List.range a.length).map fun j =>
      absDelta round (a.getD j 0) (b.getD j 0)).foldl
        (fun m d => if Dbl.gt d m then d else m) (.fin 0) := by
    rw [List.foldl_map]
    rfl
  rw [hfold, Dbl.foldl_max_gt (by simp)]
  simp only [List.mem_map, List.mem_range, forall_exists_index, and_imp, forall_apply_eq_imp_iff₂]

/-- What the loop checks of a pair of checkpoints. -/
def PairPasses (tol : Dbl) (a b : Checkpoint) : Prop :=
  a.event_idx = b.event_idx ∧ Dbl.gt (cpMax round a.preds b.preds) tol = false

theorem diffLoop_passes {as bs : List Checkpoint} (hlen : as.length = bs.length) (r : DiffReport) :
    ((diffLoop round tol as bs r).ok = true ∧ (diffLoop round tol as bs r).n_mismatched_cp = 0) ↔
      r.ok = true ∧ r.n_mismatched_cp = 0 ∧ List.Forall₂ (PairPasses round tol) as bs := by
  induction as generalizing bs r with
  | nil =>
    obtain rfl := List.eq_nil_of_length_eq_zero hlen.symm
    simp [diffLoop]
  | cons a as ih =>
    obtain ⟨b, bs, rfl⟩ := List.exists_cons_of_length_pos (l := bs) (by rw [← hlen]; exact Nat.succ_pos _)
    have hlen' : as.length = bs.length := Nat.succ.inj hlen
    rw [List.forall₂_cons]
    unfold diffLoop
    by_cases hidx : a.event_idx = b.event_idx
    · rw [if_neg (not_not.mpr hidx), ih hlen']
      dsimp only
      unfold PairPasses
      cases hgt : Dbl.gt (cpMax round a.preds b.preds) tol with
      | true => simp
      | false => simp [hidx]
    · rw [if_pos hidx]
      simp [PairPasses, hidx]

end Diff

section Verdict

variable (round : ℚ → Dbl) (alloc : Nat → Nat → Bool) (tol : Dbl) (a b : List UInt8)

/-- The computed difference of two stored values. -/
def delta (i j : Nat) : Dbl :=
  absDelta round ((stored a i).preds.getD j 0) ((stored b i).preds.getD j 0)

structure SameShape : Prop where
  na : (headerOf a).na = (headerOf b).na
  co : (headerOf a).co = (headerOf b).co
  nc : (headerOf a).nc = (headerOf b).nc

/-- Nothing that is stored differs in a way that shows, zeros for what is missing included. -/
structure Unnoticed : Prop where
  readable : Readable alloc a ∧ Readable alloc b
  shape : SameShape a b
  index : ∀ i < (headerOf a).nc, (stored a i).event_idx = (stored b i).event_idx
  tolerance : 0 < (headerOf a).nc → Dbl.gt (.fin 0) tol = false
  values : ∀ i < (headerOf a).nc, ∀ j < perCp a, Dbl.gt (delta round a b i j) tol = false

/-- The report is `ok` and counts no mismatch. -/
def Accepts (path_a path_b : String) : Prop :=
  ∃ r, diffDumps round alloc path_a path_b a b tol = .ok r ∧ r.ok = true ∧ r.n_mismatched_cp = 0

variable {alloc tol a b}

theorem accepts_iff_exit (path_a path_b : String) : Accepts round alloc tol a b path_a path_b ↔
    diffExit (diffDumps round alloc path_a path_b a b tol) = 0 := by
  unfold Accepts diffExit
  cases diffDumps round alloc path_a path_b a b tol with
  | error e => simp
  | ok r => simp

theorem forall₂_stored {n : Nat} (P : Checkpoint → Checkpoint → Prop) :
    List.Forall₂ P ((List.range n).map (stored a)) ((List.range n).map (stored b)) ↔
      ∀ i < n, P (stored a i) (stored b i) := by
  rw [List.forall₂_map_left_iff, List.forall₂_map_right_iff, List.forall₂_same]
  simp only [List.mem_range]

theorem accepts_iff (path_a path_b : String) :
    Accepts round alloc tol a b path_a path_b ↔ Unnoticed round alloc tol a b := by
  unfold Accepts diffDumps
  by_cases hread : Readable alloc a ∧ Readable alloc b
  · rw [load_ok path_a hread.1, load_ok path_b hread.2]
    simp only [bind, Except.bind, pure, Except.pure]
    by_cases hshape : (headerOf a).na = (headerOf b).na ∧ (headerOf a).co = (headerOf b).co ∧
        (headerOf a).nc = (headerOf b).nc
    · rw [if_neg (by simp [hshape]), ← hshape.2.2]
      simp only [Except.ok.injEq, exists_eq_left']
      rw [diffLoop_passes round (by simp), forall₂_stored]
      constructor
      · rintro ⟨-, -, hpairs⟩
        have hgt := fun i hi => (cpMax_gt round _ _).mp (hpairs i hi).2
        refine ⟨hread, ⟨hshape.1, hshape.2.1, hshape.2.2⟩, fun i hi => (hpairs i hi).1,
          fun hpos => (hgt 0 hpos).1, fun i hi j hj => (hgt i hi).2 j ?_⟩
        simpa [stored, checkpointAt] using hj
      · intro h
        refine ⟨by simp [hshape], rfl, fun i hi => ⟨h.index i hi, ?_⟩⟩
        refine (cpMax_gt round _ _).mpr ⟨h.tolerance (by omega), fun j hj => h.values i hi j ?_⟩
        simpa [stored, checkpointAt] using hj
    · rw [if_pos (by simpa using hshape)]
      simp only [Except.ok.injEq, exists_eq_left']
      constructor
      · rintro ⟨hok, -⟩
        exact absurd (of_decide_eq_true hok) hshape
      · intro h
        exact absurd ⟨h.shape.na, h.shape.co, h.shape.nc⟩ hshape
  · refine ⟨fun ⟨r, hr, _⟩ => absurd hr ?_, fun h => absurd h.readable hread⟩
    by_cases ha : Readable alloc a
    · obtain ⟨e, he⟩ := load_error path_b fun hb => hread ⟨ha, hb⟩
      rw [load_ok path_a ha, he]
      exact nofun
    · obtain ⟨e, he⟩ := load_error path_a ha
      rw [he]
      exact nofun

end Verdict

section Soundness

/-- There is a difference of the two: neither is a NaN, and they are not one infinity. -/
def ComparableValues (x y : Dbl) : Prop := x ≠ .nan ∧ y ≠ .nan ∧ ∀ s, ¬ (x = .inf s ∧ y = .inf s)

/-- The difference as a double is within the tolerance, and so is the exact one up to
half a unit of the last place of a double. -/
structure WithinTol (x y tol : Dbl) : Prop where
  comparable : ComparableValues x y
  rounded : Dbl.le (Dbl.abs (Dbl.sub Dbl.ofRat x y)) tol
  difference : ∀ p q t, x = .fin p → y = .fin q → tol = .fin t → |p - q| ≤ t * (1 + 1 / 2 ^ 53)

def valueAt (f : List UInt8) (i j : Nat) : Dbl := toDouble ((stored f i).preds.getD j 0)

variable (alloc : Nat → Nat → Bool) (tol : Dbl) (a b : List UInt8)

/-- Both files can be read, have one shape and the same event indices. -/
structure Alike : Prop where
  readable : Readable alloc a ∧ Readable alloc b
  shape : SameShape a b
  index : ∀ i < (headerOf a).nc, (stored a i).event_idx = (stored b i).event_idx

def Comparable : Prop :=
  ∀ i < (headerOf a).nc, ∀ j < perCp a, ComparableValues (valueAt a i j) (valueAt b i j)

/-- What the verdict is taken to mean. -/
structure Equivalent : Prop where
  complete : Complete a ∧ Complete b
  shape : SameShape a b
  index : ∀ i < (headerOf a).nc, (stored a i).event_idx = (stored b i).event_idx
  values : ∀ i < (headerOf a).nc, ∀ j < perCp a, WithinTol (valueAt a i j) (valueAt b i j) tol

variable {alloc tol a b}

/-- A float is a multiple of the smallest one. -/
theorem toDouble_multiple {bits : UInt32} {p : ℚ} (h : toDouble bits = .fin p) :
    ∃ k : ℤ, p = (k : ℚ) / 2 ^ 149 := by
  unfold toDouble at h
  dsimp only at h
  generalize bits.toNat % 2 ^ 23 = m at h
  generalize bits.toNat / 2 ^ 23 % 2 ^ 8 = e at h
  by_cases he : e = 255
  · rw [if_pos he] at h
    split at h <;> simp at h
  rw [if_neg he, Dbl.fin.injEq] at h
  obtain ⟨k, hk⟩ : ∃ k : ℤ, (if e = 0 then (m : ℚ) / 2 ^ 149
      else (2 ^ 23 + m : ℚ) * 2 ^ e / 2 ^ 150) = (k : ℚ) / 2 ^ 149 := by
    by_cases h0 : e = 0
    · exact ⟨m, by rw [if_pos h0, Int.cast_natCast]⟩
    · obtain ⟨n, rfl⟩ : ∃ n, e = n + 1 := ⟨e - 1, by omega⟩
      refine ⟨(2 ^ 23 + m) * 2 ^ n, ?_⟩
      rw [if_neg h0, pow_succ]
      push_cast
      ring
  rw [hk] at h
  split at h
  · exact ⟨-k, by rw [← h]; push_cast; ring⟩
  · exact ⟨k, h.symm⟩

theorem two_pow_le_abs_sub {x y : UInt32} {p q : ℚ} (hx : toDouble x = .fin p)
    (hy : toDouble y = .fin q) (hne : p - q ≠ 0) : (2 : ℚ) ^ (-1022 : ℤ) ≤ |p - q| := by
  obtain ⟨k, rfl⟩ := toDouble_multiple hx
  obtain ⟨l, rfl⟩ := toDouble_multiple hy
  rw [← sub_div] at hne ⊢
  have hkl : k - l ≠ 0 := by
    intro h
    have hcast : (k : ℚ) - l = 0 := by exact_mod_cast h
    simp [hcast] at hne
  have hone : (1 : ℚ) ≤ |(k : ℚ) - l| := by exact_mod_cast Int.one_le_abs hkl
  have hsmall : (2 : ℚ) ^ (-1022 : ℤ) ≤ 1 / 2 ^ 149 := by
    have h149 : (1 : ℚ) / 2 ^ 149 = 2 ^ (-149 : ℤ) := by rw [zpow_neg, one_div]; norm_cast
    rw [h149]
    exact zpow_le_zpow_right₀ one_le_two (by decide)
  rw [abs_div, abs_of_pos (show (0 : ℚ) < 2 ^ 149 by positivity)]
  exact hsmall.trans (div_le_div_of_nonneg_right hone (by positivity))

/-- A difference that is within the tolerance as a double is so exactly, up to rounding. -/
theorem exact_of_rounded {x y : UInt32} {p q t : ℚ} (hx : toDouble x = .fin p)
    (hy : toDouble y = .fin q)
    (hle : Dbl.gt (Dbl.abs (Dbl.sub Dbl.ofRat (.fin p) (.fin q))) (.fin t) = false) :
    |p - q| ≤ t * (1 + 1 / 2 ^ 53) := by
  simp only [Dbl.sub, Dbl.ofRat] at hle
  by_cases h0 : p - q = 0
  · simp only [h0, if_true, Dbl.abs, Dbl.gt, lt_irrefl, if_false, decide_eq_false_iff_not,
      not_lt] at hle
    rw [h0, abs_zero]
    exact mul_nonneg hle (by positivity)
  · have hpos : 0 < |p - q| := abs_pos.mpr h0
    have hmin := two_pow_le_abs_sub hx hy h0
    have hnear := FloatRounding.le_nearest_mul (p := 52) hpos hmin
    have hr : 0 ≤ FloatRounding.nearest 52 (-1022) |p - q| :=
      (mul_nonneg (FloatRounding.lastPlace_pos 52 _ _).le (by positivity)).trans
        (FloatRounding.first_le_nearest hpos hmin)
    generalize FloatRounding.nearest 52 (-1022) |p - q| = r at hle hnear hr
    have hrt : r ≤ t := by
      rw [if_neg h0] at hle
      by_cases hbig : (2 : ℚ) ^ 1024 ≤ r
      · rw [if_pos hbig] at hle
        simp [Dbl.abs, Dbl.gt] at hle
      · rw [if_neg hbig] at hle
        simp only [Dbl.abs, Dbl.gt, decide_eq_false_iff_not, not_lt] at hle
        split_ifs at hle <;> linarith
    exact hnear.trans (mul_le_mul_of_nonneg_right hrt (by positivity))

theorem Unnoticed.alike (h : Unnoticed Dbl.ofRat alloc tol a b) : Alike alloc a b :=
  ⟨h.readable, h.shape, h.index⟩

theorem sub_ne_nan {x y : Dbl} (h : ComparableValues x y) : Dbl.sub Dbl.ofRat x y ≠ .nan := by
  obtain ⟨hx, hy, hinf⟩ := h
  cases x with
  | nan => exact absurd rfl hx
  | inf s =>
    cases y with
    | nan => exact absurd rfl hy
    | inf t =>
      have hst : s ≠ t := fun he => hinf s ⟨rfl, by rw [he]⟩
      simp [Dbl.sub, hst]
    | fin q => simp [Dbl.sub]
  | fin p =>
    cases y with
    | nan => exact absurd rfl hy
    | inf t => simp [Dbl.sub]
    | fin q =>
      simp only [Dbl.sub, Dbl.ofRat]
      split_ifs <;> simp

theorem abs_ne_nan {x : Dbl} (h : x ≠ .nan) : Dbl.abs x ≠ .nan := by
  cases x with
  | nan => exact absurd rfl h
  | inf s => simp [Dbl.abs]
  | fin q => simp [Dbl.abs]

/-- Between complete files without NaNs the verdict says what it should. -/
theorem Unnoticed.equivalent (h : Unnoticed Dbl.ofRat alloc tol a b) (htol : tol ≠ .nan)
    (hcomplete : Complete a ∧ Complete b) (hcomp : Comparable a b) : Equivalent tol a b := by
  refine ⟨hcomplete, h.shape, h.index, fun i hi j hj => ?_⟩
  have hgt := h.values i hi j hj
  have hc := hcomp i hi j hj
  refine ⟨hc, ⟨abs_ne_nan (sub_ne_nan hc), htol, hgt⟩, fun p q t hp hq ht => ?_⟩
  have hgt' : Dbl.gt (Dbl.abs (Dbl.sub Dbl.ofRat (valueAt a i j) (valueAt b i j))) tol = false := hgt
  rw [hp, hq, ht] at hgt'
  exact exact_of_rounded hp hq hgt'

/-- At an infinite tolerance no difference shows. -/
theorem Alike.unnoticed_inf (h : Alike alloc a b) : Unnoticed Dbl.ofRat alloc (.inf false) a b where
  readable := h.readable
  shape := h.shape
  index := h.index
  tolerance _ := rfl
  values i _ j _ := by
    cases delta Dbl.ofRat a b i j with
    | nan => rfl
    | inf s => simp [Dbl.gt]
    | fin q => rfl

/-- Nor does any at a tolerance that is a NaN. -/
theorem Alike.unnoticed_nan (h : Alike alloc a b) : Unnoticed Dbl.ofRat alloc .nan a b where
  readable := h.readable
  shape := h.shape
  index := h.index
  tolerance _ := rfl
  values i _ j _ := by cases delta Dbl.ofRat a b i j <;> rfl

end Soundness

/-- What is saved is read back, up to 2^32 checkpoints. The verdict on two files that are not
told apart by their headers and indices is right at every tolerance exactly if both are
complete and hold no NaN; at a NaN for a tolerance it is right only if there is no value. -/
theorem oracle_sound_iff (alloc : Nat → Nat → Bool) :
    (∀ (r : OracleRecorder) (p : String),
      (∀ n ≤ r.checkpoints.length, alloc n (r.num_anchors * r.cols) = true) →
      (load alloc p r.save = .ok ⟨r.num_anchors, r.cols, r.checkpoints.length, r.checkpoints⟩ ↔
        r.checkpoints.length < 2 ^ 32)) ∧
    ∀ (path_a path_b : String) (a b : List UInt8),
      ((∀ tol ≠ .nan, Accepts Dbl.ofRat alloc tol a b path_a path_b → Equivalent tol a b) ↔
        ¬ Alike alloc a b ∨ (Complete a ∧ Complete b) ∧ Comparable a b) ∧
      ((Accepts Dbl.ofRat alloc .nan a b path_a path_b → Equivalent .nan a b) ↔
        ¬ Alike alloc a b ∨
          (Complete a ∧ Complete b) ∧ ((headerOf a).nc = 0 ∨ perCp a = 0)) := by
  refine ⟨fun r p halloc => load_save_iff r p halloc, fun path_a path_b a b => ?_⟩
  simp only [accepts_iff]
  refine ⟨⟨fun h => ?_, ?_⟩, ⟨fun h => ?_, ?_⟩⟩
  · by_cases halike : Alike alloc a b
    · obtain ⟨hcomplete, -, -, hvalues⟩ := h (.inf false) (by simp) halike.unnoticed_inf
      exact .inr ⟨hcomplete, fun i hi j hj => (hvalues i hi j hj).comparable⟩
    · exact .inl halike
  · rintro (hn | ⟨hcomplete, hcomp⟩) tol htol hu
    · exact absurd hu.alike hn
    · exact hu.equivalent htol hcomplete hcomp
  · by_cases halike : Alike alloc a b
    · obtain ⟨hcomplete, -, -, hvalues⟩ := h halike.unnoticed_nan
      refine .inr ⟨hcomplete, ?_⟩
      by_contra hempty
      rw [not_or] at hempty
      exact (hvalues 0 (by omega) 0 (by omega)).rounded.2.1 rfl
    · exact .inl halike
  · rintro (hn | ⟨hcomplete, hempty⟩) hu
    · exact absurd hu.alike hn
    · exact ⟨hcomplete, hu.shape, hu.index, fun i hi j hj => by omega⟩

def oneCheckpoint : OracleRecorder where
  num_anchors := 1
  cols := 1
  every := 1
  shape_pos := by decide
  shape_int := by decide
  checkpoints := [⟨0, [0]⟩]
  sized := by decide

def dumpHeader (na co nc : Nat) : List UInt8 :=
  encode 4 OracleRecorder.magic ++ encode 4 1 ++ encode 4 na ++ encode 4 co ++ encode 4 nc

/-- One checkpoint with one value. -/
def oneValueDump (bits : Nat) : List UInt8 := dumpHeader 1 1 1 ++ (encode 8 0 ++ encode 4 bits)

/-- The values 1 and 1 + 2^-23 are taken as equal at the tolerance 10^-4, and they are. -/
theorem oracle_sound_one :
    load (fun _ _ => true) "a" oneCheckpoint.save = .ok ⟨1, 1, 1, oneCheckpoint.checkpoints⟩ ∧
      Equivalent (.fin (1 / 10000)) (oneValueDump 0x3F800000) (oneValueDump 0x3F800001) := by
  have hsound := oracle_sound_iff fun _ _ => true
  refine ⟨(hsound.1 oneCheckpoint "a" fun _ _ => rfl).mpr (by decide), ?_⟩
  refine ((hsound.2 "a" "b" _ _).1.mpr (.inr ⟨?_, ?_⟩)) _ (by simp)
    ((accepts_iff_exit _ _ _).mpr (by decide +kernel))
  · unfold Complete
    decide +kernel
  · have hvalues : valueAt (oneValueDump 0x3F800000) 0 0 = .fin 1 ∧
        valueAt (oneValueDump 0x3F800001) 0 0 = .fin (1 + 1 / 2 ^ 23) := by decide +kernel
    have hsizes : (headerOf (oneValueDump 0x3F800000)).nc = 1 ∧
        perCp (oneValueDump 0x3F800000) = 1 := by decide +kernel
    intro i hi j hj
    obtain rfl : i = 0 := by omega
    obtain rfl : j = 0 := by omega
    rw [hvalues.1, hvalues.2]
    simp [ComparableValues]

/-- A file that ends after its header passes against itself, a NaN passes against zero. -/
theorem oracle_accepts_unequal :
    (Accepts Dbl.ofRat (fun _ _ => true) (.fin (1 / 10000)) (dumpHeader 1 1 1) (dumpHeader 1 1 1)
        "a" "b" ∧ ¬ Complete (dumpHeader 1 1 1)) ∧
      Accepts Dbl.ofRat (fun _ _ => true) (.fin (1 / 10000)) (oneValueDump 0x7FC00000) (oneValueDump 0)
        "a" "b" ∧
      valueAt (oneValueDump 0x7FC00000) 0 0 = .nan := by
  refine ⟨⟨(accepts_iff_exit _ _ _).mpr (by decide +kernel), ?_⟩,
    (accepts_iff_exit _ _ _).mpr (by decide +kernel), by decide +kernel⟩
  unfold Complete
  decide +kernel

end SslaRt
