import SslaRt.SpscRing
import SslaRt.GpuRingInvariant

/-! The ring refines a bounded queue. The queue is what lies between the two
counters; a thread that is between its load and its store holds a fact about the
queue that the other thread cannot break. -/

namespace SslaRt

variable {ι W : Type*} {cfg : SpscConfig} {s t : SpscRing ι W} {q : List (ι → W)} {m : Nat}

/-- The words already copied into the slot behind the queue are those of `v`, and
there is room for it. -/
def PusherInv (cfg : SpscConfig) (s : SpscRing ι W) (q : List (ι → W)) (m : Nat) : Pusher ι W → Prop
  | .idle => True
  | .loadedHead _ h => h = UInt64.ofNat (m + q.length)
  | .writing v h todo => h = UInt64.ofNat (m + q.length) ∧ q.length < cfg.capacity ∧
      ∀ i ∉ todo, s.buf_ ((m + q.length) % cfg.capacity) i = v i

/-- The words already copied out are those of the first element. -/
def PopperInv (q : List (ι → W)) (m : Nat) : Popper ι W → Prop
  | .idle => True
  | .loadedTail _ t => t = UInt64.ofNat m
  | .reading out t todo => t = UInt64.ofNat m ∧ ∃ v rest, q = v :: rest ∧ ∀ i ∉ todo, out i = v i

/-- The ring holds the queue `q`, whose first element has the index `m`. -/
structure Holds (cfg : SpscConfig) (s : SpscRing ι W) (q : List (ι → W)) (m : Nat) : Prop where
  tail : s.tail_ = UInt64.ofNat m
  head : s.head_ = UInt64.ofNat (m + q.length)
  room : q.length ≤ cfg.capacity
  slots : ∀ j (hj : j < q.length), s.buf_ ((m + j) % cfg.capacity) = q[j]
  pusher : PusherInv cfg s q m s.pusher
  popper : PopperInv q m s.popper

theorem holds_init (cfg : SpscConfig) (buf : Nat → ι → W) : Holds cfg (.init buf) [] 0 where
  tail := rfl
  head := rfl
  room := Nat.zero_le _
  slots := nofun
  pusher := trivial
  popper := trivial

/-- The difference of the counters is the number of elements, also after a wrap. -/
theorem ofNat_sub_toNat {n : Nat} (m : Nat) (hn : n < 2 ^ 64) :
    (UInt64.ofNat (m + n) - UInt64.ofNat m).toNat = n := by
  rw [UInt64.toNat_sub, UInt64.toNat_ofNat', UInt64.toNat_ofNat']
  omega

theorem Holds.occupancy (h : Holds cfg s q m) : (s.head_ - s.tail_).toNat = q.length := by
  rw [h.head, h.tail]
  exact ofNat_sub_toNat m (h.room.trans_lt (UInt64.toNat_lt _))

theorem slot_ne {j : Nat} (hroom : q.length < cfg.capacity) (hj : j < q.length) :
    (m + j) % cfg.capacity ≠ (m + q.length) % cfg.capacity := by
  intro he
  have heq := position_inj (n := m) (Nat.le_add_right m j) (by omega) (Nat.le_add_right m q.length)
    (by omega) he
  omega

theorem Holds.full (h : Holds cfg s q m) {v : ι → W} {hd : UInt64} (hp : s.pusher = .loadedHead v hd) :
    hd - s.tail_ ≥ cfg.cap_ ↔ q.length = cfg.capacity := by
  have hpusher := h.pusher
  rw [hp] at hpusher
  obtain rfl : hd = s.head_ := hpusher.trans h.head.symm
  rw [ge_iff_le, UInt64.le_iff_toNat_le, h.occupancy]
  exact ⟨fun hle => Nat.le_antisymm h.room hle, fun heq => heq.ge⟩

theorem Holds.empty (h : Holds cfg s q m) {out : ι → W} {tl : UInt64}
    (hp : s.popper = .loadedTail out tl) : s.head_ = tl ↔ q = [] := by
  have hpopper := h.popper
  rw [hp] at hpopper
  obtain rfl : tl = s.tail_ := hpopper.trans h.tail.symm
  rw [← List.length_eq_zero_iff, ← h.occupancy]
  constructor
  · intro heq
    rw [heq, UInt64.sub_self]
    rfl
  · intro hzero
    rw [UInt64.toNat_sub] at hzero
    have hhead := UInt64.toNat_lt s.head_
    have htail := UInt64.toNat_lt s.tail_
    exact UInt64.toNat_inj.mp (by omega)

/-- A push behind the first element is nothing to a thread that copies it out. -/
theorem PopperInv.append (v : ι → W) {p : Popper ι W} (h : PopperInv q m p) :
    PopperInv (q ++ [v]) m p := by
  cases p with
  | idle => trivial
  | loadedTail out tl => exact h
  | reading out tl todo =>
    obtain ⟨htl, v', rest, rfl, hout⟩ := h
    exact ⟨htl, v', rest ++ [v], rfl, hout⟩

/-- A pop leaves the slot behind the queue where it was, and there is more room. -/
theorem PusherInv.tail {v : ι → W} {p : Pusher ι W} (h : PusherInv cfg s (v :: q) m p) :
    PusherInv cfg s q (m + 1) p := by
  have hend : m + (v :: q).length = m + 1 + q.length := by
    rw [List.length_cons]
    omega
  cases p with
  | idle => trivial
  | loadedHead v' hd =>
    rw [PusherInv, hend] at h
    exact h
  | writing v' hd todo =>
    rw [PusherInv, hend] at h
    exact ⟨h.1, (Nat.lt_succ_self _).trans h.2.1, h.2.2⟩

theorem Holds.push (h : Holds cfg s q m) {v : ι → W} {hd : UInt64}
    (hp : s.pusher = .writing v hd ∅) :
    q.length < cfg.capacity ∧
      Holds cfg { s with head_ := hd + 1, pusher := .idle } (q ++ [v]) m := by
  have hpusher := h.pusher
  rw [hp] at hpusher
  obtain ⟨rfl, hlt, hwords⟩ := hpusher
  refine ⟨hlt, h.tail, ?_, ?_, fun j hj => ?_, trivial, h.popper.append v⟩
  · rw [List.length_append, ← Nat.add_assoc]
    exact ofNat_add_one _
  · rw [List.length_append]
    exact hlt
  · by_cases hjq : j < q.length
    · rw [List.getElem_append_left hjq]
      exact h.slots j hjq
    · rw [List.length_append, List.length_singleton] at hj
      obtain rfl : j = q.length := by omega
      rw [List.getElem_append_right le_rfl]
      simpa using funext fun i => hwords i (Finset.notMem_empty i)

theorem Holds.pop (h : Holds cfg s q m) {out : ι → W} {tl : UInt64}
    (hp : s.popper = .reading out tl ∅) :
    ∃ rest, q = out :: rest ∧ Holds cfg { s with tail_ := tl + 1, popper := .idle } rest (m + 1) := by
  have hpopper := h.popper
  rw [hp] at hpopper
  obtain ⟨rfl, v, rest, rfl, hout⟩ := hpopper
  obtain rfl : out = v := funext fun i => hout i (Finset.notMem_empty i)
  have hnext : ∀ j, m + 1 + j = m + (j + 1) := fun j => by omega
  refine ⟨rest, rfl, ofNat_add_one m, ?_, (Nat.le_succ _).trans h.room, fun j hj => ?_,
    h.pusher.tail, trivial⟩
  · rw [hnext]
    exact h.head
  · rw [hnext]
    exact h.slots (j + 1) (Nat.succ_lt_succ hj)

section Words

variable [DecidableEq ι]

theorem writeWord_self (buf : Nat → ι → W) (slot : Nat) (i : ι) (w : W) :
    writeWord buf slot i w slot = Function.update (buf slot) i w := Function.update_self _ _ _

theorem writeWord_of_ne (buf : Nat → ι → W) {slot slot' : Nat} (i : ι) (w : W) (h : slot' ≠ slot) :
    writeWord buf slot i w slot' = buf slot' := Function.update_of_ne h _ _

theorem Holds.write (h : Holds cfg s q m) {v : ι → W} {hd : UInt64} {todo : Finset ι} (i : ι)
    (hp : s.pusher = .writing v hd todo) :
    Holds cfg { s with
      buf_ := writeWord s.buf_ (hd &&& cfg.mask_).toNat i (v i)
      pusher := .writing v hd (todo.erase i) } q m := by
  have hpusher := h.pusher
  rw [hp] at hpusher
  obtain ⟨rfl, hlt, hwords⟩ := hpusher
  rw [cfg.slot_eq]
  refine ⟨h.tail, h.head, h.room, fun j hj => ?_, ⟨rfl, hlt, fun i' hi' => ?_⟩, h.popper⟩
  · dsimp only
    rw [writeWord_of_ne _ _ _ (slot_ne hlt hj)]
    exact h.slots j hj
  · dsimp only
    rw [writeWord_self]
    by_cases heq : i' = i
    · rw [heq, Function.update_self]
    · rw [Function.update_of_ne heq]
      exact hwords i' (fun hmem => hi' (Finset.mem_erase.mpr ⟨heq, hmem⟩))

theorem Holds.read (h : Holds cfg s q m) {out : ι → W} {tl : UInt64} {todo : Finset ι} (i : ι)
    (hp : s.popper = .reading out tl todo) :
    Holds cfg { s with
      popper := .reading (Function.update out i (s.buf_ (tl &&& cfg.mask_).toNat i)) tl
        (todo.erase i) } q m := by
  have hpopper := h.popper
  rw [hp] at hpopper
  obtain ⟨rfl, v, rest, rfl, hout⟩ := hpopper
  refine ⟨h.tail, h.head, h.room, h.slots, h.pusher, rfl, v, rest, rfl, fun i' hi' => ?_⟩
  by_cases heq : i' = i
  · have hslot : s.buf_ (m % cfg.capacity) = v := h.slots 0 (Nat.succ_pos _)
    rw [heq, Function.update_self, cfg.slot_eq, hslot]
  · rw [Function.update_of_ne heq]
    exact hout i' (fun hmem => hi' (Finset.mem_erase.mpr ⟨heq, hmem⟩))

end Words

variable [DecidableEq ι] [Fintype ι]

/-- A step that returns from a call is a step of the queue, any other step leaves
it as it is. -/
theorem Holds.step (h : Holds cfg s q m) {e : Option (BoundedFifo.Event (ι → W))}
    (hst : SpscStep cfg s e t) :
    ∃ q' m', BoundedFifo.Moves cfg.capacity q e q' ∧ Holds cfg t q' m' := by
  cases hst with
  | loadHead v hp => exact ⟨q, m, rfl, h.tail, h.head, h.room, h.slots, h.head, h.popper⟩
  | pushFull v hd hp hfull =>
    exact ⟨q, m, .pushFull q ((h.full hp).mp hfull), h.tail, h.head, h.room, h.slots, trivial, h.popper⟩
  | loadTail v hd hp hroom =>
    have hpusher := h.pusher
    rw [hp] at hpusher
    have hlt : q.length < cfg.capacity :=
      lt_of_le_of_ne h.room (fun heq => hroom ((h.full hp).mpr heq))
    exact ⟨q, m, rfl, h.tail, h.head, h.room, h.slots,
      ⟨hpusher, hlt, fun i hi => absurd (Finset.mem_univ i) hi⟩, h.popper⟩
  | write v hd todo i hp hi => exact ⟨q, m, rfl, h.write i hp⟩
  | storeHead v hd hp =>
    obtain ⟨hlt, hpushed⟩ := h.push hp
    exact ⟨q ++ [v], m, .push q v hlt, hpushed⟩
  | loadOwnTail out hp => exact ⟨q, m, rfl, h.tail, h.head, h.room, h.slots, h.pusher, h.tail⟩
  | popEmpty out tl hp hempty =>
    obtain rfl := (h.empty hp).mp hempty
    exact ⟨[], m, .popEmpty, h.tail, h.head, h.room, h.slots, h.pusher, trivial⟩
  | loadOtherHead out tl hp hsome =>
    have hpopper := h.popper
    rw [hp] at hpopper
    obtain ⟨v, rest, rfl⟩ := List.exists_cons_of_ne_nil (fun hnil => hsome ((h.empty hp).mpr hnil))
    exact ⟨v :: rest, m, rfl, h.tail, h.head, h.room, h.slots, h.pusher, hpopper, v, rest, rfl,
      fun i hi => absurd (Finset.mem_univ i) hi⟩
  | read out tl todo i hp hi => exact ⟨q, m, rfl, h.read i hp⟩
  | storeTail out tl hp =>
    obtain ⟨rest, rfl, hrest⟩ := h.pop hp
    exact ⟨rest, m + 1, .pop out rest, hrest⟩

theorem exists_queue {buf : Nat → ι → W} {es : List (BoundedFifo.Event (ι → W))}
    (h : SpscRun cfg buf es s) : ∃ q m, BoundedFifo.Run cfg.capacity es q ∧ Holds cfg s q m := by
  induction h with
  | nil => exact ⟨[], 0, .nil, holds_init cfg buf⟩
  | @snoc es s t e _ hst ih =>
    obtain ⟨q, m, hrun, hq⟩ := ih
    obtain ⟨q', m', hmove, hq'⟩ := hq.step hst
    refine ⟨q', m', ?_, hq'⟩
    cases e with
    | none =>
      rw [Option.toList_none, List.append_nil]
      exact (show q' = q from hmove) ▸ hrun
    | some e => exact hrun.snoc hmove

/-- The ring refines a bounded queue of its capacity: the calls return as calls of
the queue would, a push fails only on a full and a pop only on an empty queue, and
what was popped is a prefix of what was pushed. -/
theorem spscRing_refines (cfg : SpscConfig) (buf : Nat → ι → W)
    {es : List (BoundedFifo.Event (ι → W))} {s : SpscRing ι W} (h : SpscRun cfg buf es s) :
    ∃ q, BoundedFifo.Run cfg.capacity es q ∧
      BoundedFifo.popped es ++ q = BoundedFifo.pushed es ∧
      (s.head_ - s.tail_).toNat = q.length ∧ q.length ≤ cfg.capacity := by
  obtain ⟨q, m, hrun, hq⟩ := exists_queue h
  exact ⟨q, hrun, hrun.conserves, hq.occupancy, hrun.length_le⟩

def smallestRing : SpscConfig := ⟨2, by decide⟩

def twoWords (n : Nat) : Bool → Nat := fun b => bif b then n + 1 else n

/-- A pop starts while the words of the first push are still on their way; the second push
is stored between the reads of the pop that returns what the first one brought. -/
theorem smallestRing_refines : ∃ q,
    BoundedFifo.Run smallestRing.capacity
      [.popEmpty, .push (twoWords 7), .push (twoWords 3), .pop (twoWords 7)] q ∧
      BoundedFifo.popped [.popEmpty, .push (twoWords 7), .push (twoWords 3), .pop (twoWords 7)] ++ q =
        BoundedFifo.pushed [.popEmpty, .push (twoWords 7), .push (twoWords 3), .pop (twoWords 7)] ∧
      ((2 : UInt64) - 1).toNat = q.length ∧ q.length ≤ smallestRing.capacity := by
  have hrun : SpscRun smallestRing (fun _ (_ : Bool) => 0) [] _ := .nil
  replace hrun := hrun.snoc (.loadHead (twoWords 7) rfl)
  replace hrun := hrun.snoc (.loadTail _ _ rfl (by decide))
  replace hrun := hrun.snoc (.write _ _ _ true rfl (Finset.mem_univ _))
  replace hrun := hrun.snoc (.loadOwnTail (fun _ => 0) rfl)
  replace hrun := hrun.snoc (.popEmpty _ _ rfl rfl)
  replace hrun := hrun.snoc (.write _ _ _ false rfl (by decide))
  replace hrun := hrun.snoc (.storeHead _ _ rfl)
  replace hrun := hrun.snoc (.loadOwnTail (fun _ => 0) rfl)
  replace hrun := hrun.snoc (.loadOtherHead _ _ rfl (by decide))
  replace hrun := hrun.snoc (.read _ _ _ false rfl (Finset.mem_univ _))
  replace hrun := hrun.snoc (.loadHead (twoWords 3) rfl)
  replace hrun := hrun.snoc (.loadTail _ _ rfl (by decide))
  replace hrun := hrun.snoc (.write _ _ _ false rfl (Finset.mem_univ _))
  replace hrun := hrun.snoc (.write _ _ _ true rfl (by decide))
  replace hrun := hrun.snoc (.storeHead _ _ rfl)
  replace hrun := hrun.snoc (.read _ _ _ true rfl (by decide))
  have hread : ∀ f : Bool → Nat, f false = 7 → f true = 8 → f = twoWords 7 := fun f hf ht =>
    funext (Bool.forall_bool.mpr ⟨hf, ht⟩)
  replace hrun := hrun.snoc (.storeTail (twoWords 7) 0 (congrArg (Popper.reading · 0 ∅) (hread _ rfl rfl)))
  exact spscRing_refines smallestRing _ hrun

end SslaRt
