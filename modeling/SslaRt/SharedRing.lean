import SslaRt.SpscRefinement

/-! A single-producer single-consumer ring that several threads push into. Each of
them takes the steps of a push by itself; as long as their pushes do not overlap,
the ring holds a queue as it does for one of them. -/

namespace SslaRt

variable {τ ι W : Type*}

structure SharedRing (τ ι W : Type*) where
  buf_ : Nat → ι → W
  head_ : UInt64
  tail_ : UInt64
  pusher : τ → Pusher ι W
  popper : Popper ι W

namespace SharedRing

def init (buf : Nat → ι → W) : SharedRing τ ι W := ⟨buf, 0, 0, fun _ => .idle, .idle⟩

/-- The ring as the pushing thread `i` and the popping thread see it. -/
def view (r : SharedRing τ ι W) (i : τ) : SpscRing ι W :=
  ⟨r.buf_, r.head_, r.tail_, r.pusher i, r.popper⟩

/-- The elements between the two counters. -/
def waiting (cfg : SpscConfig) (r : SharedRing τ ι W) : List (ι → W) :=
  (List.range (r.head_ - r.tail_).toNat).map fun j =>
    r.buf_ ((r.tail_ + UInt64.ofNat j) &&& cfg.mask_).toNat

variable [DecidableEq τ]

def setPusher (r : SharedRing τ ι W) (i : τ) (p : Pusher ι W) : SharedRing τ ι W :=
  { r with pusher := Function.update r.pusher i p }

variable [DecidableEq ι] [Fintype ι]

/-- The steps of `try_push(v)` in thread `i`; the last one gives its result. -/
inductive TryPush (cfg : SpscConfig) (i : τ) (v : ι → W) (r : SharedRing τ ι W) :
    Option Bool → SharedRing τ ι W → Prop
  | loadHead (hp : r.pusher i = .idle) :
      TryPush cfg i v r none (r.setPusher i (.loadedHead v r.head_))
  | full (h : UInt64) (hp : r.pusher i = .loadedHead v h) (hfull : h - r.tail_ ≥ cfg.cap_) :
      TryPush cfg i v r (some false) (r.setPusher i .idle)
  | loadTail (h : UInt64) (hp : r.pusher i = .loadedHead v h) (hroom : ¬ h - r.tail_ ≥ cfg.cap_) :
      TryPush cfg i v r none (r.setPusher i (.writing v h Finset.univ))
  | write (h : UInt64) (todo : Finset ι) (j : ι) (hp : r.pusher i = .writing v h todo)
      (hj : j ∈ todo) :
      TryPush cfg i v r none
        { r.setPusher i (.writing v h (todo.erase j)) with
          buf_ := writeWord r.buf_ (h &&& cfg.mask_).toNat j (v j) }
  | storeHead (h : UInt64) (hp : r.pusher i = .writing v h ∅) :
      TryPush cfg i v r (some true) { r.setPusher i .idle with head_ := h + 1 }

/-- The steps of `try_pop(out)`; the last one gives its result. -/
inductive TryPop (cfg : SpscConfig) (r : SharedRing τ ι W) :
    Option (Option (ι → W)) → SharedRing τ ι W → Prop
  | loadTail (out : ι → W) (hp : r.popper = .idle) :
      TryPop cfg r none { r with popper := .loadedTail out r.tail_ }
  | empty (out : ι → W) (t : UInt64) (hp : r.popper = .loadedTail out t) (hempty : r.head_ = t) :
      TryPop cfg r (some none) { r with popper := .idle }
  | loadHead (out : ι → W) (t : UInt64) (hp : r.popper = .loadedTail out t) (hsome : r.head_ ≠ t) :
      TryPop cfg r none { r with popper := .reading out t Finset.univ }
  | read (out : ι → W) (t : UInt64) (todo : Finset ι) (j : ι) (hp : r.popper = .reading out t todo)
      (hj : j ∈ todo) :
      TryPop cfg r none
        { r with
          popper := .reading (Function.update out j (r.buf_ (t &&& cfg.mask_).toNat j)) t
            (todo.erase j) }
  | storeTail (out : ι → W) (t : UInt64) (hp : r.popper = .reading out t ∅) :
      TryPop cfg r (some (some out)) { r with tail_ := t + 1, popper := .idle }

/-- No thread but `i` is in a push. -/
def Alone (r : SharedRing τ ι W) (i : τ) : Prop := ∀ j ≠ i, r.pusher j = .idle

/-- The ring holds the queue `q`, and at most one thread is in a push. -/
structure Keeps (cfg : SpscConfig) (r : SharedRing τ ι W) (q : List (ι → W)) : Prop where
  holds : ∃ m, ∀ i, Holds cfg (r.view i) q m
  alone : ∀ i, r.pusher i ≠ .idle → r.Alone i

section Queue

variable {cfg : SpscConfig} {r r' : SharedRing τ ι W} {q : List (ι → W)} {i : τ} {v : ι → W}

omit [DecidableEq ι] [Fintype ι] [DecidableEq τ] in
theorem keeps_init (cfg : SpscConfig) (buf : Nat → ι → W) :
    Keeps cfg (init buf : SharedRing τ ι W) [] where
  holds := ⟨0, fun _ => holds_init cfg buf⟩
  alone := fun _ h => absurd rfl h

omit [DecidableEq ι] [Fintype ι] [DecidableEq τ] in
theorem Keeps.waiting_eq [Nonempty τ] (h : Keeps cfg r q) : r.waiting cfg = q := by
  obtain ⟨m, hm⟩ := h.holds
  have hi := hm (Classical.arbitrary τ)
  have hlen : (r.head_ - r.tail_).toNat = q.length := hi.occupancy
  refine List.ext_getElem (by simp [waiting, hlen]) fun j hj hj' => ?_
  have hslot : ((r.tail_ + UInt64.ofNat j) &&& cfg.mask_).toNat = (m + j) % cfg.capacity := by
    rw [show r.tail_ = UInt64.ofNat m from hi.tail, ← UInt64.ofNat_add, cfg.slot_eq]
  simp only [waiting, List.getElem_map, List.getElem_range, hslot]
  exact hi.slots j hj'

omit [DecidableEq ι] [Fintype ι] [DecidableEq τ] in
/-- It is enough to look at the ring as the one thread that may be in a push sees it. -/
theorem Keeps.of_view {m : Nat} (h : Holds cfg (r.view i) q m) (hi : r.Alone i) : Keeps cfg r q := by
  refine ⟨⟨m, fun j => ?_⟩, fun j hj j' hj' => ?_⟩
  · by_cases hji : j = i
    · exact hji ▸ h
    · refine ⟨h.tail, h.head, h.room, h.slots, ?_, h.popper⟩
      rw [view, hi j hji]
      trivial
  · by_cases hji : j = i
    · exact hi j' (hji ▸ hj')
    · exact absurd (hi j hji) hj

omit [DecidableEq ι] [Fintype ι] [DecidableEq τ] in
theorem Keeps.exists_alone [Nonempty τ] (h : Keeps cfg r q) : ∃ i, r.Alone i := by
  by_cases hidle : ∀ i, r.pusher i = .idle
  · exact ⟨Classical.arbitrary τ, fun j _ => hidle j⟩
  · obtain ⟨i, hi⟩ := not_forall.mp hidle
    exact ⟨i, h.alone i hi⟩

def pushLabel (v : ι → W) : Option Bool → Option (BoundedFifo.Event (ι → W))
  | none => none
  | some true => some (.push v)
  | some false => some .pushFull

def popLabel : Option (Option (ι → W)) → Option (BoundedFifo.Event (ι → W))
  | none => none
  | some (some out) => some (.pop out)
  | some none => some .popEmpty

theorem TryPush.others {res : Option Bool} (h : TryPush cfg i v r res r') {j : τ} (hj : j ≠ i) :
    r'.pusher j = r.pusher j := by
  cases h <;> exact Function.update_of_ne hj ..

theorem TryPush.spscStep {res : Option Bool} (h : TryPush cfg i v r res r') :
    SpscStep cfg (r.view i) (pushLabel v res) (r'.view i) := by
  have hset : ∀ p : Pusher ι W, (r.setPusher i p).view i = { r.view i with pusher := p } := by
    intro p
    simp [view, setPusher]
  cases h with
  | loadHead hp =>
    rw [hset]
    exact .loadHead v hp
  | full h hp hfull =>
    rw [hset]
    exact .pushFull v h hp hfull
  | loadTail h hp hroom =>
    rw [hset]
    exact .loadTail v h hp hroom
  | write h todo j hp hj =>
    have hstep : SpscStep cfg (r.view i) none _ := .write v h todo j hp hj
    simpa [view, setPusher, pushLabel] using hstep
  | storeHead h hp =>
    have hstep : SpscStep cfg (r.view i) (some (.push v)) _ := .storeHead v h hp
    simpa [view, setPusher, pushLabel] using hstep

omit [DecidableEq τ] in
theorem TryPop.spscStep {res : Option (Option (ι → W))} (h : TryPop cfg r res r') (i : τ) :
    SpscStep cfg (r.view i) (popLabel res) (r'.view i) := by
  cases h with
  | loadTail out hp => exact .loadOwnTail out hp
  | empty out t hp hempty => exact .popEmpty out t hp hempty
  | loadHead out t hp hsome => exact .loadOtherHead out t hp hsome
  | read out t todo j hp hj => exact .read out t todo j hp hj
  | storeTail out t hp => exact .storeTail out t hp

/-- A push that is alone appends its element when it returns true. -/
theorem Keeps.tryPush (h : Keeps cfg r q) {res : Option Bool} (hst : TryPush cfg i v r res r')
    (hstart : r.pusher i = .idle → r.Alone i) :
    Keeps cfg r' (if res = some true then q ++ [v] else q) := by
  have hi : r.Alone i := by
    by_cases hidle : r.pusher i = .idle
    · exact hstart hidle
    · exact h.alone i hidle
  have hi' : r'.Alone i := fun j hj => (hst.others hj).trans (hi j hj)
  obtain ⟨m, hm⟩ := h.holds
  obtain ⟨q', m', hmoves, hq'⟩ := (hm i).step hst.spscStep
  have hkeeps := Keeps.of_view hq' hi'
  match res with
  | none =>
    obtain rfl : q' = q := hmoves
    exact hkeeps
  | some false =>
    cases hmoves
    exact hkeeps
  | some true =>
    cases hmoves
    exact hkeeps

omit [DecidableEq τ] in
/-- A pop takes the first element when it returns one. -/
theorem Keeps.tryPop [Nonempty τ] (h : Keeps cfg r q) {res : Option (Option (ι → W))}
    (hst : TryPop cfg r res r') :
    ∃ q', q = (res.bind id).toList ++ q' ∧ Keeps cfg r' q' := by
  obtain ⟨i, hi⟩ := h.exists_alone
  have hpusher : r'.pusher = r.pusher := by cases hst <;> rfl
  have hi' : r'.Alone i := fun j hj => by rw [hpusher, hi j hj]
  obtain ⟨m, hm⟩ := h.holds
  obtain ⟨q', m', hmoves, hq'⟩ := (hm i).step (hst.spscStep i)
  have hkeeps := Keeps.of_view hq' hi'
  match res with
  | none =>
    obtain rfl : q' = q := hmoves
    exact ⟨q', rfl, hkeeps⟩
  | some none =>
    cases hmoves
    exact ⟨[], rfl, hkeeps⟩
  | some (some out) =>
    cases hmoves
    exact ⟨q', rfl, hkeeps⟩

end Queue

end SharedRing

end SslaRt
