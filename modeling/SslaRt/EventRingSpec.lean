import SslaRt.EventRing

/-! Every sequence of batch transfers on the Python ring is one on a bounded
queue, as long as the number of events pushed fits its counter. -/

namespace SslaRt

namespace EventRing

open CircularBuffer

variable {α : Type} {r : EventRing α}

section Monad

variable {β γ : Type}

theorem get_bind (f : EventRing α → RingM α β) : (get >>= f) r = f r r := rfl

theorem bind_run {x : RingM α β} {f : β → RingM α γ} {b : β} {r' : EventRing α}
    (h : x r = (.ok b, r')) : (x >>= f) r = f b r' := by
  change StateT.bind x (ExceptT.bindCont f) r = _
  rw [StateT.bind, h]
  rfl

theorem bind_error {x : RingM α β} {f : β → RingM α γ} {e : PyError} {r' : EventRing α}
    (h : x r = (.error e, r')) : (x >>= f) r = (.error e, r') := by
  change StateT.bind x (ExceptT.bindCont f) r = _
  rw [StateT.bind, h]
  rfl

theorem lift_run {x : Except PyError β} {b : β} (h : x = .ok b) :
    (liftM x : RingM α β) r = (.ok b, r) := by
  rw [h]
  rfl

theorem setBuf_run {i j : Nat} {b buf : List α} (h : setSlice r.buf i j b = .ok buf) :
    (setBuf i j b : RingM α Unit) r = (.ok (), { r with buf := buf }) := by
  rw [setBuf, get_bind, bind_run (lift_run h)]
  rfl

theorem setHead_run {v : Nat} (h : v < 2 ^ 64) :
    (setHead v : RingM α Unit) r = (.ok (), { r with head := v }) := by
  rw [setHead, storeU64, if_pos h]
  rfl

theorem setHead_error {v : Nat} (h : ¬ v < 2 ^ 64) :
    (setHead v : RingM α Unit) r = (.error .overflowError, r) := by
  rw [setHead, storeU64, if_neg h]
  rfl

theorem setTail_run {v : Nat} (h : v < 2 ^ 64) :
    (setTail v : RingM α Unit) r = (.ok (), { r with tail := v }) := by
  rw [setTail, storeU64, if_pos h]
  rfl

end Monad

section Slices

variable {a b : List α} {i j : Nat}

/-- A slice of the array takes an array of its own length. -/
theorem setSlice_ok (hij : i ≤ j) (hj : j ≤ a.length) (hb : b.length = j - i) :
    setSlice a i j b = .ok (overwrite a b i) := by
  have hlen : (slice a i j).length = j - i := by
    rw [slice, List.length_take, List.length_drop]
    omega
  unfold setSlice
  exact if_pos (hb.trans hlen.symm)

end Slices

/-- What the constructor and the calls keep. -/
structure Valid (r : EventRing α) : Prop where
  pow2 : isPow2 r.cap
  mask : r.mask = r.cap - 1
  length : r.buf.length = r.cap
  tail_le : r.tail ≤ r.head
  head_le : r.head ≤ r.tail + r.cap
  head_lt : r.head < 2 ^ 64

/-- The events in the ring, oldest first. -/
def queue (r : EventRing α) : List α := window r.buf r.tail (r.head - r.tail)

theorem Valid.cap_pos (h : Valid r) : 0 < r.cap := Nat.lt_of_lt_of_le Nat.two_pos h.pow2.1

theorem Valid.and_mask (h : Valid r) (n : Nat) : n &&& r.mask = n % r.buf.length := by
  have hcap := h.cap_pos
  obtain ⟨k, hk⟩ := (Nat.and_sub_one_eq_zero_iff_isPowerOfTwo (by omega)).mp h.pow2.2
  rw [h.mask, h.length, hk, Nat.and_two_pow_sub_one_eq_mod]

theorem Valid.length_queue (h : Valid r) : (queue r).length = r.head - r.tail :=
  length_window (by have := h.length; have := h.head_le; omega)

theorem Valid.occupancy (h : Valid r) : r.occupancy = (queue r).length := by
  rw [h.length_queue, EventRing.occupancy]
  have := h.tail_le
  omega

theorem Valid.freeSpace (h : Valid r) : r.freeSpace = (r.cap - (queue r).length : Nat) := by
  rw [EventRing.freeSpace, h.occupancy, h.length_queue]
  have := h.head_le
  omega

theorem create_valid {capacity : Nat} (hcap : isPow2 capacity) (zero : α) :
    ∃ r, create capacity zero = .ok r ∧ Valid r ∧ queue r = [] ∧ r.cap = capacity ∧ r.head = 0 :=
  ⟨_, if_pos hcap, ⟨hcap, rfl, List.length_replicate, le_rfl, Nat.zero_le _, Nat.two_pow_pos 64⟩,
    List.length_eq_zero_iff.mp (by rw [queue, Nat.sub_self, window, List.take_zero]; rfl), rfl, rfl⟩

section Push

/-- The slices of a push go behind the queue. -/
theorem Valid.written (h : Valid r) {src buf : List α} (hbuf : Written r.buf buf r.head src)
    (hsrc : (queue r).length + src.length ≤ r.cap) :
    window buf r.tail (r.head + src.length - r.tail) = queue r ++ src ∧
      window buf r.tail (r.head - r.tail) = queue r := by
  have htail := h.tail_le
  rw [h.length_queue, ← h.length] at hsrc
  have hhead : r.tail + (r.head - r.tail) = r.head := by omega
  rw [← hhead] at hbuf
  have hadd : r.head + src.length - r.tail = r.head - r.tail + src.length := by omega
  rw [hadd]
  exact ⟨hbuf.window hsrc, hbuf.window_same hsrc⟩

/-- The two branches of a push before the counter is stored. -/
theorem Valid.slices_run (h : Valid r) {β : Type} {arr : List α} {m : Nat} (hm : m ≤ arr.length)
    (hroom : (queue r).length + m ≤ r.cap) (next : RingM α β) :
    ∃ buf, Written r.buf buf r.head (arr.take m) ∧
      (if (r.head &&& r.mask) + m ≤ r.cap then do
          setBuf (r.head &&& r.mask) ((r.head &&& r.mask) + m) (arr.take m)
          next
        else do
          setBuf (r.head &&& r.mask) r.cap (arr.take (r.cap - (r.head &&& r.mask)))
          setBuf 0 (m - (r.cap - (r.head &&& r.mask))) (slice arr (r.cap - (r.head &&& r.mask)) m)
          next : RingM α β) r = next { r with buf := buf } := by
  have hlen := h.length
  have hpos : 0 < r.buf.length := hlen ▸ h.cap_pos
  have hlt := Nat.mod_lt r.head hpos
  have hsrc : (arr.take m).length = m := List.length_take_of_le hm
  rw [h.and_mask]
  by_cases hone : r.head % r.buf.length + m ≤ r.cap
  · rw [if_pos hone]
    refine ⟨_, written_once (by rw [hsrc, hlen]; rwa [hlen] at hone), ?_⟩
    rw [bind_run (setBuf_run (setSlice_ok (by omega) (by omega) (by omega)))]
  · rw [if_neg hone]
    have hfirst : r.cap - r.head % r.buf.length = r.buf.length - r.head % r.buf.length := by rw [hlen]
    refine ⟨_, written_twice hpos (by omega) (by omega) hfirst, ?_⟩
    have htake : (arr.take (r.cap - r.head % r.buf.length)).length = r.cap - r.head % r.buf.length :=
      List.length_take_of_le (by omega)
    have hdrop : (arr.take m).drop (r.cap - r.head % r.buf.length) =
        slice arr (r.cap - r.head % r.buf.length) m := by
      rw [slice, List.drop_take]
    rw [List.take_take, min_eq_left (by omega), hdrop,
      bind_run (setBuf_run (setSlice_ok (by omega) (by omega) (by omega)))]
    rw [bind_run (setBuf_run (setSlice_ok (Nat.zero_le _) ?_ ?_))]
    · change m - _ ≤ (overwrite r.buf _ _).length
      rw [length_overwrite (by omega)]
      omega
    · rw [← hdrop, List.length_drop, hsrc]
      rfl

theorem written_nil (buf : List α) (head : Nat) : Written buf buf head [] :=
  ⟨rfl, nofun, fun _ _ _ => rfl⟩

/-- A push writes behind the queue and then stores the counter. -/
theorem Valid.push_run (h : Valid r) (arr : List α) {m : Nat}
    (hm : m = min arr.length (r.cap - (queue r).length)) :
    ∃ buf, Written r.buf buf r.head (arr.take m) ∧
      tryPushBatch arr r = (do
        setHead (r.head + m)
        pure m : RingM α Nat) { r with buf := buf } := by
  have hnone : m = 0 → ∃ buf, Written r.buf buf r.head (arr.take m) ∧
      (.ok 0, r) = (do
        setHead (r.head + m)
        pure m : RingM α Nat) { r with buf := buf } := by
    rintro rfl
    refine ⟨r.buf, written_nil _ _, ?_⟩
    rw [Nat.add_zero, bind_run (setHead_run h.head_lt)]
    rfl
  have hfree := h.freeSpace
  rw [EventRing.freeSpace, EventRing.occupancy] at hfree
  rw [tryPushBatch, get_bind]
  dsimp only
  by_cases h0 : arr.length = 0
  · rw [if_pos h0]
    exact hnone (by omega)
  rw [if_neg h0, hfree]
  by_cases hfull : r.cap - (queue r).length = 0
  · rw [if_pos (by omega)]
    exact hnone (by omega)
  rw [if_neg (by omega), Int.toNat_natCast, ← hm]
  exact h.slices_run (by omega) (by omega) _

theorem Valid.push (h : Valid r) (arr : List α) {m : Nat}
    (hm : m = min arr.length (r.cap - (queue r).length)) :
    ∃ r', tryPushBatch arr r =
        (if r.head + m < 2 ^ 64 then .ok m else .error .overflowError, r') ∧ Valid r' ∧
      queue r' = (if r.head + m < 2 ^ 64 then queue r ++ arr.take m else queue r) ∧
      r'.cap = r.cap ∧ r'.head = if r.head + m < 2 ^ 64 then r.head + m else r.head := by
  obtain ⟨buf, hbuf, hrun⟩ := h.push_run arr hm
  have hsrc : (arr.take m).length = m := List.length_take_of_le (by omega)
  have hle : (queue r).length ≤ r.cap := by
    rw [h.length_queue]
    have := h.head_le
    omega
  obtain ⟨hpush, hsame⟩ := h.written hbuf (by omega)
  have hlen := hbuf.length.trans h.length
  rw [hsrc] at hpush
  rw [hrun]
  by_cases hlt : r.head + m < 2 ^ 64
  · simp only [if_pos hlt]
    rw [bind_run (setHead_run hlt)]
    have htail : r.tail ≤ r.head + m := Nat.le_add_right_of_le h.tail_le
    have hhead : r.head + m ≤ r.tail + r.cap := by
      rw [h.length_queue] at hle hm
      omega
    exact ⟨_, rfl, ⟨h.pow2, h.mask, hlen, htail, hhead, hlt⟩, hpush, rfl, rfl⟩
  · simp only [if_neg hlt]
    rw [bind_error (setHead_error hlt)]
    exact ⟨_, rfl, ⟨h.pow2, h.mask, hlen, h.tail_le, h.head_le, h.head_lt⟩, hsame, rfl, rfl⟩

end Push

section Pop

/-- The two branches of a pop before the counter is stored. -/
theorem Valid.slices_out (h : Valid r) {β : Type} {out : List α} {m : Nat} (hm : m ≤ out.length)
    (hocc : m ≤ (queue r).length) (next : List α → RingM α β) :
    ((if (r.tail &&& r.mask) + m ≤ r.cap then do
        let out ← liftM (setSlice out 0 m (slice r.buf (r.tail &&& r.mask) ((r.tail &&& r.mask) + m)))
        next out
      else do
        let out ← liftM (setSlice out 0 (r.cap - (r.tail &&& r.mask)) (r.buf.drop (r.tail &&& r.mask)))
        let out ← liftM (setSlice out (r.cap - (r.tail &&& r.mask)) m
          (r.buf.take (m - (r.cap - (r.tail &&& r.mask)))))
        next out : RingM α β)) r = next ((queue r).take m ++ out.drop m) r := by
  have hlen := h.length
  have hpos : 0 < r.buf.length := hlen ▸ h.cap_pos
  have hlt := Nat.mod_lt r.tail hpos
  have hhead := h.head_le
  rw [h.length_queue] at hocc
  have hqueue : (queue r).take m = window r.buf r.tail m := window_take hocc
  have hwindow : (window r.buf r.tail m).length = m := length_window (by omega)
  rw [h.and_mask, hqueue]
  by_cases hone : r.tail % r.buf.length + m ≤ r.cap
  · rw [if_pos hone, slice_eq_window (by omega),
      bind_run (lift_run (setSlice_ok (Nat.zero_le _) hm (by omega)))]
    rw [overwrite, hwindow, List.take_zero, List.nil_append, Nat.zero_add]
  · rw [if_neg hone]
    have hdrop : (r.buf.drop (r.tail % r.buf.length)).length = r.cap - r.tail % r.buf.length := by
      rw [List.length_drop, hlen]
    have htake : (r.buf.take (m - (r.cap - r.tail % r.buf.length))).length =
        m - (r.cap - r.tail % r.buf.length) := List.length_take_of_le (by omega)
    rw [bind_run (lift_run (setSlice_ok (Nat.zero_le _) (by omega) (by omega))),
      bind_run (lift_run (setSlice_ok (by omega) ?_ (by omega)))]
    · have hout := overwrite_overwrite out (r.buf.drop (r.tail % r.buf.length))
        (r.buf.take (m - (r.cap - r.tail % r.buf.length)))
      rw [hdrop, htake, Nat.add_sub_cancel' (by omega)] at hout
      rw [← slices_eq_window (by omega) (by omega), hout, hlen]
    · rw [length_overwrite (by omega)]
      exact hm

theorem Valid.pop_run (h : Valid r) (out : List α) {m : Nat} (hm : m = min out.length (queue r).length) :
    tryPopBatch out r = (do
      setTail (r.tail + m)
      pure (m, (queue r).take m ++ out.drop m) : RingM α (Nat × List α)) r := by
  have hnone : m = 0 → (.ok (0, out), r) = (do
      setTail (r.tail + m)
      pure (m, (queue r).take m ++ out.drop m) : RingM α (Nat × List α)) r := by
    rintro rfl
    rw [Nat.add_zero, bind_run (setTail_run (h.tail_le.trans_lt h.head_lt))]
    rfl
  have hocc := h.occupancy
  rw [EventRing.occupancy] at hocc
  rw [tryPopBatch, get_bind]
  dsimp only
  by_cases h0 : out.length = 0
  · rw [if_pos h0]
    exact hnone (by omega)
  rw [if_neg h0, hocc]
  by_cases hempty : (queue r).length = 0
  · rw [if_pos (by omega)]
    exact hnone (by omega)
  rw [if_neg (by omega), Int.toNat_natCast, ← hm]
  exact h.slices_out (by omega) (by omega) _

theorem Valid.pop (h : Valid r) (out : List α) {m : Nat} (hm : m = min out.length (queue r).length) :
    ∃ r', tryPopBatch out r = (.ok (m, (queue r).take m ++ out.drop m), r') ∧ Valid r' ∧
      queue r' = (queue r).drop m ∧ r'.cap = r.cap ∧ r'.head = r.head := by
  have hle : m ≤ r.head - r.tail := by
    rw [hm, h.length_queue]
    exact min_le_right _ _
  have htail : r.tail + m ≤ r.head := by
    have := h.tail_le
    omega
  have hhead : r.head ≤ r.tail + m + r.cap := h.head_le.trans (by omega)
  rw [h.pop_run out hm, bind_run (setTail_run (htail.trans_lt h.head_lt))]
  refine ⟨_, rfl, ⟨h.pow2, h.mask, h.length, htail, hhead, h.head_lt⟩, ?_, rfl, rfl⟩
  have hlen : r.head - r.tail ≤ r.buf.length := by
    rw [h.length]
    have := h.head_le
    omega
  have hdrop : (window r.buf r.tail (r.head - r.tail)).drop m =
      window r.buf (r.tail + m) (r.head - r.tail - m) := window_drop hlen hle
  change window r.buf (r.tail + m) (r.head - (r.tail + m)) = (window r.buf r.tail _).drop m
  rw [hdrop, Nat.sub_sub]

end Pop

section Runs

theorem Valid.exec (h : Valid r) (c : Call α) : Valid (c.exec r) ∧ (c.exec r).cap = r.cap := by
  cases c with
  | push arr =>
    obtain ⟨r', hrun, hvalid, -, hcap, -⟩ := h.push arr rfl
    rw [Call.exec, hrun]
    exact ⟨hvalid, hcap⟩
  | pop out =>
    obtain ⟨r', hrun, hvalid, -, hcap, -⟩ := h.pop out rfl
    rw [Call.exec, hrun]
    exact ⟨hvalid, hcap⟩

theorem Valid.run (h : Valid r) (calls : List (Call α)) :
    Valid (calls.foldl Call.exec r) ∧ (calls.foldl Call.exec r).cap = r.cap := by
  induction calls generalizing r with
  | nil => exact ⟨h, rfl⟩
  | cons c calls ih =>
    obtain ⟨hvalid, hcap⟩ := h.exec c
    obtain ⟨hrun, hcap'⟩ := ih hvalid
    exact ⟨hrun, hcap'.trans hcap⟩

theorem ring_refines {capacity : Nat} (hcap : isPow2 capacity) (zero : α) (calls : List (Call α)) :
    ∃ start, create capacity zero = .ok start ∧ queue start = [] ∧
      ∀ r, r = calls.foldl Call.exec start →
        r.occupancy = (queue r).length ∧ r.freeSpace = (capacity - (queue r).length : Nat) ∧
        r.occupancy + r.freeSpace = capacity ∧
        (∀ arr m, m = min arr.length r.freeSpace.toNat → ∃ r', tryPushBatch arr r =
            (if r.head + m < 2 ^ 64 then .ok m else .error .overflowError, r') ∧
          queue r' = (if r.head + m < 2 ^ 64 then queue r ++ arr.take m else queue r) ∧
          r'.head = if r.head + m < 2 ^ 64 then r.head + m else r.head) ∧
        ∀ out m, m = min out.length r.occupancy.toNat → ∃ r',
          tryPopBatch out r = (.ok (m, (queue r).take m ++ out.drop m), r') ∧
          queue r' = (queue r).drop m ∧ r'.head = r.head := by
  obtain ⟨start, hstart, hvalid, hempty, hstartcap, -⟩ := create_valid hcap zero
  refine ⟨start, hstart, hempty, fun r hr => ?_⟩
  obtain ⟨h, hrcap⟩ := hvalid.run calls
  rw [← hr] at h hrcap
  have hc : r.cap = capacity := hrcap.trans hstartcap
  have hocc := h.occupancy
  have hfree := h.freeSpace
  refine ⟨hocc, by rw [hfree, hc], ?_, fun arr m hm => ?_, fun out m hm => ?_⟩
  · rw [EventRing.freeSpace, hc]
    omega
  · rw [hfree, Int.toNat_natCast] at hm
    obtain ⟨r', hrun, -, hqueue, -, hhead⟩ := h.push arr hm
    exact ⟨r', hrun, hqueue, hhead⟩
  · rw [hocc, Int.toNat_natCast] at hm
    obtain ⟨r', hrun, -, hqueue, -, hhead⟩ := h.pop out hm
    exact ⟨r', hrun, hqueue, hhead⟩

theorem ring_refines_two : ∃ start : EventRing Nat, create 2 0 = .ok start ∧
    ∃ r', tryPopBatch [0, 0, 0] (Call.exec start (.push [5, 6, 7])) = (.ok (2, [5, 6, 0]), r') := by
  obtain ⟨start, hstart, -, hrun⟩ := ring_refines (by decide : isPow2 2) 0 [.push [5, 6, 7]]
  obtain ⟨hocc, -, -, -, hpop⟩ := hrun _ rfl
  have hempty : start = ⟨2, 1, [0, 0], 0, 0⟩ := by
    injection hstart with hstart
    exact hstart.symm
  subst hempty
  obtain ⟨r', hrun, -⟩ := hpop [0, 0, 0] 2 (by rw [hocc]; rfl)
  exact ⟨_, hstart, r', hrun⟩

/-- A ring from which every event is popped at once has counted the pushes. -/
theorem exec_rounds {start : EventRing Unit} (h : Valid start) (hempty : queue start = [])
    (hhead : start.head = 0) {n : Nat} (hn : n < 2 ^ 64) :
    Valid ((List.replicate n [Call.push [()], .pop [()]]).flatten.foldl Call.exec start) ∧
      queue ((List.replicate n [Call.push [()], .pop [()]]).flatten.foldl Call.exec start) = [] ∧
      ((List.replicate n [Call.push [()], .pop [()]]).flatten.foldl Call.exec start).head = n := by
  induction n with
  | zero => exact ⟨h, hempty, hhead⟩
  | succ n ih =>
    obtain ⟨hvalid, hqueue, hcount⟩ := ih (by omega)
    rw [List.replicate_succ', List.flatten_append, List.foldl_append]
    generalize (List.replicate n [Call.push [()], .pop [()]]).flatten.foldl Call.exec start = r at *
    have hcap := hvalid.cap_pos
    obtain ⟨r', hpush, hvalid', hqueue', -, hhead'⟩ := hvalid.push [()] (m := 1) (by
      rw [hqueue, List.length_singleton, List.length_nil]
      omega)
    rw [if_pos (by omega)] at hqueue' hhead'
    rw [hqueue, List.take_of_length_le (by decide), List.nil_append] at hqueue'
    obtain ⟨r'', hpop, hvalid'', hqueue'', -, hhead''⟩ := hvalid'.pop [()] (m := 1) (by
      rw [hqueue']
      rfl)
    simp only [List.flatten_cons, List.flatten_nil, List.append_nil, List.foldl_cons, List.foldl_nil,
      Call.exec, hpush, hpop]
    exact ⟨hvalid'', by rw [hqueue'', hqueue']; rfl, by rw [hhead'', hhead', hcount]⟩

theorem ring_overflows : ∃ (start : EventRing Unit) (calls : List (Call Unit)),
    create 2 () = .ok start ∧ queue (calls.foldl Call.exec start) = [] ∧
      (tryPushBatch [()] (calls.foldl Call.exec start)).1 = .error .overflowError := by
  obtain ⟨start, hstart, hvalid, hempty, -, hhead⟩ := create_valid (by decide : isPow2 2) ()
  obtain ⟨h, hqueue, hcount⟩ := exec_rounds hvalid hempty hhead (n := 2 ^ 64 - 1) (by omega)
  refine ⟨start, _, hstart, hqueue, ?_⟩
  have hcap := h.cap_pos
  obtain ⟨r', hpush, -⟩ := h.push [()] (m := 1) (by
    rw [hqueue, List.length_singleton, List.length_nil]
    omega)
  rw [hpush, hcount, Nat.sub_add_cancel (Nat.two_pow_pos 64), if_neg (lt_irrefl _)]

end Runs

end EventRing

end SslaRt
