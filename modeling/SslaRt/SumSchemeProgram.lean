import SslaRt.SumSchemeEntries

/-! What `main` pushes: the events in their order, each marker behind the events of
smaller numbers, and the work that belongs to the events. -/

namespace SslaRt

namespace SumScheme

/-- An event takes up the numbers from `lo` to `hi`, a marker none. -/
def Item.lo : Item → Nat
  | .event seq => seq
  | .marker seq => seq

def Item.hi : Item → Nat
  | .event seq => seq + 1
  | .marker seq => seq

def Item.Before (a b : Item) : Prop := a.hi ≤ b.lo

structure Placed (lo hi : Nat) (items : List Item) : Prop where
  order : items.Pairwise Item.Before
  range : ∀ i ∈ items, lo ≤ i.lo ∧ i.hi ≤ hi

theorem Placed.nil (n : Nat) : Placed n n [] := ⟨.nil, by simp⟩

theorem Placed.append {lo mid hi : Nat} {a b : List Item} (ha : Placed lo mid a) (hb : Placed mid hi b)
    (h₁ : lo ≤ mid) (h₂ : mid ≤ hi) : Placed lo hi (a ++ b) := by
  constructor
  · rw [List.pairwise_append]
    refine ⟨ha.order, hb.order, fun i hi j hj => ?_⟩
    exact (ha.range i hi).2.trans (hb.range j hj).1
  · intro i hi
    rcases List.mem_append.mp hi with h | h
    · exact ⟨(ha.range i h).1, (ha.range i h).2.trans h₂⟩
    · exact ⟨h₁.trans (hb.range i h).1, (hb.range i h).2⟩

theorem Placed.nodup {lo hi : Nat} {items : List Item} (h : Placed lo hi items) :
    (eventSeqs items).Nodup := by
  have hlt : (eventSeqs items).Pairwise (· < ·) := by
    refine List.Pairwise.filterMap _ (fun i j hij a ha b hb => ?_) h.order
    cases i with
    | marker seq => simp at ha
    | event seq =>
      cases j with
      | marker seq' => simp at hb
      | event seq' =>
        obtain rfl : seq = a := Option.some.inj ha
        obtain rfl : seq' = b := Option.some.inj hb
        exact hij
  exact hlt.imp Nat.ne_of_lt

theorem Placed.marker {lo hi : Nat} {a b : List Item} {seq : Nat} (h : Placed lo hi (a ++ .marker seq :: b)) :
    (∀ e ∈ eventSeqs a, e < seq) ∧ ∀ e ∈ eventSeqs b, seq ≤ e := by
  have horder := List.pairwise_append.mp h.order
  constructor
  · intro e he
    exact horder.2.2 _ (mem_eventSeqs.mp he) _ (List.mem_cons_self ..)
  · intro e he
    exact List.rel_of_pairwise_cons horder.2.1 (mem_eventSeqs.mp he)

section Parts

variable {R : Type*} {p : SumScheme R}

/-- The operations after the last wait. -/
def ProducerOp.Closes : ProducerOp R → Prop
  | .push_meta .eof => True
  | .push_l0 _ .eof => True
  | .set_done => True
  | _ => False

def WorkMatches [CommRing R] (p : SumScheme R) (ops : List (ProducerOp R)) : Prop :=
  ∀ k, ops.filterMap (ProducerOp.workOf k) =
    ((eventMetas ops).map EventMeta.job).filterMap (p.workAt k)

/-- A part of a program that sends every shard the work of its events, and that waits for
its own markers. -/
structure Matching [CommRing R] (p : SumScheme R) (ops : List (ProducerOp R)) : Prop where
  expected : ∀ m ∈ eventMetas ops, m.expected_count = p.expectedCount m.x
  work : WorkMatches p ops
  opened : ∀ op ∈ ops, ¬ op.Closes
  shards : ∀ k m, .push_l0 k m ∈ ops → k < p.num_shards
  waits : ∀ a q b, ops = a ++ .wait_marker q :: b → WorkMatches p a ∧ .push_meta (.marker q) ∈ a

theorem eventMetas_append (a b : List (ProducerOp R)) :
    eventMetas (a ++ b) = eventMetas a ++ eventMetas b := List.filterMap_append

section Append

variable [CommRing R] {a b : List (ProducerOp R)}

theorem WorkMatches.append (ha : WorkMatches p a) (hb : WorkMatches p b) : WorkMatches p (a ++ b) := by
  intro k
  rw [eventMetas_append, List.map_append, List.filterMap_append, List.filterMap_append, ha k, hb k]

/-- A wait belongs to one of two parts. -/
theorem waits_append (ha : ∀ x q y, a = x ++ .wait_marker q :: y → WorkMatches p x ∧ .push_meta (.marker q) ∈ x)
    (hb : ∀ x q y, b = x ++ .wait_marker q :: y →
      WorkMatches p (a ++ x) ∧ .push_meta (.marker q) ∈ a ++ x)
    (x : List (ProducerOp R)) (q : Nat) (y : List (ProducerOp R)) (heq : a ++ b = x ++ .wait_marker q :: y) :
    WorkMatches p x ∧ .push_meta (.marker q) ∈ x := by
  rcases List.append_eq_append_iff.mp heq with ⟨c, rfl, hb'⟩ | ⟨c, ha', hc⟩
  · exact hb c q y hb'
  · cases c with
    | nil =>
      rw [List.append_nil] at ha'
      subst ha'
      have := hb [] q y hc.symm
      rwa [List.append_nil] at this
    | cons op c =>
      obtain ⟨rfl, -⟩ := List.cons.inj hc
      exact ha x q c ha'

theorem Matching.append (ha : Matching p a) (hb : Matching p b) : Matching p (a ++ b) := by
  refine ⟨fun m hm => ?_, ha.work.append hb.work, fun op hop => ?_, fun k m hm => ?_,
    waits_append ha.waits fun x q y hy => ?_⟩
  · rw [eventMetas_append, List.mem_append] at hm
    exact hm.elim (ha.expected m) (hb.expected m)
  · exact (List.mem_append.mp hop).elim (ha.opened op) (hb.opened op)
  · exact (List.mem_append.mp hm).elim (ha.shards k m) (hb.shards k m)
  · obtain ⟨hwork, hmark⟩ := hb.waits x q y hy
    exact ⟨ha.work.append hwork, List.mem_append_right _ hmark⟩

theorem no_waits {ops : List (ProducerOp R)} (h : ∀ q, .wait_marker q ∉ ops) (a : List (ProducerOp R)) (q : Nat)
    (b : List (ProducerOp R)) (heq : ops = a ++ .wait_marker q :: b) :
    WorkMatches p a ∧ .push_meta (.marker q) ∈ a :=
  absurd (heq ▸ List.mem_append_right _ List.mem_cons_self) (h q)

theorem matching_nil : Matching p [] :=
  ⟨by simp [eventMetas], fun _ => rfl, by simp, by simp, no_waits (by simp)⟩

theorem matching_marker (seq : Nat) : Matching p [.push_meta (.marker seq)] :=
  ⟨by simp [eventMetas, ProducerOp.event], fun _ => rfl, by simp [ProducerOp.Closes], by simp,
    no_waits (by simp)⟩

theorem matching_mark (seq : Nat) : Matching p (markAndWait seq) := by
  refine ⟨by simp [eventMetas, markAndWait, ProducerOp.event], fun _ => rfl,
    by simp [markAndWait, ProducerOp.Closes], by simp [markAndWait], ?_⟩
  refine waits_append (a := [.push_meta (.marker seq)]) (matching_marker seq).waits
    fun x q y hy => ?_
  cases x with
  | nil =>
    obtain ⟨rfl, -⟩ : seq = q ∧ y = [] := by simpa using hy
    exact ⟨fun _ => rfl, List.mem_cons_self⟩
  | cons op x => simp at hy

end Append

/-- One shard gets its part of the work of an event. -/
theorem work_of_event (j : Job R) (k n : Nat) :
    ((List.range n).filterMap fun i => (p.workAt i j).map fun w => ProducerOp.push_l0 i (.event w)).filterMap
      (ProducerOp.workOf k) = if k < n then (p.workAt k j).toList else [] := by
  induction n with
  | zero => simp
  | succ n ih =>
    rw [List.range_succ, List.filterMap_append, List.filterMap_append, ih]
    rcases lt_trichotomy k n with h | rfl | h
    · rw [if_pos h, if_pos (by omega)]
      cases p.workAt n j <;> simp [ProducerOp.workOf, h.ne']
    · rw [if_neg (lt_irrefl k), if_pos (Nat.lt_succ_self k)]
      cases h : p.workAt k j <;> simp [h, ProducerOp.workOf]
    · rw [if_neg (by omega), if_neg (by omega)]
      cases p.workAt n j <;> simp [ProducerOp.workOf, h.ne]

theorem mem_work {j : Job R} {n : Nat} {op : ProducerOp R}
    (h : op ∈ (List.range n).filterMap fun i => (p.workAt i j).map fun w => .push_l0 i (.event w)) :
    ∃ i < n, ∃ w, op = .push_l0 i (.event w) := by
  obtain ⟨i, hi, hw⟩ := List.mem_filterMap.mp h
  obtain ⟨w, -, rfl⟩ := Option.map_eq_some_iff.mp hw
  exact ⟨i, List.mem_range.mp hi, w, rfl⟩

/-- The meta record of an event comes first and alone. -/
theorem work_events (j : Job R) (n : Nat) :
    eventMetas ((List.range n).filterMap fun i =>
      (p.workAt i j).map fun w => ProducerOp.push_l0 i (.event w)) = [] := by
  refine List.filterMap_eq_nil_iff.mpr fun op hop => ?_
  obtain ⟨i, -, w, rfl⟩ := mem_work hop
  rfl

theorem work_items (j : Job R) (n : Nat) :
    ((List.range n).filterMap fun i => (p.workAt i j).map fun w =>
      ProducerOp.push_l0 i (.event w)).filterMap ProducerOp.item = [] := by
  refine List.filterMap_eq_nil_iff.mpr fun op hop => ?_
  obtain ⟨i, -, w, rfl⟩ := mem_work hop
  rfl

variable (p) in
/-- The numbers of the events in bounds, of a run that begins at `seq`. -/
def keptSeqs (seq : Nat) (events : List (Event R)) : List Nat :=
  ((events.zipIdx seq).filter fun e => ¬ p.OutOfBounds (castInt e.1.x) (castInt e.1.y)).map Prod.snd

theorem keptSeqs_cons (seq : Nat) (e : Event R) (es : List (Event R)) :
    p.keptSeqs seq (e :: es) =
      (if p.OutOfBounds (castInt e.x) (castInt e.y) then [] else [seq]) ++ p.keptSeqs (seq + 1) es := by
  unfold keptSeqs
  by_cases h : p.OutOfBounds (castInt e.x) (castInt e.y) <;> simp [List.zipIdx_cons, h]

theorem keptSeqs_append (seq : Nat) (a b : List (Event R)) :
    p.keptSeqs seq (a ++ b) = p.keptSeqs seq a ++ p.keptSeqs (seq + a.length) b := by
  unfold keptSeqs
  rw [List.zipIdx_append, List.filter_append, List.map_append]

theorem workAt_eq_none {j : Job R} {k : Nat} (h : ¬ k < p.num_shards) : p.workAt k j = none :=
  if_neg fun h' => h h'.1

variable [CommRing R]

theorem pushOne_matching (s : PipeState R) (seq : Nat) (e : Event R) : Matching p (p.pushOne s seq e).2 := by
  unfold pushOne
  by_cases hb : p.OutOfBounds (castInt e.x) (castInt e.y)
  · simp only [if_pos hb]
    exact matching_nil
  · simp only [if_neg hb]
    refine ⟨fun m hm => ?_, fun k => ?_, fun op hop => ?_, fun k m hm => ?_, no_waits (by simp)⟩
    · rw [show eventMetas (ProducerOp.push_meta _ :: _) = _ :: eventMetas _ from rfl, work_events,
        List.mem_singleton] at hm
      subst hm
      rfl
    · rw [show eventMetas (ProducerOp.push_meta _ :: _) = _ :: eventMetas _ from rfl, work_events,
        List.filterMap_cons_none rfl, work_of_event]
      by_cases hk : k < p.num_shards
      · rw [if_pos hk, List.map_singleton, List.filterMap_cons, List.filterMap_nil]
        cases p.workAt k _ <;> rfl
      · rw [if_neg hk, List.map_singleton, List.filterMap_cons_none (workAt_eq_none hk),
          List.filterMap_nil]
    · rw [List.mem_cons] at hop
      rcases hop with rfl | hop
      · exact id
      · obtain ⟨i, -, w, rfl⟩ := mem_work hop
        exact id
    · rw [List.mem_cons] at hm
      rcases hm with hm | hm
      · cases hm
      · obtain ⟨i, hi, w, heq⟩ := mem_work hm
        obtain ⟨rfl, -⟩ := ProducerOp.push_l0.inj heq
        exact hi

theorem pushOne_items (s : PipeState R) (seq : Nat) (e : Event R) :
    (p.pushOne s seq e).2.filterMap ProducerOp.item =
      if p.OutOfBounds (castInt e.x) (castInt e.y) then [] else [.event seq] := by
  unfold pushOne
  by_cases hb : p.OutOfBounds (castInt e.x) (castInt e.y)
  · simp only [if_pos hb]
    rfl
  · simp only [if_neg hb]
    rw [List.filterMap_cons, work_items]
    rfl

/-- A checkpoint after event `i` pushes markers of number `i + 1` only. -/
structure Checkpoints (p : SumScheme R) (checkpoint : Nat → List (ProducerOp R)) : Prop where
  matching : ∀ i, Matching p (checkpoint i)
  seqs : ∀ i, eventSeqs ((checkpoint i).filterMap ProducerOp.item) = []
  placed : ∀ i, Placed (i + 1) (i + 1) ((checkpoint i).filterMap ProducerOp.item)

omit [CommRing R] in
theorem mark_placed (seq : Nat) : Placed seq seq ((markAndWait (R := R) seq).filterMap ProducerOp.item) := by
  constructor
  · exact List.pairwise_singleton _ _
  · intro i hi
    obtain rfl : i = .marker seq := by simpa [markAndWait, ProducerOp.item, MetaMsg.item] using hi
    exact ⟨le_rfl, le_rfl⟩

theorem checkpoints_none : Checkpoints p fun _ => [] :=
  ⟨fun _ => matching_nil, fun _ => rfl, fun _ => .nil _⟩

theorem checkpoints_oracle (warmup : Nat) (oracle_every : Option Nat) :
    Checkpoints p (checkpoint warmup oracle_every) := by
  cases oracle_every with
  | none => exact checkpoints_none
  | some every =>
    refine ⟨fun i => ?_, fun i => ?_, fun i => ?_⟩ <;> unfold checkpoint <;> dsimp only <;> split
    · exact matching_mark _
    · exact matching_nil
    · rfl
    · rfl
    · exact mark_placed _
    · exact .nil _

section Events

variable {checkpoint : Nat → List (ProducerOp R)} (hc : Checkpoints p checkpoint)
include hc

theorem pushEvents_matching (es : List (Event R)) (s : PipeState R) (seq : Nat) :
    Matching p (p.pushEvents checkpoint s seq es).2 := by
  induction es generalizing s seq with
  | nil => exact matching_nil
  | cons e es ih => exact (pushOne_matching s seq e).append ((hc.matching seq).append (ih _ _))

theorem pushEvents_seqs (es : List (Event R)) (s : PipeState R) (seq : Nat) :
    eventSeqs ((p.pushEvents checkpoint s seq es).2.filterMap ProducerOp.item) = p.keptSeqs seq es := by
  induction es generalizing s seq with
  | nil => rfl
  | cons e es ih =>
    unfold pushEvents
    dsimp only
    rw [List.filterMap_append, List.filterMap_append, eventSeqs_append, eventSeqs_append, hc.seqs, ih,
      pushOne_items, keptSeqs_cons, List.nil_append]
    by_cases hb : p.OutOfBounds (castInt e.x) (castInt e.y)
    · rw [if_pos hb, if_pos hb]
      rfl
    · rw [if_neg hb, if_neg hb]
      rfl

theorem pushEvents_placed (es : List (Event R)) (s : PipeState R) (seq : Nat) :
    Placed seq (seq + es.length) ((p.pushEvents checkpoint s seq es).2.filterMap ProducerOp.item) := by
  induction es generalizing s seq with
  | nil => exact .nil seq
  | cons e es ih =>
    unfold pushEvents
    dsimp only
    rw [List.filterMap_append, List.filterMap_append, pushOne_items, List.length_cons,
      show seq + (es.length + 1) = seq + 1 + es.length by omega]
    have hone : Placed seq (seq + 1)
        (if p.OutOfBounds (castInt e.x) (castInt e.y) then [] else [Item.event seq]) := by
      by_cases hb : p.OutOfBounds (castInt e.x) (castInt e.y)
      · rw [if_pos hb]
        exact ⟨.nil, by simp⟩
      · rw [if_neg hb]
        refine ⟨List.pairwise_singleton _ _, fun i hi => ?_⟩
        obtain rfl : i = .event seq := List.mem_singleton.mp hi
        exact ⟨le_rfl, le_rfl⟩
    exact hone.append ((hc.placed seq).append (ih _ _) le_rfl (by omega)) (by omega) (by omega)

end Events

/-- What `main` pushes up to the last wait. -/
structure Body (p : SumScheme R) (events : List (Event R)) (body : List (ProducerOp R)) : Prop where
  matching : Matching p body
  placed : Placed 0 events.length (body.filterMap ProducerOp.item)
  seqs : eventSeqs (body.filterMap ProducerOp.item) = p.keptSeqs 0 events
  marked : .push_meta (.marker events.length) ∈ body

theorem body_of_parts {checkpoint : Nat → List (ProducerOp R)} (hc : Checkpoints p checkpoint)
    (a b : List (Event R)) (s s' : PipeState R) :
    Body p (a ++ b) ((p.pushEvents (fun _ => []) s 0 a).2 ++ (markAndWait a.length ++
      ((p.pushEvents checkpoint s' a.length b).2 ++ [.push_meta (.marker (a ++ b).length)]))) := by
  have hfirst := pushEvents_placed checkpoints_none (p := p) a s 0
  have hrest := pushEvents_placed hc b s' a.length
  rw [Nat.zero_add] at hfirst
  rw [← List.length_append] at hrest
  have hle : a.length ≤ (a ++ b).length := by simp
  refine ⟨(pushEvents_matching checkpoints_none a s 0).append ((matching_mark _).append
    ((pushEvents_matching hc b s' _).append (matching_marker _))), ?_, ?_, by simp⟩
  · rw [List.filterMap_append, List.filterMap_append, List.filterMap_append]
    have hend := hrest.append (mark_placed (R := R) (a ++ b).length) hle le_rfl
    exact hfirst.append ((mark_placed _).append hend le_rfl hle) (Nat.zero_le _) hle
  · rw [List.filterMap_append, List.filterMap_append, List.filterMap_append, eventSeqs_append,
      eventSeqs_append, eventSeqs_append, pushEvents_seqs checkpoints_none, pushEvents_seqs hc,
      keptSeqs_append, Nat.zero_add]
    simp [markAndWait, ProducerOp.item, MetaMsg.item, eventSeqs]

variable (p) in
theorem program_body (events : List (Event R)) (warmup : Nat) (oracle_every : Option Nat) :
    ∃ body, Body p events body ∧
      p.program events warmup oracle_every = body ++ .wait_marker events.length :: p.closing := by
  have htake : (events.take (min warmup events.length)).length = min warmup events.length := by
    rw [List.length_take]
    omega
  have hbody := body_of_parts (p := p) (checkpoints_oracle (min warmup events.length) oracle_every)
    (events.take (min warmup events.length)) (events.drop (min warmup events.length))
    SslaSPipeline.reset (p.pushEvents (fun _ => []) SslaSPipeline.reset 0
      (events.take (min warmup events.length))).1
  rw [List.take_append_drop, htake] at hbody
  exact ⟨_, hbody, by simp [program, markAndWait]⟩

end Parts

end SumScheme

end SslaRt
