import SslaRt.StageLayers

/-! The reference step of an event, field by field of the pipeline state. -/

namespace SslaRt

variable {R : Type*}

def Event.pixel (P : SslaSPipeline R) (e : Event R) : Nat := e.py * P.W_ + e.px
def Event.idx0 (P : SslaSPipeline R) (e : Event R) : Nat := e.py / 2 * P.Ws_ 1 + e.px / 2
def Event.idx1 (P : SslaSPipeline R) (e : Event R) : Nat := e.py / 2 / 2 * P.Ws_ 2 + e.px / 2 / 2

variable [CommRing R] (P : SslaSPipeline R) (s : PipeState R) (e : Event R)

def evFeatIn : Fin kInDim → R := (P.preprocess s e).2

def evLayer0 : (Nat → Fin kC0 → R) × (Fin kC0 → R) :=
  P.layer0 e.px e.py (evFeatIn P s e) s.hidden_0

def evLayer1 : (Nat → Fin kC0 → R) × (Fin kC0 → R) :=
  P.layer1 e.px e.py (evLayer0 P s e).2 s.hidden_1

def evLayer2 : (Nat → Fin kC1 → R) × (Fin kC1 → R) :=
  P.layer2 (e.px / 2) (e.py / 2) (evLayer1 P s e).2 s.hidden_2

def evLayer3 : (Nat → Fin kC1 → R) × (Fin kC1 → R) :=
  P.layer3 (e.px / 2) (e.py / 2) (evLayer2 P s e).2 s.hidden_3

def evCount0 : (Nat → UInt8) × Bool := tdrop (s.tdrop_counter_ 0) P.tdrop_window_ (e.idx0 P)

def evCount1 : (Nat → UInt8) × Bool := tdrop (s.tdrop_counter_ 1) P.tdrop_window_ (e.idx1 P)

section Phases

variable {P s e} (hs : ¬ e.Skipped P)

include hs

theorem preprocess_eq : P.preprocess s e =
    ({ s with last_t_us_ := Function.update s.last_t_us_ (e.pixel P) e.t }, evFeatIn P s e) := by
  have hh : P.preprocess s e = _ := if_neg hs
  rw [evFeatIn, hh]
  rfl

theorem evFeatIn_congr {s' : PipeState R}
    (h : s.last_t_us_ (e.pixel P) = s'.last_t_us_ (e.pixel P)) :
    evFeatIn P s e = evFeatIn P s' e := by
  have hh : P.preprocess s e = _ := if_neg hs
  have hh' : P.preprocess s' e = _ := if_neg hs
  have hp : (castInt e.y).toNat * P.W_ + (castInt e.x).toNat = e.pixel P := rfl
  rw [evFeatIn, evFeatIn, hh, hh']
  simp only [hp, h]

theorem evStage0_eq : evStage0 P s e =
    ({ s with
        last_t_us_ := Function.update s.last_t_us_ (e.pixel P) e.t
        hidden_0 := (evLayer0 P s e).1
        hidden_1 := (evLayer1 P s e).1 }, (evLayer1 P s e).2) := by
  rw [evStage0, preprocess_eq hs, stageForward0_eq]
  rfl

theorem evDrop0_eq : evDrop0 P s e =
    ({ (evStage0 P s e).1 with
        tdrop_counter_ := Function.update s.tdrop_counter_ 0 (evCount0 P s e).1 },
      (evCount0 P s e).2) := by
  rw [evDrop0, evStage0_eq hs]
  rfl

theorem evStage1_eq : evStage1 P s e =
    ({ (evDrop0 P s e).1 with
        hidden_2 := (evLayer2 P s e).1
        hidden_3 := (evLayer3 P s e).1 }, (evLayer3 P s e).2) := by
  rw [evStage1, stageForward1_eq, evDrop0_eq hs, evStage0_eq hs]
  rfl

theorem evDrop1_eq : evDrop1 P s e =
    ({ (evStage1 P s e).1 with
        tdrop_counter_ := Function.update (evDrop0 P s e).1.tdrop_counter_ 1 (evCount1 P s e).1 },
      (evCount1 P s e).2) := by
  rw [evDrop1, evStage1_eq hs, evDrop0_eq hs]
  rfl

end Phases

section Message

variable {P s} {m : ShardMsg R} (hs : ¬ m.ev.Skipped P)

include hs

theorem msgPass0_eq : msgPass0 P s m = (m.is_owner && (evCount0 P s m.ev).2) := by
  simp [msgPass0, hs, evDrop0_eq hs]

theorem msgPass1_eq : msgPass1 P s m = (msgPass0 P s m && (evCount1 P s m.ev).2) := by
  rw [msgPass1, evDrop1_eq hs]

/-- The three states that a message can leave behind. -/
theorem msgPipe_cases :
    (m.is_owner = false ∧ msgPipe P s m = (evStage0 P s m.ev).1) ∨
      (m.is_owner = true ∧ (evCount0 P s m.ev).2 = false ∧ msgPipe P s m = (evDrop0 P s m.ev).1) ∨
      (m.is_owner = true ∧ (evCount0 P s m.ev).2 = true ∧ msgPipe P s m = (evDrop1 P s m.ev).1) := by
  have hd : (evDrop0 P s m.ev).2 = (evCount0 P s m.ev).2 := by rw [evDrop0_eq hs]
  rw [msgPipe, if_neg hs]
  cases ho : m.is_owner with
  | false => exact .inl ⟨rfl, rfl⟩
  | true =>
    cases hp : (evCount0 P s m.ev).2 with
    | false => exact .inr (.inl ⟨rfl, rfl, by simp [hd, hp]⟩)
    | true => exact .inr (.inr ⟨rfl, rfl, by simp [hd, hp]⟩)

theorem msgPipe_last_t_us :
    (msgPipe P s m).last_t_us_ = Function.update s.last_t_us_ (m.ev.pixel P) m.ev.t := by
  rcases msgPipe_cases hs with ⟨-, h⟩ | ⟨-, -, h⟩ | ⟨-, -, h⟩
  · rw [h, evStage0_eq hs]
  · rw [h, evDrop0_eq hs, evStage0_eq hs]
  · rw [h, evDrop1_eq hs, evStage1_eq hs, evDrop0_eq hs, evStage0_eq hs]

theorem msgPipe_hidden_0 : (msgPipe P s m).hidden_0 = (evLayer0 P s m.ev).1 := by
  rcases msgPipe_cases hs with ⟨-, h⟩ | ⟨-, -, h⟩ | ⟨-, -, h⟩
  · rw [h, evStage0_eq hs]
  · rw [h, evDrop0_eq hs, evStage0_eq hs]
  · rw [h, evDrop1_eq hs, evStage1_eq hs, evDrop0_eq hs, evStage0_eq hs]

theorem msgPipe_hidden_1 : (msgPipe P s m).hidden_1 = (evLayer1 P s m.ev).1 := by
  rcases msgPipe_cases hs with ⟨-, h⟩ | ⟨-, -, h⟩ | ⟨-, -, h⟩
  · rw [h, evStage0_eq hs]
  · rw [h, evDrop0_eq hs, evStage0_eq hs]
  · rw [h, evDrop1_eq hs, evStage1_eq hs, evDrop0_eq hs, evStage0_eq hs]

theorem msgPipe_hidden_2 : (msgPipe P s m).hidden_2 =
    if msgPass0 P s m then (evLayer2 P s m.ev).1 else s.hidden_2 := by
  rw [msgPass0_eq hs]
  rcases msgPipe_cases hs with ⟨ho, h⟩ | ⟨ho, hp, h⟩ | ⟨ho, hp, h⟩
  · rw [h, evStage0_eq hs, ho]
    rfl
  · rw [h, evDrop0_eq hs, evStage0_eq hs, ho, hp]
    rfl
  · rw [h, evDrop1_eq hs, evStage1_eq hs, ho, hp]
    rfl

theorem msgPipe_hidden_3 : (msgPipe P s m).hidden_3 =
    if msgPass0 P s m then (evLayer3 P s m.ev).1 else s.hidden_3 := by
  rw [msgPass0_eq hs]
  rcases msgPipe_cases hs with ⟨ho, h⟩ | ⟨ho, hp, h⟩ | ⟨ho, hp, h⟩
  · rw [h, evStage0_eq hs, ho]
    rfl
  · rw [h, evDrop0_eq hs, evStage0_eq hs, ho, hp]
    rfl
  · rw [h, evDrop1_eq hs, evStage1_eq hs, ho, hp]
    rfl

theorem msgPipe_counter_0 : (msgPipe P s m).tdrop_counter_ 0 =
    if m.is_owner then (evCount0 P s m.ev).1 else s.tdrop_counter_ 0 := by
  have h0 : (evDrop0 P s m.ev).1.tdrop_counter_ 0 = (evCount0 P s m.ev).1 := by
    simp only [evDrop0_eq hs, Function.update_self]
  rcases msgPipe_cases hs with ⟨ho, h⟩ | ⟨ho, -, h⟩ | ⟨ho, -, h⟩
  · rw [h, evStage0_eq hs, ho]
    rfl
  · rw [h, h0, if_pos ho]
  · have h1 : (evDrop1 P s m.ev).1.tdrop_counter_ 0 = (evDrop0 P s m.ev).1.tdrop_counter_ 0 := by
      simp only [evDrop1_eq hs, Function.update_of_ne Nat.zero_ne_one]
    rw [h, h1, h0, if_pos ho]

theorem msgPipe_counter_1 : (msgPipe P s m).tdrop_counter_ 1 =
    if msgPass0 P s m then (evCount1 P s m.ev).1 else s.tdrop_counter_ 1 := by
  rw [msgPass0_eq hs]
  rcases msgPipe_cases hs with ⟨ho, h⟩ | ⟨ho, hp, h⟩ | ⟨ho, hp, h⟩
  · rw [h, evStage0_eq hs, ho]
    rfl
  · have h0 : (evDrop0 P s m.ev).1.tdrop_counter_ 1 = s.tdrop_counter_ 1 := by
      simp only [evDrop0_eq hs, Function.update_of_ne Nat.one_ne_zero, evStage0_eq hs]
    rw [h, h0, ho, hp]
    rfl
  · have h1 : (evDrop1 P s m.ev).1.tdrop_counter_ 1 = (evCount1 P s m.ev).1 := by
      simp only [evDrop1_eq hs, Function.update_self]
    rw [h, h1, ho, hp]
    rfl

end Message

end SslaRt
