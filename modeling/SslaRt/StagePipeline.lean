import SslaRt.Detector
import SslaRt.StageChain

/-! Scheme 2: a thread for each stage, and the same stages without threads. A
thread writes its output vector whole before anything reads it, so what an event
before has left there is not kept here. -/

namespace SslaRt

variable {R : Type*}

structure StageMsg (R : Type*) (FEAT_DIM : Nat) where
  x : Nat
  y : Nat
  feat : Fin FEAT_DIM → R

/-- What a message of type `Event` carries to the stage. -/
def Payload (R : Type*) : Nat → Type _
  | 0 => Event R
  | i + 1 => StageMsg R (chans i)

/-- The message in the queue of the next stage. -/
def StageMsg.toPayload {i : Nat} (out : StageMsg R (chans i)) : Payload R (i + 1) := out

abbrev S2State (R : Type*) :=
  StageChain.State (DetectorState R) (Payload R) fun i => Option (StageMsg R (chans i))

namespace SslaSDetector

variable [CommRing R] (P : SslaSDetector R)

/-- `stage_forward` of a thread on the popped message. -/
def forwardMsg (s : DetectorState R) (i : Nat) (x y : Nat) (feat : Nat → R) :
    DetectorState R × Option (StageMsg R (chans i)) :=
  if h : i < 4 then
    let r := P.stageForward s x y ⟨i, h⟩ feat fun _ => 0
    (r.1, some ⟨x, y, readFeat (chans i) r.2⟩)
  else (s, none)

def threadForward : (i : Nat) → DetectorState R → Payload R i →
    DetectorState R × Option (StageMsg R (chans i))
  | 0, s, ev =>
    let ex0 := castInt ev.x
    let ey0 := castInt ev.y
    if P.OutOfBounds ex0 ey0 then (s, none)
    else
      let r := P.preprocess s ev
      P.forwardMsg r.1 0 ex0.toNat ey0.toNat (featBuf r.2)
  | i + 1, s, msg => P.forwardMsg s (i + 1) msg.x msg.y (featBuf msg.feat)

def threadFinish (i : Nat) (s : DetectorState R) :
    Option (StageMsg R (chans i)) → DetectorState R × Option (Payload R (i + 1))
  | none => (s, none)
  | some out =>
    if i < 3 then
      let r := P.tdropAndPool s i out.x out.y
      (r.1, if r.2.2.2 then some (StageMsg.toPayload ⟨r.2.1, r.2.2.1, out.feat⟩) else none)
    else if i = 3 then (P.headDecodeCell s 3 out.x out.y (featBuf out.feat), none)
    else (s, none)

/-- The threads `thread_s0` to `thread_s3` with their queues. -/
def stageThreads : StageChain.Chain (DetectorState R) (Payload R)
    fun i => Option (StageMsg R (chans i)) where
  last := 3
  forward := P.threadForward
  finish := fun i s _ out => P.threadFinish i s out
  finish_last := by
    intro s m out
    cases out <;> rfl

/-- `process_one` of the driver without threads; a dropped event stops. -/
def processOne (s : DetectorState R) (e : Event R) : DetectorState R :=
  let ex0 := castInt e.x
  let ey0 := castInt e.y
  if P.OutOfBounds ex0 ey0 then s
  else
    let r := P.preprocess s e
    let touched0 := (ex0.toNat, ey0.toNat)
    let f0 := P.stageForward r.1 touched0.1 touched0.2 0 (featBuf r.2) fun _ => 0
    let p0 := P.tdropAndPool f0.1 0 touched0.1 touched0.2
    if !p0.2.2.2 then p0.1
    else
      let f1 := P.stageForward p0.1 p0.2.1 p0.2.2.1 1 f0.2 fun _ => 0
      let p1 := P.tdropAndPool f1.1 1 p0.2.1 p0.2.2.1
      if !p1.2.2.2 then p1.1
      else
        let f2 := P.stageForward p1.1 p1.2.1 p1.2.2.1 2 f1.2 fun _ => 0
        let p2 := P.tdropAndPool f2.1 2 p1.2.1 p1.2.2.1
        if !p2.2.2.2 then p2.1
        else
          let f3 := P.stageForward p2.1 p2.2.1 p2.2.2.1 3 f2.2 fun _ => 0
          let s := P.headDecodeCell f3.1 0 touched0.1 touched0.2 f0.2
          let s := P.headDecodeCell s 1 p0.2.1 p0.2.2.1 f1.2
          let s := P.headDecodeCell s 2 p1.2.1 p1.2.2.1 f2.2
          P.headDecodeCell s 3 p2.2.1 p2.2.2.1 f3.2

end SslaSDetector

/-- The events of a sender, in the order in which it pushes them. -/
def eventsOf : List (StageChain.Msg (Event R)) → List (Event R)
  | [] => []
  | .work _ e :: l => e :: eventsOf l
  | _ :: l => eventsOf l

end SslaRt
