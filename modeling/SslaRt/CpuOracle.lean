import SslaRt.HybridConfig
import SslaRt.Tdrop
import SslaRt.Scan

/-! The reference for stages 2 and 3: the events are processed one at a time,
and an event that the dropout of stage 2 rejects goes no further. -/

namespace SslaRt

variable {R : Type*} [CommRing R] (ar : Arith R) (layers : S2S3Layers R) {g : S2Grid}
  (window : Int) (s : S2S3State R) (rec : S2Record R g)

def s2Buf : (Nat → Fin C2 → R) × (Fin C2 → R) :=
  layerStep ar layers.L4 rec.feat1 s.H4 rec.x rec.y g.H2 g.W2

def s2Out : (Nat → Fin C2 → R) × (Fin C2 → R) :=
  layerStep ar layers.L5 (s2Buf ar layers s rec).2 s.H5 rec.x rec.y g.H2 g.W2

def idx2 : Nat := rec.y * g.W2 + rec.x

def s3Buf : (Nat → Fin C3 → R) × (Fin C3 → R) :=
  layerStep ar layers.L6 (s2Out ar layers s rec).2 s.H6 (rec.x / 2) (rec.y / 2) g.H3 g.W3

def s3Out : (Nat → Fin C3 → R) × (Fin C3 → R) :=
  layerStep ar layers.L7 (s3Buf ar layers s rec).2 s.H7 (rec.x / 2) (rec.y / 2) g.H3 g.W3

def idx3 : Nat := rec.y / 2 * g.W3 + rec.x / 2

/-- One iteration of the loop: the new state with `pass2`, `pass3` and the
stage-3 feature of an event that passes both. -/
def oracleStep : S2S3State R × (Bool × Bool × Option (Fin C3 → R)) :=
  let buf4 := s2Buf ar layers s rec
  let s2_out := s2Out ar layers s rec
  let d2 := tdrop s.tdrop_s2 window (idx2 rec)
  let st := { s with H4 := buf4.1, H5 := s2_out.1, tdrop_s2 := d2.1 }
  if d2.2 = false then (st, false, false, none)
  else
    let buf6 := s3Buf ar layers s rec
    let s3_out := s3Out ar layers s rec
    let d3 := tdrop s.tdrop_s3 window (idx3 rec)
    ({ st with H6 := buf6.1, H7 := s3_out.1, tdrop_s3 := d3.1 },
      true, d3.2, if d3.2 then some s3_out.2 else none)

def cpuOracle (recs : List (S2Record R g)) :
    S2S3State R × List (Bool × Bool × Option (Fin C3 → R)) :=
  (Scan.final (oracleStep ar layers window) s recs, Scan.outs (oracleStep ar layers window) s recs)

@[simp] theorem oracleStep_H4 :
    (oracleStep ar layers window s rec).1.H4 = (s2Buf ar layers s rec).1 := by
  simp only [oracleStep]
  split <;> rfl

@[simp] theorem oracleStep_H5 :
    (oracleStep ar layers window s rec).1.H5 = (s2Out ar layers s rec).1 := by
  simp only [oracleStep]
  split <;> rfl

@[simp] theorem oracleStep_tdrop_s2 :
    (oracleStep ar layers window s rec).1.tdrop_s2 = (tdrop s.tdrop_s2 window (idx2 rec)).1 := by
  simp only [oracleStep]
  split <;> rfl

theorem oracleStep_H6 : (oracleStep ar layers window s rec).1.H6 =
    if (tdrop s.tdrop_s2 window (idx2 rec)).2 then (s3Buf ar layers s rec).1 else s.H6 := by
  simp only [oracleStep]
  cases (tdrop s.tdrop_s2 window (idx2 rec)).2 <;> rfl

theorem oracleStep_H7 : (oracleStep ar layers window s rec).1.H7 =
    if (tdrop s.tdrop_s2 window (idx2 rec)).2 then (s3Out ar layers s rec).1 else s.H7 := by
  simp only [oracleStep]
  cases (tdrop s.tdrop_s2 window (idx2 rec)).2 <;> rfl

theorem oracleStep_tdrop_s3 : (oracleStep ar layers window s rec).1.tdrop_s3 =
    if (tdrop s.tdrop_s2 window (idx2 rec)).2 then (tdrop s.tdrop_s3 window (idx3 rec)).1
    else s.tdrop_s3 := by
  simp only [oracleStep]
  cases (tdrop s.tdrop_s2 window (idx2 rec)).2 <;> rfl

theorem oracleStep_out : (oracleStep ar layers window s rec).2 =
    ((tdrop s.tdrop_s2 window (idx2 rec)).2,
      (tdrop s.tdrop_s2 window (idx2 rec)).2 && (tdrop s.tdrop_s3 window (idx3 rec)).2,
      if (tdrop s.tdrop_s2 window (idx2 rec)).2 && (tdrop s.tdrop_s3 window (idx3 rec)).2 then
        some (s3Out ar layers s rec).2 else none) := by
  simp only [oracleStep]
  cases (tdrop s.tdrop_s2 window (idx2 rec)).2 <;> simp

end SslaRt
