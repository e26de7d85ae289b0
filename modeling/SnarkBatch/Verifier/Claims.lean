import SnarkBatch.Batch
import SnarkBatch.Circuit.Shape
import SnarkBatch.Proof
import SnarkBatch.Transcript

/-!
# The claims of a proof

Each proof becomes claims for a batch: the points at which its commitments are opened and the
coefficients of the claims are challenges, drawn from a transcript that starts empty and absorbs the
parts of the proof. The value of the constraint polynomial enters the claims but not the transcript,
and the public inputs enter them through `Shape.publicValue`. Here are the challenges that are drawn
before the first claim and the entries of each claim; the verifier draws a coefficient for one claim
after the other.

In an aggregate most coefficients are drawn from forks of the transcript, which do not move it on.
-/

namespace SnarkBatch

/-- `k(y)`: each public input at the power of its constraint, after the constant 1. -/
def Shape.publicValue (s : Shape) (y : Fr) (inputs : List Fr) : Fr :=
  ((s.inputs.zip (1 :: inputs)).map fun kv => y ^ (kv.1 + s.gates) * kv.2).sum

variable {G F₂ : Type} [SourceGroup G Fp]

/-- Absorbs an element of the first group. -/
def Transcript.absorbElement (t : Transcript) (P : G) : Transcript :=
  t.absorbPoint (SourceGroup.affine P)

/-- A challenge drawn from a fork: the transcript stays as it was. -/
def Transcript.forkChallenge (oracle : Oracle) (t : Transcript) : Except Fault Fr := do
  return (← t.challenge oracle).1

namespace Proof

/-- The challenges that fix the points of a proof, and the transcript after all of its parts. -/
structure Points where
  y : Fr
  z : Fr
  /-- Keeps the commitments to `r` and `t` apart where they are opened together. -/
  mix : Fr
  transcript : Transcript
  deriving DecidableEq, Repr

def points (oracle : Oracle) (p : Proof G) : Except Fault Points := do
  let (y, t) ← (Transcript.start []).absorbElement p.r |>.challenge oracle
  let (z, t) ← t.absorbElement p.t |>.challenge oracle
  let (mix, t) ← (t.absorbScalar p.rz).absorbScalar p.rzy |>.challenge oracle
  return { y, z, mix, transcript := (t.absorbElement p.zOpening).absorbElement p.zyOpening }

/-- `t(z, y)` as the identity of the proof system gives it. -/
def claimedT (p : Proof G) (szy publicValue : Fr) : Fr := (p.rzy + szy) * p.rz - publicValue

/-- `r` opened at `z · y`. -/
def productEntries (p : Proof G) (coefficient zy : Fr) : List (Entry G) :=
  [.opening p.zyOpening coefficient zy, .bounded p.r coefficient, .value p.rzy coefficient]

/-- `t` together with `r` opened at `z`. -/
def mixedEntries (p : Proof G) (mix coefficient z tzy : Fr) : List (Entry G) :=
  [.opening p.zOpening coefficient z,
   .value tzy coefficient,
   .commitment p.t coefficient,
   .value p.rz (coefficient * mix),
   .bounded p.r (coefficient * mix)]

end Proof

namespace Advice

def coefficient (oracle : Oracle) (a : Advice G) : Except Fault Fr := do
  let t := ((Transcript.start []).absorbElement a.opening).absorbElement a.s
  return (← (t.absorbScalar a.szy).challenge oracle).1

/-- `s` opened at `z`. -/
def entries (a : Advice G) (coefficient z : Fr) : List (Entry G) :=
  [.opening a.opening coefficient z, .commitment a.s coefficient, .value a.szy coefficient]

end Advice

namespace Aggregate

/-- The challenges that fix the points of an aggregate, and the transcript after them. -/
structure Points where
  /-- The `y` of each proof. -/
  ys : List Fr
  z : Fr
  w : Fr
  transcript : Transcript
  deriving DecidableEq, Repr

/-- The first challenge of each proof, drawn as the proof alone draws it. -/
def proofPoints (oracle : Oracle) (proofs : List (Proof G × Advice G)) : Except Fault (List Fr) :=
  proofs.mapM fun p => do
    return (← ((Transcript.start []).absorbElement p.1.r).challenge oracle).1

def points (oracle : Oracle) (proofs : List (Proof G × Advice G)) (agg : Aggregate G) :
    Except Fault Points := do
  let ys ← proofPoints oracle proofs
  let t := proofs.foldl (fun t p => t.absorbElement p.2.s) (Transcript.start [])
  let (z, t) ← t.challenge oracle
  let (w, transcript) ← (t.absorbElement agg.c).challenge oracle
  return { ys, z, w, transcript }

/-- `c` opened at one point. -/
def pointEntries (agg : Aggregate G) (evidence : G) (coefficient point value : Fr) :
    List (Entry G) :=
  [.opening evidence coefficient point, .commitment agg.c coefficient, .value value coefficient]

end Aggregate

end SnarkBatch
