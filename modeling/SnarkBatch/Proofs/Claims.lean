import SnarkBatch.Verifier.Claims

/-!
# The claims of a call as one list

A verifier draws a coefficient, adds a claim, and draws the next. What it adds in all is worked out
here without a batch: the challenges of a proof with the entries that they make of it, and the
entries of an aggregate. `Proofs/Sending.lean` says that the verifier adds just these.
-/

namespace SnarkBatch

variable {G : Type} [SourceGroup G Fp]

namespace Proof

structure Challenges where
  y : Fr
  z : Fr
  /-- Keeps the commitments to `r` and `t` apart where they are opened together. -/
  mix : Fr
  /-- The coefficient of the claim at `z · y`. -/
  first : Fr
  /-- The coefficient of the claim at `z`. -/
  second : Fr
  deriving DecidableEq, Repr

/-- The coefficients follow the challenges that fix the points. -/
def Points.challenges (oracle : Oracle) (pts : Points) : Except Fault Challenges := do
  let (first, t) ← pts.transcript.challenge oracle
  let (second, _) ← t.challenge oracle
  return { y := pts.y, z := pts.z, mix := pts.mix, first, second }

def challenges (oracle : Oracle) (p : Proof G) : Except Fault Challenges := do
  (← p.points oracle).challenges oracle

/-- `r` opened at `z · y`, and `t` together with `r` opened at `z`. -/
def entries (p : Proof G) (ch : Challenges) (tzy : Fr) : List (Entry G) :=
  p.productEntries ch.first (ch.z * ch.y) ++ p.mixedEntries ch.mix ch.second ch.z tzy

end Proof

namespace Aggregate

/-- `c` opened at the `y` of every proof. -/
def openingEntries (oracle : Oracle) (agg : Aggregate G) (pts : Points) :
    Except Fault (List (Entry G)) := do
  let each ← (agg.cOpenings.zip pts.ys).mapM fun oy => do
    let coefficient ← pts.transcript.forkChallenge oracle
    return agg.pointEntries oy.1.1 coefficient oy.2 oy.1.2
  return each.flatten

/-- The commitments to `s` of all proofs, each with a further challenge, and the value expected of
their combination. -/
def combine (oracle : Oracle) (coefficient : Fr) :
    List (Advice G × Fr) → Transcript → Except Fault (Fr × List (Entry G))
  | [], _ => .ok (0, [])
  | (advice, value) :: rest, t => do
    let (r, t) ← t.challenge oracle
    let (expected, entries) ← combine oracle coefficient rest t
    return (value * r + expected, .commitment advice.s (r * coefficient) :: entries)

/-- All claims of an aggregate, given `s(z, w)`. -/
def entries (oracle : Oracle) (proofs : List (Proof G × Advice G)) (agg : Aggregate G)
    (pts : Points) (szw : Fr) : Except Fault (List (Entry G)) := do
  let shared ← pts.transcript.forkChallenge oracle
  let openings ← openingEntries oracle agg pts
  let coefficient ← pts.transcript.forkChallenge oracle
  let advised := (proofs.map (·.2)).zip (agg.cOpenings.map (·.2))
  let (expected, combined) ← combine oracle coefficient advised pts.transcript
  return agg.pointEntries agg.opening shared pts.w szw ++ openings ++ combined ++
    [.value expected coefficient, .opening agg.sOpening coefficient pts.z]

end Aggregate

end SnarkBatch
