import SnarkBatch.Field.Scalar

/-!
# Proofs

What a verifier is given. `r` and `t` are the polynomials of the proof system: a proof holds where
`t(z, y) = (r(z, y) + s(z, y)) · r(z, 1) - k(y)`, with `s` the constraint polynomial, `k` the
polynomial of the public inputs, and `y` and `z` challenges.
-/

namespace SnarkBatch

structure Proof (G : Type) where
  /-- Commits to `r(X, 1)`, bounded by the number of gates. -/
  r : G
  /-- Commits to `t(X, y)`. -/
  t : G
  /-- `r(z, 1)`. -/
  rz : Fr
  /-- `r(z, y)`. -/
  rzy : Fr
  /-- Opens `t` and `r` together at `z`. -/
  zOpening : G
  /-- Opens `r` at `z · y`. -/
  zyOpening : G
  deriving DecidableEq, Repr

/-- The value `s(z, y)` with evidence, so that the verifier need not compute it. -/
structure Advice (G : Type) where
  /-- Commits to `s(X, y)`. -/
  s : G
  szy : Fr
  /-- Opens `s` at `z`. -/
  opening : G
  deriving DecidableEq, Repr

/-- A commitment `c` to `s(z, Y)` that several proofs share, with its openings. -/
structure Aggregate (G : Type) where
  c : G
  /-- Opens a random combination of the proofs' commitments to `s` at `z`. -/
  sOpening : G
  /-- For each proof, the opening of `c` at its `y`, and the value there. -/
  cOpenings : List (G × Fr)
  /-- Opens `c` at the challenge drawn after it. -/
  opening : G
  deriving DecidableEq, Repr

namespace Proof

/-- The scalars of a proof, as a summary. -/
def written {G : Type} (p : Proof G) : String := s!"Proof(rz={p.rz.val}, rzy={p.rzy.val})"

end Proof

end SnarkBatch
