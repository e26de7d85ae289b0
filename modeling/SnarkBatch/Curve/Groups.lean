import SnarkBatch.Curve.AtePairing
import SnarkBatch.Group

/-!
# The groups of the pairing

Projective points over `Fp` and over `Fp2` as the two source groups, with their generators, and the
pairing between them. Sums and multiples are defined on every triple of coordinates. The pairing
alone checks the curve equations: it refuses a pair whose second point, or else whose first point,
is off its curve, unless one of them is at infinity.
-/

namespace SnarkBatch

def generator₁ : Point Fp := .ofAffine 1 (.ofNat 2)

def generator₂ : Point Fp2 :=
  .ofAffine
    ⟨.ofNat 10857046999023057135944570762232829481370756359578518086990519993285655852781,
      .ofNat 11559732032986387107991004021392285783925812861821192530917403151452391805634⟩
    ⟨.ofNat 8495653923123431417604973247489272438418190587263600148770280649306958101930,
      .ofNat 4082367875863433681332203403145435568316851327593401208105741076214120093531⟩

instance : SourceGroup (Point Fp) Fp where
  zero := .infinity
  generator := generator₁
  add := .add
  neg := .neg
  smul k P := P.nsmul k.val
  affine := Point.affine

instance : SourceGroup (Point Fp2) Fp2 where
  zero := .infinity
  generator := generator₂
  add := .add
  neg := .neg
  smul k P := P.nsmul k.val
  affine := Point.affine

namespace AtePairing

/-- The Miller loop of a pair; 1 if a point is at infinity. -/
def millerFactor (P : Point Fp) (Q : Point Fp2) : Except Fault Fp12 :=
  match P.affine, Q.affine with
  | some p, some q =>
    if ¬ Q.OnCurve twistConstant then .error .offTwist
    else if ¬ P.OnCurve curveConstant then .error .offCurve
    else .ok (millerLoop q p)
  | _, _ => .ok 1

end AtePairing

instance : Pairing (Point Fp) (Point Fp2) Fp12 where
  value := AtePairing.millerFactor
  one := 1
  mul := (· * ·)
  isOne product := decide (AtePairing.IsOneInTarget product)

end SnarkBatch
