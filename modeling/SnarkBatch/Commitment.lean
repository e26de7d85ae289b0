import SnarkBatch.Laurent
import SnarkBatch.ReferenceString

/-!
# Commitments to Laurent polynomials

A commitment to `f` with the degree bound `m` is `g` times `α · x^(d - m) · f(x)`, where `d` is the
degree of the reference string; for `m = d` it is the full-degree commitment. An opening of `f` at
`z` for the value `v` is `g` times the quotient of `f - v` by `X - z`, evaluated at `x`. Both are
built from the tables alone and refuse the exponents that the tables do not cover.
-/

namespace SnarkBatch

variable {G₁ G₂ F₁ : Type} [SourceGroup G₁ F₁]

/-- Zero coefficients need no table entry. -/
def commitment (srs : ReferenceString G₁ G₂) (bound : Int) (f : Laurent) : Except Fault G₁ := do
  let shift := srs.degree - bound
  let terms ← (f.monomials.filter fun m => m.2 ≠ 0).mapM fun m => do
    return (← srs.gAlphaAt (m.1 + shift), m.2)
  return weightedSum terms

namespace Laurent

/-- The same polynomial over a range of exponents that includes 0. -/
def widened (f : Laurent) : Laurent :=
  let start := min f.lowest 0
  let stop := max (f.lowest + f.coeffs.length - 1) 0
  let below := (f.lowest - start).toNat
  let above := (stop - (f.lowest + f.coeffs.length - 1)).toNat
  ⟨List.replicate below 0 ++ f.coeffs ++ List.replicate above 0, start⟩

/-- The polynomial less a constant. -/
def subConst (f : Laurent) (value : Fr) : Laurent :=
  let wide := f.widened
  { wide with coeffs := wide.coeffs.modify (-wide.lowest).toNat (· - value) }

/-- The quotient of `f - value` by `X - z`. -/
def quotient (f : Laurent) (value z : Fr) : Laurent :=
  let difference := f.subConst value
  { difference with coeffs := divideByRoot difference.coeffs z }

end Laurent

/-- Every exponent of the quotient needs a table entry, also where its coefficient is zero. -/
def opening (srs : ReferenceString G₁ G₂) (f : Laurent) (value z : Fr) : Except Fault G₁ := do
  let terms ← (f.quotient value z).monomials.mapM fun m => do
    return (← srs.gAt m.1, m.2)
  return weightedSum terms

end SnarkBatch
