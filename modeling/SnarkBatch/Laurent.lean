import SnarkBatch.Fault
import SnarkBatch.Field.Scalar

/-!
# Laurent polynomials

A `Laurent` is a list of coefficients with the exponent of the first: it stands for
`Σ coeffs[i] · X^(lowest + i)`, and `lowest` may be negative. Zero coefficients at either end do not
change what it stands for. The operations on bare lists of coefficients are those of ordinary
polynomials, lowest degree first.
-/

namespace SnarkBatch

/-- `Σ coeffs[i] · first · base^i`. -/
def evalPowers : (coeffs : List Fr) → (first base : Fr) → Fr
  | [], _, _ => 0
  | c :: coeffs, first, base => c * first + evalPowers coeffs (first * base) base

structure Laurent where
  coeffs : List Fr
  lowest : Int
  deriving DecidableEq, Repr

namespace Laurent

/-- A power with any integer exponent; negative powers of 0 are 0. -/
def power (x : Fr) (e : Int) : Fr :=
  if 0 ≤ e then x ^ e.toNat else (1 / x) ^ (-e).toNat

def eval (f : Laurent) (x : Fr) : Fr := evalPowers f.coeffs (power x f.lowest) x

/-- The coefficients with their exponents. -/
def monomials (f : Laurent) : List (Int × Fr) :=
  f.coeffs.mapIdx fun i c => (f.lowest + i, c)

end Laurent

/-! ## Lists of coefficients -/

/-- `target + c · addend`, as long as `target`; what `addend` has beyond that is left out. -/
def addScaled : (target addend : List Fr) → (c : Fr) → List Fr
  | a :: target, b :: addend, c => (a + b * c) :: addScaled target addend c
  | target, _, _ => target

/-- `target + c · addend`, for an addend that is no longer than the target. -/
def mulAdd (target addend : List Fr) (c : Fr) : Except Fault (List Fr) :=
  if target.length < addend.length then .error .shortTarget else .ok (addScaled target addend c)

/-- Two lists of coefficients, of which the first may be changed in place. -/
structure Operands where
  target : List Fr
  addend : List Fr
  deriving DecidableEq, Repr

/-- Adds `c · addend` to the target in place, coefficient by coefficient. A target that is too short
is refused before any of it is changed. -/
def Operands.mulAdd (c : Fr) : EStateM Fault Operands Unit := do
  let lists ← get
  if lists.target.length < lists.addend.length then throw .shortTarget
  lists.addend.zipIdx.forM fun (b, i) =>
    modify fun lists => { lists with target := lists.target.modify i (· + b * c) }

/-- `target + c · X^place · addend`, as long as `target`. -/
def addScaledAt (place : Nat) (target addend : List Fr) (c : Fr) : List Fr :=
  target.take place ++ addScaled (target.drop place) addend c

/-- Adds the products of `b` with single coefficients, each moved up to the place of its coefficient.
A coefficient 0 is passed over. -/
def addRows (b : List Fr) (rows : List (Fr × Nat)) (product : List Fr) : List Fr :=
  rows.foldl (fun product row => if row.1 = 0 then product else addScaledAt row.2 product b row.1)
    product

/-- The product of two polynomials; empty if one of the lists is. -/
def convolve (a b : List Fr) : List Fr :=
  if a = [] ∨ b = [] then []
  else addRows b a.zipIdx (List.replicate (a.length + b.length - 1) 0)

/-- The values of a polynomial's upper parts at `z`: at place `i`, `Σ coeffs[i + j] · z^j`. -/
def upperValues (z : Fr) (coeffs : List Fr) : List Fr :=
  coeffs.foldr (fun c above => (c + above.headD 0 * z) :: above) []

/-- The quotient of `P - P(z)` by `X - z`, one coefficient shorter than `P`. -/
def divideByRoot (coeffs : List Fr) (z : Fr) : List Fr := upperValues z coeffs.tail

end SnarkBatch
