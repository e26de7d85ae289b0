import SnarkBatch.Fault
import SnarkBatch.Field.Base
import SnarkBatch.Field.Scalar

/-!
# Source groups and their pairing

What the rest of the library uses of the two groups of the pairing: a `SourceGroup` has sums,
negatives and scalar multiples of its elements, and affine coordinates for all but the neutral
element; a `Pairing` gives a pair of elements a value, and a product of such values is one when its
final power is. A group may represent one element in several ways, and only `affine` tells which
element is meant.
-/

namespace SnarkBatch

/-- A group whose elements have affine coordinates in `F`. -/
class SourceGroup (G : Type) (F : outParam Type) where
  zero : G
  generator : G
  add : G → G → G
  neg : G → G
  smul : Fr → G → G
  /-- `none` at the neutral element. -/
  affine : G → Option (F × F)

class Pairing (G₁ G₂ : Type) (T : outParam Type) where
  /-- The value of a pair before the final power; refuses an element that does not belong to its
  group. -/
  value : G₁ → G₂ → Except Fault T
  one : T
  mul : T → T → T
  /-- Whether the final power is one. -/
  isOne : T → Bool

section

variable {G F : Type} [SourceGroup G F]

/-- The sum of the scalar multiples from the left, leaving out those by zero. -/
def weightedSum (terms : List (G × Fr)) : G :=
  terms.foldl
    (fun sum term => if term.2 = 0 then sum else SourceGroup.add sum (SourceGroup.smul term.2 term.1))
    SourceGroup.zero

def multiexp (points : List G) (scalars : List Fr) : Except Fault G :=
  if points.length = scalars.length then .ok (weightedSum (points.zip scalars))
  else .error (.lengthMismatch points.length scalars.length)

end

namespace Pairing

variable {G₁ G₂ F₁ F₂ T : Type} [SourceGroup G₁ F₁] [SourceGroup G₂ F₂] [Pairing G₁ G₂ T]

/-- The product of the values of all pairs, skipping those with a neutral element. -/
def product (pairs : List (G₁ × G₂)) : Except Fault T :=
  pairs.foldlM
    (fun product pair =>
      if (SourceGroup.affine pair.1).isNone || (SourceGroup.affine pair.2).isNone then pure product
      else return mul G₁ G₂ product (← value pair.1 pair.2))
    (one G₁ G₂)

/-- Whether a product of pairings is one. -/
def productIsOne (pairs : List (G₁ × G₂)) : Except Fault Bool :=
  return isOne G₁ G₂ (← product pairs)

end Pairing

end SnarkBatch
