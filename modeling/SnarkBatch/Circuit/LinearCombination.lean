import SnarkBatch.Circuit.Coeff

/-!
# Linear combinations

A linear combination is a list of terms in the order in which they were added. Terms on one wire
are not merged. A calculation (`calculate`) makes one combination after the other; a step may go on
from any of those that are there, so that its history can branch.
-/

namespace SnarkBatch

structure LinearCombination where
  terms : List (Wire × Coeff)
  deriving DecidableEq, Repr, Inhabited

namespace LinearCombination

def empty : LinearCombination := ⟨[]⟩

def plus (lc : LinearCombination) (c : Coeff) (w : Wire) : LinearCombination :=
  ⟨lc.terms ++ [(w, c)]⟩

def minus (lc : LinearCombination) (c : Coeff) (w : Wire) : LinearCombination :=
  lc.plus c.negate w

/-- Adds or subtracts a term. What is subtracted is negated, and so has to be there. -/
def addTerm (lc : LinearCombination) (subtracted : Bool) (c : Coeff) (w : Wire) :
    Except Fault LinearCombination := do
  if subtracted then return lc.minus (← c.filled) w
  return lc.plus c w

/-- A wire with what it is multiplied by, as it is written. -/
inductive Summand
  | plain (w : Wire)
  | scaled (c : Coeff) (w : Wire)
  | number (v : Int) (w : Wire)
  deriving DecidableEq, Repr

namespace Summand

def wire : Summand → Wire
  | plain w | scaled _ w | number _ w => w

def coeff : Summand → Coeff
  | plain _ => .one none
  | scaled c _ => c
  | number v _ => .normalize (.ofInt v)

end Summand

/-- Adds a term to the combination with the number `base`, or subtracts it. -/
structure Step where
  base : Nat
  subtracted : Bool
  summand : Summand
  deriving DecidableEq, Repr

/-- The result is put behind the combinations so far. -/
def Step.run (sums : List LinearCombination) (s : Step) : Except Fault (List LinearCombination) :=
  match sums[s.base]? with
  | none => throw .position
  | some lc => return sums ++ [← lc.addTerm s.subtracted s.summand.coeff s.summand.wire]

/-- All combinations of a calculation that starts from the empty one. -/
def calculate (steps : List Step) : Except Fault (List LinearCombination) :=
  steps.foldlM Step.run [empty]

end LinearCombination

end SnarkBatch
