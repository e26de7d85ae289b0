/-!
# Positions counted from either end

A list of length `l` has the positions `0, …, l - 1` and, from its end, `-1, …, -l`. Wires that a
circuit has been given, and the coefficients of the constraints of `AtX`, are found by such numbers.
-/

namespace SnarkBatch

/-- The place that a number stands for in a list of a given length, if it has that place. -/
def position? (length : Nat) (i : Int) : Option Nat :=
  if i < -(length : Int) ∨ length ≤ i then none
  else some (if i < 0 then i + length else i).toNat

theorem position?_eq_none_iff {length : Nat} {i : Int} :
    position? length i = none ↔ i < -(length : Int) ∨ length ≤ i := by
  grind [position?]

theorem position?_eq_some_iff {length k : Nat} {i : Int} :
    position? length i = some k ↔ k < length ∧ (i = k ∨ i = k - (length : Int)) := by
  grind [position?]

end SnarkBatch
