import SnarkBatch.Circuit.Synthesis

/-!
# The shape of a circuit

What a verifier has to know about a circuit: how many gates and constraints it has, and which
constraints belong to public inputs. The first of these belongs to the constant 1. Measuring a
circuit evaluates no wire values.
-/

namespace SnarkBatch

structure Shape where
  /-- The constraints of the public inputs, in the order of their allocation. -/
  inputs : List Nat
  gates : Nat
  constraints : Nat
  deriving DecidableEq, Repr, Inhabited

namespace Shape

def empty : Shape := ⟨[], 0, 0⟩

/-- Counts gates and constraints and notes the inputs. -/
def counter : Backend Shape Nat where
  newGate s := { s with gates := s.gates + 1 }
  newConstraint := do
    modify fun s => { s with constraints := s.constraints + 1 }
    return (← get).constraints
  insertTerm _ _ _ := pure ()
  newInput index s := { s with inputs := s.inputs ++ [index] }
  wants _ := false
  setValue _ _ := id
  getValue _ s := (none, s)

def measure : EStateM Fault Circuit Shape := do
  return (← Synthesis.complete counter empty).backend

def inputsWritten (s : Shape) : String :=
  "[" ++ ", ".intercalate (s.inputs.map toString) ++ "]"

def written (s : Shape) : String :=
  s!"PreprocessedData(k_map={s.inputsWritten}, n={s.gates}, q={s.constraints})"

end Shape

end SnarkBatch
