import SnarkBatch.Circuit.Synthesis
import SnarkBatch.Laurent
import SnarkBatch.Position

/-!
# The constraint polynomial at a fixed `X`

`AtX` accumulates `s(x, Y)` for the polynomial `s` of `AtY`. With `X = x` every wire has a value of
its own, `x^(-i)`, `x^i` or `x^(n + i)` by its kind, and a term of the `q`-th constraint adds its
coefficient times that value at `Y^(n + q)`. The coefficients of `Y, Y², …` stand in one list, those
of the constraints after the `n` that belong to the fixed part; a constraint number below 1 reaches
into the fixed part, and from the end of the list when it is below `1 - n`. A size below 0 leaves
room for nothing, and is named as it is where a gate or a constraint is refused.
-/

namespace SnarkBatch

structure AtX where
  gates : Int
  /-- The number of constraints that there is room for. -/
  limit : Int
  constraints : Nat
  /-- The values of the wires `a`, `b` and `c` of the gates. -/
  left : List Fr
  right : List Fr
  output : List Fr
  /-- The coefficients of `Y, Y², …`. -/
  positive : List Fr
  /-- The coefficients of `Y⁻¹, Y⁻², …`. -/
  negative : List Fr
  deriving DecidableEq, Repr

namespace AtX

def start (x : Fr) (gates limit : Int) : Except Fault AtX :=
  if x = 0 then .error (.zeroPoint .y .x)
  else
    let count := gates.toNat
    let output := (List.range count).map fun i => x ^ (count + i + 1)
    let fixed := output.map (- ·)
    .ok {
      gates
      limit
      constraints := 0
      left := (List.range count).map fun i => x⁻¹ ^ (i + 1)
      right := (List.range count).map fun i => x ^ (i + 1)
      output
      positive := fixed ++ List.replicate limit.toNat 0
      negative := fixed }

/-- Counts the constraint before it is refused. -/
def newConstraint : EStateM Fault AtX Int := do
  modify fun s => { s with constraints := s.constraints + 1 }
  let s ← get
  if s.constraints > s.limit then throw (.constraintRange s.constraints s.limit)
  return s.constraints

/-- Adds a coefficient to the constraint with the given number, which a caller without an open
constraint leaves out. -/
def insertTerm (wire : Wire) (c : Coeff) (constraint : Option Int) : EStateM Fault AtX Unit := do
  let s ← get
  if ¬ (1 ≤ wire.index ∧ wire.index ≤ s.gates) then throw (.gateRange .y wire.index s.gates)
  let values ←
    match wire.kind with
    | .a => pure s.left
    | .b => pure s.right
    | .c => pure s.output
    | .other _ => throw .wireKind
  let some constraint := constraint | throw .missingOperand
  match position? s.positive.length (s.gates + constraint - 1) with
  | none => throw .position
  | some i =>
    let term ← ofExcept (c.times (values.getD (wire.index - 1).toNat 0))
    set { s with positive := s.positive.modify i (· + term) }

def backend : Backend AtX Int where
  newGate := id
  newConstraint := newConstraint
  insertTerm wire c constraint := insertTerm wire c (some constraint)
  newInput _ := id
  wants _ := false
  setValue _ _ := id
  getValue _ s := (none, s)

def eval (s : AtX) (y : Fr) : Except Fault Fr :=
  if y = 0 then .error (.zeroPoint .y .y)
  else .ok (evalPowers s.positive y y + evalPowers s.negative y⁻¹ y⁻¹)

end AtX

end SnarkBatch
