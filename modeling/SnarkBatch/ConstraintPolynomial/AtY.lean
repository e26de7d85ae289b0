import SnarkBatch.Circuit.Synthesis
import SnarkBatch.Laurent

/-!
# The constraint polynomial at a fixed `Y`

The linear constraints of a circuit with `n` gates are the coefficients of one polynomial in two
variables,

    s(X, Y) = Σ_i u_i(Y) · X^(-i) + v_i(Y) · X^i + w_i(Y) · X^(n + i),

where a term of the `q`-th constraint adds its coefficient times `Y^(n + q)` to the `u`, `v` or `w`
of its gate, according to the kind of its wire, and every `w_i` starts as `-Y^i - Y^(-i)`. `AtY`
accumulates `s(X, y)` while the circuit is synthesised. It needs to know `n` beforehand.
-/

namespace SnarkBatch

structure AtY where
  y : Fr
  gates : Nat
  constraints : Nat
  /-- `y^(n + q)` after `q` constraints. -/
  power : Fr
  u : List Fr
  v : List Fr
  w : List Fr
  deriving DecidableEq, Repr

namespace AtY

def start (y : Fr) (gates : Nat) : Except Fault AtY :=
  if y = 0 then .error (.zeroPoint .x .y)
  else .ok {
    y
    gates
    constraints := 0
    power := y ^ gates
    u := List.replicate gates 0
    v := List.replicate gates 0
    w := (List.range gates).map fun i => -(y ^ (i + 1) + y⁻¹ ^ (i + 1)) }

def newConstraint : EStateM Fault AtY Fr := do
  modify fun s => { s with constraints := s.constraints + 1, power := s.power * s.y }
  return (← get).power

/-- Adds a coefficient at a power of `y`, which a caller without an open constraint leaves out. -/
def insertTerm (wire : Wire) (c : Coeff) (power : Option Fr) : EStateM Fault AtY Unit := do
  let s ← get
  if ¬ (1 ≤ wire.index ∧ wire.index ≤ s.gates) then throw (.gateRange .x wire.index s.gates)
  let add (row : List Fr) : EStateM Fault AtY (List Fr) := do
    let term ← ofExcept (c.times power)
    return row.modify (wire.index - 1).toNat (· + term)
  match wire.kind with
  | .a => set { s with u := ← add s.u }
  | .b => set { s with v := ← add s.v }
  | .c => set { s with w := ← add s.w }
  | .other _ => throw .wireKind

def backend : Backend AtY Fr where
  newGate := id
  newConstraint := newConstraint
  insertTerm wire c power := insertTerm wire c (some power)
  newInput _ := id
  wants _ := false
  setValue _ _ := id
  getValue _ s := (none, s)

/-- The coefficients of `X⁻¹, X⁻², …`. -/
def negative (s : AtY) : List Fr := s.u

/-- The coefficients of `X, X², …`. -/
def positive (s : AtY) : List Fr := s.v ++ s.w

def eval (s : AtY) (x : Fr) : Except Fault Fr :=
  if x = 0 then .error (.zeroPoint .x .x)
  else .ok (evalPowers s.negative x⁻¹ x⁻¹ + evalPowers s.positive x x)

end AtY

end SnarkBatch
