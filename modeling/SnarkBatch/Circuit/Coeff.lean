import SnarkBatch.Fault
import SnarkBatch.Field.Scalar

/-!
# Coefficients of linear constraints

Most coefficients are 0, 1 or -1, so these have tags of their own; every other scalar is `full`. A
tag says what the coefficient is worth and overrides a scalar that was put beside it. `full` may
hold any scalar, so one value can be written in several ways: `normalize` picks the tagged one.

A `full` coefficient may also have been given no scalar. It can be passed on and noted down; where a
computation needs it, `filled` refuses it. The functions that refuse nothing count it as 0.
-/

namespace SnarkBatch

inductive Coeff
  | zero (ignored : Option Fr)
  | one (ignored : Option Fr)
  | negOne (ignored : Option Fr)
  | full (scalar : Option Fr)
  deriving DecidableEq, Repr

namespace Coeff

def normalize (v : Fr) : Coeff :=
  if v = 0 then zero none
  else if v = 1 then one none
  else if v = -1 then negOne none
  else full (some v)

/-- The coefficient times a scalar. -/
def multiply (c : Coeff) (w : Fr) : Fr :=
  match c with
  | zero _ => 0
  | one _ => w
  | negOne _ => -w
  | full v => w * v.getD 0

/-- A coefficient that can be computed with. -/
def filled : Coeff → Except Fault Coeff
  | full none => .error .missingOperand
  | c => .ok c

/-- The product with a scalar that may have been left out: a `zero` does not look at it. -/
def times (c : Coeff) (w : Option Fr) : Except Fault Fr := do
  match c, w with
  | zero _, _ => return 0
  | c, some w => return (← c.filled).multiply w
  | _, none => throw .missingOperand

def value (c : Coeff) : Fr := c.multiply 1

def negate : Coeff → Coeff
  | zero ignored => zero ignored
  | one _ => negOne none
  | negOne _ => one none
  | full v => full (v.map (- ·))

/-- Two coefficients that are worth the same. -/
def Equiv (c d : Coeff) : Prop := c.value = d.value

instance (c d : Coeff) : Decidable (c.Equiv d) := inferInstanceAs (Decidable (_ = _))

def tag : Coeff → String
  | zero _ => "zero"
  | one _ => "one"
  | negOne _ => "negative-one"
  | full _ => "full"

/-- The scalar stored with the coefficient. -/
def stored : Coeff → Option Fr
  | zero v | one v | negOne v | full v => v

def written : Coeff → String
  | full v => s!"Coeff.Full({(v.getD 0).val})"
  | c => s!"Coeff.{c.tag}"

end Coeff

end SnarkBatch
