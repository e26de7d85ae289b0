import SnarkBatch.Circuit.LinearCombination

/-!
# Circuits

A circuit is a script of operations on a constraint system. Each allocation returns wires, and
later operations refer to them by their place among the wires returned so far. The values of wires
are given by expressions, which are evaluated only where a backend asks for them.

A circuit may be synthesised several times and need not do the same each time: `Circuit.passes`
lists the scripts of its passes, and the last one stays in force.
-/

namespace SnarkBatch

inductive WireRef
  /-- The wire of the constant 1. -/
  | one
  /-- A wire returned earlier, counted from the first or, below zero, from the last. -/
  | slot (i : Int)
  | wire (w : Wire)
  deriving DecidableEq, Repr

inductive Expr
  | const (v : Fr)
  | unassigned
  | fail (kind : String) (message : Option String)
  | read (ref : WireRef)
  | add (l r : Expr)
  | mul (l r : Expr)
  deriving DecidableEq, Repr

/-- A term to be added or subtracted. -/
structure SignedTerm where
  subtracted : Bool
  coeff : Coeff
  ref : WireRef
  deriving DecidableEq, Repr

/-- The values of the three wires of a multiplication gate. -/
inductive GateValues
  | each (values : List Expr)
  /-- One expression in place of the list, which it can only fail to give. -/
  | single (value : Expr)
  deriving DecidableEq, Repr

inductive Op
  /-- Fills half a gate: returns one wire. -/
  | alloc (value : Expr)
  /-- Allocates a public input: returns one wire. -/
  | input (value : Expr)
  /-- Opens a gate with the values of its three wires: returns all three. -/
  | multiply (values : GateValues)
  /-- Demands that a linear combination be zero. -/
  | enforce (terms : List SignedTerm)
  /-- Reads the value of a wire at once. -/
  | read (ref : WireRef)
  | fail (kind : String) (message : Option String)
  deriving DecidableEq, Repr

inductive Script
  | done
  | step (op : Op) (rest : Script)
  /-- Runs `body` a number of times, then `rest`. -/
  | loop (count : Nat) (body rest : Script)
  deriving DecidableEq, Repr

namespace Script

/-- The operations in the order in which they run. -/
def unroll : Script → List Op
  | done => []
  | step op rest => op :: rest.unroll
  | loop count body rest => (List.replicate count body.unroll).flatten ++ rest.unroll

section

variable {m : Type → Type} [Monad m]

/-- Runs an action a number of times. -/
@[specialize] def iterate (act : m Unit) : Nat → m Unit
  | 0 => pure ()
  | count + 1 => do
    act
    iterate act count

/-- Runs an action on every operation, one after the other: a loop that fails early is cheap,
however often it was to run. -/
@[specialize] def forM (f : Op → m Unit) : Script → m Unit
  | done => pure ()
  | step op rest => do
    f op
    forM f rest
  | loop count body rest => do
    iterate (forM f body) count
    forM f rest

variable [LawfulMonad m]

theorem iterate_forM (f : Op → m Unit) (ops : List Op) (count : Nat) :
    iterate (ops.forM f) count = (List.replicate count ops).flatten.forM f := by
  induction count with
  | zero => rfl
  | succ count ih =>
    rw [iterate, ih, List.replicate_succ, List.flatten_cons]
    exact List.forM_append.symm

theorem forM_eq_unroll_forM (f : Op → m Unit) (s : Script) : s.forM f = s.unroll.forM f := by
  induction s with
  | done => rfl
  | step op rest ih => rw [forM, ih]; rfl
  | loop count body rest ihb ihr =>
    rw [forM, ihb, ihr, iterate_forM]
    exact List.forM_append.symm

end

end Script

structure Circuit where
  passes : List Script
  /-- How often the circuit has been synthesised. -/
  runs : Nat
  deriving DecidableEq, Repr

namespace Circuit

def ofScript (script : Script) : Circuit := ⟨[script], 0⟩

/-- The script of the next pass. -/
def current (c : Circuit) : Option Script := c.passes[min c.runs (c.passes.length - 1)]?

def advance (c : Circuit) : Circuit := { c with runs := c.runs + 1 }

end Circuit

end SnarkBatch
