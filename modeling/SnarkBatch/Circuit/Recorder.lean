import SnarkBatch.Circuit.Synthesis

/-!
# Recording a synthesis

The recorder keeps every event of a synthesis in order, and the values of the wires that it is told
to evaluate. It can number constraints from any base, or give them no number at all, and it can hide
the values of some kinds of wires.
-/

namespace SnarkBatch

inductive Event
  | gate
  | constraint (index : Option Int)
  | term (wire : Wire) (coeff : Coeff) (constraint : Option Int)
  | input (constraint : Nat)
  | set (wire : Wire) (value : Option Fr)
  | get (wire : Wire) (value : Option Fr)
  deriving DecidableEq, Repr

structure Recording where
  events : List Event
  constraints : Nat
  values : List (Wire × Fr)
  deriving DecidableEq, Repr

structure Recorder where
  evaluated : List WireKind
  hidden : List WireKind
  base : Option Int
  deriving DecidableEq, Repr

namespace Recording

def empty : Recording := ⟨[], 0, []⟩

def log (r : Recording) (e : Event) : Recording := { r with events := r.events ++ [e] }

/-- The value set last. -/
def lookup (r : Recording) (w : Wire) : Option Fr :=
  (r.values.find? fun entry => entry.1 = w).map (·.2)

end Recording

def Recorder.backend (cfg : Recorder) : Backend Recording (Option Int) where
  newGate r := r.log .gate
  newConstraint := do
    modify fun r => { r with constraints := r.constraints + 1 }
    let count : Int := (← get).constraints
    let index := cfg.base.map (· + count)
    modify fun r => r.log (.constraint index)
    return index
  insertTerm w c index := modify fun r => r.log (.term w c index)
  newInput index r := r.log (.input index)
  wants kind := cfg.evaluated.contains kind
  setValue w v r :=
    let kept := match v with
      | some v => { r with values := (w, v) :: r.values }
      | none => r
    kept.log (.set w v)
  getValue w r :=
    let v := if cfg.hidden.contains w.kind then none else r.lookup w
    (v, r.log (.get w v))

end SnarkBatch
