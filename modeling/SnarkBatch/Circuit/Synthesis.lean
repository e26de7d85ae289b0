import SnarkBatch.Circuit.Script
import SnarkBatch.Fault
import SnarkBatch.Position

/-!
# Synthesis

Synthesis runs a circuit and tells a backend about every gate, constraint and wire value. What a
backend does with that is its own affair: one counts, one records, one accumulates a polynomial.
`Backend β ι` holds the operations of a backend with state `β` that identifies constraints by `ι`.

Allocations fill gates by halves: the first takes the wire `a` of a new gate, the next one the wire
`b` of the same gate, whose wire `c` is then their product. A multiplication opens a gate of its own
and drops a half that is still open. The wire of the constant 1 is allocated as a public input
before the circuit starts.

All state is kept when an operation fails, so that one can see how far a synthesis came.
-/

namespace SnarkBatch

structure Backend (β ι : Type) where
  newGate : β → β
  /-- Opens the next constraint and identifies it. -/
  newConstraint : EStateM Fault β ι
  insertTerm : Wire → Coeff → ι → EStateM Fault β Unit
  /-- The constraint with this number belongs to a public input. -/
  newInput : Nat → β → β
  /-- Whether the value of a wire is evaluated when it is set. -/
  wants : WireKind → Bool
  setValue : Wire → Option Fr → β → β
  getValue : Wire → β → Option Fr × β

/-- Ignores every event and cannot number constraints. -/
def Backend.inert : Backend Unit Unit where
  newGate := id
  newConstraint := throw .unsupported
  insertTerm _ _ _ := pure ()
  newInput _ := id
  wants _ := false
  setValue _ _ := id
  getValue _ b := (none, b)

/-- A synthesis under way. -/
structure Synthesis (β : Type) where
  circuit : Circuit
  backend : β
  /-- The gate whose second half is still free. -/
  pending : Option Nat
  gates : Nat
  constraints : Nat
  /-- The wires returned to the circuit. -/
  wires : Array Wire
  /-- The values that the circuit has read. -/
  values : List Fr
  deriving Repr

namespace Synthesis

abbrev Build (β α : Type) := EStateM Fault (Synthesis β) α

def start {β : Type} (circuit : Circuit) (backend : β) : Synthesis β :=
  ⟨circuit, backend, none, 0, 0, #[], []⟩

variable {β ι : Type} (k : Backend β ι)

def fail {α : Type} (cause : SynthesisFault) : Build β α := throw (.synthesis cause)

/-- An operation of the backend alone. -/
def onBackend {α : Type} (act : EStateM Fault β α) : Build β α := fun s =>
  match act s.backend with
  | .ok a b => .ok a { s with backend := b }
  | .error e b => .error e { s with backend := b }

def getValue (w : Wire) : Build β (Option Fr) :=
  onBackend fun b => let (v, b) := k.getValue w b; .ok v b

def setValue (w : Wire) (v : Option Fr) : Build β Unit :=
  modify fun s => { s with backend := k.setValue w v s.backend }

/-- Sets the value of a wire, computing it only where the backend wants it. -/
def assign (w : Wire) (value : Build β Fr) : Build β (Option Fr) := do
  if k.wants w.kind then
    let v ← value
    setValue k w (some v)
    return some v
  else
    setValue k w none
    return none

/-! ## The constraint system -/

/-- Opens a gate and returns its number. -/
def newGate : Build β Nat := do
  modify fun s => { s with gates := s.gates + 1, backend := k.newGate s.backend }
  return (← get).gates

/-- Fills the first half of a new gate. -/
def openHalf (value : Build β Fr) : Build β Wire := do
  let gate ← newGate k
  let a : Wire := ⟨.a, gate⟩
  let _ ← assign k a value
  modify fun s => { s with pending := some gate }
  return a

/-- Fills the second half of a gate; its output is the product of the halves. -/
def closeHalf (gate : Nat) (value : Build β Fr) : Build β Wire := do
  let b : Wire := ⟨.b, gate⟩
  let c : Wire := ⟨.c, gate⟩
  let left ← getValue k ⟨.a, gate⟩
  let right ← assign k b do
    let v ← value
    if left.isNone then fail (.operandUnset gate)
    return v
  let _ ← assign k c <|
    match left, right with
    | some l, some r => pure (l * r)
    | _, _ => fail (.wireUnset c)
  modify fun s => { s with pending := none }
  return b

def alloc (value : Build β Fr) : Build β Wire := do
  match (← get).pending with
  | some gate => closeHalf k gate value
  | none => openHalf k value

def enforce (lc : LinearCombination) : Build β Unit := do
  modify fun s => { s with constraints := s.constraints + 1 }
  let index ← onBackend k.newConstraint
  lc.terms.forM fun term => onBackend (k.insertTerm term.1 term.2 index)

def allocInput (value : Build β Fr) : Build β Wire := do
  let w ← alloc k value
  enforce k (LinearCombination.empty.plus (.one none) w)
  modify fun s => { s with backend := k.newInput s.constraints s.backend }
  return w

/-- The value of a wire of a multiplication gate, from the list of values if there is one. -/
def component (w : Wire) (values : Option (List Fr)) (i : Nat) : Build β Fr :=
  match values with
  | none => fail (.wireUnset w)
  | some vs =>
    match vs[i]? with
    | some v => pure v
    | none => throw .position

/-- Opens a gate of its own. The list of values is evaluated once, with the first wire. -/
def multiply (values : Build β (List Fr)) : Build β (Wire × Wire × Wire) := do
  let gate ← newGate k
  let a : Wire := ⟨.a, gate⟩
  let b : Wire := ⟨.b, gate⟩
  let c : Wire := ⟨.c, gate⟩
  let vs ←
    if k.wants .a then
      let vs ← values
      setValue k a (some (← component a (some vs) 0))
      pure (some vs)
    else
      setValue k a none
      pure none
  let _ ← assign k b (component b vs 1)
  let _ ← assign k c (component c vs 2)
  modify fun s => { s with pending := none }
  return (a, b, c)

def valueOf (w : Wire) : Build β Fr := do
  match ← getValue k w with
  | some v => return v
  | none => fail (.valueUnset w)

/-! ## Running a circuit -/

def resolve (ref : WireRef) : Build β Wire := do
  match ref with
  | .one => return .one
  | .wire w => return w
  | .slot i =>
    let wires := (← get).wires
    match (position? wires.size i).bind (wires[·]?) with
    | some w => return w
    | none => throw .position

def eval : Expr → Build β Fr
  | .const v => return v
  | .unassigned => fail .unassigned
  | .fail kind message => fail (.reported kind message)
  | .read ref => do valueOf k (← resolve ref)
  | .add l r => do
    let v ← eval l
    return v + (← eval r)
  | .mul l r => do
    let v ← eval l
    return v * (← eval r)

def evalGate : GateValues → Build β (List Fr)
  | .each values => values.mapM (eval k)
  | .single value => do
    let _ ← eval k value
    throw .unlistedValues

def addTerm (lc : LinearCombination) (term : SignedTerm) : Build β LinearCombination := do
  let w ← resolve term.ref
  ofExcept (lc.addTerm term.subtracted term.coeff w)

def keep (wires : List Wire) : Build β Unit :=
  modify fun s => { s with wires := s.wires ++ wires }

def step : Op → Build β Unit
  | .alloc value => do keep [← alloc k (eval k value)]
  | .input value => do keep [← allocInput k (eval k value)]
  | .multiply values => do
    let (a, b, c) ← multiply k (evalGate k values)
    keep [a, b, c]
  | .enforce terms => do enforce k (← terms.foldlM addTerm .empty)
  | .read ref => do
    let v ← valueOf k (← resolve ref)
    modify fun s => { s with values := s.values ++ [v] }
  | .fail kind message => fail (.reported kind message)

/-- Takes the script of the next pass and counts the pass. A circuit without passes has none to
count. -/
def takePass : Build β Script := fun s =>
  match s.circuit.current with
  | some script => .ok script { s with circuit := s.circuit.advance }
  | none => .error .position s

/-- Allocates the constant 1, then runs the next pass of the circuit. -/
def build : Build β Unit := do
  let _ ← allocInput k (pure 1)
  (← takePass).forM (step k)

/-- The end of a synthesis, successful or not. -/
def run (circuit : Circuit) (backend : β) : EStateM.Result Fault (Synthesis β) Unit :=
  build k (start circuit backend)

/-- A synthesis that only shows its end if it succeeds; the circuit counts the pass either way. -/
def complete (backend : β) : EStateM Fault Circuit (Synthesis β) := fun circuit =>
  match run k circuit backend with
  | .ok _ s => .ok s s.circuit
  | .error e s => .error e s.circuit

end Synthesis

end SnarkBatch
