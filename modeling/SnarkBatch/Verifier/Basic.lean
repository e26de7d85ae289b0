import SnarkBatch.ConstraintPolynomial.AtY
import SnarkBatch.Verifier.Claims
import SnarkBatch.Verifier.Log

/-!
# The batch verifier

A `Verifier` belongs to one circuit. It measures the circuit once, turns proofs and aggregates into
claims of one batch, and checks the batch once; then it is finalized. Whatever is wrong with a proof
itself only shows in the verdict. A call adds its claims one after the other, each as soon as its
coefficient is drawn; whatever may fail, the lengths of the arguments and the value of the
constraint polynomial, comes before the first of them.

Without advice the verifier synthesises the circuit again to evaluate the constraint polynomial,
and compares the number of constraints with what it measured.

The search for a challenge has no end of its own, and `Fault.noChallenge` is what becomes of one
that is given up: of such a call nobody sees how far it came (`awaited`).
-/

namespace SnarkBatch

structure Verifier (G₁ G₂ : Type) where
  circuit : Circuit
  shape : Shape
  batch : Batch G₁ G₂
  finalized : Bool
  log : List LogEntry
  deriving Repr

namespace Verifier

variable {G₁ G₂ F₂ T : Type}

abbrev Action (G₁ G₂ α : Type) := EStateM Fault (Verifier G₁ G₂) α

/-- A new verifier. It takes over the log of what happened before, and leaves it in the state if the
circuit or the reference string will not do. -/
def start [SourceGroup G₂ F₂] (srs : ReferenceString G₁ G₂) (circuit : Circuit) :
    EStateM Fault (List LogEntry) (Verifier G₁ G₂) := fun log =>
  match Shape.measure circuit with
  | .error e _ => .error e log
  | .ok shape circuit =>
    let log := log ++ [.preprocessed shape]
    match Batch.start srs shape.gates with
    | .error e => .error e log
    | .ok batch => .ok { circuit, shape, batch, finalized := false, log } log

/-! ## Parts -/

def onCircuit {α : Type} (act : EStateM Fault Circuit α) : Action G₁ G₂ α := fun v =>
  match act v.circuit with
  | .ok a circuit => .ok a { v with circuit }
  | .error e circuit => .error e { v with circuit }

def onBatch {α : Type} (act : EStateM Fault (Batch G₁ G₂) α) : Action G₁ G₂ α := fun v =>
  match act v.batch with
  | .ok a batch => .ok a { v with batch }
  | .error e batch => .error e { v with batch }

def note (entry : LogEntry) : Action G₁ G₂ Unit :=
  modify fun v => { v with log := v.log ++ [entry] }

def ensureOpen : Action G₁ G₂ Unit := do
  if (← get).finalized then throw .verifierFinalized

/-- What a fault means that stops a synthesis the verifier has seen succeed. -/
def whenRepeated : Fault → Fault
  | .synthesis cause => .resynthesis cause
  | e => e

/-- `s(x, y)`, from another synthesis of the circuit. -/
def constraintValue (y x : Fr) : Action G₁ G₂ Fr := do
  let shape := (← get).shape
  let s ← ofExcept (AtY.start y shape.gates)
  let done ← onCircuit fun circuit =>
    match Synthesis.complete AtY.backend s circuit with
    | .ok done circuit => .ok done circuit
    | .error e circuit => .error (whenRepeated e) circuit
  let s := done.backend
  if s.constraints ≠ shape.constraints then
    throw (.constraintCount s.constraints shape.constraints)
  ofExcept (s.eval x)

/-! ## Adding claims -/

section

variable [SourceGroup G₁ Fp] (oracle : Oracle)

/-- Adds entries one after the other. -/
def send (entries : List (Entry G₁)) : Action G₁ G₂ Unit :=
  entries.forM fun entry => onBatch (Batch.add entry)

/-- A call that waits for a challenge that does not come has no end. It is given up as if it had not
begun. -/
def awaited {α : Type} (call : Action G₁ G₂ α) : Action G₁ G₂ α := fun v =>
  match call v with
  | .error .noChallenge _ => .error .noChallenge v
  | result => result

/-- The points of a proof and its `t(z, y)`, from the value `s(z, y)` if it is given; else that is
computed. -/
def prepare (p : Proof G₁) (inputs : List Fr) (szy : Option Fr) :
    Action G₁ G₂ (Proof.Points × Fr) := do
  let shape := (← get).shape
  let expected := shape.inputs.length - 1
  if inputs.length ≠ expected then throw (.inputCount inputs.length expected)
  let pts ← ofExcept (p.points oracle)
  let szy ←
    match szy with
    | some szy => pure szy
    | none => constraintValue pts.y pts.z
  return (pts, p.claimedT szy (shape.publicValue pts.y inputs))

/-- Adds the two claims of a proof. -/
def claimProof (p : Proof G₁) (pts : Proof.Points) (tzy : Fr) : Action G₁ G₂ Unit := do
  let (first, t) ← ofExcept (pts.transcript.challenge oracle)
  send (p.productEntries first (pts.z * pts.y))
  let (second, _) ← ofExcept (t.challenge oracle)
  send (p.mixedEntries pts.mix second pts.z tzy)

/-- Takes a proof and returns its `z`. -/
def takeProof (p : Proof G₁) (inputs : List Fr) (szy : Option Fr) : Action G₁ G₂ Fr := do
  let (pts, tzy) ← prepare oracle p inputs szy
  claimProof oracle p pts tzy
  note (.proofAdded (← get).batch.size)
  return pts.z

def addProof (p : Proof G₁) (inputs : List Fr) (szy : Option Fr) : Action G₁ G₂ Unit := awaited do
  ensureOpen
  let _ ← takeProof oracle p inputs szy

/-- Takes `s(z, y)` from the advice, and claims that the advice itself is right. -/
def addAdvisedProof (p : Proof G₁) (inputs : List Fr) (advice : Advice G₁) :
    Action G₁ G₂ Unit := awaited do
  ensureOpen
  let z ← takeProof oracle p inputs (some advice.szy)
  let coefficient ← ofExcept (advice.coefficient oracle)
  send (advice.entries coefficient z)

/-- Claims that `c` opens at the `y` of every proof. -/
def claimOpenings (agg : Aggregate G₁) (pts : Aggregate.Points) : Action G₁ G₂ Unit :=
  (agg.cOpenings.zip pts.ys).forM fun oy => do
    let coefficient ← ofExcept (pts.transcript.forkChallenge oracle)
    send (agg.pointEntries oy.1.1 coefficient oy.2 oy.1.2)

/-- Adds the commitments to `s` of all proofs, each with a further challenge, and returns the value
expected of their combination, on top of what is expected already. -/
def claimCombination (coefficient : Fr) :
    List (Advice G₁ × Fr) → Fr → Transcript → Action G₁ G₂ Fr
  | [], expected, _ => return expected
  | (advice, value) :: rest, expected, t => do
    let (r, t) ← ofExcept (t.challenge oracle)
    send [.commitment advice.s (r * coefficient)]
    claimCombination coefficient rest (expected + value * r) t

/-- Adds the claims of an aggregate, given `s(z, w)`. -/
def claimAggregate (proofs : List (Proof G₁ × Advice G₁)) (agg : Aggregate G₁)
    (pts : Aggregate.Points) (szw : Fr) : Action G₁ G₂ Unit := do
  let shared ← ofExcept (pts.transcript.forkChallenge oracle)
  send (agg.pointEntries agg.opening shared pts.w szw)
  claimOpenings oracle agg pts
  let coefficient ← ofExcept (pts.transcript.forkChallenge oracle)
  let advised := (proofs.map (·.2)).zip (agg.cOpenings.map (·.2))
  let expected ← claimCombination oracle coefficient advised 0 pts.transcript
  send [.value expected coefficient, .opening agg.sOpening coefficient pts.z]

/-- Claims that the advice of all proofs agrees with the commitment that they share. -/
def addAggregate (proofs : List (Proof G₁ × Advice G₁)) (agg : Aggregate G₁) :
    Action G₁ G₂ Unit := awaited do
  ensureOpen
  if agg.cOpenings.length ≠ proofs.length then
    throw (.openingCount agg.cOpenings.length proofs.length)
  let pts ← ofExcept (agg.points oracle proofs)
  let szw ← constraintValue pts.w pts.z
  claimAggregate oracle proofs agg pts szw
  note (.aggregateAdded proofs.length (← get).batch.size)

end

/-! ## The verdict -/

section

variable [SourceGroup G₁ Fp] [SourceGroup G₂ F₂] [Pairing G₁ G₂ T]

/-- Checks the batch alone; the verifier stays open. -/
def checkBatch : Action G₁ G₂ Bool := do
  onBatch Batch.finalize
  let batch := (← get).batch
  note (.batchChecked batch.alphaX.length batch.full.length batch.bounded.length)
  ofExcept batch.verdict

def check : Action G₁ G₂ Bool := do
  ensureOpen
  modify fun v => { v with finalized := true }
  let accepted ← checkBatch
  note (.decided accepted)
  return accepted

variable (oracle : Oracle)

/-- Runs a new verifier and keeps its answer only. -/
def runNew {α : Type} (srs : ReferenceString G₁ G₂) (circuit : Circuit) (act : Action G₁ G₂ α) :
    Except Fault α :=
  match start srs circuit [] with
  | .error e _ => .error e
  | .ok v _ =>
    match act v with
    | .ok a _ => .ok a
    | .error e _ => .error e

/-- All proofs as one batch. -/
def verifyProofs (srs : ReferenceString G₁ G₂) (circuit : Circuit) (proofs : List (Proof G₁))
    (inputs : List (List Fr)) : Except Fault Bool :=
  if proofs.length ≠ inputs.length then .error .inputListCount
  else runNew srs circuit do
    (proofs.zip inputs).forM fun p => addProof oracle p.1 p.2 none
    check

/-- An aggregate and its advised proofs as one batch. -/
def verifyAggregate (srs : ReferenceString G₁ G₂) (circuit : Circuit)
    (proofs : List (Proof G₁ × Advice G₁)) (agg : Aggregate G₁) (inputs : List (List Fr)) :
    Except Fault Bool :=
  if proofs.length ≠ inputs.length then .error .inputListCount
  else runNew srs circuit do
    addAggregate oracle proofs agg
    (proofs.zip inputs).forM fun p => addAdvisedProof oracle p.1.1 p.2 p.1.2
    check

end

end Verifier

end SnarkBatch
