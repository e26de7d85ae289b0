import SnarkBatch.Circuit.Shape

/-!
# The log of a verifier

What a verifier notes about its work, in order. Every entry has the part of the verifier that wrote
it and a wording.
-/

namespace SnarkBatch

inductive LogSource
  | preprocessor
  | batch
  | verifier
  deriving DecidableEq, Repr

inductive LogEntry
  | preprocessed (shape : Shape)
  | batchChecked (openings full bounded : Nat)
  | proofAdded (claims : Nat)
  | aggregateAdded (proofs claims : Nat)
  | decided (accepted : Bool)
  deriving DecidableEq, Repr

namespace LogEntry

def source : LogEntry → LogSource
  | preprocessed _ => .preprocessor
  | batchChecked .. => .batch
  | proofAdded _ | aggregateAdded .. | decided _ => .verifier

def message : LogEntry → String
  | preprocessed shape =>
    s!"preprocessed circuit: n={shape.gates}, q={shape.constraints}, k_map={shape.inputsWritten}"
  | batchChecked openings full bounded =>
    s!"batch check: {openings} openings, {full} commitments, {bounded} bounded commitments"
  | proofAdded claims => s!"added proof ({claims} claims)"
  | aggregateAdded proofs claims => s!"added aggregate of {proofs} proofs ({claims} claims)"
  | decided true => "check_all: accepted"
  | decided false => "check_all: rejected"

end LogEntry

end SnarkBatch
