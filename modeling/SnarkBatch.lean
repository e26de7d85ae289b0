import SnarkBatch.Circuit.Recorder
import SnarkBatch.Commitment
import SnarkBatch.ConstraintPolynomial.AtX
import SnarkBatch.Curve.Groups
import SnarkBatch.Verifier.Basic
import SnarkBatch.Proofs.Field.Algebra
import SnarkBatch.Proofs.Field.Prime
import SnarkBatch.Proofs.Laurent.Series
import SnarkBatch.Proofs.Laurent.Arithmetic
import SnarkBatch.Proofs.Laurent.Division
import SnarkBatch.Proofs.Circuit.Parametric
import SnarkBatch.Proofs.Circuit.Outline
import SnarkBatch.Proofs.Circuit.Inputs
import SnarkBatch.Proofs.Circuit.Mapping
import SnarkBatch.Proofs.Circuit.Structure
import SnarkBatch.Proofs.ConstraintPolynomial.Reference
import SnarkBatch.Proofs.Circuit.Combination
import SnarkBatch.Proofs.ConstraintPolynomial.AtY
import SnarkBatch.Proofs.ConstraintPolynomial.AtX
import SnarkBatch.Proofs.Arithmetization.Assignment
import SnarkBatch.Proofs.Arithmetization.ConstantTerm
import SnarkBatch.Proofs.Group.Multiples
import SnarkBatch.Proofs.Group.Bilinear
import SnarkBatch.Proofs.Group.WeightedSum
import SnarkBatch.Proofs.ReferenceString
import SnarkBatch.Proofs.Batch
import SnarkBatch.Proofs.Curve.Addition
import SnarkBatch.Proofs.Curve.Groups
import SnarkBatch.Proofs.Curve.Order
import SnarkBatch.Proofs.Commitment
import SnarkBatch.Proofs.Commitment.Refusal
import SnarkBatch.Proofs.Commitment.Padding
import SnarkBatch.Proofs.Claims
import SnarkBatch.Proofs.Transcript
import SnarkBatch.Proofs.Prover
import SnarkBatch.Proofs.Verifier
import SnarkBatch.Proofs.Sending
import SnarkBatch.Proofs.Calls
import SnarkBatch.Proofs.Completeness
import SnarkBatch.Proofs.Additivity
import SnarkBatch.Proofs.Helper
import SnarkBatch.Proofs.AggregateCompleteness
import SnarkBatch.Proofs.Absorption
import SnarkBatch.Proofs.Malformed
import SnarkBatch.Proofs.Folding
import SnarkBatch.Proofs.Encoding
import SnarkBatch.Proofs.Drift
import SnarkBatch.Proofs.Atomicity
import SnarkBatch.Proofs.Curve.Rescaling
import SnarkBatch.Proofs.Lockstep
import SnarkBatch.Proofs.Representation
import SnarkBatch.Proofs.Circuit.Progress
import SnarkBatch.Proofs.Circuit.Allocation
import SnarkBatch.Proofs.Circuit.Recording
import SnarkBatch.Proofs.Circuit.Origins
import SnarkBatch.Proofs.Circuit.Constraints
import SnarkBatch.Proofs.Circuit.Callback
import SnarkBatch.Proofs.Circuit.Evaluation
import SnarkBatch.Proofs.Circuit.Setting
import SnarkBatch.Proofs.Circuit.Witness
import SnarkBatch.Proofs.Circuit.Refusal
import SnarkBatch.Proofs.ConstraintPolynomial.Agreement
import SnarkBatch.Proofs.Circuit.Faults
import SnarkBatch.Proofs.Lifecycle
import SnarkBatch.Proofs.Opening
import SnarkBatch.Proofs.VerificationEquation
import SnarkBatch.Proofs.SharedCoefficient
import SnarkBatch.Proofs.ConstraintPolynomial.Instructions
import SnarkBatch.Proofs.ConstraintPolynomial.Numbers
import SnarkBatch.Proofs.Sampling
import SnarkBatch.Proofs.Forks
import SnarkBatch.Proofs.Curve.Comparison
