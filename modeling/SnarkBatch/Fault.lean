import SnarkBatch.Circuit.Wire

/-!
# Faults

Everything that can stop an operation, one constructor per cause. A verdict is not a fault: a proof
that does not hold is answered by `false`. `SynthesisFault` is what a circuit reports while it is
synthesised; `Fault` adds the causes found outside the circuit. `Fault.category` groups the causes,
`Fault.message` gives their wording.
-/

namespace SnarkBatch

inductive SynthesisFault
  /-- The circuit itself gives up. -/
  | reported (kind : String) (message : Option String)
  /-- An expression has no value. -/
  | unassigned
  /-- The second half of a gate is filled while the first has no value. -/
  | operandUnset (gate : Nat)
  /-- A wire is read before the values of its gate are there. -/
  | wireUnset (wire : Wire)
  /-- The circuit asks for a value that the backend does not have. -/
  | valueUnset (wire : Wire)
  deriving DecidableEq, Repr

namespace SynthesisFault

def kind : SynthesisFault → String
  | reported kind _ => kind
  | _ => "assignment-missing"

def message : SynthesisFault → Option String
  | reported _ message => message
  | unassigned => none
  | operandUnset gate => some s!"A({gate})의 값이 없어 곱을 계산할 수 없습니다"
  | wireUnset wire => some s!"{wire.short}의 값이 없습니다"
  | valueUnset wire => some s!"{wire.long}의 값이 없습니다"

/-- The message; the kind stands in for a missing or empty one. -/
def text (f : SynthesisFault) : String :=
  match f.message with
  | some m => if m = "" then f.kind else m
  | none => f.kind

end SynthesisFault

/-- The two variables of the constraint polynomial `s(X, Y)`. -/
inductive Axis
  | x
  | y
  deriving DecidableEq, Repr

namespace Axis

def name : Axis → String
  | x => "x"
  | y => "y"

end Axis

inductive Fault
  | synthesis (cause : SynthesisFault)
  /-- The circuit could be preprocessed and now cannot be synthesised. -/
  | resynthesis (cause : SynthesisFault)
  | constraintCount (found expected : Nat)
  /-- The evaluator in the variable `free` met a gate it has no room for. -/
  | gateRange (free : Axis) (gate gates : Int)
  | constraintRange (constraint constraints : Int)
  | batchFinalized
  | verifierFinalized
  /-- The evaluator in the variable `free` was given the value 0 for `point`. -/
  | zeroPoint (free point : Axis)
  | degreeBelowOne (degree : Int)
  | zeroSecret
  | constantTerm
  | degreeTooLarge (power degree : Int)
  | lengthMismatch (points scalars : Nat)
  | shortTarget
  | degreeBelowGates (degree gates : Int)
  | inputCount (given expected : Nat)
  | openingCount (openings proofs : Nat)
  | inputListCount
  | offCurve
  | offTwist
  /-- A list position that does not exist. -/
  | position
  /-- A wire kind that no gate has. -/
  | wireKind
  /-- A number that the operation computes with was left out. -/
  | missingOperand
  /-- A multiplication gate was given one value in place of the list of three. -/
  | unlistedValues
  /-- The backend does not offer the operation. -/
  | unsupported
  /-- No digest gave a scalar within the number of draws allowed. -/
  | noChallenge
  deriving DecidableEq, Repr

inductive FaultCategory
  | synthesis
  | inconsistency
  | lifecycle
  | argument
  | position
  | wireKind
  | operand
  | unsupported
  | noChallenge
  deriving DecidableEq, Repr

namespace Fault

def category : Fault → FaultCategory
  | synthesis _ => .synthesis
  | resynthesis _ | constraintCount .. | gateRange .. | constraintRange .. => .inconsistency
  | batchFinalized | verifierFinalized => .lifecycle
  | zeroPoint .. | degreeBelowOne _ | zeroSecret | constantTerm | degreeTooLarge ..
  | lengthMismatch .. | shortTarget | degreeBelowGates .. | inputCount .. | openingCount ..
  | inputListCount | offCurve | offTwist => .argument
  | position => .position
  | wireKind => .wireKind
  | missingOperand | unlistedValues => .operand
  | unsupported => .unsupported
  | noChallenge => .noChallenge

/-- The fault that led to this one. -/
def cause : Fault → Option SynthesisFault
  | resynthesis cause => some cause
  | _ => none

def evaluatorName (free : Axis) : String := s!"S{free.name}Eval"

/-- The wording; positions, wire kinds, operands and missing operations have none. -/
def message : Fault → Option String
  | synthesis cause => some cause.text
  | resynthesis _ => some "전처리 때 성공한 회로가 재합성에 실패했습니다"
  | constraintCount found expected =>
    some s!"재합성한 제약 수 {found}가 전처리 결과 {expected}와 다릅니다"
  | gateRange free gate gates =>
    some s!"{evaluatorName free}: 게이트 {gate}가 전처리된 게이트 수 {gates}를 벗어났습니다"
  | constraintRange constraint constraints =>
    some s!"{evaluatorName .y}: 제약 {constraint}가 전처리된 제약 수 {constraints}를 벗어났습니다"
  | batchFinalized => some "이미 check_all로 확정된 배치입니다"
  | verifierFinalized => some "check_all 이후에는 증명을 추가할 수 없습니다"
  | zeroPoint free point =>
    some s!"{evaluatorName free}: {point.name}는 0이 될 수 없습니다"
  | degreeBelowOne degree => some s!"SRS 차수는 1 이상이어야 합니다: {degree}"
  | zeroSecret => some "x는 0이 될 수 없습니다"
  | constantTerm => some "커밋할 다항식의 (이동된) 상수항이 0이 아닙니다"
  | degreeTooLarge power degree => some s!"차수 {power}가 SRS 최대 차수 {degree}를 초과합니다"
  | lengthMismatch points scalars =>
    some s!"multiexp 길이 불일치: 점 {points}개, 스칼라 {scalars}개"
  | shortTarget => some "mul_add_polynomials: 대상 리스트가 더 짧습니다"
  | degreeBelowGates degree gates => some s!"SRS 차수 {degree}가 게이트 수 {gates}보다 작습니다"
  | inputCount given expected =>
    some s!"공개 입력 {given}개가 주어졌지만 회로는 {expected}개를 기대합니다"
  | openingCount openings proofs =>
    some s!"c_openings 수 {openings}가 증명 수 {proofs}와 다릅니다"
  | inputListCount => some "증명 수와 공개 입력 목록 수가 다릅니다"
  | offCurve => some "Invalid input - point P is not on the correct curves"
  | offTwist => some "Invalid input - point Q is not on the correct curve"
  | position | wireKind | missingOperand | unlistedValues | unsupported | noChallenge => none

end Fault

end SnarkBatch
