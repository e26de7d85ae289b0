import SnarkBatch.ReferenceString

/-!
# Batches of claims

A claim says that a commitment opens at a point `z` to a value `v`, with an opening `W` as evidence:
`α·(x - z)·W + α·v·g` equals the commitment, or `x^(n - d)` times it when the commitment is bounded
by the number of gates. A `Batch` adds up claims, each multiplied by a coefficient `r` of its own,
and checks their sum by one product of four pairings. Its parts come as entries that share the
coefficient: an opening, a value, and a commitment of either sort.

The answer says only whether the sum holds. A batch is checked once; then it is finalized and
refuses further use.
-/

namespace SnarkBatch

/-- One part of a claim with the coefficient of the claim. -/
inductive Entry (G : Type)
  | opening (evidence : G) (r z : Fr)
  | value (v r : Fr)
  /-- A full-degree commitment. -/
  | commitment (c : G) (r : Fr)
  /-- A commitment bounded by the number of gates. -/
  | bounded (c : G) (r : Fr)
  deriving DecidableEq, Repr

structure Batch (G₁ G₂ : Type) where
  g : G₁
  /-- The four elements that the sums are paired with. -/
  alphaXKey : G₂
  alphaKey : G₂
  fullKey : G₂
  boundedKey : G₂
  alphaX : List (G₁ × Fr)
  alpha : List (G₁ × Fr)
  full : List (G₁ × Fr)
  bounded : List (G₁ × Fr)
  /-- The sum of the claimed values, each times its coefficient. -/
  value : Fr
  finalized : Bool
  deriving Repr

namespace Batch

variable {G₁ G₂ F₁ F₂ : Type}

/-- An empty batch for circuits with the given number of gates. -/
def start [SourceGroup G₂ F₂] (srs : ReferenceString G₁ G₂) (gates : Int) :
    Except Fault (Batch G₁ G₂) := do
  if srs.degree < gates then throw (.degreeBelowGates srs.degree gates)
  let alphaXKey ← ReferenceString.entry srs.hPositiveAlpha 1
  let alphaKey ← ReferenceString.entry srs.hPositiveAlpha 0
  let h ← ReferenceString.entry srs.hNegative 0
  let shifted ← ReferenceString.entry srs.hNegative (srs.degree - gates).toNat
  let g ← ReferenceString.entry srs.gPositive 0
  return {
    g
    alphaXKey
    alphaKey
    fullKey := SourceGroup.neg h
    boundedKey := SourceGroup.neg shifted
    alphaX := []
    alpha := []
    full := []
    bounded := []
    value := 0
    finalized := false }

/-- Appends an entry, whether or not the batch is finalized. -/
def push (b : Batch G₁ G₂) : Entry G₁ → Batch G₁ G₂
  | .opening evidence r z =>
    { b with alphaX := b.alphaX ++ [(evidence, r)], alpha := b.alpha ++ [(evidence, -(z * r))] }
  | .value v r => { b with value := b.value + v * r }
  | .commitment c r => { b with full := b.full ++ [(c, r)] }
  | .bounded c r => { b with bounded := b.bounded ++ [(c, r)] }

def add (entry : Entry G₁) : EStateM Fault (Batch G₁ G₂) Unit := do
  if (← get).finalized then throw .batchFinalized
  modify (·.push entry)

/-- The number of openings. -/
def size (b : Batch G₁ G₂) : Nat := b.alphaX.length

/-- Ends the batch; the sum of the values joins as a multiple of `g`. -/
def finalize : EStateM Fault (Batch G₁ G₂) Unit := do
  if (← get).finalized then throw .batchFinalized
  modify fun b => { b with finalized := true, alpha := b.alpha ++ [(b.g, b.value)] }

/-- The four pairs of a finalized batch. -/
def pairs [SourceGroup G₁ F₁] (b : Batch G₁ G₂) : List (G₁ × G₂) :=
  [(weightedSum b.alphaX, b.alphaXKey),
   (weightedSum b.alpha, b.alphaKey),
   (weightedSum b.full, b.fullKey),
   (weightedSum b.bounded, b.boundedKey)]

section

variable {T : Type} [SourceGroup G₁ F₁] [SourceGroup G₂ F₂] [Pairing G₁ G₂ T]

/-- The verdict of a finalized batch. -/
def verdict (b : Batch G₁ G₂) : Except Fault Bool := Pairing.productIsOne b.pairs

/-- Finalizes the batch, then gives its verdict. -/
def check : EStateM Fault (Batch G₁ G₂) Bool := do
  finalize
  match (← get).verdict with
  | .ok answer => return answer
  | .error e => throw e

end

end Batch

end SnarkBatch
