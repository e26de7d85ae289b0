import SnarkBatch.Group
import SnarkBatch.Hash.Sha256

/-!
# Structured reference strings

The public parameters of the commitments: the generators `g` and `h` of the two groups, multiplied
by powers of a secret `x` and by those powers times a second secret `α`. Position `i` of a table
belongs to the exponent `i`, or `-i` in a negative table; the `α` tables of the first group start at
the exponent 1 instead. They have no `α · g`, which is why a commitment cannot have a constant term.

The secrets are given, or derived from a seed; both are for parameters that need not be trusted.
-/

namespace SnarkBatch

structure ReferenceString (G₁ G₂ : Type) where
  degree : Int
  gNegative : List G₁
  gPositive : List G₁
  hNegative : List G₂
  hPositive : List G₂
  gNegativeAlpha : List G₁
  gPositiveAlpha : List G₁
  hNegativeAlpha : List G₂
  hPositiveAlpha : List G₂
  deriving Repr

namespace ReferenceString

variable {G₁ G₂ F₁ F₂ : Type} [SourceGroup G₁ F₁] [SourceGroup G₂ F₂]

/-- `1, x, …, x^degree`. -/
def powers (x : Fr) (degree : Nat) : List Fr := (List.range (degree + 1)).map (x ^ ·)

def multiples {G F : Type} [SourceGroup G F] (scalars : List Fr) : List G :=
  scalars.map fun s => SourceGroup.smul s SourceGroup.generator

def ofSecrets (degree : Int) (x alpha : Fr) : Except Fault (ReferenceString G₁ G₂) :=
  if degree < 1 then .error (.degreeBelowOne degree)
  else if x = 0 then .error .zeroSecret
  else
    let positive := powers x degree.toNat
    let negative := powers x⁻¹ degree.toNat
    .ok {
      degree
      gNegative := multiples negative
      gPositive := multiples positive
      hNegative := multiples negative
      hPositive := multiples positive
      gNegativeAlpha := multiples (negative.tail.map (alpha * ·))
      gPositiveAlpha := multiples (positive.tail.map (alpha * ·))
      hNegativeAlpha := multiples (negative.map (alpha * ·))
      hPositiveAlpha := multiples (positive.map (alpha * ·)) }

/-- The entry of a table, counted from 0. -/
def entry {G : Type} (table : List G) (i : Nat) : Except Fault G :=
  match table[i]? with
  | some element => .ok element
  | none => .error .position

/-- `g` times `x^e`. -/
def gAt (srs : ReferenceString G₁ G₂) (e : Int) : Except Fault G₁ :=
  if e.natAbs > srs.degree then .error (.degreeTooLarge e srs.degree)
  else if 0 ≤ e then entry srs.gPositive e.natAbs
  else entry srs.gNegative e.natAbs

/-- `g` times `α · x^e`, for an exponent other than 0. -/
def gAlphaAt (srs : ReferenceString G₁ G₂) (e : Int) : Except Fault G₁ :=
  if e = 0 then .error .constantTerm
  else if e.natAbs > srs.degree then .error (.degreeTooLarge e srs.degree)
  else if 0 < e then entry srs.gPositiveAlpha (e.natAbs - 1)
  else entry srs.gNegativeAlpha (e.natAbs - 1)

end ReferenceString

/-! ## Seeds -/

inductive Seed
  | number (n : Int)
  | text (s : String)
  | bytes (data : List UInt8)
  | truth (b : Bool)
  | absent
  deriving DecidableEq, Repr

namespace Seed

/-- Text stands for itself, bytes are quoted. -/
def written : Seed → String
  | number n => toString n
  | text s => s
  | bytes data => Quoted.bytes data
  | truth true => "True"
  | truth false => "False"
  | absent => "None"

/-- A scalar other than 0. -/
def secret (hash : List UInt8 → Digest) (seed : Seed) (label : List UInt8) : Fr :=
  let digest := hash (seed.written.toUTF8.toList ++ "/".toUTF8.toList ++ label)
  .ofNat (ofBigEndian digest.toList % (scalarOrder - 1) + 1)

end Seed

namespace ReferenceString

def ofSeed {G₁ G₂ F₁ F₂ : Type} [SourceGroup G₁ F₁] [SourceGroup G₂ F₂]
    (hash : List UInt8 → Digest) (degree : Int) (seed : Seed) :
    Except Fault (ReferenceString G₁ G₂) :=
  ofSecrets degree (seed.secret hash "x".toUTF8.toList) (seed.secret hash "alpha".toUTF8.toList)

end ReferenceString

end SnarkBatch
