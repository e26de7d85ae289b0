import SnarkBatch.Fault
import SnarkBatch.Field.Base
import SnarkBatch.Field.Scalar
import SnarkBatch.Hash.Sha256

/-!
# Transcripts

A `Transcript` is the record of what both sides of a proof have seen so far, as bytes that only ever
grow. Messages are absorbed under a label and with their length. A challenge hashes the whole record
and appends the digest; a digest that is no scalar is rejected and the record is hashed again, so
that every scalar is equally likely. A copy of a transcript is a fork: it shares the record up to
now and goes its own way.
-/

namespace SnarkBatch

/-- Where challenges come from: a hash function, and how many digests a challenge may reject before
it gives up. -/
structure Oracle where
  hash : List UInt8 → Digest
  draws : Nat

/-- More than four of five digests are rejected, so all draws are with probability below 2⁻⁷⁰⁰⁰⁰. -/
def Oracle.sha256 : Oracle := ⟨SnarkBatch.sha256, 262144⟩

structure Transcript where
  record : List UInt8
  deriving DecidableEq, Repr, Inhabited

namespace Transcript

def personalizationLabel : List UInt8 := "personalization".toUTF8.toList
def pointLabel : List UInt8 := "point".toUTF8.toList
def scalarLabel : List UInt8 := "scalar".toUTF8.toList
def challengeLabel : List UInt8 := "challenge".toUTF8.toList

def absorb (t : Transcript) (label data : List UInt8) : Transcript :=
  ⟨t.record ++ label ++ bigEndian 4 data.length ++ data⟩

/-- A transcript that has absorbed its personalization only. -/
def start (personalization : List UInt8) : Transcript :=
  absorb ⟨[]⟩ personalizationLabel personalization

def pointBytes : Option (Fp × Fp) → List UInt8
  | none => List.replicate 64 0
  | some (x, y) => bigEndian 32 x.val ++ bigEndian 32 y.val

/-- Absorbs a point by its affine coordinates. -/
def absorbPoint (t : Transcript) (point : Option (Fp × Fp)) : Transcript :=
  t.absorb pointLabel (pointBytes point)

def absorbScalar (t : Transcript) (s : Fr) : Transcript :=
  t.absorb scalarLabel (bigEndian 32 s.val)

/-- Hashes the record under the challenge label and appends the digest. -/
def squeeze (hash : List UInt8 → Digest) (t : Transcript) : Digest × Transcript :=
  let asked := t.record ++ challengeLabel
  let digest := hash asked
  (digest, ⟨asked ++ digest.toList⟩)

/-- The first digest that is a scalar, among the next `draws`. -/
def draw (hash : List UInt8 → Digest) : (draws : Nat) → Transcript → Except Fault (Fr × Transcript)
  | 0, _ => .error .noChallenge
  | draws + 1, t =>
    let (digest, next) := t.squeeze hash
    let value := ofBigEndian digest.toList
    if h : value < scalarOrder then .ok (⟨value, h⟩, next) else draw hash draws next

def challenge (oracle : Oracle) (t : Transcript) : Except Fault (Fr × Transcript) :=
  draw oracle.hash oracle.draws t

end Transcript

end SnarkBatch
