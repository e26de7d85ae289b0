import SnarkBatch.Field.Residue

/-!
# Scalars

The scalar field: residues modulo the prime order of the pairing groups. Challenges, evaluations
and the coefficients of linear combinations are scalars.
-/

namespace SnarkBatch

def scalarOrder : Nat :=
  21888242871839275222246405745257275088548364400416034343698204186575808495617

instance : Modulus scalarOrder := ⟨by decide⟩

abbrev Fr := Residue scalarOrder

end SnarkBatch
