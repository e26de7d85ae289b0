import SnarkBatch.Proofs.Curve.Addition
import SnarkBatch.Proofs.Field.Quadratic
import SnarkBatch.Proofs.Group.Multiples

/-!
# The source groups are lawful

Each generator lies on its curve and has the order `scalarOrder`: that multiple of it is the point
at infinity, the order is prime, and the generator is not at infinity. With the group law of the
curves, the multiples of the generators are the groups that `LawfulGroup` asks for.
-/

namespace SnarkBatch

open SourceGroup

/-- A group represented by the elements of a source group, which has an element of order
`scalarOrder`. -/
theorem lawfulGroup_of_represents {G F A : Type} [SourceGroup G F] [AddCommGroup A]
    {coords : A → Option (F × F)} (hinjective : Function.Injective coords) {g : A}
    (horder : addOrderOf g = scalarOrder) (hzero : affine (zero : G) = coords 0)
    (hnone : coords 0 = none) (hgenerator : affine (generator : G) = coords g)
    (hadd : ∀ {P Q : G} {a b : A}, affine P = coords a → affine Q = coords b →
      affine (add P Q) = coords (a + b))
    (hneg : ∀ {P : G} {a : A}, affine P = coords a → affine (neg P) = coords (-a))
    (hsmul : ∀ {P : G} {a : A} (k : Fr), affine P = coords a → affine (smul k P) = coords (k.val • a)) :
    LawfulGroup G := by
  have hmod : ∀ {m n : Nat}, m • g = n • g ↔ m % scalarOrder = n % scalarOrder := by
    intro m n
    rw [nsmul_eq_nsmul_iff_modEq, horder]
    rfl
  have hmultiple : ∀ {P : G} {k : Fr}, IsMultiple P k ↔ affine P = coords (k.val • g) := by
    intro P k
    rw [IsMultiple, hsmul k hgenerator]
  exact {
    affine_zero := hzero.trans hnone
    isMultiple_zero := hmultiple.2 (by
      rw [hzero, Residue.val_zero, zero_nsmul])
    isMultiple_generator := hmultiple.2 (by
      rw [hgenerator, Residue.val_one, Nat.mod_eq_of_lt (by decide), one_nsmul])
    isMultiple_add := fun {P Q k l} hP hQ => hmultiple.2 (by
      rw [hadd (hmultiple.1 hP) (hmultiple.1 hQ), ← add_nsmul, Residue.val_add]
      exact congrArg coords (hmod.2 (Nat.mod_mod _ _).symm))
    isMultiple_neg := fun {P k} hP => hmultiple.2 (by
      rw [hneg (hmultiple.1 hP)]
      refine congrArg coords (neg_eq_of_add_eq_zero_right ?_)
      rw [← add_nsmul, ← zero_nsmul g, hmod, Residue.val_neg, Nat.add_mod_mod,
        Nat.add_sub_cancel' k.val_lt.le, Nat.mod_self]
      rfl)
    isMultiple_smul := fun {P k} l hP => hmultiple.2 (by
      rw [hsmul l (hmultiple.1 hP), ← mul_nsmul', Residue.val_mul]
      refine congrArg coords (hmod.2 ?_)
      rw [Nat.mod_mod])
    isMultiple_unique := fun {P k l} hk hl => by
      have h := hinjective ((hmultiple.1 hk).symm.trans (hmultiple.1 hl))
      rw [hmod, Nat.mod_eq_of_lt k.val_lt, Nat.mod_eq_of_lt l.val_lt] at h
      exact Residue.ext h }

/-- A point of order `scalarOrder` on a curve generates a lawful group of triples. -/
theorem lawfulGroup_of_curve {F : Type} [Field F] [DecidableEq F] [SourceGroup (Point F) F]
    (h2 : (2 : F) ≠ 0) {b x y : F} (hcurve : y ^ 2 = x ^ 3 + b) (hy : y ≠ 0)
    (horder : ((Point.ofAffine x y).nsmul scalarOrder).z = 0)
    (hzero : (zero : Point F) = .infinity) (hgenerator : (generator : Point F) = .ofAffine x y)
    (hadd : ∀ P Q : Point F, add P Q = P.add Q) (hneg : ∀ P : Point F, neg P = P.neg)
    (hsmul : ∀ (k : Fr) (P : Point F), smul k P = P.nsmul k.val)
    (haffine : ∀ P : Point F, affine P = P.affine) : LawfulGroup (Point F) := by
  have hnonsingular : (Point.curve b).Nonsingular x y := by
    rw [WeierstrassCurve.Affine.nonsingular_iff', WeierstrassCurve.Affine.equation_iff]
    simp [Point.curve, hcurve, h2, hy]
  have hrepresents : (Point.ofAffine x y).Represents (.some x y hnonsingular) :=
    Point.represents_some.2 ⟨one_ne_zero, (mul_one x).symm, (mul_one y).symm⟩
  have hmultiple := Point.represents_zero (b := b).2 horder
  have heq := Point.coords_injective ((hrepresents.nsmul h2 scalarOrder).symm.trans hmultiple)
  refine lawfulGroup_of_represents Point.coords_injective
    (addOrderOf_eq_prime heq (WeierstrassCurve.Affine.Point.some_ne_zero hnonsingular)) ?_ rfl ?_
    ?_ ?_ ?_
  · rw [haffine, hzero]
    exact Point.represents_infinity
  · rw [haffine, hgenerator]
    exact hrepresents
  · intro P Q A B hP hQ
    rw [haffine] at hP hQ ⊢
    rw [hadd]
    exact Point.Represents.add h2 hP hQ
  · intro P A hP
    rw [haffine] at hP ⊢
    rw [hneg]
    exact Point.Represents.neg hP
  · intro P A k hP
    rw [haffine] at hP ⊢
    rw [hsmul]
    exact Point.Represents.nsmul h2 hP k.val

theorem generator₁_order : (generator₁.nsmul scalarOrder).z = 0 := by decide +kernel

theorem generator₂_order : (generator₂.nsmul scalarOrder).z = 0 := by decide +kernel

instance : LawfulGroup (Point Fp) :=
  lawfulGroup_of_curve (by decide +kernel) (b := AtePairing.curveConstant) (by decide +kernel)
    (by decide +kernel) generator₁_order rfl rfl (fun _ _ => rfl) (fun _ => rfl) (fun _ _ => rfl)
    fun _ => rfl

instance : LawfulGroup (Point Fp2) :=
  lawfulGroup_of_curve (by decide +kernel) (b := AtePairing.twistConstant) (by decide +kernel)
    (by decide +kernel) generator₂_order rfl rfl (fun _ _ => rfl) (fun _ => rfl) (fun _ _ => rfl)
    fun _ => rfl

end SnarkBatch
