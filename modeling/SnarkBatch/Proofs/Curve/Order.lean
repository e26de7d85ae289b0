import Mathlib.GroupTheory.Perm.Cycle.Type
import Mathlib.GroupTheory.SpecificGroups.Cyclic.Basic
import SnarkBatch.Proofs.Curve.Groups

/-!
# The points of the curves

A triple is on a curve exactly if it represents a point of it. On the first curve there are no
points but the multiples of the generator (`exists_isMultiple_of_onCurve`): every `x` belongs to two
points at most, so there are fewer than `3 · scalarOrder` of them; their number is a multiple of the
generator's order; and it is odd, because a point of order two would make -3 a cube.
-/

namespace SnarkBatch

open SourceGroup WeierstrassCurve

namespace Point

variable {F : Type} [Field F] [DecidableEq F] {b : F}

theorem Represents.onCurve {P : Point F} {A : (curve b).Point} (hP : P.Represents A) :
    P.OnCurve b := by
  cases A with
  | zero => exact .inl (represents_zero.1 hP)
  | some x y h =>
    obtain ⟨-, hx, hy⟩ := represents_some.1 hP
    have hequation := (Affine.equation_iff ..).1 h.1
    simp only [curve, zero_mul, add_zero] at hequation
    refine .inr ?_
    rw [hx, hy]
    linear_combination P.z ^ 3 * hequation

theorem OnCurve.exists_represents (hsmooth : (curve b).Δ ≠ 0) {P : Point F} (hP : P.OnCurve b) :
    ∃ A : (curve b).Point, P.Represents A := by
  by_cases hz : P.z = 0
  · exact ⟨0, represents_zero.2 hz⟩
  · have hcurve := hP.resolve_left hz
    have hequation : (curve b).Equation (P.x / P.z) (P.y / P.z) := by
      rw [Affine.equation_iff]
      simp only [curve, zero_mul, add_zero]
      field_simp
      linear_combination hcurve
    exact ⟨.some _ _ ((Affine.equation_iff_nonsingular_of_Δ_ne_zero hsmooth).1 hequation),
      represents_some.2 ⟨hz, (div_mul_cancel₀ _ hz).symm, (div_mul_cancel₀ _ hz).symm⟩⟩

/-! ## Counting -/

instance [Finite F] : Finite (curve b).Point := Finite.of_injective coords coords_injective

omit [DecidableEq F] in
theorem eq_or_eq_neg {A B : (curve b).Point} (h : (coords A).map (·.1) = (coords B).map (·.1)) :
    B = A ∨ B = -A := by
  cases A with
  | zero =>
    cases B with
    | zero => exact .inl rfl
    | some x y h₂ => cases h
  | some x y h₁ =>
    cases B with
    | zero => cases h
    | some x' y' h₂ =>
      obtain rfl : x = x' := Option.some.inj h
      rw [Affine.Point.neg_some, Affine.Point.some.injEq, Affine.Point.some.injEq]
      exact (Affine.Y_eq_of_X_eq h₂.1 h₁.1 rfl).imp (⟨rfl, ·⟩) (⟨rfl, ·⟩)

theorem card_le [Finite F] : Nat.card (curve b).Point ≤ 2 * (Nat.card F + 1) := by
  classical
  have := Fintype.ofFinite F
  have := Fintype.ofFinite (curve b).Point
  rw [Nat.card_eq_fintype_card, Nat.card_eq_fintype_card, ← Fintype.card_option,
    ← Finset.card_univ]
  have hfibres := Finset.card_le_mul_card_image (s := Finset.univ)
    (f := fun A : (curve b).Point => (coords A).map (·.1)) 2 <| by
      intro x hx
      obtain ⟨A, -, rfl⟩ := Finset.mem_image.1 hx
      refine (Finset.card_le_card fun B hB => ?_).trans (Finset.card_le_two (a := A) (b := -A))
      rw [Finset.mem_insert, Finset.mem_singleton]
      exact eq_or_eq_neg (Finset.mem_filter.1 hB).2.symm
  exact hfibres.trans (Nat.mul_le_mul_left 2 (Finset.card_le_univ _))

/-- The `x` of a point of order two is a cube root of `-b`, because its `y` is 0. -/
theorem exists_cube_of_two_dvd [Finite F] (h2 : (2 : F) ≠ 0) (h : 2 ∣ Nat.card (curve b).Point) :
    ∃ x : F, x ^ 3 = -b := by
  obtain ⟨A, hA⟩ := exists_prime_addOrderOf_dvd_card' 2 h
  have hzero : A + A = 0 := by rw [← two_nsmul, ← hA, addOrderOf_nsmul_eq_zero]
  cases A with
  | zero =>
    rw [show (Affine.Point.zero : (curve b).Point) = 0 from rfl, addOrderOf_zero] at hA
    exact absurd hA (by decide)
  | some x y hnonsingular =>
    by_cases hy : y = (curve b).negY x y
    · rw [negY_eq, eq_neg_iff_add_eq_zero, ← two_mul] at hy
      have hequation := (Affine.equation_iff ..).1 hnonsingular.1
      simp only [curve, zero_mul, add_zero] at hequation
      rw [(mul_eq_zero.1 hy).resolve_left h2] at hequation
      exact ⟨x, by linear_combination -hequation⟩
    · rw [Affine.Point.add_self_of_Y_ne hy] at hzero
      cases hzero

end Point

/-! ## The first curve -/

namespace Residue

variable {m : Nat} [Modulus m]

theorem toZMod_surjective : Function.Surjective (toZMod : Residue m → ZMod m) :=
  fun a => ⟨ofNat a.val, by rw [toZMod_ofNat, ZMod.natCast_val, ZMod.cast_id]⟩

instance : Finite (Residue m) := Finite.of_injective toZMod toZMod_injective

theorem card : Nat.card (Residue m) = m := by
  rw [Nat.card_eq_of_bijective toZMod ⟨toZMod_injective, toZMod_surjective⟩, Nat.card_zmod]

end Residue

theorem cube_ne_neg_curveConstant (x : Fp) : x ^ 3 ≠ -AtePairing.curveConstant := by
  intro hx
  have hzero : x ≠ 0 := by
    rintro rfl
    rw [zero_pow three_ne_zero] at hx
    exact absurd hx (by decide +kernel)
  have hfermat : x ^ (baseOrder - 1) = 1 := by
    apply Residue.toZMod_injective
    rw [Residue.toZMod_pow, Residue.toZMod_one]
    refine ZMod.pow_card_sub_one_eq_one fun h => hzero (Residue.toZMod_injective ?_)
    rw [h, Residue.toZMod_zero]
  have hthird : 3 * ((baseOrder - 1) / 3) = baseOrder - 1 := by decide +kernel
  rw [← hthird, pow_mul, hx] at hfermat
  exact absurd hfermat (by decide +kernel)

theorem curve_smooth : (Point.curve AtePairing.curveConstant).Δ ≠ 0 := by
  simp only [WeierstrassCurve.Δ, WeierstrassCurve.b₂, WeierstrassCurve.b₄, WeierstrassCurve.b₆,
    WeierstrassCurve.b₈, Point.curve]
  decide +kernel

theorem twist_smooth : (Point.curve AtePairing.twistConstant).Δ ≠ 0 := by
  simp only [WeierstrassCurve.Δ, WeierstrassCurve.b₂, WeierstrassCurve.b₄, WeierstrassCurve.b₆,
    WeierstrassCurve.b₈, Point.curve]
  decide +kernel

theorem exists_represents_generator₁ :
    ∃ A : (Point.curve AtePairing.curveConstant).Point,
      generator₁.Represents A ∧ addOrderOf A = scalarOrder := by
  obtain ⟨A, hA⟩ := Point.OnCurve.exists_represents (P := generator₁) curve_smooth (by decide +kernel)
  refine ⟨A, hA, addOrderOf_eq_prime ?_ ?_⟩
  · exact Point.coords_injective ((hA.nsmul (by decide +kernel) scalarOrder).symm.trans
      (Point.represents_zero.2 generator₁_order))
  · rintro rfl
    exact absurd (Point.represents_zero.1 hA) (by decide +kernel)

/-- The generator leaves out no point. -/
theorem card_curve : Nat.card (Point.curve AtePairing.curveConstant).Point = scalarOrder := by
  obtain ⟨A, -, horder⟩ := exists_represents_generator₁
  obtain ⟨m, hm⟩ := horder ▸ addOrderOf_dvd_natCard A
  have hodd : ¬ 2 ∣ Nat.card (Point.curve AtePairing.curveConstant).Point := by
    intro h
    obtain ⟨x, hx⟩ := Point.exists_cube_of_two_dvd (by decide +kernel) h
    exact cube_ne_neg_curveConstant x hx
  have hpos : 0 < Nat.card (Point.curve AtePairing.curveConstant).Point := Nat.card_pos
  have hle := Point.card_le (b := AtePairing.curveConstant)
  rw [Residue.card, hm] at hle
  have hlt : m < 3 := by
    have hbound : 2 * (baseOrder + 1) < scalarOrder * 3 := by decide +kernel
    exact lt_of_mul_lt_mul_left (hle.trans_lt hbound) (Nat.zero_le _)
  interval_cases m
  · omega
  · rw [hm, mul_one]
  · exact absurd (Dvd.intro_left _ hm.symm) hodd

/-- Every triple on the first curve is a multiple of the generator. -/
theorem exists_isMultiple_of_onCurve {P : Point Fp} (hP : P.OnCurve AtePairing.curveConstant) :
    ∃ k, IsMultiple P k := by
  obtain ⟨B, hB⟩ := hP.exists_represents curve_smooth
  obtain ⟨A, hA, horder⟩ := exists_represents_generator₁
  have hne : A ≠ 0 := by
    rintro rfl
    rw [addOrderOf_zero] at horder
    exact absurd horder (by decide)
  obtain ⟨n, hn⟩ : B ∈ AddSubmonoid.multiples A := mem_multiples_of_prime_card card_curve hne
  refine ⟨.ofNat n, ?_⟩
  have hmultiple : Point.coords ((Residue.ofNat n : Fr).val • A) = Point.coords B := by
    rw [← hn, Residue.val_ofNat, ← horder, mod_addOrderOf_nsmul]
  exact (hB.trans hmultiple.symm).trans (hA.nsmul (by decide +kernel) _).symm

theorem onCurve_of_isMultiple {P : Point Fp} {k : Fr} (hP : IsMultiple P k) :
    P.OnCurve AtePairing.curveConstant := by
  obtain ⟨A, hA, -⟩ := exists_represents_generator₁
  exact Point.Represents.onCurve (hP.trans (hA.nsmul (by decide +kernel) _))

theorem onTwist_of_isMultiple {Q : Point Fp2} {k : Fr} (hQ : IsMultiple Q k) :
    Q.OnCurve AtePairing.twistConstant := by
  obtain ⟨A, hA⟩ := Point.OnCurve.exists_represents (P := generator₂) twist_smooth (by decide +kernel)
  exact Point.Represents.onCurve (hQ.trans (hA.nsmul (by decide +kernel) _))

end SnarkBatch
