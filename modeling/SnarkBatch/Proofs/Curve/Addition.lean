import Mathlib.AlgebraicGeometry.EllipticCurve.Affine.Point
import SnarkBatch.Curve.Point

/-!
# Projective points and the group law

A triple represents a point of the curve `y² = x³ + b` if its affine coordinates are those of the
point. Doubling, adding, negating and multiplying triples then represent the same operations of the
curve's group, for any representatives: the formulas need not be compared on triples.
-/

namespace SnarkBatch.Point

open WeierstrassCurve

variable {F : Type} [Field F]

/-- The curve `y² = x³ + b`. -/
def curve (b : F) : Affine F := ⟨0, 0, 0, 0, b⟩

variable {b : F}

/-- The coordinates of a point other than the one at infinity. -/
def coords : (curve b).Point → Option (F × F)
  | .zero => none
  | .some x y _ => some (x, y)

theorem coords_injective : Function.Injective (coords : (curve b).Point → Option (F × F)) := by
  intro A B h
  cases A <;> cases B <;> simp_all [coords]

theorem negY_eq (x y : F) : (curve b).negY x y = -y := by
  simp [curve, Affine.negY]

theorem addX_eq (x₁ x₂ l : F) : (curve b).addX x₁ x₂ l = l ^ 2 - x₁ - x₂ := by
  simp [curve, Affine.addX]

theorem addY_eq (x₁ x₂ y₁ l : F) :
    (curve b).addY x₁ x₂ y₁ l = l * (x₁ - (l ^ 2 - x₁ - x₂)) - y₁ := by
  rw [Affine.addY, negY_eq, Affine.negAddY, addX_eq]
  ring

variable [DecidableEq F]

def Represents (P : Point F) (A : (curve b).Point) : Prop := P.affine = coords A

theorem affine_eq_none_iff {P : Point F} : P.affine = none ↔ P.IsInfinity := by
  unfold affine
  split
  · exact ⟨fun _ => ‹P.IsInfinity›, fun _ => rfl⟩
  · exact ⟨fun h => absurd h (Option.some_ne_none _), fun h => absurd h ‹¬P.IsInfinity›⟩

theorem affine_of_ne {P : Point F} (hz : P.z ≠ 0) : P.affine = some (P.x / P.z, P.y / P.z) :=
  if_neg hz

theorem represents_zero {P : Point F} : P.Represents (0 : (curve b).Point) ↔ P.z = 0 :=
  affine_eq_none_iff

theorem represents_some {P : Point F} {x y : F} {h : (curve b).Nonsingular x y} :
    P.Represents (.some x y h) ↔ P.z ≠ 0 ∧ P.x = x * P.z ∧ P.y = y * P.z := by
  show P.affine = some (x, y) ↔ _
  unfold affine
  split
  · rename_i hz
    exact ⟨fun h => absurd h.symm (Option.some_ne_none _), fun h => absurd hz h.1⟩
  · rename_i hz
    have hz : P.z ≠ 0 := hz
    rw [Option.some_inj, Prod.mk_inj, div_eq_iff hz, div_eq_iff hz]
    exact ⟨fun h => ⟨hz, h⟩, fun h => h.2⟩

/-! ## Sums -/

theorem represents_infinity : (infinity : Point F).Represents (0 : (curve b).Point) :=
  represents_zero.2 rfl

theorem Represents.neg {P : Point F} {A : (curve b).Point} (hP : P.Represents A) :
    P.neg.Represents (-A) := by
  cases A with
  | zero =>
    have hz : P.z = 0 := represents_zero.1 hP
    exact represents_zero.2 hz
  | some x y h =>
    obtain ⟨hz, hx, hy⟩ := represents_some.1 hP
    rw [Affine.Point.neg_some]
    refine represents_some.2 ⟨hz, hx, ?_⟩
    show -P.y = (curve b).negY x y * P.z
    rw [negY_eq, neg_mul, ← hy]

theorem Represents.double (h2 : (2 : F) ≠ 0) {P : Point F} {A : (curve b).Point}
    (hP : P.Represents A) : P.double.Represents (A + A) := by
  cases A with
  | zero =>
    have hz : P.z = 0 := represents_zero.1 hP
    refine represents_zero.2 ?_
    simp [Point.double, hz]
  | some x y h =>
    obtain ⟨X, Y, z⟩ := P
    obtain ⟨hz, hx, hy⟩ := represents_some.1 hP
    dsimp only at hz hx hy
    subst hx hy
    by_cases hy : y = 0
    · rw [Affine.Point.add_self_of_Y_eq (by rw [negY_eq, hy, neg_zero])]
      refine represents_zero.2 ?_
      simp [Point.double, hy]
    · have hne : y ≠ (curve b).negY x y := by
        rw [negY_eq, ne_eq, eq_neg_iff_add_eq_zero, ← two_mul]
        exact mul_ne_zero h2 hy
      have hslope : (curve b).slope x x y y = 3 * x ^ 2 / (2 * y) := by
        rw [Affine.slope_of_Y_ne rfl hne, negY_eq, sub_neg_eq_add, ← two_mul]
        simp [curve]
      rw [Affine.Point.add_self_of_Y_ne hne]
      refine represents_some.2 ⟨?_, ?_, ?_⟩
      · have hs : y * z * z ≠ 0 := mul_ne_zero (mul_ne_zero hy hz) hz
        have h8 : (Point.double ⟨x * z, y * z, z⟩).z = 2 ^ 3 * (y * z * z) ^ 3 := by
          simp only [Point.double]
          ring
        rw [h8]
        exact mul_ne_zero (pow_ne_zero 3 h2) (pow_ne_zero 3 hs)
      · rw [addX_eq, hslope]
        simp only [Point.double]
        field_simp
        ring
      · rw [addY_eq, hslope]
        simp only [Point.double]
        field_simp
        ring

/-- The chord, the tangent, or neither where the points are opposite or at infinity. -/
theorem Represents.add (h2 : (2 : F) ≠ 0) {P Q : Point F} {A B : (curve b).Point}
    (hP : P.Represents A) (hQ : Q.Represents B) : (P.add Q).Represents (A + B) := by
  cases B with
  | zero =>
    have hz : Q.IsInfinity := represents_zero.1 hQ
    rw [Point.add, if_pos hz]
    exact (add_zero A).symm ▸ hP
  | some x₂ y₂ h₂ =>
  cases A with
  | zero =>
    have hz : P.IsInfinity := represents_zero.1 hP
    have hz₂ : ¬Q.IsInfinity := (represents_some.1 hQ).1
    rw [Point.add, if_neg hz₂, if_pos hz]
    exact (zero_add (Affine.Point.some x₂ y₂ h₂)).symm ▸ hQ
  | some x₁ y₁ h₁ =>
    have hdouble := hP.double h2
    obtain ⟨X₁, Y₁, z₁⟩ := P
    obtain ⟨X₂, Y₂, z₂⟩ := Q
    obtain ⟨hz₁, hx₁, hy₁⟩ := represents_some.1 hP
    obtain ⟨hz₂, hx₂, hy₂⟩ := represents_some.1 hQ
    dsimp only at hz₁ hx₁ hy₁ hz₂ hx₂ hy₂
    subst hx₁ hy₁ hx₂ hy₂
    have hz : z₁ * z₂ ≠ 0 := mul_ne_zero hz₁ hz₂
    have hcross : ∀ s t : F, s * z₂ * z₁ = t * z₁ * z₂ ↔ s = t := by
      intro s t
      rw [mul_assoc, mul_assoc, mul_comm z₂, mul_left_inj' hz]
    unfold Point.add
    rw [if_neg (show ¬IsInfinity ⟨x₂ * z₂, y₂ * z₂, z₂⟩ from hz₂),
      if_neg (show ¬IsInfinity ⟨x₁ * z₁, y₁ * z₁, z₁⟩ from hz₁)]
    simp only [hcross]
    by_cases hx : x₂ = x₁
    · subst hx
      rw [if_pos rfl]
      by_cases hy : y₂ = y₁
      · subst hy
        rw [if_pos rfl]
        exact hdouble
      · have hopposite : y₁ = (curve b).negY x₂ y₂ :=
          (Affine.Y_eq_of_X_eq h₁.1 h₂.1 rfl).resolve_left (Ne.symm hy)
        rw [if_neg hy, Affine.Point.add_of_Y_eq rfl hopposite]
        exact represents_infinity
    · have hslope : (curve b).slope x₁ x₂ y₁ y₂ = (y₁ - y₂) / (x₁ - x₂) :=
        Affine.slope_of_X_ne (Ne.symm hx)
      have hsub : x₁ - x₂ ≠ 0 := sub_ne_zero.2 (Ne.symm hx)
      rw [if_neg hx, Affine.Point.add_of_X_ne (Ne.symm hx)]
      refine represents_some.2 ⟨?_, ?_, ?_⟩
      · have hv : x₂ * z₂ * z₁ - x₁ * z₁ * z₂ = -(x₁ - x₂) * (z₁ * z₂) := by ring
        dsimp only
        rw [hv]
        have hne := mul_ne_zero (neg_ne_zero.2 hsub) hz
        exact mul_ne_zero (mul_ne_zero hne (mul_ne_zero hne hne)) hz
      · rw [addX_eq, hslope]
        field_simp
        ring
      · rw [addY_eq, hslope]
        field_simp
        ring

/-! ## Multiples -/

/-- Doubling the point and halving the number. -/
theorem Represents.nsmul (h2 : (2 : F) ≠ 0) {P : Point F} {A : (curve b).Point}
    (hP : P.Represents A) (n : Nat) : (P.nsmul n).Represents (n • A) := by
  induction P, n using Point.nsmul.induct generalizing A with
  | case1 P =>
    rw [Point.nsmul, if_pos rfl, zero_nsmul]
    exact represents_infinity
  | case2 P =>
    rw [Point.nsmul, if_neg one_ne_zero, if_pos rfl, one_nsmul]
    exact hP
  | case3 P n h0 h1 hpar ih =>
    have hn : n • A = (n / 2) • (A + A) := by
      rw [← two_nsmul, ← mul_nsmul', Nat.div_mul_cancel (Nat.dvd_of_mod_eq_zero hpar)]
    rw [Point.nsmul, if_neg h0, if_neg h1, if_pos hpar, hn]
    exact ih (hP.double h2)
  | case4 P n h0 h1 hpar ih =>
    have hn : n • A = (n / 2) • (A + A) + A := by
      rw [← two_nsmul, ← mul_nsmul', ← succ_nsmul, show n / 2 * 2 + 1 = n by omega]
    rw [Point.nsmul, if_neg h0, if_neg h1, if_neg hpar, hn]
    exact (ih (hP.double h2)).add h2 hP

end SnarkBatch.Point
