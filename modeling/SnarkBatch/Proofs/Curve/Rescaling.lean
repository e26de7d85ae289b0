import SnarkBatch.Proofs.Curve.Groups

/-!
# Representatives of a point

Multiplying the coordinates of a triple by a factor other than 0 gives another triple for the same
point. The formulas are homogeneous: on rescaled triples they take the same branches and give
rescaled triples. No group law is used, so this holds for triples that are on no curve as well.
-/

namespace SnarkBatch.Point

section

variable {F : Type} [Field F]

def scale (l : F) (P : Point F) : Point F := ⟨l * P.x, l * P.y, l * P.z⟩

/-- `Q` is another triple for the point of `P`. -/
def Rescaled (P Q : Point F) : Prop := ∃ l : F, l ≠ 0 ∧ Q = P.scale l

theorem Rescaled.refl (P : Point F) : P.Rescaled P := by
  refine ⟨1, one_ne_zero, ?_⟩
  simp [scale]

variable {l : F} (hl : l ≠ 0)
include hl

theorem isInfinity_scale (P : Point F) : (P.scale l).IsInfinity ↔ P.IsInfinity := by
  simp [IsInfinity, scale, hl]

/-- The equation of a curve is homogeneous of degree 3. -/
theorem onCurve_scale (P : Point F) (b : F) : (P.scale l).OnCurve b ↔ P.OnCurve b := by
  have hequation : (P.scale l).y * (P.scale l).y * (P.scale l).z =
      (P.scale l).x * (P.scale l).x * (P.scale l).x +
        b * ((P.scale l).z * (P.scale l).z * (P.scale l).z) ↔
      P.y * P.y * P.z = P.x * P.x * P.x + b * (P.z * P.z * P.z) := by
    simp only [scale]
    constructor
    · intro h
      exact mul_left_cancel₀ (pow_ne_zero 3 hl) (by linear_combination h)
    · intro h
      linear_combination l ^ 3 * h
  unfold OnCurve
  rw [isInfinity_scale hl, hequation]

theorem affine_scale [DecidableEq F] (P : Point F) : (P.scale l).affine = P.affine := by
  unfold affine
  simp only [isInfinity_scale hl]
  simp only [scale, mul_div_mul_left _ _ hl]

omit hl in
theorem double_scale (l : F) (P : Point F) : (P.scale l).double = P.double.scale (l ^ 6) := by
  ext <;> simp only [double, scale] <;> ring

end

variable {F : Type} [Field F] {P P' Q Q' : Point F}

theorem Rescaled.double (h : P.Rescaled P') : P.double.Rescaled P'.double := by
  obtain ⟨l, hl, rfl⟩ := h
  exact ⟨l ^ 6, pow_ne_zero 6 hl, double_scale l P⟩

variable [DecidableEq F]

theorem Rescaled.affine_eq (h : P.Rescaled Q) : P.affine = Q.affine := by
  obtain ⟨l, hl, rfl⟩ := h
  exact (affine_scale hl P).symm

/-- Away from infinity there are no other triples for the point. -/
theorem rescaled_of_affine_eq (hP : P.z ≠ 0) (h : P.affine = Q.affine) : P.Rescaled Q := by
  have hQ : Q.z ≠ 0 := by
    rw [affine_of_ne hP] at h
    exact fun hQ => Option.some_ne_none _ (h.trans (affine_eq_none_iff.2 hQ))
  rw [affine_of_ne hP, affine_of_ne hQ, Option.some_inj, Prod.mk_inj, div_eq_div_iff hP hQ,
    div_eq_div_iff hP hQ] at h
  obtain ⟨hx, hy⟩ := h
  refine ⟨Q.z / P.z, div_ne_zero hQ hP, ?_⟩
  ext <;> simp only [scale] <;> field_simp
  · linear_combination -hx
  · linear_combination -hy

theorem onCurve_congr (h : P.affine = Q.affine) (b : F) : P.OnCurve b ↔ Q.OnCurve b := by
  by_cases hP : P.z = 0
  · have hQ : Q.z = 0 := affine_eq_none_iff.1 (h.symm.trans (affine_eq_none_iff.2 hP))
    exact iff_of_true (.inl hP) (.inl hQ)
  · obtain ⟨l, hl, rfl⟩ := rescaled_of_affine_eq hP h
    exact (onCurve_scale hl P b).symm

theorem Rescaled.add (hP : P.Rescaled P') (hQ : Q.Rescaled Q') : (P.add Q).Rescaled (P'.add Q') := by
  have hdouble := hP.double
  obtain ⟨l, hl, rfl⟩ := id hP
  obtain ⟨m, hm, rfl⟩ := id hQ
  have hcross : ∀ s t : F, m * s * (l * P.z) = l * t * (m * Q.z) ↔ s * P.z = t * Q.z := by
    intro s t
    constructor
    · intro h
      exact mul_left_cancel₀ (mul_ne_zero hl hm) (by linear_combination h)
    · intro h
      linear_combination l * m * h
  unfold Point.add
  simp only [isInfinity_scale hl, isInfinity_scale hm]
  by_cases hQ₀ : Q.IsInfinity
  · simpa only [if_pos hQ₀] using hP
  by_cases hP₀ : P.IsInfinity
  · simpa only [if_neg hQ₀, if_pos hP₀] using hQ
  simp only [if_neg hQ₀, if_neg hP₀]
  -- The branches compare the coordinates crosswise, where each side has the factor `l * m`.
  have hx : (Q.scale m).x * (P.scale l).z = (P.scale l).x * (Q.scale m).z ↔ Q.x * P.z = P.x * Q.z :=
    hcross Q.x P.x
  have hy : (Q.scale m).y * (P.scale l).z = (P.scale l).y * (Q.scale m).z ↔ Q.y * P.z = P.y * Q.z :=
    hcross Q.y P.y
  simp only [hx, hy]
  split
  · split
    · exact hdouble
    · exact .refl _
  · refine ⟨(l * m) ^ 4, pow_ne_zero 4 (mul_ne_zero hl hm), ?_⟩
    ext <;> simp only [scale] <;> ring

theorem Rescaled.nsmul (h : P.Rescaled P') (n : Nat) : (P.nsmul n).Rescaled (P'.nsmul n) := by
  induction P, n using Point.nsmul.induct generalizing P' with
  | case1 P =>
    simp only [Point.nsmul, ↓reduceIte]
    exact .refl _
  | case2 P =>
    simp only [Point.nsmul, one_ne_zero, ↓reduceIte]
    exact h
  | case3 P n h0 h1 hpar ih =>
    unfold Point.nsmul
    simp only [h0, h1, hpar, ↓reduceIte]
    exact ih h.double
  | case4 P n h0 h1 hpar ih =>
    unfold Point.nsmul
    simp only [h0, h1, hpar, ↓reduceIte]
    exact (ih h.double).add h

end SnarkBatch.Point
