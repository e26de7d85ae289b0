import Mathlib.NumberTheory.LegendreSymbol.Basic
import SnarkBatch.Proofs.Field.Prime

/-!
# The quadratic extension as a field

`Fp2` is a commutative ring with the operations it has. As -1 is no square in `Fp`, the norm
`re² + im²` of an element other than 0 is not 0, and the conjugate over it is the inverse.
-/

namespace SnarkBatch.Fp2

@[simp] theorem zero_re : (0 : Fp2).re = 0 := rfl
@[simp] theorem zero_im : (0 : Fp2).im = 0 := rfl
@[simp] theorem one_re : (1 : Fp2).re = 1 := rfl
@[simp] theorem one_im : (1 : Fp2).im = 0 := rfl
@[simp] theorem add_re (a b : Fp2) : (a + b).re = a.re + b.re := rfl
@[simp] theorem add_im (a b : Fp2) : (a + b).im = a.im + b.im := rfl
@[simp] theorem sub_re (a b : Fp2) : (a - b).re = a.re - b.re := rfl
@[simp] theorem sub_im (a b : Fp2) : (a - b).im = a.im - b.im := rfl
@[simp] theorem neg_re (a : Fp2) : (-a).re = -a.re := rfl
@[simp] theorem neg_im (a : Fp2) : (-a).im = -a.im := rfl

@[simp] theorem mul_re (a b : Fp2) : (a * b).re = a.re * b.re - a.im * b.im := by
  rw [sub_eq_add_neg, ← neg_mul]
  exact Residue.sumOfProducts_eq _ _ _ _

@[simp] theorem mul_im (a b : Fp2) : (a * b).im = a.re * b.im + a.im * b.re :=
  Residue.sumOfProducts_eq _ _ _ _

instance : CommRing Fp2 where
  add_assoc a b c := by ext : 1 <;> simp [add_assoc]
  zero_add a := by ext : 1 <;> simp
  add_zero a := by ext : 1 <;> simp
  add_comm a b := by ext : 1 <;> simp [add_comm]
  neg_add_cancel a := by ext : 1 <;> simp
  sub_eq_add_neg a b := by ext : 1 <;> simp [sub_eq_add_neg]
  mul_assoc a b c := by ext : 1 <;> simp <;> ring
  mul_comm a b := by ext : 1 <;> simp <;> ring
  one_mul a := by ext : 1 <;> simp
  mul_one a := by ext : 1 <;> simp
  zero_mul a := by ext : 1 <;> simp
  mul_zero a := by ext : 1 <;> simp
  left_distrib a b c := by ext : 1 <;> simp <;> ring
  right_distrib a b c := by ext : 1 <;> simp <;> ring
  nsmul := nsmulRec
  zsmul := zsmulRec

theorem sq_ne_neg_one (a : Fp) : a * a ≠ -1 := by
  intro h
  have hsquare : IsSquare (-1 : ZMod baseOrder) := by
    refine ⟨a.toZMod, ?_⟩
    rw [← Residue.toZMod_mul, h, Residue.toZMod_neg, Residue.toZMod_one]
  exact ZMod.exists_sq_eq_neg_one_iff.1 hsquare (by decide)

theorem norm_ne_zero {a : Fp2} (ha : a ≠ 0) : a.re * a.re + a.im * a.im ≠ 0 := by
  intro h
  by_cases him : a.im = 0
  · rw [him, mul_zero, add_zero, mul_self_eq_zero] at h
    exact ha (ext h him)
  · apply sq_ne_neg_one (a.re / a.im)
    rw [div_mul_div_comm, div_eq_iff (mul_ne_zero him him), neg_one_mul]
    exact eq_neg_of_add_eq_zero_left h

instance : Field Fp2 where
  exists_pair_ne := ⟨0, 1, fun h => zero_ne_one (α := Fp) (congrArg re h)⟩
  div_eq_mul_inv _ _ := rfl
  mul_inv_cancel a ha := by
    have hnorm := mul_inv_cancel₀ (norm_ne_zero ha)
    refine ext ?_ ?_
    · show (a * a⁻¹).re = 1
      rw [mul_re, ← hnorm]
      show a.re * (a.re * _) - a.im * -(a.im * _) = _
      ring
    · show (a * a⁻¹).im = 0
      rw [mul_im]
      show a.re * -(a.im * _) + a.im * (a.re * _) = 0
      ring
  inv_zero := by
    refine ext ?_ ?_
    · exact zero_mul _
    · show -((0 : Fp) * _) = 0
      rw [zero_mul, neg_zero]
  nnqsmul := _
  nnqsmul_def _ _ := rfl
  qsmul := _
  qsmul_def _ _ := rfl

end SnarkBatch.Fp2
