import SnarkBatch.Proofs.ConstraintPolynomial.Reference

/-!
# Assignments

An assignment gives the three wires of each of `n` gates a value. It is the coefficients of the
polynomial

    r(X, Y) = Σ_i a_i · (XY)^i + b_i · (XY)^(-i) + c_i · (XY)^(-n - i),

in which the value of a wire stands at the inverse of the power of `X` that stands for the wire in
the constraint polynomial (`Assignment.coeff_laurent_neg_exponent`).
-/

namespace SnarkBatch

open LaurentPolynomial

/-- The values of the wires of the gates `1, …, n`. -/
structure Assignment (n : Nat) where
  a : Fin n → Fr
  b : Fin n → Fr
  c : Fin n → Fr

/-- The value that belongs to a gate, or 0. -/
def atGate {n : Nat} (f : Fin n → Fr) (i : Int) : Fr :=
  if h : 1 ≤ i ∧ i ≤ n then f ⟨(i - 1).toNat, by omega⟩ else 0

theorem series_ofFn {n : Nat} (e : Int) (f : Fin n → Fr) :
    series e (List.ofFn f) = ∑ i, C (f i) * T (e + i) := by
  induction n generalizing e with
  | zero => rfl
  | succ n ih =>
    rw [List.ofFn_succ, series_cons, ih, Fin.sum_univ_succ]
    simp only [Fin.val_zero, Nat.cast_zero, add_zero, Fin.val_succ, Nat.cast_succ, add_assoc,
      add_comm (1 : Int)]

theorem atGate_succ {n : Nat} (f : Fin n → Fr) (i : Fin n) : atGate f (i + 1) = f i := by
  rw [atGate, dif_pos (by omega)]
  congr
  omega

theorem atGate_eq_zero {n : Nat} (f : Fin n → Fr) {i : Int} (hi : i < 1 ∨ n < i) :
    atGate f i = 0 := by
  rw [atGate, dif_neg (by omega)]

theorem coeff_series_ofFn {n : Nat} (e : Int) (f : Fin n → Fr) (k : Int) :
    (series e (List.ofFn f)).coeff k = atGate f (k - e + 1) := by
  rw [coeff_series]
  by_cases hk : e ≤ k ∧ k - e < n
  · have hlength : (k - e).toNat < (List.ofFn f).length := by rw [List.length_ofFn]; omega
    rw [if_pos hk.1, List.getD_eq_getElem _ _ hlength, List.getElem_ofFn]
    refine (atGate_succ f _).symm.trans (congrArg (atGate f) ?_)
    dsimp only
    omega
  · rw [atGate_eq_zero f (by omega)]
    split
    · exact List.getD_eq_default _ _ (by rw [List.length_ofFn]; omega)
    · rfl

namespace Assignment

variable {n : Nat}

def value (v : Assignment n) (w : Wire) : Fr :=
  match w.kind with
  | .a => atGate v.a w.index
  | .b => atGate v.b w.index
  | .c => atGate v.c w.index
  | .other _ => 0

/-- `r(X, y)`. -/
noncomputable def laurent (v : Assignment n) (y : Fr) : Fr[T;T⁻¹] :=
  ∑ i, (C (v.a i * y ^ (i + 1 : Nat)) * T (i + 1) +
    C (v.b i * y⁻¹ ^ (i + 1 : Nat)) * T (-(i + 1)) +
    C (v.c i * y⁻¹ ^ (n + i + 1 : Nat)) * T (-(n + i + 1)))

/-- `r(X, 1)` in three parts, one for each kind of wire. -/
theorem laurent_one (v : Assignment n) :
    v.laurent 1 = series 1 (List.ofFn v.a) +
      invert (series 1 (List.ofFn v.b)) +
      invert (series (n + 1) (List.ofFn v.c)) := by
  simp only [laurent, series_ofFn, inv_one, one_pow, mul_one, map_sum, map_mul, invert_C, invert_T,
    Finset.sum_add_distrib, add_comm (1 : Int), add_right_comm _ (1 : Int)]

theorem coeff_laurent_one (v : Assignment n) (k : Int) :
    (v.laurent 1).coeff k = atGate v.a k + atGate v.b (-k) + atGate v.c (-k - n) := by
  rw [laurent_one]
  simp only [AddMonoidAlgebra.coeff_add, Finsupp.add_apply, invert_apply, coeff_series_ofFn]
  congr 2
  · congr 1
    omega
  · congr 1
    omega
  · omega

theorem coeff_laurent_one_left (v : Assignment n) (i : Fin n) :
    (v.laurent 1).coeff (i + 1) = v.a i := by
  rw [coeff_laurent_one, atGate_succ, atGate_eq_zero v.b (by omega), atGate_eq_zero v.c (by omega),
    add_zero, add_zero]

theorem coeff_laurent_one_right (v : Assignment n) (i : Fin n) :
    (v.laurent 1).coeff (-(i + 1)) = v.b i := by
  rw [coeff_laurent_one, neg_neg, atGate_succ, atGate_eq_zero v.a (by omega),
    atGate_eq_zero v.c (by omega), zero_add, add_zero]

theorem coeff_laurent_one_output (v : Assignment n) (i : Fin n) :
    (v.laurent 1).coeff (-(n + i + 1)) = v.c i := by
  rw [coeff_laurent_one, neg_neg, atGate_eq_zero v.a (by omega), atGate_eq_zero v.b (by omega),
    show (n : Int) + i + 1 - n = i + 1 by ring, atGate_succ, zero_add, zero_add]

theorem coeff_laurent_one_above (v : Assignment n) (i : Fin n) :
    (v.laurent 1).coeff (n + i + 1) = 0 := by
  rw [coeff_laurent_one, atGate_eq_zero v.a (by omega), atGate_eq_zero v.b (by omega),
    atGate_eq_zero v.c (by omega), add_zero, add_zero]

/-- `r(X, 1)` has the value of each wire at the inverse of the wire's power. -/
theorem coeff_laurent_neg_exponent (v : Assignment n) {w : Wire} (hw : w.InGates n) :
    (v.laurent 1).coeff (-w.exponent n) = v.value w := by
  obtain ⟨kind, index⟩ := w
  obtain ⟨hkind, hone, hle⟩ := hw
  dsimp only at hkind hone hle
  rw [coeff_laurent_one]
  rcases hkind with rfl | rfl | rfl
  all_goals simp only [Wire.exponent, value, neg_neg]
  · rw [atGate_eq_zero v.b (by omega), atGate_eq_zero v.c (by omega), add_zero, add_zero]
  · rw [atGate_eq_zero v.a (by omega), atGate_eq_zero v.c (by omega), zero_add, add_zero]
  · rw [atGate_eq_zero v.a (by omega), atGate_eq_zero v.b (by omega), zero_add, zero_add,
      add_sub_cancel_right]

end Assignment

def LinearCombination.value {n : Nat} (lc : LinearCombination) (v : Assignment n) : Fr :=
  (lc.terms.map fun (w, c) => c.value * v.value w).sum

end SnarkBatch
