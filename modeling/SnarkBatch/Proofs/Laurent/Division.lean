import SnarkBatch.Proofs.Laurent.Series

/-!
# Division by a linear factor

`divideByRoot P z` runs through the coefficients of `P` from the highest down and leaves out the
last value, which is the remainder `P(z)`. So `P` is the quotient times `X - z` plus `P(z)`
(`toPolynomial_divideByRoot`), and no other list of that length is. `recompose` is the way back: it
multiplies by `X - z` and adds a remainder.
-/

namespace SnarkBatch

open Polynomial (X C)

/-! ## The quotient -/

theorem length_upperValues (z : Fr) (cs : List Fr) : (upperValues z cs).length = cs.length := by
  induction cs with
  | nil => rfl
  | cons c cs ih => exact congrArg Nat.succ ih

theorem headD_upperValues (z : Fr) (cs : List Fr) :
    (upperValues z cs).headD 0 = (toPolynomial cs).eval z := by
  induction cs with
  | nil => exact Polynomial.eval_zero.symm
  | cons c cs ih =>
    show c + (upperValues z cs).headD 0 * z = _
    rw [ih, toPolynomial, Polynomial.eval_add, Polynomial.eval_C, Polynomial.eval_mul,
      Polynomial.eval_X, mul_comm]

theorem upperValues_cons (z c : Fr) (cs : List Fr) :
    upperValues z (c :: cs) = (c + (toPolynomial cs).eval z * z) :: upperValues z cs := by
  rw [← headD_upperValues]
  rfl

/-- Each value carried down is that of the coefficients above. -/
theorem toPolynomial_upperValues (z : Fr) (cs : List Fr) :
    (X - C z) * toPolynomial (upperValues z cs) =
      X * toPolynomial cs - C (z * (toPolynomial cs).eval z) := by
  induction cs with
  | nil =>
    show (X - C z) * toPolynomial [] = _
    rw [toPolynomial, Polynomial.eval_zero, mul_zero, mul_zero, mul_zero, map_zero, sub_zero]
  | cons c cs ih =>
    rw [upperValues_cons]
    simp only [toPolynomial, Polynomial.eval_add, Polynomial.eval_mul, Polynomial.eval_C,
      Polynomial.eval_X, map_add, map_mul] at ih ⊢
    linear_combination X * ih

theorem toPolynomial_divideByRoot {cs : List Fr} (hcs : cs ≠ []) (z : Fr) :
    toPolynomial cs =
      (X - C z) * toPolynomial (divideByRoot cs z) + C ((toPolynomial cs).eval z) := by
  cases cs with
  | nil => exact absurd rfl hcs
  | cons c cs =>
    show _ = (X - C z) * toPolynomial (upperValues z cs) + _
    rw [toPolynomial_upperValues]
    simp only [toPolynomial, Polynomial.eval_add, Polynomial.eval_mul, Polynomial.eval_C,
      Polynomial.eval_X, map_add, map_mul]
    ring

theorem length_divideByRoot (cs : List Fr) (z : Fr) :
    (divideByRoot cs z).length = cs.length - 1 := by
  rw [divideByRoot, length_upperValues, List.length_tail]

theorem divideByRoot_set_zero (cs : List Fr) (c z : Fr) :
    divideByRoot (cs.set 0 c) z = divideByRoot cs z := by
  cases cs <;> rfl

/-! ## Uniqueness -/

theorem division_unique {z v v' : Fr} {q q' : Polynomial Fr}
    (h : (X - C z) * q + C v = (X - C z) * q' + C v') : q = q' ∧ v = v' := by
  have hremainder : v = v' := by
    have heval := congrArg (Polynomial.eval z) h
    simpa using heval
  subst hremainder
  exact ⟨mul_left_cancel₀ (Polynomial.X_sub_C_ne_zero z) (add_right_cancel h), rfl⟩

theorem eq_divideByRoot {P Q : List Fr} {z v : Fr} (hP : P ≠ []) (hlength : Q.length = P.length - 1)
    (h : toPolynomial P = (X - C z) * toPolynomial Q + C v) :
    Q = divideByRoot P z ∧ v = (toPolynomial P).eval z := by
  obtain ⟨hquotient, hremainder⟩ := division_unique (h.symm.trans (toPolynomial_divideByRoot hP z))
  exact ⟨eq_of_toPolynomial_eq (hlength.trans (length_divideByRoot P z).symm) hquotient, hremainder⟩

/-! ## The way back -/

/-- The coefficients of `(X - z) · Q + v`. -/
def recompose (z v : Fr) (Q : List Fr) : List Fr := addScaled (v :: Q) Q (-z)

theorem length_recompose (z v : Fr) (Q : List Fr) : (recompose z v Q).length = Q.length + 1 :=
  length_addScaled ..

theorem toPolynomial_recompose (z v : Fr) (Q : List Fr) :
    toPolynomial (recompose z v Q) = (X - C z) * toPolynomial Q + C v := by
  rw [recompose, toPolynomial_addScaled (Nat.le_succ _), toPolynomial, map_neg]
  ring

theorem divideByRoot_recompose (z v : Fr) (Q : List Fr) : divideByRoot (recompose z v Q) z = Q := by
  have hlength := length_recompose z v Q
  have hne : recompose z v Q ≠ [] := by
    rw [← List.length_pos_iff, hlength]
    omega
  exact (eq_divideByRoot hne (by omega) (toPolynomial_recompose z v Q)).1.symm

/-- Division by `X - z` is exact with the remainder `P(z)`: the quotient is the only list of its
length with `P = (X - z) · Q + P(z)`, the constant coefficient of `P` does not reach it, and it is
got back from the product and any remainder. -/
theorem divideByRoot_exact {P : List Fr} (hP : P ≠ []) (z : Fr) :
    (divideByRoot P z).length = P.length - 1 ∧
    toPolynomial P = (X - C z) * toPolynomial (divideByRoot P z) + C (evalPowers P 1 z) ∧
    (∀ (Q : List Fr) (v : Fr), Q.length = P.length - 1 →
      toPolynomial P = (X - C z) * toPolynomial Q + C v →
        Q = divideByRoot P z ∧ v = evalPowers P 1 z) ∧
    (∀ c, divideByRoot (P.set 0 c) z = divideByRoot P z) ∧
    ∀ (Q : List Fr) (v : Fr), (recompose z v Q).length = Q.length + 1 ∧
      toPolynomial (recompose z v Q) = (X - C z) * toPolynomial Q + C v ∧
      divideByRoot (recompose z v Q) z = Q := by
  have hvalue : evalPowers P 1 z = (toPolynomial P).eval z := by rw [evalPowers_eq, one_mul]
  rw [hvalue]
  exact ⟨length_divideByRoot P z, toPolynomial_divideByRoot hP z,
    fun Q v hlength h => eq_divideByRoot hP hlength h, fun c => divideByRoot_set_zero P c z,
    fun Q v => ⟨length_recompose z v Q, toPolynomial_recompose z v Q,
      divideByRoot_recompose z v Q⟩⟩

/-- A leading coefficient 0 stays in the quotient. -/
theorem divideByRoot_exact_leading_zero :
    [(7 : Fr), 0, 3, 0] ≠ [] ∧
    toPolynomial [7, 0, 3, 0] = (X - C 2) * toPolynomial [6, 3, 0] + C 19 ∧
    (∀ (Q : List Fr) (v : Fr), Q.length = 3 →
      toPolynomial [7, 0, 3, 0] = (X - C 2) * toPolynomial Q + C v → Q = [6, 3, 0] ∧ v = 19) ∧
    divideByRoot [-1, 0, 3, 0] 2 = [6, 3, 0] ∧
    divideByRoot (recompose 0 5 [6, 3, 0]) 0 = [6, 3, 0] := by
  have hquotient : divideByRoot [7, 0, 3, 0] 2 = [6, 3, 0] := by decide +kernel
  have hremainder : evalPowers [7, 0, 3, 0] 1 2 = 19 := by decide +kernel
  have hne : [(7 : Fr), 0, 3, 0] ≠ [] := List.cons_ne_nil 7 _
  obtain ⟨-, hexact, hunique, hconstant, -⟩ := divideByRoot_exact hne 2
  obtain ⟨-, -, -, -, hback⟩ := divideByRoot_exact hne 0
  rw [hquotient, hremainder] at hexact hunique
  rw [hquotient] at hconstant
  exact ⟨hne, hexact, hunique, hconstant (-1), (hback [6, 3, 0] 5).2.2⟩

end SnarkBatch
