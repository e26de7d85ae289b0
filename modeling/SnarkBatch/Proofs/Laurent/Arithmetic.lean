import SnarkBatch.Proofs.Laurent.Series
import SnarkBatch.Proofs.Result

/-!
# Sums and products of coefficient lists

The value of a `Laurent` is the sum of its coefficients times the powers of the point, the list that
`convolve` builds row by row is the convolution, and `Operands.mulAdd` changes its target in place
to what `addScaled` gives (`Operands.mulAdd_eq`), or refuses it as it was.
-/

namespace SnarkBatch

/-! ## Values -/

theorem evalPowers_eq_sum (cs : List Fr) (e : Int) {x : Fr} (hx : x ≠ 0) :
    evalPowers cs (x ^ e) x = ∑ i : Fin cs.length, cs[i] * x ^ (e + i) := by
  induction cs generalizing e with
  | nil => rfl
  | cons c cs ih =>
    rw [evalPowers, ← zpow_add_one₀ hx, ih]
    show _ = ∑ i : Fin (cs.length + 1), (c :: cs)[i] * x ^ (e + i)
    rw [Fin.sum_univ_succ]
    congr 1
    · simp
    · refine Finset.sum_congr rfl fun i _ => ?_
      rw [Fin.val_succ, Nat.cast_succ, add_assoc, add_comm (1 : Int)]
      rfl

theorem evalPowers_addScaled {as bs : List Fr} (h : bs.length ≤ as.length) (c first base : Fr) :
    evalPowers (addScaled as bs c) first base =
      evalPowers as first base + c * evalPowers bs first base := by
  simp only [evalPowers_eq, toPolynomial_addScaled h, Polynomial.eval_add, Polynomial.eval_mul,
    Polynomial.eval_C]
  ring

/-! ## Products -/

theorem getD_convolve (as bs : List Fr) (k : Nat) :
    (convolve as bs).getD k 0 =
      ∑ ij ∈ Finset.HasAntidiagonal.antidiagonal k, as.getD ij.1 0 * bs.getD ij.2 0 := by
  rw [← coeff_toPolynomial, toPolynomial_convolve, Polynomial.coeff_mul]
  simp only [coeff_toPolynomial]

/-! ## Changes in place -/

theorem drop_addScaled (as bs : List Fr) (c : Fr) :
    (addScaled as bs c).drop bs.length = as.drop bs.length := by
  induction as generalizing bs with
  | nil => cases bs <;> rfl
  | cons a as ih =>
    cases bs with
    | nil => rfl
    | cons b bs => exact ih bs

theorem addScaledAt_cons (place : Nat) (as : List Fr) (b : Fr) (bs : List Fr) (c : Fr) :
    addScaledAt place as (b :: bs) c =
      addScaledAt (place + 1) (as.modify place (· + b * c)) bs c := by
  induction as generalizing place with
  | nil => simp [addScaledAt, addScaled]
  | cons a as ih =>
    cases place with
    | zero => rfl
    | succ place => exact congrArg (a :: ·) (ih place)

theorem addScaledAt_nil (place : Nat) (as : List Fr) (c : Fr) : addScaledAt place as [] c = as := by
  have hnil : ∀ as : List Fr, addScaled as [] c = as := by
    intro as
    cases as <;> rfl
  rw [addScaledAt, hnil, List.take_append_drop]

namespace Operands

/-- The loop from the coefficient at `place` on. -/
theorem forM_modify (c : Fr) (bs : List Fr) (place : Nat) (lists : Operands) :
    ((bs.zipIdx place).forM fun (b, i) => (modify fun lists : Operands =>
        { lists with target := lists.target.modify i (· + b * c) } : EStateM Fault Operands Unit))
      lists = .ok () { lists with target := addScaledAt place lists.target bs c } := by
  induction bs generalizing place lists with
  | nil =>
    rw [addScaledAt_nil]
    rfl
  | cons b bs ih =>
    rw [addScaledAt_cons]
    exact ih (place + 1) { lists with target := lists.target.modify place (· + b * c) }

/-- What is left in the two lists is the scaled sum and the addend, or both as they were. -/
theorem mulAdd_eq (c : Fr) (lists : Operands) :
    mulAdd c lists =
      match SnarkBatch.mulAdd lists.target lists.addend c with
      | .ok sum => .ok () { lists with target := sum }
      | .error e => .error e lists := by
  unfold SnarkBatch.mulAdd
  by_cases hlength : lists.target.length < lists.addend.length
  · rw [if_pos hlength, mulAdd, get_bind, if_pos hlength]
    rfl
  · rw [if_neg hlength, mulAdd, get_bind, if_neg hlength]
    exact forM_modify c lists.addend 0 lists

end Operands

/-- The operations on lists of coefficients are those of Laurent polynomials: values are sums over
the coefficients, products are convolutions and are evaluated factor by factor, and `a` is changed
to `a + c · b` in place, unless it is shorter than `b`. -/
theorem laurent_arithmetic (a b : List Fr) (la lb : Int) (c : Fr) {p : Fr} (hp : p ≠ 0) :
    Laurent.eval ⟨a, la⟩ p = ∑ i : Fin a.length, a[i] * p ^ (la + i) ∧
    Laurent.eval ⟨convolve a b, la + lb⟩ p = Laurent.eval ⟨a, la⟩ p * Laurent.eval ⟨b, lb⟩ p ∧
    (convolve a b).length = (if a = [] ∨ b = [] then 0 else a.length + b.length - 1) ∧
    (∀ k, (convolve a b).getD k 0 =
      ∑ ij ∈ Finset.HasAntidiagonal.antidiagonal k, a.getD ij.1 0 * b.getD ij.2 0) ∧
    (b.length ≤ a.length → ∃ a', Operands.mulAdd c ⟨a, b⟩ = .ok () ⟨a', b⟩ ∧
      Laurent.eval ⟨a', la⟩ p = Laurent.eval ⟨a, la⟩ p + c * Laurent.eval ⟨b, la⟩ p ∧
      a'.length = a.length ∧ a'.drop b.length = a.drop b.length) ∧
    (a.length < b.length → Operands.mulAdd c ⟨a, b⟩ = .error .shortTarget ⟨a, b⟩ ∧
      Fault.shortTarget.category = .argument) := by
  refine ⟨?_, ?_, ?_, getD_convolve a b, fun hlength => ?_, fun hlength => ?_⟩
  · rw [Laurent.eval, Laurent.power_eq_zpow, evalPowers_eq_sum a la hp]
  · have hvalue : ∀ (f : Laurent), f.eval p = evalAt (.mk0 p hp) f.series := fun f =>
      f.eval_eq (.mk0 p hp)
    rw [hvalue, hvalue, hvalue, ← map_mul]
    exact congrArg _ (series_convolve la lb a b)
  · split
    · rename_i hempty
      rw [convolve, if_pos hempty, List.length_nil]
    · rename_i hempty
      rw [not_or] at hempty
      exact length_convolve hempty.1 hempty.2
  · refine ⟨addScaled a b c, ?_, evalPowers_addScaled hlength c _ p, length_addScaled a b c,
      drop_addScaled a b c⟩
    rw [Operands.mulAdd_eq, mulAdd, if_neg (not_lt.2 hlength)]
  · rw [Operands.mulAdd_eq, mulAdd, if_pos hlength]
    exact ⟨rfl, rfl⟩

/-- Factors with coefficients 0, a target longer than the addend, and one that is too short. -/
theorem laurent_arithmetic_sparse :
    (2 : Fr) ≠ 0 ∧
    Laurent.eval ⟨[0, 15, 0, 5, 0], -3⟩ 2 =
      Laurent.eval ⟨[0, 3, 0, 1], -2⟩ 2 * Laurent.eval ⟨[5, 0], -1⟩ 2 ∧
    Laurent.eval ⟨[-5, 3, 0, 1], -2⟩ 2 =
      Laurent.eval ⟨[0, 3, 0, 1], -2⟩ 2 + -1 * Laurent.eval ⟨[5, 0], -2⟩ 2 ∧
    Operands.mulAdd (-1) ⟨[5, 0], [0, 3, 0, 1]⟩ = .error .shortTarget ⟨[5, 0], [0, 3, 0, 1]⟩ := by
  have htwo : (2 : Fr) ≠ 0 := by decide +kernel
  obtain ⟨-, hproduct, -, -, hsum, -⟩ :=
    laurent_arithmetic [0, 3, 0, 1] [5, 0] (-2) (-1) (-1) htwo
  obtain ⟨-, -, -, -, -, hshort⟩ := laurent_arithmetic [5, 0] [0, 3, 0, 1] (-1) (-2) (-1) htwo
  have hconvolve : convolve [0, 3, 0, 1] [5, 0] = [0, 15, 0, 5, 0] := by decide +kernel
  obtain ⟨a', hchanged, heval, -⟩ := hsum (by decide)
  have hscaled : addScaled [0, 3, 0, 1] [5, 0] (-1) = [-5, 3, 0, 1] := by decide +kernel
  rw [Operands.mulAdd_eq, mulAdd, if_neg (by decide), hscaled] at hchanged
  cases hchanged
  rw [hconvolve] at hproduct
  exact ⟨htwo, hproduct, heval, (hshort (by decide)).1⟩

end SnarkBatch
