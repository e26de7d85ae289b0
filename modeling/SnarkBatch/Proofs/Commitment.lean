import SnarkBatch.Commitment
import SnarkBatch.Proofs.Laurent.Division
import SnarkBatch.Proofs.ReferenceString
import SnarkBatch.Proofs.Result

/-!
# Commitments and openings in scalars

Over the tables of a reference string with the secrets `x` and `α`, a commitment to `f` is the
generator times `α · x^(d - m) · f(x)` (`commitment_gives`), and an opening of `f` at `z` for `v` is
the generator times the quotient at `x` (`opening_gives`), which is `(f(x) - v) / (x - z)` up to the
error of the value `v` (`Laurent.eval_quotient`). Neither fails while the exponents stay within the
tables (`exists_commitment`, `exists_opening`).
-/

namespace SnarkBatch

open SourceGroup

/-! ## Monomials -/

namespace Laurent

theorem monomials_cons (c : Fr) (cs : List Fr) (e : Int) :
    monomials ⟨c :: cs, e⟩ = (e, c) :: monomials ⟨cs, e + 1⟩ := by
  simp only [monomials, List.mapIdx_cons, Nat.cast_zero, add_zero, Nat.cast_succ, ← add_assoc,
    add_right_comm e _ 1]

theorem sum_monomials (f : Laurent) {x : Fr} (hx : x ≠ 0) :
    (f.monomials.map fun m => m.2 * x ^ m.1).sum = f.eval x := by
  obtain ⟨cs, e⟩ := f
  rw [eval, power_eq_zpow]
  induction cs generalizing e with
  | nil => rfl
  | cons c cs ih =>
    rw [monomials_cons, List.map_cons, List.sum_cons, ih, evalPowers, zpow_add_one₀ hx]

theorem mem_monomials {f : Laurent} {m : Int × Fr} (hm : m ∈ f.monomials) :
    f.lowest ≤ m.1 ∧ m.1 < f.lowest + f.coeffs.length := by
  obtain ⟨i, hi, rfl⟩ := List.mem_mapIdx.1 hm
  dsimp only
  omega

end Laurent

section

variable {G F : Type} [SourceGroup G F] {table : Int → Except Fault G} {terms : List (Int × Fr)}

theorem mapM_scaled {scalar : Int → Fr} (h : ∀ e, Gives (IsMultiple · (scalar e)) (table e)) :
    Gives (fun found => List.Forall₂ IsScaled found (terms.map fun m => (scalar m.1, m.2)))
      (terms.mapM fun m => do return (← table m.1, m.2)) := by
  intro found hfound
  have hscaled : List.Forall₂ (fun m term => IsScaled term (scalar m.1, m.2)) terms found :=
    Gives.mapM (fun m _ => .bind (h m.1) fun P hP => .pure ⟨hP, rfl⟩) found hfound
  exact List.forall₂_map_right_iff.2 hscaled.flip

variable (table) in
theorem exists_mapM_found (h : ∀ m ∈ terms, ∃ P, table m.1 = .ok P) :
    ∃ found : List (G × Fr),
      (terms.mapM fun m => do return (← table m.1, m.2)) = (.ok found : Except Fault _) := by
  have hfound : List.Forall₂ (fun m _ => ∃ found,
      (do return (← table m.1, m.2)) = (.ok found : Except Fault (G × Fr)) ∧ True) terms terms := by
    refine List.forall₂_same.2 fun m hm => ?_
    obtain ⟨P, hP⟩ := h m hm
    refine ⟨(P, m.2), ?_, trivial⟩
    rw [hP]
    rfl
  obtain ⟨found, hmapM, -⟩ := exists_mapM (R := fun _ _ => True) hfound
  exact ⟨found, hmapM⟩

end

variable {G₁ G₂ F₁ F₂ : Type} [SourceGroup G₁ F₁] [SourceGroup G₂ F₂] [LawfulGroup G₁]
  {d : Int} {x alpha : Fr} {srs : ReferenceString G₁ G₂}

/-- A commitment that is made is one to the polynomial, shifted by the bound. -/
theorem commitment_gives (hsrs : srs.Tables d x alpha) (bound : Int) (f : Laurent) :
    Gives (IsMultiple · (alpha * x ^ (d - bound) * f.eval x)) (commitment srs bound f) := by
  refine .bind (mapM_scaled (fun e => hsrs.gAlphaAt_gives (e + (srs.degree - bound))))
    fun found hscaled => .pure ?_
  have hsum := isMultiple_weightedSum hscaled
  -- Terms with the coefficient 0 are left out and would add nothing.
  have hfilter : ∀ terms : List (Int × Fr),
      ((terms.filter fun m => m.2 ≠ 0).map fun m => m.2 * x ^ m.1).sum =
        (terms.map fun m => m.2 * x ^ m.1).sum := by
    intro terms
    induction terms with
    | nil => rfl
    | cons m terms ih =>
      by_cases hm : m.2 = 0
      · rw [List.filter_cons_of_neg (by simpa using hm), ih, List.map_cons, List.sum_cons, hm,
          zero_mul, zero_add]
      · rw [List.filter_cons_of_pos (by simpa using hm), List.map_cons, List.sum_cons, ih,
          List.map_cons, List.sum_cons]
  have hscalar : (List.map (fun s : Fr × Fr => s.2 * s.1)
      ((f.monomials.filter fun m => m.2 ≠ 0).map fun m =>
        (alpha * x ^ (m.1 + (srs.degree - bound)), m.2))).sum =
      alpha * x ^ (d - bound) * f.eval x := by
    rw [← f.sum_monomials hsrs.secret_ne_zero, ← hfilter, ← List.sum_map_mul_left, List.map_map,
      hsrs.degree_eq]
    refine congrArg List.sum (List.map_congr_left fun m _ => ?_)
    show m.2 * (alpha * x ^ (m.1 + (d - bound))) = _
    rw [zpow_add₀ hsrs.secret_ne_zero]
    ring
  rwa [hscalar] at hsum

/-- The exponents of all nonzero coefficients, shifted by the bound, have to be in the tables. -/
theorem exists_commitment (hsrs : srs.Tables d x alpha) (bound : Int) {f : Laurent}
    (hrange : ∀ m ∈ f.monomials, m.2 ≠ 0 →
      m.1 + (d - bound) ≠ 0 ∧ -d ≤ m.1 + (d - bound) ∧ m.1 + (d - bound) ≤ d) :
    ∃ P, commitment srs bound f = .ok P ∧ IsMultiple P (alpha * x ^ (d - bound) * f.eval x) := by
  have htable : ∀ m ∈ f.monomials.filter (fun m => m.2 ≠ 0),
      ∃ P, srs.gAlphaAt (m.1 + (srs.degree - bound)) = .ok P := by
    intro m hm
    obtain ⟨hmem, hne⟩ := List.mem_filter.1 hm
    obtain ⟨hconstant, hlow, hhigh⟩ := hrange m hmem (of_decide_eq_true hne)
    rw [hsrs.degree_eq]
    exact ⟨_, hsrs.gAlphaAt_eq hlow hhigh hconstant⟩
  obtain ⟨found, hfound⟩ :=
    exists_mapM_found (fun e => srs.gAlphaAt (e + (srs.degree - bound))) htable
  have hcommit : commitment srs bound f = .ok (weightedSum found) :=
    congrArg (fun found : Except Fault (List (G₁ × Fr)) => do
      return weightedSum (← found)) hfound
  exact ⟨_, hcommit, commitment_gives hsrs bound f _ hcommit⟩

/-! ## Openings -/

namespace Laurent

theorem series_widened (f : Laurent) : f.widened.series = f.series := by
  unfold series widened
  dsimp only
  rw [series_append, series_append, series_replicate_zero, series_replicate_zero, zero_add, add_zero,
    List.length_replicate, show min f.lowest 0 + ((f.lowest - min f.lowest 0).toNat : Int) = f.lowest
      by omega]

theorem widened_range (f : Laurent) :
    f.widened.lowest = min f.lowest 0 ∧
      f.widened.lowest + f.widened.coeffs.length =
        max (f.lowest + f.coeffs.length) 1 := by
  refine ⟨rfl, ?_⟩
  unfold widened
  simp only [List.length_append, List.length_replicate]
  omega

theorem series_subConst (f : Laurent) (value : Fr) :
    (f.subConst value).series = f.series - LaurentPolynomial.C value := by
  obtain ⟨hlowest, hlength⟩ := f.widened_range
  have hindex : (-f.widened.lowest).toNat < f.widened.coeffs.length := by omega
  have hmodify := series_modify_add f.widened.lowest f.widened.coeffs hindex (-value)
  simp only [← sub_eq_add_neg] at hmodify
  rw [show f.widened.lowest + ((-f.widened.lowest).toNat : Int) = 0 by omega,
    LaurentPolynomial.T_zero, mul_one] at hmodify
  rw [← f.series_widened, sub_eq_add_neg, ← map_neg]
  exact hmodify

theorem eval_subConst (f : Laurent) (value : Fr) (x : Frˣ) :
    (f.subConst value).eval x = f.eval x - value := by
  rw [eval_eq, series_subConst, map_sub, evalAt_C, ← eval_eq]

theorem coeffs_subConst_ne_nil (f : Laurent) (value : Fr) : (f.subConst value).coeffs ≠ [] := by
  obtain ⟨hlowest, hlength⟩ := f.widened_range
  rw [← List.length_pos_iff]
  show 0 < (f.widened.coeffs.modify _ _).length
  rw [List.length_modify]
  omega

/-- The polynomial that is divided is the one to be opened, moved up to start at the exponent 0. -/
theorem toLaurent_subConst (f : Laurent) (value : Fr) :
    (toPolynomial (f.subConst value).coeffs).toLaurent =
      LaurentPolynomial.T (-min f.lowest 0) * (f.series - LaurentPolynomial.C value) := by
  have hseries := series_eq_T_mul (f.subConst value).lowest (f.subConst value).coeffs
  rw [← f.series_subConst, series, hseries, ← mul_assoc, ← LaurentPolynomial.T_add,
    show -min f.lowest 0 + (f.subConst value).lowest = 0 from neg_add_cancel _,
    LaurentPolynomial.T_zero, one_mul]

theorem toPolynomial_subConst (f : Laurent) (value z : Fr) :
    toPolynomial (f.subConst value).coeffs =
      (Polynomial.X - Polynomial.C z) * toPolynomial (f.quotient value z).coeffs +
        Polynomial.C ((toPolynomial (f.subConst value).coeffs).eval z) :=
  toPolynomial_divideByRoot (f.coeffs_subConst_ne_nil value) z

theorem eval_subConst_eq (f : Laurent) (value x : Fr) : (f.subConst value).eval x =
    x ^ min f.lowest 0 * (toPolynomial (f.subConst value).coeffs).eval x := by
  rw [eval, evalPowers_eq, power_eq_zpow]
  rfl

theorem eval_quotient_eq (f : Laurent) (value z x : Fr) : (f.quotient value z).eval x =
    x ^ min f.lowest 0 * (toPolynomial (f.quotient value z).coeffs).eval x := by
  rw [eval, evalPowers_eq, power_eq_zpow]
  rfl

/-- The quotient times `X - z` is the polynomial less the value that was to be its own at `z`, up to
the error of that value. -/
theorem eval_quotient (f : Laurent) (value : Fr) {z : Fr} (hz : z ≠ 0) {x : Fr} (hx : x ≠ 0) :
    (x - z) * (f.quotient value z).eval x =
      f.eval x - value - (x / z) ^ min f.lowest 0 * (f.eval z - value) := by
  have heval : ∀ {y : Fr}, y ≠ 0 → f.eval y - value =
      y ^ min f.lowest 0 * (toPolynomial (f.subConst value).coeffs).eval y := fun {y} hy =>
    (f.eval_subConst value (.mk0 y hy)).symm.trans (f.eval_subConst_eq value y)
  have hdivide := congrArg (Polynomial.eval x) (f.toPolynomial_subConst value z)
  rw [Polynomial.eval_add, Polynomial.eval_mul, Polynomial.eval_sub, Polynomial.eval_X,
    Polynomial.eval_C, Polynomial.eval_C] at hdivide
  have hcancel : (x / z) ^ min f.lowest 0 * z ^ min f.lowest 0 = x ^ min f.lowest 0 := by
    rw [← mul_zpow, div_mul_cancel₀ x hz]
  rw [eval_quotient_eq, heval hx, heval hz, hdivide, ← mul_assoc ((x / z) ^ _), hcancel]
  ring

theorem quotient_range (f : Laurent) (value z : Fr) :
    (f.quotient value z).lowest = min f.lowest 0 ∧
      (f.quotient value z).lowest + (f.quotient value z).coeffs.length =
        max (f.lowest + f.coeffs.length) 1 - 1 := by
  obtain ⟨hlowest, hlength⟩ := f.widened_range
  refine ⟨rfl, ?_⟩
  show f.widened.lowest + ((divideByRoot (f.widened.coeffs.modify _ _) z).length : Int) = _
  rw [length_divideByRoot, List.length_modify]
  omega

end Laurent

/-- An opening that is made is the quotient at the secret. -/
theorem opening_gives (hsrs : srs.Tables d x alpha) (f : Laurent) (value z : Fr) :
    Gives (IsMultiple · ((f.quotient value z).eval x)) (opening srs f value z) := by
  refine .bind (mapM_scaled hsrs.gAt_gives) fun found hscaled => .pure ?_
  have hsum := isMultiple_weightedSum hscaled
  rw [List.map_map] at hsum
  rw [← Laurent.sum_monomials _ hsrs.secret_ne_zero]
  exact hsum

omit [LawfulGroup G₁] in
/-- A polynomial within the tables can be opened at every point, for any value. The quotient ends
one exponent earlier than the polynomial, so that this may be one too long. -/
theorem exists_opening_for (hsrs : srs.Tables d x alpha) {f : Laurent} (hlow : -d ≤ f.lowest)
    (hhigh : f.lowest + f.coeffs.length ≤ d + 2) (value z : Fr) :
    ∃ P, opening srs f value z = .ok P := by
  have hd := hsrs.one_le
  have htable : ∀ m ∈ (f.quotient value z).monomials, ∃ P, srs.gAt m.1 = .ok P := by
    intro m hm
    obtain ⟨hfirst, hlast⟩ := Laurent.mem_monomials hm
    obtain ⟨hlowest, hlength⟩ := f.quotient_range value z
    exact ⟨_, hsrs.gAt_eq (by omega) (by omega)⟩
  obtain ⟨found, hfound⟩ := exists_mapM_found srs.gAt htable
  exact ⟨weightedSum found, congrArg (fun found : Except Fault (List (G₁ × Fr)) => do
    return weightedSum (← found)) hfound⟩

theorem exists_opening (hsrs : srs.Tables d x alpha) {f : Laurent} (hlow : -d ≤ f.lowest)
    (hhigh : f.lowest + f.coeffs.length ≤ d + 1) {z : Fr} (hz : z ≠ 0) :
    ∃ P w, opening srs f (f.eval z) z = .ok P ∧ IsMultiple P w ∧
      (x - z) * w = f.eval x - f.eval z := by
  obtain ⟨P, hopen⟩ := exists_opening_for hsrs hlow (by omega) (f.eval z) z
  refine ⟨P, _, hopen, opening_gives hsrs f (f.eval z) z P hopen, ?_⟩
  rw [f.eval_quotient (f.eval z) hz hsrs.secret_ne_zero, sub_self, mul_zero, sub_zero]

end SnarkBatch
