import Mathlib.Data.List.Indexes
import SnarkBatch.Proofs.Commitment
import SnarkBatch.Proofs.Curve.Groups

/-!
# What commitments and openings refuse

Over tables of the degree `d`, a commitment with the bound `m` needs `α · x^(e + d - m)` for every
exponent `e` whose coefficient is not 0. It is refused for the first that is not there
(`commitment_error`), and otherwise it is made (`commitment_ok`), so that it can be made for a sum
wherever it can be made for the summands (`commitment_add`). An opening needs all exponents from the
first to the last of its quotient, whatever the coefficients, so that only the ends of the range
decide (`opening_refused`).
-/

namespace SnarkBatch

open SourceGroup

namespace Laurent

/-! ## Terms -/

theorem mem_monomials_iff {f : Laurent} {m : Int × Fr} :
    m ∈ f.monomials ↔ ∃ i : Nat, f.coeffs[i]? = some m.2 ∧ m.1 = f.lowest + i := by
  rw [monomials, List.mem_mapIdx]
  constructor
  · rintro ⟨i, hi, rfl⟩
    exact ⟨i, List.getElem?_eq_getElem hi, rfl⟩
  · rintro ⟨i, hi, hexponent⟩
    obtain ⟨hlt, hvalue⟩ := List.getElem?_eq_some_iff.1 hi
    exact ⟨i, hlt, Prod.ext hexponent.symm hvalue⟩

/-- The monomials before the one of a coefficient are those of the coefficients before it. -/
theorem exists_monomials_append {f : Laurent} {i : Nat} {c : Fr} (hc : f.coeffs[i]? = some c) :
    ∃ before after, f.monomials = before ++ (f.lowest + i, c) :: after ∧
      ∀ m ∈ before, ∃ j < i, f.coeffs[j]? = some m.2 ∧ m.1 = f.lowest + j := by
  obtain ⟨hlt, rfl⟩ := List.getElem?_eq_some_iff.1 hc
  have hmonomial : ∀ {j : Nat} (hj : j < f.monomials.length) (hj' : j < f.coeffs.length),
      f.monomials[j] = (f.lowest + j, f.coeffs[j]) := by
    intro j hj hj'
    exact List.getElem_mapIdx
  have hlength : f.monomials.length = f.coeffs.length := List.length_mapIdx
  refine ⟨f.monomials.take i, f.monomials.drop (i + 1), ?_, fun m hm => ?_⟩
  · rw [← hmonomial (hlength.symm ▸ hlt) hlt, ← List.drop_eq_getElem_cons, List.take_append_drop]
  · obtain ⟨j, hj, rfl⟩ := List.mem_take_iff_getElem.1 hm
    have hj' : j < f.coeffs.length := by omega
    rw [hmonomial _ hj']
    exact ⟨j, by omega, List.getElem?_eq_getElem hj', rfl⟩

/-- The monomials with a coefficient other than 0. -/
def terms (f : Laurent) : List (Int × Fr) := f.monomials.filter fun m => m.2 ≠ 0

theorem mem_terms_iff {f : Laurent} {m : Int × Fr} :
    m ∈ f.terms ↔ f.series.coeff m.1 = m.2 ∧ m.2 ≠ 0 := by
  rw [terms, List.mem_filter, decide_eq_true_iff, and_congr_left_iff]
  intro hne
  rw [mem_monomials_iff, Laurent.series, coeff_series]
  constructor
  · rintro ⟨i, hi, hexponent⟩
    rw [hexponent, if_pos (by omega), show (f.lowest + i - f.lowest).toNat = i by omega,
      List.getD_eq_getElem?_getD, hi, Option.getD_some]
  · intro h
    split at h
    · rename_i hle
      refine ⟨(m.1 - f.lowest).toNat, ?_, by omega⟩
      cases hget : f.coeffs[(m.1 - f.lowest).toNat]? with
      | none =>
        rw [List.getD_eq_getElem?_getD, hget] at h
        exact absurd h.symm hne
      | some c =>
        rw [List.getD_eq_getElem?_getD, hget] at h
        exact congrArg some h
    · exact absurd h.symm hne

/-! ## What is refused -/

/-- The exponent at which a commitment with the bound `m` needs the coefficient `i`, over tables of
the degree `d`. -/
def committedExponent (f : Laurent) (d m : Int) (i : Nat) : Int := f.lowest + i + d - m

/-- The tables of degree `d` do not have what a commitment with the bound `m` needs for the
coefficient `i`. -/
def Refuses (f : Laurent) (d m : Int) (i : Nat) : Prop :=
  (∃ c, f.coeffs[i]? = some c ∧ c ≠ 0) ∧ ReferenceString.Uncovered d (f.committedExponent d m i)

/-- Whether a commitment is refused depends on the polynomial alone. -/
theorem exists_refuses_iff {f : Laurent} {d m : Int} :
    (∃ i, f.Refuses d m i) ↔
      ∃ e, f.series.coeff e ≠ 0 ∧ ReferenceString.Uncovered d (e + (d - m)) := by
  constructor
  · rintro ⟨i, ⟨c, hc, hne⟩, huncovered⟩
    have hterm : (f.lowest + (i : Int), c) ∈ f.terms :=
      List.mem_filter.2 ⟨mem_monomials_iff.2 ⟨i, hc, rfl⟩, decide_eq_true hne⟩
    rw [committedExponent, add_sub_assoc] at huncovered
    exact ⟨_, (mem_terms_iff.1 hterm).1 ▸ hne, huncovered⟩
  · rintro ⟨e, hne, huncovered⟩
    have hterm : (e, f.series.coeff e) ∈ f.terms := mem_terms_iff.2 ⟨rfl, hne⟩
    obtain ⟨i, hc, hexponent⟩ := mem_monomials_iff.1 (List.mem_of_mem_filter hterm)
    obtain rfl : e = f.lowest + i := hexponent
    rw [← add_sub_assoc] at huncovered
    exact ⟨i, ⟨_, hc, hne⟩, huncovered⟩

theorem exists_first_refused {f : Laurent} {d m : Int} (h : ∃ i, f.Refuses d m i) :
    ∃ i, f.Refuses d m i ∧ ∀ j < i, ¬ f.Refuses d m j := by
  classical
  exact ⟨Nat.find h, Nat.find_spec h, fun j => Nat.find_min h⟩

/-- What a commitment multiplies `α` by is the value of the polynomial, shifted by the bound. -/
theorem sum_committedExponent (f : Laurent) {x : Fr} (hx : x ≠ 0) (d m : Int) :
    ∑ i : Fin f.coeffs.length, f.coeffs[i] * x ^ f.committedExponent d m i =
      x ^ (d - m) * f.eval x := by
  rw [← f.sum_monomials hx, monomials, List.mapIdx_eq_ofFn, List.map_ofFn, List.sum_ofFn,
    Finset.mul_sum]
  refine Finset.sum_congr rfl fun i _ => ?_
  rw [committedExponent, show f.lowest + (i : Nat) + d - m = d - m + (f.lowest + (i : Nat)) by omega,
    zpow_add₀ hx]
  exact mul_left_comm _ _ _

end Laurent

open ReferenceString Laurent

variable {G₁ G₂ F₁ F₂ : Type} [SourceGroup G₁ F₁] [SourceGroup G₂ F₂]
  {d : Int} {x alpha : Fr} {srs : ReferenceString G₁ G₂}

/-- A commitment is refused for its first coefficient that is not covered. -/
theorem commitment_error (hsrs : srs.Tables d x alpha) {m : Int} {f : Laurent} {i : Nat}
    (hi : f.Refuses d m i) (hfirst : ∀ j < i, ¬ f.Refuses d m j) :
    commitment srs m f = .error (exponentFault d (f.committedExponent d m i)) := by
  obtain ⟨⟨c, hc, hne⟩, huncovered⟩ := hi
  obtain ⟨before, after, hsplit, hbefore⟩ := exists_monomials_append hc
  have hexponent : ∀ j, f.lowest + (j : Nat) + (srs.degree - m) = f.committedExponent d m j := by
    intro j
    rw [hsrs.degree_eq, committedExponent]
    omega
  have hfound : ∀ term ∈ before.filter (fun m => m.2 ≠ 0), ∃ found : G₁ × Fr,
      (do return (← srs.gAlphaAt (term.1 + (srs.degree - m)), term.2) : Except Fault _) =
        .ok found := by
    intro term hterm
    obtain ⟨hmem, hterm⟩ := List.mem_filter.1 hterm
    obtain ⟨j, hj, hget, hterm₁⟩ := hbefore term hmem
    have hcovered : ¬ Uncovered d (f.committedExponent d m j) :=
      fun h => hfirst j hj ⟨⟨term.2, hget, of_decide_eq_true hterm⟩, h⟩
    rw [Uncovered, not_or] at hcovered
    rw [hterm₁, hexponent, hsrs.gAlphaAt_eq (by omega) (by omega) hcovered.1]
    exact ⟨_, rfl⟩
  have herror : (do return (← srs.gAlphaAt (f.lowest + i + (srs.degree - m)), c) :
      Except Fault (G₁ × Fr)) = .error (exponentFault d (f.committedExponent d m i)) := by
    rw [hexponent, hsrs.gAlphaAt_error huncovered]
    rfl
  unfold commitment
  dsimp only
  rw [hsplit, List.filter_append, List.filter_cons_of_pos (by simpa using hne),
    mapM_error hfound herror]
  rfl

theorem not_refuses_of_commitment (hsrs : srs.Tables d x alpha) {m : Int} {f : Laurent} {P : G₁}
    (hP : commitment srs m f = .ok P) (i : Nat) : ¬ f.Refuses d m i := by
  intro hi
  obtain ⟨j, hj, hfirst⟩ := exists_first_refused ⟨i, hi⟩
  rw [commitment_error hsrs hj hfirst] at hP
  cases hP

/-- An opening is refused for the first exponent of the quotient that is beyond the tables. -/
theorem opening_error (hsrs : srs.Tables d x alpha) {f : Laurent} {value z : Fr} {e : Int}
    (hlow : min f.lowest 0 ≤ e) (hhigh : e < max (f.lowest + f.coeffs.length - 1) 0)
    (he : d < e.natAbs) (hfirst : ∀ e', min f.lowest 0 ≤ e' → e' < e → e'.natAbs ≤ d) :
    opening srs f value z = .error (.degreeTooLarge e d) := by
  obtain ⟨hlowest, hlength⟩ := f.quotient_range value z
  have hindex : (e - min f.lowest 0).toNat < (f.quotient value z).coeffs.length := by omega
  obtain ⟨before, after, hsplit, hbefore⟩ :=
    exists_monomials_append (List.getElem?_eq_getElem hindex)
  have hfound : ∀ term ∈ before, ∃ found : G₁ × Fr,
      (do return (← srs.gAt term.1, term.2) : Except Fault _) = .ok found := by
    intro term hterm
    obtain ⟨j, hj, -, hexponent⟩ := hbefore term hterm
    have hcovered := hfirst term.1 (by omega) (by omega)
    rw [hsrs.gAt_eq (by omega) (by omega)]
    exact ⟨_, rfl⟩
  unfold opening
  rw [hsplit, hlowest, show min f.lowest 0 + ((e - min f.lowest 0).toNat : Int) = e by omega,
    mapM_error hfound (e := .degreeTooLarge e d) (by rw [hsrs.gAt_error he]; rfl)]
  rfl

/-- Where the quotient goes beyond the tables on either side, whatever its coefficients. -/
theorem opening_refused (hsrs : srs.Tables d x alpha) {f : Laurent} (value z : Fr)
    (h : min f.lowest 0 < -d ∨ d < max (f.lowest + f.coeffs.length - 1) 0 - 1) :
    opening srs f value z =
      .error (.degreeTooLarge (if min f.lowest 0 < -d then min f.lowest 0 else d + 1) d) := by
  have hd := hsrs.one_le
  by_cases hlow : min f.lowest 0 < -d
  · rw [if_pos hlow]
    exact opening_error hsrs le_rfl (by omega) (by omega) fun e h h' => by omega
  · rw [if_neg hlow]
    exact opening_error hsrs (by omega) (by omega) (by omega) fun e h h' => by omega

/-! ## Commitments -/

variable [LawfulGroup G₁]

theorem commitment_ok (hsrs : srs.Tables d x alpha) {m : Int} {f : Laurent}
    (hf : ∀ i, ¬ f.Refuses d m i) :
    ∃ P, commitment srs m f = .ok P ∧ IsMultiple P
      (alpha * ∑ i : Fin f.coeffs.length, f.coeffs[i] * x ^ f.committedExponent d m i) := by
  rw [f.sum_committedExponent hsrs.secret_ne_zero, ← mul_assoc]
  refine exists_commitment hsrs m fun term hterm hne => ?_
  obtain ⟨i, hget, hexponent⟩ := mem_monomials_iff.1 hterm
  have hcovered : ¬ Uncovered d (f.committedExponent d m i) := fun h => hf i ⟨⟨_, hget, hne⟩, h⟩
  rw [Uncovered, not_or, committedExponent] at hcovered
  omega

/-- The sum of two polynomials that can be committed to can be committed to as well, and its
commitment is the sum of theirs. -/
theorem commitment_add (hsrs : srs.Tables d x alpha) {m : Int} {f g h : Laurent} {P Q : G₁}
    (hsum : h.series = f.series + g.series) (hP : commitment srs m f = .ok P)
    (hQ : commitment srs m g = .ok Q) :
    ∃ R, commitment srs m h = .ok R ∧ affine R = affine (add P Q) := by
  have hcovered : ∀ i, ¬ h.Refuses d m i := by
    rw [← not_exists, exists_refuses_iff]
    rintro ⟨e, hne, huncovered⟩
    rw [hsum, AddMonoidAlgebra.coeff_add, Finsupp.add_apply] at hne
    -- One of the summands has a coefficient other than 0 there, so it would have been refused.
    by_cases hf : f.series.coeff e = 0
    · rw [hf, zero_add] at hne
      obtain ⟨i, hi⟩ := exists_refuses_iff.2 ⟨e, hne, huncovered⟩
      exact not_refuses_of_commitment hsrs hQ i hi
    · obtain ⟨i, hi⟩ := exists_refuses_iff.2 ⟨e, hf, huncovered⟩
      exact not_refuses_of_commitment hsrs hP i hi
  obtain ⟨R, hR, -⟩ := commitment_ok hsrs hcovered
  have heval : h.eval x = f.eval x + g.eval x := by
    rw [← Units.val_mk0 hsrs.secret_ne_zero, eval_eq, eval_eq, eval_eq, hsum, map_add]
  have hmultiple := commitment_gives hsrs m h R hR
  rw [heval, mul_add] at hmultiple
  exact ⟨R, hR, hmultiple.affine_eq (LawfulGroup.isMultiple_add (commitment_gives hsrs m f P hP)
    (commitment_gives hsrs m g Q hQ))⟩

/-- A commitment is refused exactly if a coefficient other than 0 needs an exponent that the tables
do not have, and for the first such coefficient. Otherwise it is the generator times `α` times the
shifted value at the secret, and additive in the polynomial. -/
theorem commitment_answers (hsrs : ofSecrets d x alpha = .ok srs) (m : Int) (f : Laurent) :
    ((∃ e, commitment srs m f = .error e ∧ e.category = .argument) ↔ ∃ i, f.Refuses d m i) ∧
    (∀ i, f.Refuses d m i → (∀ j < i, ¬ f.Refuses d m j) →
      commitment srs m f = .error (exponentFault d (f.committedExponent d m i))) ∧
    ((∀ i, ¬ f.Refuses d m i) → ∃ P, commitment srs m f = .ok P ∧ IsMultiple P
      (alpha * ∑ i : Fin f.coeffs.length, f.coeffs[i] * x ^ f.committedExponent d m i)) ∧
    ∀ {g h : Laurent} {P Q : G₁}, h.series = f.series + g.series → commitment srs m f = .ok P →
      commitment srs m g = .ok Q → ∃ R, commitment srs m h = .ok R ∧ affine R = affine (add P Q) := by
  have htables := tables_of_ofSecrets hsrs
  refine ⟨⟨?_, fun hrefuses => ?_⟩, fun i hi hfirst => commitment_error htables hi hfirst,
    commitment_ok htables, commitment_add htables⟩
  · rintro ⟨e, herror, -⟩
    by_contra hnone
    obtain ⟨P, hP, -⟩ := commitment_ok htables (not_exists.1 hnone)
    rw [hP] at herror
    cases herror
  · obtain ⟨i, hi, hfirst⟩ := exists_first_refused hrefuses
    exact ⟨_, commitment_error htables hi hfirst, exponentFault_category _ _⟩

/-- With the bound 1 over the degree 2, the constant term lands on the exponent 1 and `X⁻¹` on 0;
with the bound 3, `X⁻²` lands on -3. -/
theorem commitment_answers_bounded :
    ∃ srs : ReferenceString (Point Fp) (Point Fp2), ofSecrets 2 2 3 = .ok srs ∧
      (∃ P Q, commitment srs 1 ⟨[5, 0, 0, 7], -2⟩ = .ok P ∧
        IsMultiple P (3 * (5 * 2 ^ (-1 : Int) + 7 * 2 ^ (2 : Int))) ∧
        commitment srs 1 ⟨[10, 0, 0, 14], -2⟩ = .ok Q ∧ affine Q = affine (add P P)) ∧
      commitment srs 1 ⟨[0, 5, 1, 4], -2⟩ = .error .constantTerm ∧
      commitment srs 3 ⟨[5, 1, 4, 7], -2⟩ = .error (.degreeTooLarge (-3) 2) := by
  obtain ⟨srs, hsrs⟩ : ∃ srs : ReferenceString (Point Fp) (Point Fp2), ofSecrets 2 2 3 = .ok srs :=
    exists_ofSecrets (by decide) (by decide +kernel) 3
  have hcovered : ∀ i, ¬ Laurent.Refuses ⟨[5, 0, 0, 7], -2⟩ 2 1 i := by
    rintro (_ | _ | _ | _ | i) ⟨⟨c, hc, hne⟩, huncovered⟩
    · exact absurd huncovered (by decide)
    · exact hne (Option.some.inj hc).symm
    · exact hne (Option.some.inj hc).symm
    · exact absurd huncovered (by decide)
    · cases hc
  have hsum : Laurent.series ⟨[10, 0, 0, 14], -2⟩ =
      Laurent.series ⟨[5, 0, 0, 7], -2⟩ + Laurent.series ⟨[5, 0, 0, 7], -2⟩ := by
    simp only [Laurent.series, series_cons, series_nil, map_zero,
      show (10 : Fr) = 5 + 5 by decide +kernel, show (14 : Fr) = 7 + 7 by decide +kernel, map_add]
    ring
  obtain ⟨-, -, hok, hadd⟩ := commitment_answers hsrs 1 ⟨[5, 0, 0, 7], -2⟩
  obtain ⟨P, hP, hmultiple⟩ := hok hcovered
  have hsum₁ : ∑ i : Fin 4, [5, 0, 0, 7][i] *
      (2 : Fr) ^ Laurent.committedExponent ⟨[5, 0, 0, 7], -2⟩ 2 1 i =
        5 * 2 ^ (-1 : Int) + 7 * 2 ^ (2 : Int) := by
    decide +kernel
  obtain ⟨Q, hQ, haffine⟩ := hadd hsum hP hP
  obtain ⟨-, hconstant, -⟩ := commitment_answers hsrs 1 ⟨[0, 5, 1, 4], -2⟩
  obtain ⟨-, hdegree, -⟩ := commitment_answers hsrs 3 ⟨[5, 1, 4, 7], -2⟩
  refine ⟨srs, hsrs, ⟨P, Q, hP, hsum₁ ▸ hmultiple, hQ, haffine⟩, hconstant 1 ?_ ?_,
    hdegree 0 ?_ ?_⟩
  · exact ⟨⟨5, rfl, by decide +kernel⟩, .inl rfl⟩
  · rintro (_ | j) hj ⟨⟨c, hc, hne⟩, -⟩
    · exact hne (Option.some.inj hc).symm
    · omega
  · exact ⟨⟨5, rfl, by decide +kernel⟩, .inr (by decide)⟩
  · intro j hj
    omega

/-! ## Openings -/

/-- An opening is refused exactly if the polynomial, with a constant term added, starts or ends too
far out. Otherwise it is the generator times the quotient at the secret, for any value and point. -/
theorem opening_answers (hsrs : ofSecrets d x alpha = .ok srs) (f : Laurent) (v z : Fr)
    {start stop : Int} (hstart : start = min f.lowest 0)
    (hstop : stop = max (f.lowest + f.coeffs.length - 1) 0) :
    ((∃ e, opening srs f v z = .error e ∧ e.category = .argument) ↔
      start < -d ∨ d < stop - 1) ∧
    (start < -d ∨ d < stop - 1 → opening srs f v z =
      .error (.degreeTooLarge (if start < -d then start else d + 1) d)) ∧
    (-d ≤ start → stop - 1 ≤ d → ∃ W, opening srs f v z = .ok W ∧
      (∃ P Q : Polynomial Fr,
        P.toLaurent = LaurentPolynomial.T (-start) * (f.series - LaurentPolynomial.C v) ∧
        P = (Polynomial.X - Polynomial.C z) * Q + Polynomial.C (P.eval z) ∧
        IsMultiple W (x ^ start * Q.eval x)) ∧
      ∀ w, IsMultiple W w → z ≠ 0 → v = f.eval z → w * (x - z) = f.eval x - v) := by
  have htables := tables_of_ofSecrets hsrs
  subst hstart hstop
  refine ⟨⟨?_, fun hrange => ⟨_, opening_refused htables v z hrange, rfl⟩⟩,
    opening_refused htables v z, fun hlow hhigh => ?_⟩
  · rintro ⟨e, hfails, -⟩
    by_contra hrange
    obtain ⟨W, hopen⟩ := exists_opening_for htables (f := f) (by omega) (by omega) v z
    rw [hopen] at hfails
    cases hfails
  · have hd := htables.one_le
    obtain ⟨W, hopen⟩ := exists_opening_for htables (f := f) (by omega) (by omega) v z
    have hmultiple := opening_gives htables f v z W hopen
    refine ⟨W, hopen, ⟨_, _, f.toLaurent_subConst v, f.toPolynomial_subConst v z,
      f.eval_quotient_eq v z x ▸ hmultiple⟩, fun w hw hz hv => ?_⟩
    rw [LawfulGroup.isMultiple_unique hw hmultiple, mul_comm,
      f.eval_quotient v hz htables.secret_ne_zero, hv, sub_self, mul_zero, sub_zero]

/-- A polynomial without coefficients is refused for where it would start; `X⁴` needs the exponent
3, which is one too many. `5·X⁻² + 7·X` can be opened to a wrong value even at 0, and to its own
at 3 and at the secret. -/
theorem opening_answers_bounds :
    let f : Laurent := ⟨[5, 0, 0, 7], -2⟩
    ∃ srs : ReferenceString (Point Fp) (Point Fp2), ofSecrets 2 2 3 = .ok srs ∧
      opening srs ⟨[], -3⟩ 1 3 = .error (.degreeTooLarge (-3) 2) ∧
      opening srs ⟨[0, 1], 3⟩ 1 3 = .error (.degreeTooLarge 3 2) ∧
      (∃ W, opening srs f 1 0 = .ok W) ∧ (∃ W, opening srs f (f.eval 2) 2 = .ok W) ∧
      ∃ W w, opening srs f (f.eval 3) 3 = .ok W ∧ IsMultiple W w ∧
        w * (2 - 3) = f.eval 2 - f.eval 3 := by
  intro f
  obtain ⟨srs, hsrs⟩ : ∃ srs : ReferenceString (Point Fp) (Point Fp2), ofSecrets 2 2 3 = .ok srs :=
    exists_ofSecrets (by decide) (by decide +kernel) 3
  obtain ⟨-, hbelow, -⟩ :=
    opening_answers hsrs ⟨[], -3⟩ 1 3 (rfl : (-3 : Int) = _) (rfl : (0 : Int) = _)
  obtain ⟨-, habove, -⟩ :=
    opening_answers hsrs ⟨[0, 1], 3⟩ 1 3 (rfl : (0 : Int) = _) (rfl : (4 : Int) = _)
  have hopens : ∀ v z, ∃ W w, opening srs f v z = .ok W ∧ IsMultiple W w ∧
      (z ≠ 0 → v = f.eval z → w * (2 - z) = f.eval 2 - v) := by
    intro v z
    obtain ⟨-, -, hok⟩ := opening_answers hsrs f v z (rfl : (-2 : Int) = _) (rfl : (1 : Int) = _)
    obtain ⟨W, hW, ⟨P, Q, -, -, hmultiple⟩, hvalue⟩ := hok (by decide) (by decide)
    exact ⟨W, _, hW, hmultiple, hvalue _ hmultiple⟩
  obtain ⟨W₁, -, hwrong, -⟩ := hopens 1 0
  obtain ⟨W₂, -, hsecret, -⟩ := hopens (f.eval 2) 2
  obtain ⟨W₃, w, hopen, hmultiple, hvalue⟩ := hopens (f.eval 3) 3
  exact ⟨srs, hsrs, hbelow (.inl (by decide)), habove (.inr (by decide)), ⟨W₁, hwrong⟩,
    ⟨W₂, hsecret⟩, W₃, w, hopen, hmultiple, hvalue (by decide +kernel) rfl⟩

end SnarkBatch
