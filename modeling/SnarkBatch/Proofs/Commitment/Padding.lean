import SnarkBatch.Proofs.Commitment.Refusal
import SnarkBatch.Proofs.Group.WeightedSum

/-!
# Lists of coefficients for one polynomial

Two `Laurent`s stand for the same polynomial if their `series` are equal, that is if they differ by
zeros at either end (`Laurent.series_pad`). They have the same terms (`Laurent.terms_eq_of_series_eq`),
and so have their quotients, so that they have the same commitments and, where they can be opened, the
same openings. But an opening needs all exponents of the list it is given, and a list that is padded
beyond the tables is refused although its polynomial can be opened.
-/

namespace SnarkBatch

open SourceGroup

namespace Laurent

theorem terms_pairwise (f : Laurent) : f.terms.Pairwise (fun m n => m.1 < n.1) := by
  refine List.Pairwise.filter _ (List.pairwise_iff_getElem.2 fun i j hi hj hij => ?_)
  simp only [monomials, List.getElem_mapIdx]
  omega

theorem terms_eq_of_series_eq {f g : Laurent} (h : f.series = g.series) : f.terms = g.terms := by
  have : Std.Irrefl fun m n : Int × Fr => m.1 < n.1 := ⟨fun m => lt_irrefl m.1⟩
  have : Std.Antisymm fun m n : Int × Fr => m.1 < n.1 := ⟨fun m n h h' => (lt_asymm h h').elim⟩
  refine f.terms_pairwise.eq_of_mem_iff g.terms_pairwise fun m => ?_
  rw [mem_terms_iff, mem_terms_iff, h]

theorem eval_eq_of_series_eq {f g : Laurent} (h : f.series = g.series) {x : Fr} (hx : x ≠ 0) :
    f.eval x = g.eval x := by
  rw [← Units.val_mk0 hx, eval_eq, eval_eq, h]

/-- The polynomial with zeros below and above its coefficients. -/
def pad (f : Laurent) (below above : Nat) : Laurent :=
  ⟨List.replicate below 0 ++ f.coeffs ++ List.replicate above 0, f.lowest - below⟩

theorem series_pad (f : Laurent) (below above : Nat) : (f.pad below above).series = f.series := by
  unfold Laurent.series pad
  dsimp only
  rw [series_append, series_append, series_replicate_zero, series_replicate_zero, zero_add, add_zero,
    List.length_replicate, sub_add_cancel]

/-! ## Quotients -/

open Polynomial (X C toLaurent)

theorem mul_series_quotient (f : Laurent) {z : Fr} (hz : z ≠ 0) :
    toLaurent (X - C z) * (f.quotient (f.eval z) z).series =
      f.series - LaurentPolynomial.C (f.eval z) := by
  have hroot : (toPolynomial (f.subConst (f.eval z)).coeffs).eval z = 0 := by
    have heval := (f.eval_subConst (f.eval z) (.mk0 z hz)).symm.trans
      (f.eval_subConst_eq (f.eval z) z)
    rw [Units.val_mk0, sub_self, eq_comm, mul_eq_zero] at heval
    exact heval.resolve_left (zpow_ne_zero _ hz)
  have hdivide := f.toPolynomial_subConst (f.eval z) z
  rw [hroot, map_zero, add_zero] at hdivide
  calc toLaurent (X - C z) * (f.quotient (f.eval z) z).series
      = LaurentPolynomial.T (f.subConst (f.eval z)).lowest *
          toLaurent ((X - C z) * toPolynomial (f.quotient (f.eval z) z).coeffs) := by
        rw [Laurent.series, series_eq_T_mul, map_mul, mul_left_comm]
        rfl
    _ = (f.subConst (f.eval z)).series := by rw [← hdivide, ← series_eq_T_mul, Laurent.series]
    _ = f.series - LaurentPolynomial.C (f.eval z) := f.series_subConst (f.eval z)

theorem series_quotient_eq {f g : Laurent} (h : f.series = g.series) {z : Fr} (hz : z ≠ 0) :
    (f.quotient (f.eval z) z).series = (g.quotient (g.eval z) z).series := by
  have hne : toLaurent (X - C z) ≠ 0 :=
    (map_ne_zero_iff _ Polynomial.toLaurent_injective).2 (Polynomial.X_sub_C_ne_zero z)
  refine mul_left_cancel₀ hne ?_
  rw [mul_series_quotient f hz, mul_series_quotient g hz, h, eval_eq_of_series_eq h hz]

end Laurent

open ReferenceString Laurent

variable {G₁ G₂ F₁ F₂ : Type} [SourceGroup G₁ F₁] [SourceGroup G₂ F₂]
  {d : Int} {x alpha : Fr} {srs : ReferenceString G₁ G₂}

/-! ## Sums of terms -/

/-- The sum of the terms, each with the power of its exponent from a table. -/
def sumTerms {G F : Type} [SourceGroup G F] (table : Int → Except Fault G)
    (terms : List (Int × Fr)) : Except Fault G := do
  let found ← terms.mapM fun m => do
    return (← table m.1, m.2)
  return weightedSum found

theorem commitment_eq_sumTerms (srs : ReferenceString G₁ G₂) (m : Int) (f : Laurent) :
    commitment srs m f = sumTerms (fun e => srs.gAlphaAt (e + (srs.degree - m))) f.terms := rfl

theorem mapM_filter_found {G : Type} {table : Int → Except Fault G} {terms : List (Int × Fr)}
    {found : List (G × Fr)}
    (h : (terms.mapM fun m => do return (← table m.1, m.2)) = .ok found) :
    ((terms.filter fun m => m.2 ≠ 0).mapM fun m => do return (← table m.1, m.2)) =
      .ok (found.filter fun term => term.2 ≠ 0) := by
  induction terms generalizing found with
  | nil =>
    cases h
    rfl
  | cons m terms ih =>
    rw [List.mapM_cons] at h
    obtain ⟨term, hterm, h⟩ := exists_of_bind_ok h
    obtain ⟨rest, hrest, h⟩ := exists_of_bind_ok h
    cases h
    obtain ⟨P, hP, hpair⟩ := exists_of_bind_ok hterm
    cases hpair
    by_cases hm : m.2 = 0
    · rw [List.filter_cons_of_neg (by simpa using hm), List.filter_cons_of_neg (by simpa using hm)]
      exact ih hrest
    · rw [List.filter_cons_of_pos (by simpa using hm), List.filter_cons_of_pos (by simpa using hm),
        List.mapM_cons, hterm, ih hrest]
      rfl

/-- An opening that is made depends on the terms of the quotient only. -/
theorem sumTerms_of_opening {f : Laurent} {value z : Fr} {W : G₁}
    (h : opening srs f value z = .ok W) : sumTerms srs.gAt (f.quotient value z).terms = .ok W := by
  obtain ⟨found, hfound, h⟩ := exists_of_bind_ok h
  cases h
  have hsum := weightedSum_filter found id (fun term => term.2 ≠ 0) (by simp)
  rw [List.map_id, List.map_id] at hsum
  rw [sumTerms, Laurent.terms, mapM_filter_found hfound, ← hsum]
  rfl

/-- Two lists of coefficients for one polynomial have the same commitments and the same value at a
point. An opening to that value, once made of one, is also made of the other unless the latter's
list goes beyond the tables. -/
theorem commitment_opening_series (hsrs : ofSecrets d x alpha = .ok srs) {f g : Laurent}
    (hfg : f.series = g.series) (m : Int) {z : Fr} (hz : z ≠ 0) :
    commitment srs m f = commitment srs m g ∧ f.eval z = g.eval z ∧
    ∀ W, opening srs f (f.eval z) z = .ok W → opening srs g (g.eval z) z =
      if min g.lowest 0 < -d ∨ d < max (g.lowest + g.coeffs.length - 1) 0 - 1 then
        .error (.degreeTooLarge (if min g.lowest 0 < -d then min g.lowest 0 else d + 1) d)
      else .ok W := by
  have htables := tables_of_ofSecrets hsrs
  have hcommit : commitment srs m f = commitment srs m g := by
    rw [commitment_eq_sumTerms, commitment_eq_sumTerms, terms_eq_of_series_eq hfg]
  refine ⟨hcommit, eval_eq_of_series_eq hfg hz, fun W hW => ?_⟩
  split
  · rename_i hrange
    exact opening_refused htables _ z hrange
  · rename_i hrange
    have hd := htables.one_le
    obtain ⟨W', hW'⟩ := exists_opening_for htables (f := g) (by omega) (by omega) (g.eval z) z
    have hsame : sumTerms srs.gAt (g.quotient (g.eval z) z).terms = .ok W := by
      rw [← terms_eq_of_series_eq (series_quotient_eq hfg hz), sumTerms_of_opening hW]
    rw [hW', ← sumTerms_of_opening hW', hsame]

/-- `X` with zeros below and above that are within the tables of degree 4. -/
theorem commitment_opening_series_pad :
    let f : Laurent := ⟨[1], 1⟩
    let g := f.pad 3 4
    ∃ srs : ReferenceString (Point Fp) (Point Fp2), ofSecrets 4 2 3 = .ok srs ∧
      commitment srs 4 f = commitment srs 4 g ∧ f.eval 3 = g.eval 3 ∧
      ∃ W, opening srs f (f.eval 3) 3 = .ok W ∧ opening srs g (g.eval 3) 3 = .ok W := by
  intro f g
  obtain ⟨srs, hsrs⟩ : ∃ srs : ReferenceString (Point Fp) (Point Fp2), ofSecrets 4 2 3 = .ok srs :=
    exists_ofSecrets (by decide) (by decide +kernel) 3
  obtain ⟨W, hW⟩ := exists_opening_for (tables_of_ofSecrets hsrs) (f := f) (by decide) (by decide)
    (f.eval 3) 3
  obtain ⟨hcommit, heval, hopen⟩ :=
    commitment_opening_series hsrs (f.series_pad 3 4).symm 4 (z := 3) (by decide +kernel)
  refine ⟨srs, hsrs, hcommit, heval, W, hW, ?_⟩
  have hsame := hopen W hW
  rwa [if_neg (by decide)] at hsame

/-- `X` can be opened over tables of degree 4, but not when it is written with six zeros below,
which start at `X⁻⁵`. -/
theorem opening_pad_refused :
    let f : Laurent := ⟨[1], 1⟩
    let g := f.pad 6 0
    ∃ srs : ReferenceString (Point Fp) (Point Fp2), ofSecrets 4 2 3 = .ok srs ∧
      f.series = g.series ∧ (∃ W, opening srs f (f.eval 3) 3 = .ok W) ∧
      opening srs g (g.eval 3) 3 = .error (.degreeTooLarge (-5) 4) := by
  intro f g
  obtain ⟨srs, hsrs⟩ : ∃ srs : ReferenceString (Point Fp) (Point Fp2), ofSecrets 4 2 3 = .ok srs :=
    exists_ofSecrets (by decide) (by decide +kernel) 3
  have htables := tables_of_ofSecrets hsrs
  exact ⟨srs, hsrs, (f.series_pad 6 0).symm,
    exists_opening_for htables (f := f) (by decide) (by decide) (f.eval 3) 3,
    opening_refused htables (f := g) (g.eval 3) 3 (.inl (by decide))⟩

end SnarkBatch
