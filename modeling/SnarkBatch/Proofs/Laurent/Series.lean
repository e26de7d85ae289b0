import Mathlib.Algebra.Polynomial.Laurent
import Mathlib.Algebra.Polynomial.Roots
import Mathlib.Data.List.GetD
import SnarkBatch.Proofs.Field.Prime

/-!
# What a list of coefficients stands for

`series e cs` is the Laurent polynomial with the coefficients `cs` from the exponent `e` on, and
`Laurent.series` that of a `Laurent`. The list operations are read off it: appending, reversing,
changing one coefficient, `addScaled` and `convolve` are sums, inversion and products of Laurent
polynomials, and `evalPowers` is evaluation at a point other than 0 (`evalAt_series`).
-/

namespace SnarkBatch

open LaurentPolynomial

/-- `Σ cs[i] · T^(e + i)`. -/
noncomputable def series (e : Int) : List Fr → Fr[T;T⁻¹]
  | [] => 0
  | c :: cs => C c * T e + series (e + 1) cs

noncomputable def Laurent.series (f : Laurent) : Fr[T;T⁻¹] := SnarkBatch.series f.lowest f.coeffs

@[simp] theorem series_nil (e : Int) : series e [] = 0 := rfl

@[simp] theorem series_cons (e : Int) (c : Fr) (cs : List Fr) :
    series e (c :: cs) = C c * T e + series (e + 1) cs := rfl

theorem series_append (e : Int) (as bs : List Fr) :
    series e (as ++ bs) = series e as + series (e + as.length) bs := by
  induction as generalizing e with
  | nil => simp
  | cons a as ih =>
    rw [List.cons_append, series_cons, ih, series_cons, List.length_cons, Nat.cast_succ, add_assoc e 1,
      add_comm (1 : Int) as.length, add_assoc]

@[simp] theorem series_replicate_zero (e : Int) (k : Nat) :
    series e (List.replicate k 0) = 0 := by
  induction k generalizing e with
  | zero => rfl
  | succ k ih => rw [List.replicate_succ, series_cons, ih, map_zero, zero_mul, add_zero]

theorem series_add_exponent (e k : Int) (cs : List Fr) :
    series (e + k) cs = T k * series e cs := by
  induction cs generalizing e with
  | nil => rw [series_nil, series_nil, mul_zero]
  | cons c cs ih =>
    rw [series_cons, series_cons, add_right_comm, ih, mul_add, add_comm e k, T_add]
    ring

/-- Coefficients from the last to the first are those of the inverted polynomial. -/
theorem series_reverse (e : Int) (cs : List Fr) :
    series (1 - e - cs.length) cs.reverse = invert (series e cs) := by
  induction cs generalizing e with
  | nil => rw [List.reverse_nil, series_nil, series_nil, map_zero]
  | cons c cs ih =>
    rw [List.reverse_cons, series_append, series_cons, series_cons, series_nil, add_zero, map_add,
      map_mul, invert_C, invert_T, ← ih, List.length_reverse, List.length_cons]
    rw [show (1 : Int) - e - ↑(cs.length + 1) = 1 - (e + 1) - cs.length by push_cast; ring,
      show (1 : Int) - (e + 1) - cs.length + cs.length = -e by ring]
    exact add_comm _ _

theorem series_map_range (e : Int) (n : Nat) (f : Nat → Fr) :
    series e ((List.range n).map f) = ∑ i ∈ Finset.range n, C (f i) * T (e + i) := by
  induction n with
  | zero => rfl
  | succ n ih =>
    rw [List.range_succ, List.map_append, series_append, ih, Finset.sum_range_succ, List.map_singleton,
      series_cons, series_nil, add_zero, List.length_map, List.length_range]

/-! ## Coefficients on both sides of the constant term -/

/-- The coefficients of `T⁻¹, T⁻², …` and those of `T, T², …`. -/
noncomputable def twoSided (negative positive : List Fr) : Fr[T;T⁻¹] :=
  invert (series 1 negative) + series 1 positive

theorem series_reverse_append (negative positive : List Fr) :
    series (-negative.length) (negative.reverse ++ 0 :: positive) = twoSided negative positive := by
  have hreverse := series_reverse 1 negative
  rw [sub_self, zero_sub] at hreverse
  rw [series_append, hreverse, List.length_reverse, neg_add_cancel, series_cons, map_zero, zero_mul,
    zero_add, zero_add, twoSided]

/-! ## Changing coefficients -/

theorem series_modify_add (e : Int) (cs : List Fr) {i : Nat} (hi : i < cs.length) (t : Fr) :
    series e (cs.modify i (· + t)) = series e cs + C t * T (e + i) := by
  induction cs generalizing e i with
  | nil => exact absurd hi (Nat.not_lt_zero i)
  | cons c cs ih =>
    cases i with
    | zero =>
      rw [List.modify_zero_cons, series_cons, series_cons, map_add, Nat.cast_zero, add_zero]
      ring
    | succ i =>
      rw [List.modify_succ_cons, series_cons, series_cons, ih _ (Nat.lt_of_succ_lt_succ hi),
        Nat.cast_succ, add_assoc, add_assoc, add_comm (1 : Int) i]

theorem series_addScaled (e : Int) {as bs : List Fr} (h : bs.length ≤ as.length) (c : Fr) :
    series e (addScaled as bs c) = series e as + C c * series e bs := by
  induction as generalizing e bs with
  | nil =>
    rw [List.eq_nil_of_length_eq_zero (Nat.le_zero.1 h)]
    simp [addScaled]
  | cons a as ih =>
    cases bs with
    | nil => simp [addScaled]
    | cons b bs =>
      rw [addScaled, series_cons, series_cons, series_cons, ih _ (Nat.le_of_succ_le_succ h),
        map_add, map_mul]
      ring

@[simp] theorem length_addScaled (as bs : List Fr) (c : Fr) :
    (addScaled as bs c).length = as.length := by
  induction as generalizing bs with
  | nil => cases bs <;> rfl
  | cons a as ih =>
    cases bs with
    | nil => rfl
    | cons b bs => rw [addScaled, List.length_cons, ih, List.length_cons]

@[simp] theorem length_addScaledAt (place : Nat) (as bs : List Fr) (c : Fr) :
    (addScaledAt place as bs c).length = as.length := by
  rw [addScaledAt, List.length_append, length_addScaled, ← List.length_append,
    List.take_append_drop]

theorem series_addScaledAt (e : Int) {place : Nat} {as bs : List Fr}
    (h : place + bs.length ≤ as.length) (c : Fr) :
    series e (addScaledAt place as bs c) = series e as + C c * series (e + place) bs := by
  have hdrop : bs.length ≤ (as.drop place).length := by
    rw [List.length_drop]
    omega
  have htake : (as.take place).length = place := List.length_take_of_le (by omega)
  rw [addScaledAt, series_append, htake, series_addScaled _ hdrop, ← add_assoc]
  congr 1
  conv_rhs => rw [← List.take_append_drop place as, series_append, htake]

/-! ## Products -/

@[simp] theorem length_addRows (bs : List Fr) (rows : List (Fr × Nat)) (product : List Fr) :
    (addRows bs rows product).length = product.length := by
  induction rows generalizing product with
  | nil => rfl
  | cons row rows ih =>
    rw [addRows, List.foldl_cons]
    refine (ih _).trans ?_
    split
    · rfl
    · exact length_addScaledAt ..

/-- Rows from the place `k` on add the coefficients from `T^k` on, times the other factor. -/
theorem series_addRows (e : Int) (as : List Fr) {bs product : List Fr} {k : Nat}
    (h : k + as.length + bs.length ≤ product.length + 1) :
    series e (addRows bs (as.zipIdx k) product) = series e product + series k as * series e bs := by
  induction as generalizing k product with
  | nil => rw [series_nil, zero_mul, add_zero]; rfl
  | cons a as ih =>
    rw [List.length_cons] at h
    rw [List.zipIdx_cons, addRows, List.foldl_cons, series_cons]
    by_cases ha : a = 0
    · subst ha
      rw [if_pos rfl, map_zero, zero_mul, zero_add]
      exact ih (by omega)
    · have hfits : k + bs.length ≤ product.length := by omega
      rw [if_neg ha]
      refine (ih (by rw [length_addScaledAt]; omega)).trans ?_
      rw [series_addScaledAt e hfits, series_add_exponent, Nat.cast_succ]
      ring

theorem length_convolve {as bs : List Fr} (ha : as ≠ []) (hb : bs ≠ []) :
    (convolve as bs).length = as.length + bs.length - 1 := by
  rw [convolve, if_neg (not_or.2 ⟨ha, hb⟩), length_addRows, List.length_replicate]

theorem series_convolve (e e' : Int) (as bs : List Fr) :
    series (e + e') (convolve as bs) = series e as * series e' bs := by
  by_cases hempty : as = [] ∨ bs = []
  · rw [convolve, if_pos hempty]
    rcases hempty with rfl | rfl
    · rw [series_nil, series_nil, zero_mul]
    · rw [series_nil, series_nil, mul_zero]
  · have hstart : series e as = T e * series 0 as := by
      rw [← series_add_exponent, zero_add]
    rw [convolve, if_neg hempty, series_addRows _ as (by rw [List.length_replicate]; omega),
      series_replicate_zero, zero_add, Nat.cast_zero, add_comm e, series_add_exponent e' e bs, hstart]
    ring

/-! ## Coefficients -/

theorem coeff_mul_T (p : Fr[T;T⁻¹]) (e k : Int) : (p * T e).coeff k = p.coeff (k - e) := by
  rw [T, AddMonoidAlgebra.coeff_mul_single_eq_coeff_mul (k - e) (fun _ _ => by omega), mul_one]

theorem coeff_series (e : Int) (cs : List Fr) (k : Int) :
    (series e cs).coeff k = if e ≤ k then cs.getD (k - e).toNat 0 else 0 := by
  induction cs generalizing e with
  | nil => simp
  | cons c cs ih =>
    rw [series_cons, AddMonoidAlgebra.coeff_add, Finsupp.add_apply, coeff_mul_T, C_apply, ih]
    rcases lt_trichotomy k e with hk | rfl | hk
    · rw [if_neg (by omega), if_neg (by omega), if_neg (by omega), add_zero]
    · simp
    · rw [if_neg (by omega), if_pos (by omega), if_pos (by omega), zero_add,
        show (k - e).toNat = (k - (e + 1)).toNat + 1 by omega, List.getD_cons_succ]

theorem series_set_zero (e : Int) (cs : List Fr) (i : Nat) :
    series e (cs.set i 0) = series e cs - C ((series e cs).coeff (e + i)) * T (e + i) := by
  induction cs generalizing e i with
  | nil => simp
  | cons c cs ih =>
    cases i with
    | zero =>
      rw [List.set_cons_zero, series_cons, coeff_series, if_pos (by omega)]
      simp
    | succ i =>
      have hcoeff : (series e (c :: cs)).coeff (e + (i + 1 : Nat)) =
          (series (e + 1) cs).coeff (e + 1 + i) := by
        rw [coeff_series, coeff_series, if_pos (by omega), if_pos (by omega),
          show (e + (i + 1 : Nat) - e).toNat = i + 1 by omega,
          show (e + 1 + i - (e + 1)).toNat = i by omega, List.getD_cons_succ]
      rw [List.set_cons_succ, hcoeff, series_cons, series_cons, ih,
        show e + (i + 1 : Nat) = e + 1 + i by omega]
      ring

/-! ## Evaluation -/

/-- Evaluation at a point other than 0. -/
noncomputable def evalAt (x : Frˣ) : Fr[T;T⁻¹] →+* Fr := eval₂ (RingHom.id Fr) x

@[simp] theorem evalAt_C (x : Frˣ) (c : Fr) : evalAt x (C c) = c := eval₂_C _ _ c

@[simp] theorem evalAt_T (x : Frˣ) (e : Int) : evalAt x (T e) = (x : Fr) ^ e := by
  rw [evalAt, eval₂_T, Units.val_zpow_eq_zpow_val]

theorem evalAt_series (x : Frˣ) (e : Int) (cs : List Fr) :
    evalAt x (series e cs) = evalPowers cs ((x : Fr) ^ e) x := by
  induction cs generalizing e with
  | nil => exact map_zero _
  | cons c cs ih =>
    rw [series_cons, map_add, map_mul, evalAt_C, evalAt_T, ih, zpow_add_one₀ x.ne_zero]
    rfl

theorem evalAt_invert (x : Frˣ) (p : Fr[T;T⁻¹]) : evalAt x (invert p) = evalAt x⁻¹ p := by
  induction p using LaurentPolynomial.induction_on' with
  | add p q hp hq => rw [map_add, map_add, map_add, hp, hq]
  | C_mul_T n a =>
    rw [map_mul, invert_C, invert_T, map_mul, map_mul, evalAt_C, evalAt_C, evalAt_T, evalAt_T,
      Units.val_inv_eq_inv_val, inv_zpow']

theorem evalAt_twoSided (x : Frˣ) (negative positive : List Fr) :
    evalAt x (twoSided negative positive) =
      evalPowers negative (x : Fr)⁻¹ (x : Fr)⁻¹ + evalPowers positive x x := by
  rw [twoSided, map_add, evalAt_invert, evalAt_series, evalAt_series, zpow_one, zpow_one,
    Units.val_inv_eq_inv_val]

theorem Laurent.power_eq_zpow (x : Fr) (e : Int) : power x e = x ^ e := by
  unfold power
  split
  · rename_i h
    rw [← zpow_natCast, Int.toNat_of_nonneg h]
  · rename_i h
    rw [one_div, ← zpow_natCast, Int.toNat_of_nonneg (by omega), inv_zpow', neg_neg]

theorem Laurent.eval_eq (f : Laurent) (x : Frˣ) : f.eval x = evalAt x f.series := by
  rw [Laurent.eval, power_eq_zpow, ← evalAt_series, Laurent.series]

/-! ## Polynomials -/

/-- The polynomial with a list of coefficients, the constant term first. -/
noncomputable def toPolynomial : List Fr → Polynomial Fr
  | [] => 0
  | c :: cs => Polynomial.C c + Polynomial.X * toPolynomial cs

theorem evalPowers_eq (cs : List Fr) (first base : Fr) :
    evalPowers cs first base = first * (toPolynomial cs).eval base := by
  induction cs generalizing first with
  | nil => rw [toPolynomial, Polynomial.eval_zero, mul_zero]; rfl
  | cons c cs ih =>
    rw [evalPowers, ih, toPolynomial, Polynomial.eval_add, Polynomial.eval_C, Polynomial.eval_mul,
      Polynomial.eval_X]
    ring

theorem series_eq_T_mul (e : Int) (cs : List Fr) :
    series e cs = T e * Polynomial.toLaurent (toPolynomial cs) := by
  induction cs generalizing e with
  | nil => rw [series_nil, toPolynomial, map_zero, mul_zero]
  | cons c cs ih =>
    rw [series_cons, ih, toPolynomial, map_add, map_mul, Polynomial.toLaurent_C,
      Polynomial.toLaurent_X, T_add]
    ring

theorem toLaurent_toPolynomial (cs : List Fr) :
    Polynomial.toLaurent (toPolynomial cs) = series 0 cs := by
  rw [series_eq_T_mul, T_zero, one_mul]

theorem toPolynomial_addScaled {as bs : List Fr} (h : bs.length ≤ as.length) (c : Fr) :
    toPolynomial (addScaled as bs c) =
      toPolynomial as + Polynomial.C c * toPolynomial bs := by
  apply Polynomial.toLaurent_injective
  rw [map_add, map_mul, Polynomial.toLaurent_C]
  simp only [toLaurent_toPolynomial, series_addScaled 0 h]

theorem toPolynomial_convolve (as bs : List Fr) :
    toPolynomial (convolve as bs) = toPolynomial as * toPolynomial bs := by
  apply Polynomial.toLaurent_injective
  rw [map_mul]
  simp only [toLaurent_toPolynomial]
  exact series_convolve 0 0 as bs

theorem coeff_toPolynomial (cs : List Fr) (i : Nat) : (toPolynomial cs).coeff i = cs.getD i 0 := by
  induction cs generalizing i with
  | nil => rfl
  | cons c cs ih =>
    cases i with
    | zero => simp [toPolynomial]
    | succ i => simp [toPolynomial, Polynomial.coeff_X_mul, ih]

/-- A list is made up of the coefficients of its polynomial, as many as it is long. -/
theorem eq_of_toPolynomial_eq {as bs : List Fr} (hlength : as.length = bs.length)
    (h : toPolynomial as = toPolynomial bs) : as = bs := by
  refine List.ext_getElem hlength fun i ha hb => ?_
  rw [← List.getD_eq_getElem as 0 ha, ← List.getD_eq_getElem bs 0 hb, ← coeff_toPolynomial, h,
    coeff_toPolynomial]

/-! ## Zeros -/

theorem natDegree_toPolynomial_le (cs : List Fr) :
    (toPolynomial cs).natDegree ≤ cs.length - 1 := by
  rw [Polynomial.natDegree_le_iff_coeff_eq_zero]
  intro i hi
  rw [coeff_toPolynomial]
  exact List.getD_eq_default _ _ (by omega)

/-- Coefficients that are not all 0 leave fewer zeros than there are coefficients. -/
theorem exists_zeros_series (e : Int) {cs : List Fr} (hcs : ∃ c ∈ cs, c ≠ 0) :
    ∃ zeros : Finset Fr, zeros.card ≤ cs.length - 1 ∧
      ∀ x : Frˣ, evalAt x (series e cs) = 0 → (x : Fr) ∈ zeros := by
  obtain ⟨c, hmem, hc⟩ := hcs
  have hne : toPolynomial cs ≠ 0 := by
    intro h
    obtain ⟨i, hi, rfl⟩ := List.getElem_of_mem hmem
    apply hc
    rw [← List.getD_eq_getElem cs 0 hi, ← coeff_toPolynomial, h, Polynomial.coeff_zero]
  refine ⟨(toPolynomial cs).roots.toFinset, ?_, fun x hx => ?_⟩
  · calc (toPolynomial cs).roots.toFinset.card
        ≤ (toPolynomial cs).roots.card := Multiset.toFinset_card_le _
      _ ≤ (toPolynomial cs).natDegree := Polynomial.card_roots' _
      _ ≤ cs.length - 1 := natDegree_toPolynomial_le cs
  · rw [evalAt_series, evalPowers_eq] at hx
    rw [Multiset.mem_toFinset, Polynomial.mem_roots hne]
    exact (mul_eq_zero.1 hx).resolve_left (zpow_ne_zero e x.ne_zero)

end SnarkBatch
