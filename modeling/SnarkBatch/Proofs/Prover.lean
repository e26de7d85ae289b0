import SnarkBatch.Proofs.Arithmetization.ConstantTerm
import SnarkBatch.Proofs.Commitment
import SnarkBatch.Proofs.Transcript

/-!
# The honest prover

The prover of an assignment sends a proof in three rounds, each of which begins with the challenge
that the one before has drawn: it commits to `r(X, 1)`, then to

    t(X, y) = r(X, 1) · (r(X, y) + s(X, y)) - k(y),

and opens `r` at `z · y` and a combination of `t` and `r` at `z`. Every round succeeds over a
reference string of degree `4n` or more, for challenges other than 0; what it sends is the multiple
of the generator that `IsHonest` asks for.
-/

namespace SnarkBatch

open LaurentPolynomial SourceGroup

/-! ## Polynomials as coefficients -/

/-- `f(X) ↦ f(yX)`. -/
noncomputable def dilation (y : Frˣ) : Fr[T;T⁻¹] →ₐ[Fr] Fr[T;T⁻¹] :=
  AddMonoidAlgebra.lift Fr Fr[T;T⁻¹] Int {
    toFun e := C ((y : Fr) ^ e.toAdd) * T e.toAdd
    map_one' := by rw [toAdd_one, zpow_zero, T_zero, map_one, one_mul]
    map_mul' e e' := by
      rw [toAdd_mul, zpow_add₀ y.ne_zero, T_add, map_mul]
      ring }

theorem dilation_C (y : Frˣ) (c : Fr) : dilation y (C c) = C c := (dilation y).commutes c

theorem dilation_T (y : Frˣ) (e : Int) : dilation y (T e) = C ((y : Fr) ^ e) * T e := by
  refine (AddMonoidAlgebra.lift_single _ _ _).trans ?_
  rw [one_smul]
  rfl

theorem dilation_monomial (y : Frˣ) (c : Fr) (e : Int) :
    dilation y (C c * T e) = C (c * (y : Fr) ^ e) * T e := by
  rw [map_mul, dilation_C, dilation_T, map_mul, mul_assoc]

/-- The coefficients of `f(yX)`. -/
def Laurent.dilate (f : Laurent) (y : Fr) : Laurent :=
  { f with coeffs := f.monomials.map fun m => m.2 * Laurent.power y m.1 }

theorem Laurent.series_dilate (f : Laurent) (y : Frˣ) :
    (f.dilate y).series = dilation y f.series := by
  obtain ⟨cs, e⟩ := f
  unfold Laurent.series dilate
  dsimp only
  induction cs generalizing e with
  | nil => exact (map_zero _).symm
  | cons c cs ih =>
    rw [monomials_cons, List.map_cons, SnarkBatch.series_cons, SnarkBatch.series_cons, ih, map_add,
      dilation_monomial, power_eq_zpow]

theorem evalAt_dilation (x y : Frˣ) (p : Fr[T;T⁻¹]) :
    evalAt x (dilation y p) = evalAt (x * y) p := by
  induction p using LaurentPolynomial.induction_on' with
  | add p q hp hq => rw [map_add, map_add, map_add, hp, hq]
  | C_mul_T n a =>
    rw [dilation_monomial, map_mul (evalAt x), map_mul (evalAt (x * y)), evalAt_C, evalAt_C, evalAt_T,
      evalAt_T, Units.val_mul, mul_zpow]
    ring

theorem Assignment.dilation_laurent {n : Nat} (v : Assignment n) (y : Frˣ) :
    dilation y (v.laurent 1) = v.laurent y := by
  unfold laurent
  rw [map_sum]
  refine Finset.sum_congr rfl fun i _ => ?_
  rw [map_add, map_add, dilation_monomial, dilation_monomial, dilation_monomial, inv_one, one_pow,
    one_pow, mul_one, mul_one, mul_one, zpow_neg, zpow_neg, inv_pow, inv_pow]
  norm_cast

namespace Assignment

variable {n : Nat} (v : Assignment n)

/-- The coefficients of `r(X, 1)`, from that of `X^(-2n)` on. -/
def row : Laurent :=
  ⟨(List.ofFn v.c).reverse ++ ((List.ofFn v.b).reverse ++ 0 :: List.ofFn v.a), -(2 * n)⟩

@[simp] theorem length_row : v.row.coeffs.length = 3 * n + 1 := by
  simp only [row, List.length_append, List.length_reverse, List.length_cons, List.length_ofFn]
  omega

theorem series_row : v.row.series = v.laurent 1 := by
  have hseries := series_reverse_append (List.ofFn v.b ++ List.ofFn v.c) (List.ofFn v.a)
  rw [List.length_append, List.length_ofFn, List.length_ofFn, List.reverse_append, List.append_assoc,
    Nat.cast_add, ← two_mul, twoSided, series_append 1 (List.ofFn v.b), map_add, List.length_ofFn,
    add_comm (1 : Int)] at hseries
  rw [laurent_one, add_rotate, ← hseries]
  rfl

end Assignment

namespace AtY

/-- The coefficients of `s(X, y)` as accumulated, from that of `X^(-n)` on. -/
def row (s : AtY) : Laurent := ⟨s.negative.reverse ++ 0 :: s.positive, -s.gates⟩

variable {y : Fr} {n : Nat} {p : Fr} {s : AtY}

theorem Sized.length_row (hs : s.Sized y n p) : s.row.coeffs.length = 3 * n + 1 := by
  simp only [row, negative, positive, List.length_append, List.length_reverse, List.length_cons,
    hs.length_u, hs.length_v, hs.length_w]
  omega

theorem Sized.series_row (hs : s.Sized y n p) : s.row.series = s.laurent := by
  have hseries := series_reverse_append s.negative s.positive
  rwa [show s.negative.length = s.gates from hs.length_u.trans hs.gates_eq.symm] at hseries

end AtY

namespace Prover

variable {n : Nat} (v : Assignment n)

/-- The coefficients of `r(X, y) + s(X, y)`, from that of `X^(-2n)` on. -/
def factor (s : AtY) (y : Fr) : List Fr :=
  addScaled ((v.row.dilate y).coeffs ++ List.replicate n 0) (List.replicate n 0 ++ s.row.coeffs) 1

/-- `t(X, y)`: the product without its constant term. -/
def product (s : AtY) (y : Fr) : Laurent :=
  ⟨(convolve v.row.coeffs (factor v s y)).set (4 * n) 0, -(4 * n)⟩

/-- `t(X, y) + mix · r(X, 1)`. -/
def combination (t : Laurent) (mix : Fr) : Except Fault Laurent := do
  let upper ← mulAdd (t.coeffs.drop (2 * n)) v.row.coeffs mix
  return { t with coeffs := t.coeffs.take (2 * n) ++ upper }

@[simp] theorem length_dilate (y : Fr) : (v.row.dilate y).coeffs.length = 3 * n + 1 := by
  rw [Laurent.dilate, List.length_map, Laurent.monomials, List.length_mapIdx, v.length_row]

@[simp] theorem length_factor (s : AtY) (y : Fr) : (factor v s y).length = 4 * n + 1 := by
  simp only [factor, length_addScaled, List.length_append, length_dilate, List.length_replicate]
  omega

theorem length_product (s : AtY) (y : Fr) : (product v s y).coeffs.length = 7 * n + 1 := by
  have hrow : v.row.coeffs ≠ [] := List.ne_nil_of_length_pos (by simp)
  have hfactor : factor v s y ≠ [] := List.ne_nil_of_length_pos (by simp)
  simp only [product, List.length_set, length_convolve hrow hfactor, v.length_row, length_factor]
  omega

variable {v}

theorem series_factor {s : AtY} {p : Fr} {y : Frˣ} (hs : s.Sized y n p) :
    series (-(2 * n)) (factor v s y) = v.laurent y + s.laurent := by
  have hlength : (List.replicate n (0 : Fr) ++ s.row.coeffs).length ≤
      ((v.row.dilate y).coeffs ++ List.replicate n 0).length := by
    simp only [List.length_append, List.length_replicate, hs.length_row, length_dilate]
    omega
  have hgates : (-(2 * n : Int) + n) = s.row.lowest := by
    rw [AtY.row, hs.gates_eq]
    ring
  have hdilate := v.row.series_dilate y
  rw [v.series_row, v.dilation_laurent] at hdilate
  rw [factor, series_addScaled _ hlength, series_append, series_replicate_zero, add_zero,
    series_append, series_replicate_zero, zero_add, List.length_replicate, hgates, map_one, one_mul,
    ← hs.series_row, ← hdilate]
  rfl

/-- The product has its constant term removed and nothing else. -/
theorem series_product {s : AtY} {p : Fr} {y : Frˣ} (hs : s.Sized y n p) :
    (product v s y).series = v.laurent 1 * (v.laurent y + s.laurent) -
      C (constantTerm (v.laurent 1) (v.laurent y + s.laurent)) := by
  have hproduct : series (-(4 * n)) (convolve v.row.coeffs (factor v s y)) =
      v.laurent 1 * (v.laurent y + s.laurent) := by
    rw [← series_factor hs, ← v.series_row, Laurent.series, ← series_convolve]
    refine congrArg (series · _) ?_
    show (-(4 * n) : Int) = -(2 * n) + -(2 * n)
    ring
  show series (-(4 * n)) ((convolve v.row.coeffs (factor v s y)).set (4 * n) 0) = _
  rw [series_set_zero, hproduct, show (-(4 * n) : Int) + (4 * n : Nat) = 0 by push_cast; ring,
    T_zero, mul_one]
  rfl

theorem combination_eq {t : Laurent} (hlowest : t.lowest = -(4 * n))
    (hlength : t.coeffs.length = 7 * n + 1) (mix : Fr) :
    ∃ f, combination v t mix = .ok f ∧ f.lowest = -(4 * n) ∧ f.coeffs.length = 7 * n + 1 ∧
      ∀ x : Frˣ, f.eval x = t.eval x + mix * v.row.eval x := by
  have hrow : v.row.coeffs.length ≤ (t.coeffs.drop (2 * n)).length := by
    simp only [v.length_row, List.length_drop, hlength]
    omega
  refine ⟨⟨t.coeffs.take (2 * n) ++ addScaled (t.coeffs.drop (2 * n)) v.row.coeffs mix, t.lowest⟩,
    ?_, hlowest, ?_, fun x => ?_⟩
  · rw [combination, mulAdd, if_neg (not_lt.2 hrow)]
    rfl
  · simp only [List.length_append, length_addScaled, List.length_take, List.length_drop, hlength]
    omega
  · have hsplit := series_append t.lowest (t.coeffs.take (2 * n)) (t.coeffs.drop (2 * n))
    rw [List.take_append_drop] at hsplit
    have hstart : t.lowest + (t.coeffs.take (2 * n)).length = v.row.lowest := by
      rw [List.length_take]
      show t.lowest + (min (2 * n) t.coeffs.length : Nat) = -(2 * n : Int)
      omega
    have hseries : Laurent.series ⟨t.coeffs.take (2 * n) ++
        addScaled (t.coeffs.drop (2 * n)) v.row.coeffs mix, t.lowest⟩ =
          t.series + C mix * v.row.series := by
      unfold Laurent.series
      dsimp only
      rw [series_append, series_addScaled _ hrow, hsplit, hstart, add_assoc]
    rw [Laurent.eval_eq, hseries, map_add, map_mul, evalAt_C, ← Laurent.eval_eq, ← Laurent.eval_eq]

/-! ## Rounds -/

section

variable {G₁ G₂ F₂ : Type} [SourceGroup G₁ Fp]

variable (G₁) in
structure First where
  /-- Commits to `r(X, 1)`, bounded by the number of gates. -/
  r : G₁
  y : Fr
  transcript : Transcript

variable (G₁) in
structure Second where
  polynomial : Laurent
  /-- Commits to the polynomial, which is `t(X, y)`. -/
  t : G₁
  z : Fr
  transcript : Transcript

variable (oracle : Oracle) (srs : ReferenceString G₁ G₂) (v)

def first : Except Fault (First G₁) := do
  let r ← commitment srs n v.row
  let (y, transcript) ← ((Transcript.start []).absorbElement r).challenge oracle
  return { r, y, transcript }

def second (c : Circuit) (m : First G₁) : Except Fault (Second G₁) := do
  let s ← AtY.start m.y n
  let done ← outcome (Synthesis.complete AtY.backend s c)
  let polynomial := product v done.backend m.y
  let t ← commitment srs srs.degree polynomial
  let (z, transcript) ← (m.transcript.absorbElement t).challenge oracle
  return { polynomial, t, z, transcript }

def third (m₁ : First G₁) (m₂ : Second G₁) : Except Fault (Proof G₁) := do
  let rz := v.row.eval m₂.z
  let rzy := v.row.eval (m₂.z * m₁.y)
  let (mix, _) ← ((m₂.transcript.absorbScalar rz).absorbScalar rzy).challenge oracle
  let zyOpening ← opening srs v.row rzy (m₂.z * m₁.y)
  let both ← combination v m₂.polynomial mix
  let zOpening ← opening srs both (m₂.polynomial.eval m₂.z + mix * rz) m₂.z
  return { r := m₁.r, t := m₂.t, rz, rzy, zOpening, zyOpening }

end

/-! ## What the rounds deliver -/

/-- What a second round knows about `t(X, y)`. -/
structure IsProduct (v : Assignment n) (o : Outline) (y : Fr) (t : Laurent) : Prop where
  lowest_eq : t.lowest = -(4 * n)
  length_eq : t.coeffs.length = 7 * n + 1
  eval_eq : ∀ x, x ≠ 0 → t.eval x = v.row.eval x * (v.row.eval (x * y) + o.constraintValue n x y) -
    constantTerm (v.laurent 1) (v.laurent y + o.constraintSeries n y)

/-- A proof in scalars, for the polynomials `r` and `t` and the challenges `y`, `z` and `mix`. -/
structure IsHonest {G F : Type} [SourceGroup G F] (d : Int) (n : Nat) (x alpha : Fr) (r t : Laurent)
    (y z mix : Fr) (p : Proof G) : Prop where
  isMultiple_r : IsMultiple p.r (alpha * x ^ (d - n) * r.eval x)
  isMultiple_t : IsMultiple p.t (alpha * t.eval x)
  rz_eq : p.rz = r.eval z
  rzy_eq : p.rzy = r.eval (z * y)
  zOpening : ∃ w, IsMultiple p.zOpening w ∧
    (x - z) * w = t.eval x + mix * r.eval x - (t.eval z + mix * r.eval z)
  zyOpening : ∃ w, IsMultiple p.zyOpening w ∧ (x - z * y) * w = r.eval x - r.eval (z * y)

section

variable {G₁ G₂ F₂ : Type} [SourceGroup G₁ Fp] [SourceGroup G₂ F₂] [LawfulGroup G₁] {d : Int}
  {x alpha : Fr} {srs : ReferenceString G₁ G₂}

theorem product_isProduct {o : Outline} {s : AtY} {y : Fr} (hy : y ≠ 0) (hs : s.Holds y n o) :
    IsProduct v o y (product v s y) where
  lowest_eq := rfl
  length_eq := length_product v s y
  eval_eq x hx := by
    have hseries : (product v s y).series = v.laurent 1 * (v.laurent y + o.constraintSeries n y) -
        C (constantTerm (v.laurent 1) (v.laurent y + o.constraintSeries n y)) := by
      rw [← hs.laurent_eq]
      exact series_product (y := .mk0 y hy) hs.toSized
    have hvalue := Laurent.eval_eq (product v s y) (.mk0 x hx)
    have hrow := Laurent.eval_eq v.row (.mk0 x hx)
    have hrowy := Laurent.eval_eq v.row (.mk0 x hx * .mk0 y hy)
    rw [v.series_row] at hrow hrowy
    rw [← evalAt_dilation, v.dilation_laurent] at hrowy
    rw [hseries, map_sub, map_mul, map_add, evalAt_C, Outline.evalAt_constraintSeries, ← hrow] at hvalue
    rw [Units.val_mul, Units.val_mk0, Units.val_mk0] at hrowy
    rw [hrowy]
    exact hvalue

theorem product_constant (s : AtY) (y : Fr) {m : Int × Fr} (hm : m ∈ (product v s y).monomials)
    (hne : m.2 ≠ 0) : m.1 ≠ 0 := by
  obtain ⟨i, hi, rfl⟩ := List.mem_mapIdx.1 hm
  intro hzero
  apply hne
  have hindex : i = 4 * n := by
    have : -(4 * n : Int) + i = 0 := hzero
    omega
  subst hindex
  exact List.getElem_set_self hi

theorem first_delivers (oracle : Oracle) (hsrs : srs.Tables d x alpha) (hd : 4 * n ≤ d) :
    Delivers oracle (first v oracle srs) fun m =>
      IsMultiple m.r (alpha * x ^ (d - n) * v.row.eval x) ∧
      ((Transcript.start []).absorbElement m.r).challenge oracle = .ok (m.y, m.transcript) := by
  have hd₁ := hsrs.one_le
  have hlength := v.length_row
  obtain ⟨r, hcommit, hr⟩ := exists_commitment hsrs n (f := v.row) <| by
    intro m hm _
    obtain ⟨hlow, hhigh⟩ := Laurent.mem_monomials hm
    have hlowest : v.row.lowest = -(2 * n) := rfl
    omega
  unfold first
  refine .bind_of_ok hcommit (.bind (.challenge oracle _) fun drawn hdrawn => ?_)
  exact .pure ⟨hr, hdrawn⟩

theorem second_delivers (oracle : Oracle) (hsrs : srs.Tables d x alpha) (hd : 4 * n ≤ d)
    {c : Circuit} (hwires : c.outline.InGates n) (hend : c.ending = .ok ()) {m₁ : First G₁}
    (hy : m₁.y ≠ 0) :
    Delivers oracle (second v oracle srs c m₁) fun m =>
      IsProduct v c.outline m₁.y m.polynomial ∧ IsMultiple m.t (alpha * m.polynomial.eval x) ∧
      (m₁.transcript.absorbElement m.t).challenge oracle = .ok (m.z, m.transcript) := by
  obtain ⟨s₀, hstart, hs₀⟩ := AtY.start_holds hy n
  obtain ⟨pass, done, hcomplete, hs⟩ := Synthesis.complete_eq (AtY.tracks m₁.y n) hs₀
    (Outline.fault_eq_none_iff.2 hwires) hend
  have hproduct := product_isProduct (v := v) hy hs
  obtain ⟨t, hcommit, ht⟩ := exists_commitment hsrs srs.degree (f := product v done.backend m₁.y) <| by
    intro m hm hne
    obtain ⟨hlow, hhigh⟩ := Laurent.mem_monomials hm
    have hlowest := hproduct.lowest_eq
    have hlength := hproduct.length_eq
    have hconstant := product_constant _ _ hm hne
    have hdegree := hsrs.degree_eq
    omega
  rw [hsrs.degree_eq, sub_self, zpow_zero, mul_one] at ht
  unfold second
  refine .bind_of_ok hstart (.bind_of_ok (congrArg outcome hcomplete) (.bind_of_ok hcommit ?_))
  refine .bind (.challenge oracle _) fun drawn hdrawn => ?_
  exact .pure ⟨hproduct, ht, hdrawn⟩

theorem third_delivers (oracle : Oracle) (hsrs : srs.Tables d x alpha) (hd : 4 * n ≤ d)
    {o : Outline} {m₁ : First G₁} {m₂ : Second G₁}
    (hr : IsMultiple m₁.r (alpha * x ^ (d - n) * v.row.eval x))
    (ht : IsMultiple m₂.t (alpha * m₂.polynomial.eval x))
    (hproduct : IsProduct v o m₁.y m₂.polynomial) (hy : m₁.y ≠ 0) (hz : m₂.z ≠ 0) :
    Delivers oracle (third v oracle srs m₁ m₂) fun p => p.r = m₁.r ∧ p.t = m₂.t ∧
      ∃ mix transcript,
        ((m₂.transcript.absorbScalar p.rz).absorbScalar p.rzy).challenge oracle =
          .ok (mix, transcript) ∧
        IsHonest d n x alpha v.row m₂.polynomial m₁.y m₂.z mix p := by
  have hd₁ := hsrs.one_le
  have hrow : v.row.lowest + v.row.coeffs.length ≤ d + 1 := by
    rw [v.length_row]
    show -(2 * n : Int) + (3 * n + 1 : Nat) ≤ d + 1
    omega
  obtain ⟨zyOpening, w, hopenzy, hzy, hw⟩ := exists_opening hsrs (f := v.row)
    (by show -d ≤ -(2 * n : Int); omega) hrow (mul_ne_zero hz hy)
  unfold third
  refine .bind (.challenge oracle _) fun drawn hdrawn => ?_
  obtain ⟨mix, transcript⟩ := drawn
  obtain ⟨f, hcombine, hlowest, hlength, heval⟩ :=
    combination_eq (v := v) hproduct.lowest_eq hproduct.length_eq mix
  obtain ⟨zOpening, u, hopenz, hz', hu⟩ := exists_opening hsrs (f := f) (by omega) (by omega) hz
  have hevalx := heval (.mk0 x hsrs.secret_ne_zero)
  have hevalz := heval (.mk0 m₂.z hz)
  rw [Units.val_mk0] at hevalx hevalz
  rw [hevalz] at hopenz
  rw [hevalx, hevalz] at hu
  refine .bind_of_ok hopenzy (.bind_of_ok hcombine (.bind_of_ok hopenz ?_))
  exact .pure ⟨rfl, rfl, mix, transcript, hdrawn, hr, ht, rfl, rfl, ⟨u, hz', hu⟩, ⟨w, hzy, hw⟩⟩

end

end Prover

end SnarkBatch
