import SnarkBatch.Proofs.Curve.Order

/-!
# Comparing points

Cross products compare the points that two triples stand for, with one exception: the triple
`(0, 0, 0)`, which stands for no point, has the same cross products as every other
(`Point.same_iff`). The arithmetic comes to it. Doubling `(1, 1, 0)` gives `(0, -27, 0)`, doubling
that gives `(0, 0, 0)`, and a multiple of a triple at infinity is computed by doubling it. Points of
odd order lead to no other triples at infinity (`Point.Combination.traced`). So combinations of them
compare as their affine coordinates do, but for those that were doubled twice at infinity
(`Point.combinations_compare`).
-/

namespace SnarkBatch.Point

open WeierstrassCurve

variable {F : Type} [Field F] [DecidableEq F]

/-! ## Triples -/

/-- The triple that stands for no point. -/
def null : Point F := ⟨0, 0, 0⟩

omit [DecidableEq F] in
theorem same_comm {P Q : Point F} : P.Same Q ↔ Q.Same P := by
  unfold Same
  rw [eq_comm, eq_comm (a := P.y * Q.z)]

omit [DecidableEq F] in
/-- A triple at infinity has the cross products of a finite one only if it is null. -/
theorem same_iff_of_infinity {P Q : Point F} (hP : P.z = 0) (hQ : Q.z ≠ 0) :
    P.Same Q ↔ P = null := by
  unfold Same
  rw [hP, mul_zero, mul_zero, mul_eq_zero_iff_right hQ, mul_eq_zero_iff_right hQ]
  constructor
  · rintro ⟨hx, hy⟩
    exact ext hx hy hP
  · rintro rfl
    exact ⟨rfl, rfl⟩

theorem same_iff {P Q : Point F} : P.Same Q ↔ P.affine = Q.affine ∨ P = null ∨ Q = null := by
  have hnull : ∀ {R : Point F}, R.z ≠ 0 → R ≠ null := fun hz h => hz (congrArg Point.z h)
  by_cases hP : P.z = 0
  · have hnone : P.affine = none := affine_eq_none_iff.2 hP
    by_cases hQ : Q.z = 0
    · have hsame : P.Same Q := by
        unfold Same
        rw [hP, hQ, mul_zero, mul_zero, mul_zero, mul_zero]
        exact ⟨rfl, rfl⟩
      exact iff_of_true hsame (.inl (hnone.trans (affine_eq_none_iff.2 hQ).symm))
    · rw [same_iff_of_infinity hP hQ, hnone, affine_of_ne hQ]
      simp [hnull hQ]
  · by_cases hQ : Q.z = 0
    · rw [same_comm, same_iff_of_infinity hQ hP, affine_eq_none_iff.2 hQ, affine_of_ne hP]
      simp [hnull hP]
    · rw [affine_of_ne hP, affine_of_ne hQ, Option.some_inj, Prod.mk_inj, div_eq_div_iff hP hQ,
        div_eq_div_iff hP hQ, or_iff_left (by simp [hnull hP, hnull hQ])]
      exact Iff.rfl

/-! ## Doubling at infinity -/

omit [DecidableEq F] in
theorem double_of_infinity {P : Point F} (hP : P.z = 0) : P.double = ⟨0, -27 * P.x ^ 6, 0⟩ := by
  ext
  · simp [double, hP]
  · simp only [double, hP]
    ring
  · simp [double, hP]

/-- What is known of the value `P` of a combination: it stands for a point whose order divides that
of the generators, and if it is at infinity then it is a triple `(1, ±1, 0)` doubled `d` times. -/
structure Traced (b : F) (d : Nat) (P : Point F) : Prop where
  order : ∃ A : (curve b).Point, P.Represents A ∧ scalarOrder • A = 0
  finite : P.z ≠ 0 → d = 0
  x_eq_zero_iff : P.z = 0 → (P.x = 0 ↔ 1 ≤ d)
  y_eq_zero_iff : P.z = 0 → (P.y = 0 ↔ 2 ≤ d)

namespace Traced

variable {b : F} {d d' : Nat} {P Q : Point F}

theorem eq_null_iff (h : Traced b d P) : P = null ↔ 2 ≤ d := by
  constructor
  · rintro rfl
    exact (h.y_eq_zero_iff rfl).1 rfl
  · intro hd
    have hz : P.z = 0 := by
      by_contra hz
      rw [h.finite hz] at hd
      omega
    exact ext ((h.x_eq_zero_iff hz).2 (by omega)) ((h.y_eq_zero_iff hz).2 hd) hz

theorem infinity : Traced b 0 (infinity : Point F) where
  order := ⟨0, represents_infinity, smul_zero _⟩
  finite _ := rfl
  x_eq_zero_iff _ := iff_of_false one_ne_zero (by omega)
  y_eq_zero_iff _ := iff_of_false one_ne_zero (by omega)

theorem of_finite (hz : P.z ≠ 0) (h : ∃ A : (curve b).Point, P.Represents A ∧ scalarOrder • A = 0) :
    Traced b 0 P :=
  ⟨h, fun _ => rfl, fun h => absurd h hz, fun h => absurd h hz⟩

theorem neg (h : Traced b d P) : Traced b d P.neg where
  order := by
    obtain ⟨A, hA, horder⟩ := h.order
    exact ⟨-A, hA.neg, by rw [smul_neg, horder, neg_zero]⟩
  finite := h.finite
  x_eq_zero_iff := h.x_eq_zero_iff
  y_eq_zero_iff hz := neg_eq_zero.trans (h.y_eq_zero_iff hz)

section

variable (h2 : (2 : F) ≠ 0)

include h2

/-- The point has odd order, so that it is not its own inverse. -/
theorem double_finite (h : Traced b d P) (hz : P.z ≠ 0) :
    P.double.z ≠ 0 ∧ Traced b 0 P.double := by
  obtain ⟨A, hA, horder⟩ := h.order
  have hdouble := hA.double h2
  have hdoubleOrder : scalarOrder • (A + A) = 0 := by rw [smul_add, horder, add_zero]
  have hfinite : P.double.z ≠ 0 := by
    intro hinfinity
    have htwo : (2 : Nat) • A = 0 := by
      rw [two_nsmul]
      exact coords_injective (hdouble.symm.trans (represents_zero.2 hinfinity))
    have hcoprime : Nat.Coprime 2 scalarOrder := by decide +kernel
    have hA0 : A = 0 := by
      rw [← AddMonoid.addOrderOf_eq_one_iff, ← Nat.dvd_one, ← hcoprime]
      exact Nat.dvd_gcd (addOrderOf_dvd_of_nsmul_eq_zero htwo)
        (addOrderOf_dvd_of_nsmul_eq_zero horder)
    rw [hA0] at hA
    exact hz (represents_zero.1 hA)
  exact ⟨hfinite, .of_finite hfinite ⟨_, hdouble, hdoubleOrder⟩⟩

theorem double_infinity (h3 : (3 : F) ≠ 0) (h : Traced b d P) (hz : P.z = 0) :
    Traced b (d + 1) P.double := by
  obtain ⟨A, hA, horder⟩ := h.order
  have h27 : (-27 : F) ≠ 0 := by
    rw [show (-27 : F) = -3 ^ 3 by norm_num]
    exact neg_ne_zero.2 (pow_ne_zero 3 h3)
  refine ⟨⟨_, hA.double h2, by rw [smul_add, horder, add_zero]⟩, ?_, ?_, ?_⟩
  all_goals rw [double_of_infinity hz]
  · exact fun h => absurd rfl h
  · exact fun _ => iff_of_true rfl (by omega)
  · intro _
    rw [mul_eq_zero, or_iff_right h27, pow_eq_zero_iff (by decide), h.x_eq_zero_iff hz]
    omega

/-- Of two triples at infinity the sum is the first; opposite points make a new one. -/
theorem add (h : Traced b d P) (h' : Traced b d' Q) :
    Traced b (if Q.IsInfinity then d else if P.IsInfinity then d' else 0) (P.add Q) := by
  obtain ⟨A, hA, horder⟩ := h.order
  obtain ⟨B, hB, horder'⟩ := h'.order
  have hsum : ∃ C : (curve b).Point, (P.add Q).Represents C ∧ scalarOrder • C = 0 :=
    ⟨A + B, hA.add h2 hB, by rw [smul_add, horder, horder', add_zero]⟩
  by_cases hQ : Q.IsInfinity
  · rw [if_pos hQ, Point.add, if_pos hQ]
    exact h
  rw [if_neg hQ]
  by_cases hP : P.IsInfinity
  · rw [if_pos hP, Point.add, if_neg hQ, if_pos hP]
    exact h'
  rw [if_neg hP]
  have hadd : P.add Q = P.double ∨ P.add Q = Point.infinity ∨ (P.add Q).z ≠ 0 := by
    by_cases hx : Q.x * P.z = P.x * Q.z
    · by_cases hy : Q.y * P.z = P.y * Q.z
      · left
        simp only [Point.add, if_neg hQ, if_neg hP, if_pos hx, if_pos hy]
      · right; left
        simp only [Point.add, if_neg hQ, if_neg hP, if_pos hx, if_neg hy]
    · right; right
      simp only [Point.add, if_neg hQ, if_neg hP, if_neg hx]
      have hv := sub_ne_zero.2 hx
      exact mul_ne_zero (mul_ne_zero hv (mul_ne_zero hv hv)) (mul_ne_zero hP hQ)
  obtain heq | heq | hz := hadd
  · rw [heq]
    exact (h.double_finite h2 hP).2
  · rw [heq]
    exact .infinity
  · exact .of_finite hz hsum

theorem nsmul_finite (h : Traced b d P) (hz : P.z ≠ 0) (n : Nat) : Traced b 0 (P.nsmul n) := by
  induction P, n using Point.nsmul.induct generalizing d with
  | case1 P =>
    rw [Point.nsmul, if_pos rfl]
    exact .infinity
  | case2 P =>
    rw [Point.nsmul, if_neg one_ne_zero, if_pos rfl]
    exact h.finite hz ▸ h
  | case3 P n h0 h1 hpar ih =>
    rw [Point.nsmul, if_neg h0, if_neg h1, if_pos hpar]
    obtain ⟨hfinite, hdouble⟩ := h.double_finite h2 hz
    exact ih hdouble hfinite
  | case4 P n h0 h1 hpar ih =>
    rw [Point.nsmul, if_neg h0, if_neg h1, if_neg hpar]
    obtain ⟨hfinite, hdouble⟩ := h.double_finite h2 hz
    -- Whatever the summands are, none of them was doubled at infinity.
    have hsum := (ih hdouble hfinite).add h2 h
    rw [h.finite hz, ite_self, ite_self] at hsum
    exact hsum

/-- The number is halved as often as the triple is doubled. -/
theorem nsmul_infinity (h3 : (3 : F) ≠ 0) (h : Traced b d P) (hz : P.z = 0) {n : Nat} (hn : n ≠ 0) :
    Traced b (d + n.log2) (P.nsmul n) := by
  have hlog : ∀ d n : Nat, n ≠ 0 → n ≠ 1 → d + n.log2 = d + 1 + (n / 2).log2 := by
    intro d n h0 h1
    rw [Nat.log2_def n, if_pos (by omega)]
    omega
  induction P, n using Point.nsmul.induct generalizing d with
  | case1 P => exact absurd rfl hn
  | case2 P =>
    rw [Point.nsmul, if_neg one_ne_zero, if_pos rfl]
    exact h
  | case3 P n h0 h1 hpar ih =>
    rw [Point.nsmul, if_neg h0, if_neg h1, if_pos hpar, hlog d n h0 h1]
    refine ih (h.double_infinity h2 h3 hz) ?_ (by omega)
    rw [double_of_infinity hz]
  | case4 P n h0 h1 hpar ih =>
    -- The odd summand is at infinity and adds nothing.
    rw [Point.nsmul, if_neg h0, if_neg h1, if_neg hpar, hlog d n h0 h1, Point.add,
      if_pos (show P.IsInfinity from hz)]
    refine ih (h.double_infinity h2 h3 hz) ?_ (by omega)
    rw [double_of_infinity hz]

end

end Traced

/-! ## Combinations -/

inductive OfPairing : {F : Type} → [Field F] → F → Prop
  | first : OfPairing AtePairing.curveConstant
  | twist : OfPairing AtePairing.twistConstant

namespace OfPairing

variable {b : F}

omit [DecidableEq F]

theorem smooth (hb : OfPairing b) : (curve b).Δ ≠ 0 := by
  cases hb with
  | first => exact curve_smooth
  | twist => exact twist_smooth

theorem two_ne_zero (hb : OfPairing b) : (2 : F) ≠ 0 := by
  cases hb <;> decide +kernel

theorem three_ne_zero (hb : OfPairing b) : (3 : F) ≠ 0 := by
  cases hb <;> decide +kernel

end OfPairing

/-- What is computed from given points and the neutral element. A scalar may be any integer. -/
inductive Combination (F : Type)
  | given (P : Point F)
  | infinity
  | mul (k : Int) (e : Combination F)
  | add (e e' : Combination F)
  | neg (e : Combination F)
  deriving DecidableEq, Repr

namespace Combination

def eval : Combination F → Point F
  | given P => P
  | infinity => Point.infinity
  | mul k e => e.eval.nsmul (Residue.ofInt k : Fr).val
  | add e e' => e.eval.add e'.eval
  | neg e => e.eval.neg

/-- The given points are on the curve and have the order of its generator. -/
def Valid (b : F) : Combination F → Prop
  | given P => P.OnCurve b ∧ ¬P.IsInfinity ∧ (P.nsmul scalarOrder).IsInfinity
  | infinity => True
  | mul _ e => e.Valid b
  | add e e' => e.Valid b ∧ e'.Valid b
  | neg e => e.Valid b

/-- How often the triple at infinity that the value was made of has been doubled; 0 for a finite
value. The product by 0 and the sum of opposite points begin anew. -/
def doublings : Combination F → Nat
  | given _ => 0
  | infinity => 0
  | mul k e =>
    let n := (Residue.ofInt k : Fr).val
    if e.eval.IsInfinity ∧ n ≠ 0 then e.doublings + n.log2 else 0
  | add e e' =>
    if e'.eval.IsInfinity then e.doublings else if e.eval.IsInfinity then e'.doublings else 0
  | neg e => e.doublings

/-- From the fourth on, the multiples of the neutral element have been doubled twice. -/
theorem two_le_doublings_mul_infinity {k : Int} :
    2 ≤ (mul k infinity : Combination F).doublings ↔ 4 ≤ (Residue.ofInt k : Fr).val := by
  simp only [doublings, eval, zero_add]
  by_cases hn : (Residue.ofInt k : Fr).val = 0
  · rw [if_neg (fun h => h.2 hn), hn]
    omega
  · rw [if_pos ⟨rfl, hn⟩, Nat.le_log2 hn]

theorem traced {b : F} (hb : OfPairing b) {e : Combination F} (he : e.Valid b) :
    Traced b e.doublings e.eval := by
  have h2 := hb.two_ne_zero
  induction e with
  | given P =>
    obtain ⟨hcurve, hfinite, horder⟩ := he
    obtain ⟨A, hA⟩ := hcurve.exists_represents hb.smooth
    have hmultiple : coords (scalarOrder • A) = coords (0 : (curve b).Point) :=
      (hA.nsmul h2 scalarOrder).symm.trans (represents_zero.2 horder)
    exact .of_finite hfinite ⟨A, hA, coords_injective hmultiple⟩
  | infinity => exact .infinity
  | mul k e ih =>
    simp only [eval, doublings]
    by_cases hz : e.eval.IsInfinity
    · by_cases hn : (Residue.ofInt k : Fr).val = 0
      · rw [if_neg (fun h => h.2 hn), hn, Point.nsmul, if_pos rfl]
        exact .infinity
      · rw [if_pos ⟨hz, hn⟩]
        exact (ih he).nsmul_infinity h2 hb.three_ne_zero hz hn
    · rw [if_neg (fun h => hz h.1)]
      exact (ih he).nsmul_finite h2 hz _
  | add e e' ih ih' => exact (ih he.1).add h2 (ih' he.2)
  | neg e ih => exact (ih he).neg

end Combination

/-- On either curve two combinations have the same cross products just if they stand for the same
point, or one of them was doubled twice at infinity. Without the latter this is an equivalence
relation, and nothing finite is the same as something at infinity. -/
theorem combinations_compare {b : F} (hb : OfPairing b) :
    (∀ e e' : Combination F, e.Valid b → e'.Valid b →
      (e.eval.Same e'.eval ↔
        e.eval.affine = e'.eval.affine ∨ 2 ≤ e.doublings ∨ 2 ≤ e'.doublings) ∧
      (¬e.eval.IsInfinity → e'.eval.IsInfinity → (e.eval.Same e'.eval ↔ 2 ≤ e'.doublings))) ∧
    Equivalence fun e e' : { e : Combination F // e.Valid b ∧ e.doublings < 2 } =>
      e.1.eval.Same e'.1.eval := by
  have hsame : ∀ e e' : Combination F, e.Valid b → e'.Valid b → (e.eval.Same e'.eval ↔
      e.eval.affine = e'.eval.affine ∨ 2 ≤ e.doublings ∨ 2 ≤ e'.doublings) := by
    intro e e' he he'
    rw [Point.same_iff, (Combination.traced hb he).eq_null_iff,
      (Combination.traced hb he').eq_null_iff]
  refine ⟨fun e e' he he' => ⟨hsame e e' he he', fun hfinite hinfinity => ?_⟩, ?_⟩
  · have hne : e.eval.affine ≠ e'.eval.affine := by
      rw [affine_of_ne hfinite, affine_eq_none_iff.2 hinfinity]
      exact Option.some_ne_none _
    rw [hsame e e' he he', or_iff_right hne, (Combination.traced hb he).finite hfinite,
      or_iff_right (by omega)]
  · have haffine : ∀ e e' : { e : Combination F // e.Valid b ∧ e.doublings < 2 },
        e.1.eval.Same e'.1.eval ↔ e.1.eval.affine = e'.1.eval.affine := by
      intro e e'
      rw [hsame _ _ e.2.1 e'.2.1, or_iff_left]
      exact not_or.2 ⟨not_le.2 e.2.2, not_le.2 e'.2.2⟩
    exact ⟨fun e => (haffine e e).2 rfl, fun h => (haffine _ _).2 ((haffine _ _).1 h).symm,
      fun h h' => (haffine _ _).2 (((haffine _ _).1 h).trans ((haffine _ _).1 h'))⟩

/-- The generators and multiples of the neutral elements. -/
theorem combinations_compare_generators :
    (¬(Combination.given generator₁).eval.Same (Combination.mul 3 .infinity).eval) ∧
      (Combination.given generator₂).eval.Same (Combination.mul (-1) .infinity).eval := by
  have h₁ := (combinations_compare .first).1 (.given generator₁) (.mul 3 .infinity)
    ⟨by decide +kernel, by decide +kernel, generator₁_order⟩ trivial
  have h₂ := (combinations_compare .twist).1 (.given generator₂) (.mul (-1) .infinity)
    ⟨by decide +kernel, by decide +kernel, generator₂_order⟩ trivial
  constructor
  · rw [h₁.2 (by decide +kernel) (by decide +kernel), Combination.two_le_doublings_mul_infinity]
    decide +kernel
  · rw [h₂.2 (by decide +kernel) (by decide +kernel), Combination.two_le_doublings_mul_infinity]
    decide +kernel

/-- Four times the neutral element is compared to the generator. -/
theorem four_infinity_same_generator₁ :
    (Combination.given generator₁).Valid AtePairing.curveConstant ∧
    (Combination.mul 4 .infinity).Valid AtePairing.curveConstant ∧
    (Combination.mul 4 .infinity).eval.Same (Combination.given generator₁).eval ∧
    (Combination.mul 4 .infinity).eval.affine ≠ (Combination.given generator₁).eval.affine :=
  ⟨⟨by decide +kernel, by decide +kernel, generator₁_order⟩, trivial, by decide +kernel,
    by decide +kernel⟩

end SnarkBatch.Point
