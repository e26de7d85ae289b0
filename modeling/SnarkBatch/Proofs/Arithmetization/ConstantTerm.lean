import SnarkBatch.Proofs.Arithmetization.Assignment
import SnarkBatch.Proofs.Circuit.Inputs
import SnarkBatch.Proofs.ConstraintPolynomial.AtY

/-!
# The constant term

The constant term of `r(X, 1) · (r(X, y) + s(X, y))`, less `k(y)`, is what an assignment lacks to
satisfy the circuit (`Circuit.constantTerm_eq_defect`): each gate contributes
`(a · b - c) · (y^i + y^(-i))` and each constraint its value, less its public input, at `y^(n + q)`.
No two of these share a power of `y` with the same sign, so the whole vanishes for every `y` if the
assignment satisfies the circuit and only for a few otherwise (`Assignment.exists_zeros_defect`).
-/

namespace SnarkBatch

open LaurentPolynomial

/-! ## The defect of an assignment -/

namespace Assignment

variable {n : Nat} (v : Assignment n) (o : Outline) (publicInput : Nat → Fr)

/-- Every gate multiplies, and every constraint has the value of its public input. -/
def Satisfies : Prop :=
  (∀ i, v.a i * v.b i = v.c i) ∧
    ∀ constraint ∈ o.constraints.zipIdx 1, constraint.1.value v = publicInput constraint.2

instance : Decidable (v.Satisfies o publicInput) := inferInstanceAs (Decidable (_ ∧ _))

/-- What the gates and the constraints are off by, at a point. -/
def defect (y : Fr) : Fr :=
  ∑ i, (v.a i * v.b i - v.c i) * (y ^ (i + 1 : Nat) + y⁻¹ ^ (i + 1 : Nat)) +
    ((o.constraints.zipIdx 1).map fun (lc, q) => y ^ (q + n) * (lc.value v - publicInput q)).sum

theorem defect_eq_zero {v : Assignment n} {o : Outline} {publicInput : Nat → Fr}
    (h : v.Satisfies o publicInput) (y : Fr) : v.defect o publicInput y = 0 := by
  obtain ⟨hgates, hconstraints⟩ := h
  have hsum : ∀ constraint ∈ o.constraints.zipIdx 1,
      (fun (lc, q) => y ^ (q + n) * (LinearCombination.value lc v - publicInput q)) constraint =
        0 := by
    intro constraint hmem
    show y ^ (constraint.2 + n) * (constraint.1.value v - publicInput constraint.2) = 0
    rw [hconstraints constraint hmem, sub_self, mul_zero]
  rw [defect, List.map_congr_left hsum, List.map_const', List.sum_replicate, nsmul_zero, add_zero]
  refine Finset.sum_eq_zero fun i _ => ?_
  rw [hgates, sub_self, zero_mul]

/-- By how much the output of each gate is off. -/
def gateDefects : List Fr := List.ofFn fun i => v.a i * v.b i - v.c i

/-- By how much each constraint is off. -/
def constraintDefects : List Fr :=
  (o.constraints.zipIdx 1).map fun (lc, q) => lc.value v - publicInput q

/-- The coefficients of the defect, from that of `Y^(-n)` on. -/
def defects : List Fr :=
  v.gateDefects.reverse ++ 0 :: (v.gateDefects ++ v.constraintDefects o publicInput)

theorem length_gateDefects : v.gateDefects.length = n := List.length_ofFn

theorem length_defects : (v.defects o publicInput).length = 2 * n + o.constraints.length + 1 := by
  simp only [defects, constraintDefects, List.length_append, List.length_reverse, List.length_cons,
    List.length_map, List.length_zipIdx, length_gateDefects]
  omega

/-- The defect as a Laurent polynomial in `Y`. -/
noncomputable def defectSeries : Fr[T;T⁻¹] := series (-n) (v.defects o publicInput)

theorem evalAt_defectSeries (y : Frˣ) :
    evalAt y (v.defectSeries o publicInput) = v.defect o publicInput y := by
  have hconstraints : ∀ (lcs : List LinearCombination) (e : Nat),
      evalAt y (series (e + n) ((lcs.zipIdx e).map fun (lc, q) => lc.value v - publicInput q)) =
        ((lcs.zipIdx e).map fun (lc, q) => (y : Fr) ^ (q + n) * (lc.value v - publicInput q)).sum := by
    intro lcs
    induction lcs with
    | nil => intro e; exact map_zero _
    | cons lc lcs ih =>
      intro e
      have hnext := ih (e + 1)
      rw [Nat.cast_succ, add_right_comm] at hnext
      simp only [List.zipIdx_cons, List.map_cons, series_cons, List.sum_cons, map_add, map_mul,
        evalAt_C, evalAt_T, hnext]
      rw [← Nat.cast_add, zpow_natCast, mul_comm]
  have hseries := series_reverse_append v.gateDefects
    (v.gateDefects ++ v.constraintDefects o publicInput)
  rw [length_gateDefects] at hseries
  rw [defectSeries, defects, hseries, twoSided, series_append, length_gateDefects, map_add, map_add,
    evalAt_invert, constraintDefects, ← Nat.cast_one, hconstraints, defect, ← add_assoc, gateDefects,
    series_ofFn]
  refine congrArg₂ (· + ·) ?_ rfl
  simp only [map_sum, map_mul, evalAt_C, evalAt_T, Units.val_inv_eq_inv_val, ← Finset.sum_add_distrib]
  refine Finset.sum_congr rfl fun i _ => ?_
  rw [show ((1 : Nat) : Int) + (i : Nat) = (i + 1 : Nat) by push_cast; ring, zpow_natCast, zpow_natCast]
  ring

variable {v o publicInput}

theorem exists_defect_ne_zero (h : ¬v.Satisfies o publicInput) :
    ∃ d ∈ v.defects o publicInput, d ≠ 0 := by
  by_contra hall
  push Not at hall
  refine h ⟨fun i => ?_, fun constraint hmem => ?_⟩
  · refine sub_eq_zero.1 (hall _ (List.mem_append_left _ ?_))
    exact List.mem_reverse.2 (List.mem_ofFn.2 ⟨i, rfl⟩)
  · refine sub_eq_zero.1 (hall _ (List.mem_append_right _ (.tail _ (List.mem_append_right _ ?_))))
    exact List.mem_map.2 ⟨constraint, hmem, rfl⟩

theorem defectSeries_ne_zero (h : ¬v.Satisfies o publicInput) : v.defectSeries o publicInput ≠ 0 := by
  obtain ⟨d, hmem, hd⟩ := exists_defect_ne_zero h
  obtain ⟨i, hi, rfl⟩ := List.getElem_of_mem hmem
  intro hzero
  apply hd
  have hcoeff := coeff_series (-n) (v.defects o publicInput) (-n + i)
  rw [if_pos (by omega), show (-(n : Int) + i - -n).toNat = i by omega,
    List.getD_eq_getElem _ _ hi] at hcoeff
  rw [← hcoeff, ← defectSeries, hzero, AddMonoidAlgebra.coeff_zero, Finsupp.zero_apply]

/-- The defect of an assignment that does not satisfy the circuit vanishes at few points. -/
theorem exists_zeros_defect (h : ¬v.Satisfies o publicInput) :
    ∃ zeros : Finset Fr, zeros.card ≤ 2 * n + o.constraints.length ∧
      ∀ y, y ≠ 0 → v.defect o publicInput y = 0 → y ∈ zeros := by
  obtain ⟨zeros, hcard, hzeros⟩ := exists_zeros_series (-n) (exists_defect_ne_zero h)
  rw [length_defects, Nat.add_sub_cancel] at hcard
  refine ⟨zeros, hcard, fun y hy hdefect => hzeros (.mk0 y hy) ?_⟩
  exact (v.evalAt_defectSeries o publicInput (.mk0 y hy)).trans hdefect

end Assignment

/-! ## The constant term of a product -/

/-- The constant term of the product with `r`. -/
noncomputable def constantTerm (r : Fr[T;T⁻¹]) : Fr[T;T⁻¹] →+ Fr where
  toFun p := (r * p).coeff 0
  map_zero' := by rw [mul_zero, AddMonoidAlgebra.coeff_zero, Finsupp.zero_apply]
  map_add' p q := by rw [mul_add, AddMonoidAlgebra.coeff_add, Finsupp.add_apply]

theorem constantTerm_monomial (r : Fr[T;T⁻¹]) (d : Fr) (e : Int) :
    constantTerm r (C d * T e) = d * r.coeff (-e) := by
  show (r * (C d * T e)).coeff 0 = _
  rw [mul_left_comm, ← smul_eq_C_mul, AddMonoidAlgebra.coeff_smul, Finsupp.smul_apply, coeff_mul_T,
    zero_sub, smul_eq_mul]

namespace Assignment

variable {n : Nat} (v : Assignment n) (y : Fr)

theorem constantTerm_laurent :
    constantTerm (v.laurent 1) (v.laurent y) =
      ∑ i, v.a i * v.b i * (y ^ (i + 1 : Nat) + y⁻¹ ^ (i + 1 : Nat)) := by
  refine (map_sum (constantTerm (v.laurent 1)) _ _).trans (Finset.sum_congr rfl fun i _ => ?_)
  rw [map_add, map_add, constantTerm_monomial, constantTerm_monomial, constantTerm_monomial,
    neg_neg, neg_neg, coeff_laurent_one_right, coeff_laurent_one_left, coeff_laurent_one_above]
  ring

theorem sumTerms_value {o : Outline} (ho : o.InGates n) :
    (o.sumTerms fun q w c => c.value * y ^ (n + q) * (v.laurent 1).coeff (-w.exponent n)) =
      ((o.constraints.zipIdx 1).map fun (lc, q) => y ^ (q + n) * lc.value v).sum := by
  refine congrArg List.sum (List.map_congr_left ?_)
  rintro ⟨lc, q⟩ hmem
  show (lc.terms.map _).sum = y ^ (q + n) * (lc.terms.map _).sum
  rw [← List.sum_map_mul_left]
  refine congrArg List.sum (List.map_congr_left ?_)
  rintro ⟨w, c⟩ hterm
  have hw := (ho lc (List.fst_mem_of_mem_zipIdx hmem) _ hterm).1
  show c.value * y ^ (n + q) * _ = y ^ (q + n) * (c.value * v.value w)
  rw [coeff_laurent_neg_exponent v hw]
  ring

theorem constantTerm_constraintSeries {o : Outline} (ho : o.InGates n) :
    constantTerm (v.laurent 1) (o.constraintSeries n y) =
      -∑ i, v.c i * (y ^ (i + 1 : Nat) + y⁻¹ ^ (i + 1 : Nat)) +
        ((o.constraints.zipIdx 1).map fun (lc, q) => y ^ (q + n) * lc.value v).sum := by
  rw [Outline.constraintSeries, map_add, map_neg, map_sum, Outline.map_sumTerms, Finset.sum_range,
    ← v.sumTerms_value y ho]
  simp only [constantTerm_monomial]
  refine congrArg₂ (· + ·) (congrArg _ (Finset.sum_congr rfl fun i _ => ?_)) rfl
  rw [coeff_laurent_one_output, mul_comm]

end Assignment

/-! ## The circuit -/

theorem Circuit.sum_publicInput (c : Circuit) (y : Fr) (inputs : List Fr) :
    ((c.outline.constraints.zipIdx 1).map fun (_, q) =>
      y ^ (q + c.outline.gates) * c.outline.shape.publicInput inputs q).sum =
      c.outline.shape.publicValue y inputs := by
  have hsum : ∀ (f : Nat → Fr) (lcs : List LinearCombination),
      ((lcs.zipIdx 1).map fun (_, q) => f q).sum = ∑ q ∈ Finset.Icc 1 lcs.length, f q := by
    intro f lcs
    induction lcs using List.reverseRecOn with
    | nil => rfl
    | append_singleton lcs lc ih =>
      rw [List.zipIdx_append, List.map_append, List.sum_append, ih, List.length_append,
        List.length_singleton, Finset.sum_Icc_succ_top (by omega), List.zipIdx_singleton,
        List.map_singleton, List.sum_singleton, add_comm 1]
  rw [publicValue_eq, ← hsum fun q =>
    y ^ (q + c.outline.gates) * c.outline.shape.publicInput inputs q]

theorem Circuit.constantTerm_eq_defect (c : Circuit) (ho : c.outline.InGates c.outline.gates)
    (v : Assignment c.outline.gates) (inputs : List Fr) (y : Fr) :
    constantTerm (v.laurent 1) (v.laurent y + c.outline.constraintSeries c.outline.gates y) -
        c.outline.shape.publicValue y inputs =
      v.defect c.outline (c.outline.shape.publicInput inputs) y := by
  have hconstraints :
      ((c.outline.constraints.zipIdx 1).map fun (lc, q) => y ^ (q + c.outline.gates) *
        (lc.value v - c.outline.shape.publicInput inputs q)).sum =
      ((c.outline.constraints.zipIdx 1).map fun (lc, q) =>
        y ^ (q + c.outline.gates) * lc.value v).sum - c.outline.shape.publicValue y inputs := by
    rw [eq_sub_iff_add_eq, ← c.sum_publicInput, ← List.sum_map_add]
    refine congrArg List.sum (List.map_congr_left ?_)
    rintro ⟨lc, q⟩ -
    exact (mul_add _ _ _).symm.trans (congrArg _ (sub_add_cancel _ _))
  rw [map_add, v.constantTerm_laurent, v.constantTerm_constraintSeries y ho, Assignment.defect,
    hconstraints]
  simp only [sub_mul, Finset.sum_sub_distrib]
  ring

/-- The arithmetization is exact. For a circuit that does the same on every pass, with the shape it
measures as, the constant term of `r(X, 1) · (r(X, y) + s(X, y))` less `k(y)` is the defect of the
assignment, for every assignment and every `y` other than 0: it vanishes if the assignment satisfies
the circuit, and otherwise it is a Laurent polynomial in `y` that is not 0, with at most `2n + q`
zeros. -/
theorem constantTerm_sub_publicValue (c : Circuit) (hc : c.Uniform) (shape : Shape)
    (hshape : outcome (Shape.measure c) = .ok shape) (hwires : c.outline.InGates shape.gates)
    (v : Assignment shape.gates) (inputs : List Fr) :
    (∀ y, y ≠ 0 → ∀ pass, ∃ start, AtY.start y shape.gates = .ok start ∧
      outcome (Synthesis.run AtY.backend (c.atPass pass) start) = .ok () ∧
      (v.laurent 1 * (v.laurent y +
        (endState (Synthesis.run AtY.backend (c.atPass pass) start)).backend.laurent)).coeff 0 -
        shape.publicValue y inputs = v.defect c.outline (shape.publicInput inputs) y) ∧
    (v.Satisfies c.outline (shape.publicInput inputs) →
      ∀ y, v.defect c.outline (shape.publicInput inputs) y = 0) ∧
    (¬v.Satisfies c.outline (shape.publicInput inputs) →
      (∃ p : Fr[T;T⁻¹], p ≠ 0 ∧
        ∀ y : Frˣ, evalAt y p = v.defect c.outline (shape.publicInput inputs) y) ∧
      ∃ zeros : Finset Fr, zeros.card ≤ 2 * shape.gates + shape.constraints ∧
        ∀ y, y ≠ 0 → v.defect c.outline (shape.publicInput inputs) y = 0 → y ∈ zeros) := by
  rw [Shape.measure_eq] at hshape
  cases hend : c.ending with
  | error e => rw [hend] at hshape; cases hshape
  | ok _ =>
    rw [hend] at hshape
    obtain rfl : c.outline.shape = shape := Except.ok.inj hshape
    refine ⟨fun y hy pass => ?_, Assignment.defect_eq_zero, fun hv => ⟨?_, ?_⟩⟩
    · obtain ⟨ho, he⟩ := hc pass
      obtain ⟨start, hstart, hrun, hs⟩ := AtY.run_eq (c := c.atPass pass)
        (n := c.outline.gates) (ho ▸ hwires) hy
      refine ⟨start, hstart, hrun.trans (he.trans hend), ?_⟩
      rw [hs.laurent_eq, ho]
      exact c.constantTerm_eq_defect hwires v inputs y
    · exact ⟨_, Assignment.defectSeries_ne_zero hv, v.evalAt_defectSeries c.outline _⟩
    · exact Assignment.exists_zeros_defect hv

/-- Wires of `productCircuit`, with the secrets 2 and 3. -/
def productAssignment : Assignment 2 :=
  ⟨[1, .ofNat 2].get, [.ofNat 6, .ofNat 3].get, [.ofNat 6, .ofNat 6].get⟩

theorem productAssignment_satisfies :
    productAssignment.Satisfies productCircuit.outline (Shape.publicInput ⟨[1, 2], 2, 3⟩ [6]) := by
  rw [productCircuit_outline]
  decide +kernel

theorem productCircuit_constantTerm :
    ∃ start, AtY.start 5 2 = .ok start ∧
      (productAssignment.laurent 1 * (productAssignment.laurent 5 +
        (endState (Synthesis.run AtY.backend (productCircuit.atPass 3) start)).backend.laurent)).coeff 0 = 3875 := by
  obtain ⟨hvalue, hzero, -⟩ := constantTerm_sub_publicValue productCircuit productCircuit_uniform
    ⟨[1, 2], 2, 3⟩ (by decide +kernel) (by rw [productCircuit_outline]; decide) productAssignment [6]
  obtain ⟨start, hstart, -, hdefect⟩ := hvalue 5 (by decide +kernel) 3
  rw [hzero productAssignment_satisfies 5, sub_eq_zero] at hdefect
  have hpublic : Shape.publicValue ⟨[1, 2], 2, 3⟩ 5 [6] = 3875 := by decide +kernel
  exact ⟨start, hstart, hdefect.trans hpublic⟩

end SnarkBatch
