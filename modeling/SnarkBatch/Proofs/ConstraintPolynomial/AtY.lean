import SnarkBatch.Proofs.ConstraintPolynomial.Reference

/-!
# The accumulator at a fixed `Y`

`AtY` follows the outline of a circuit: after a synthesis its rows are the coefficients of
`Outline.constraintSeries` (`AtY.tracks`, `AtY.run_eq`), whatever the circuit, as long as its
constraints are on the wires of the gates that the accumulator was made for. It refuses any others.
-/

namespace SnarkBatch.AtY

open LaurentPolynomial

/-- `s(X, y)` as accumulated. -/
noncomputable def laurent (s : AtY) : Fr[T;T⁻¹] := twoSided s.negative s.positive

/-- The parameters and the sizes of an accumulator with a given power for the open constraint. -/
structure Sized (y : Fr) (n : Nat) (power : Fr) (s : AtY) : Prop where
  y_eq : s.y = y
  gates_eq : s.gates = n
  power_eq : s.power = power
  length_u : s.u.length = n
  length_v : s.v.length = n
  length_w : s.w.length = n

/-- The accumulator that belongs to an outline. -/
structure Holds (y : Fr) (n : Nat) (o : Outline) (s : AtY) : Prop
    extends Sized y n (y ^ (n + o.constraints.length)) s where
  constraints_eq : s.constraints = o.constraints.length
  laurent_eq : s.laurent = o.constraintSeries n y

theorem start_holds {y : Fr} (hy : y ≠ 0) (n : Nat) :
    ∃ s, start y n = .ok s ∧ s.Holds y n .empty := by
  refine ⟨_, if_neg hy, ⟨⟨rfl, rfl, rfl, ?_, ?_, ?_⟩, rfl, ?_⟩⟩
  · exact List.length_replicate
  · exact List.length_replicate
  · simp only [List.length_map, List.length_range]
  · simp only [laurent, twoSided, negative, positive, series_replicate_zero, series_append,
      List.length_replicate, series_map_range, Outline.constraintSeries_empty, map_zero, map_neg,
      zero_add, neg_mul, Finset.sum_neg_distrib]
    refine congrArg _ (Finset.sum_congr rfl fun i _ => ?_)
    rw [add_comm (1 : Int) n, add_right_comm]

/-! ## Inserting terms -/

section

variable {y : Fr} {n : Nat} {p : Fr} {s : AtY}

theorem insertTerm_eq (hs : s.Sized y n p) {w : Wire} {c : Coeff} (hw : w.InGates n)
    (hc : c ≠ .full none) (power : Fr) :
    ∃ s', insertTerm w c (some power) s = .ok () s' ∧ s'.Sized y n p ∧
      s'.constraints = s.constraints ∧
      s'.laurent = s.laurent + C (c.value * power) * T (w.exponent n) := by
  obtain ⟨y_eq, gates_eq, power_eq, length_u, length_v, length_w⟩ := hs
  obtain ⟨kind, index⟩ := w
  obtain ⟨hkind, hone, hle⟩ := hw
  have hrange : 1 ≤ index ∧ index ≤ (s.gates : Int) := ⟨hone, gates_eq ▸ hle⟩
  have hget : (get : EStateM Fault AtY AtY) s = .ok s s := rfl
  have hindex : (index - 1).toNat < n := by dsimp only at hle hone; omega
  rcases hkind with rfl | rfl | rfl
  · refine ⟨{ s with u := s.u.modify (index - 1).toNat (· + c.value * power) }, ?_,
      ⟨y_eq, gates_eq, power_eq, (List.length_modify ..).trans length_u, length_v, length_w⟩, rfl, ?_⟩
    · simp only [insertTerm, Coeff.times_some hc]
      exact (bind_ok hget).trans (congrFun (if_neg (not_not.2 hrange)) s)
    · simp only [laurent, twoSided, negative, positive]
      rw [series_modify_add _ _ (by omega), map_add, map_mul, invert_C, invert_T, add_right_comm,
        show (1 : Int) + (index - 1).toNat = index by omega]
      rfl
  · refine ⟨{ s with v := s.v.modify (index - 1).toNat (· + c.value * power) }, ?_,
      ⟨y_eq, gates_eq, power_eq, length_u, (List.length_modify ..).trans length_v, length_w⟩, rfl, ?_⟩
    · simp only [insertTerm, Coeff.times_some hc]
      exact (bind_ok hget).trans (congrFun (if_neg (not_not.2 hrange)) s)
    · simp only [laurent, twoSided, negative, positive]
      rw [series_append, series_append, List.length_modify, series_modify_add _ _ (by omega),
        show (1 : Int) + (index - 1).toNat = index by omega, add_right_comm (series 1 s.v),
        ← add_assoc]
      rfl
  · refine ⟨{ s with w := s.w.modify (index - 1).toNat (· + c.value * power) }, ?_,
      ⟨y_eq, gates_eq, power_eq, length_u, length_v, (List.length_modify ..).trans length_w⟩, rfl, ?_⟩
    · simp only [insertTerm, Coeff.times_some hc]
      exact (bind_ok hget).trans (congrFun (if_neg (not_not.2 hrange)) s)
    · simp only [laurent, twoSided, negative, positive]
      rw [series_append, series_append, series_modify_add _ _ (by omega), length_v,
        show (1 : Int) + n + (index - 1).toNat = index + n by omega, ← add_assoc, ← add_assoc,
        ← add_assoc]
      rfl

theorem insertTerm_error (hs : s.Sized y n p) {w : Wire} {c : Coeff} {e : Fault}
    (he : Outline.termFault .x n (w, c) = some e) (power : Fr) :
    ∃ s', insertTerm w c (some power) s = .error e s' := by
  have hget : (get : EStateM Fault AtY AtY) s = .ok s s := rfl
  unfold insertTerm
  rw [bind_ok hget, hs.gates_eq]
  unfold Outline.termFault at he
  dsimp only at he
  by_cases hrange : 1 ≤ w.index ∧ w.index ≤ (n : Int)
  · rw [if_pos hrange] at he
    rw [if_neg (not_not.2 hrange)]
    cases hkind : w.kind with
    | other name =>
      rw [hkind] at he
      cases he
      exact ⟨_, rfl⟩
    | _ =>
      rw [hkind] at he
      obtain ⟨rfl, he⟩ := Option.ite_none_right_eq_some.1 he
      cases he
      exact ⟨_, rfl⟩
  · rw [if_neg hrange] at he
    rw [if_pos hrange]
    cases he
    exact ⟨_, rfl⟩

theorem insertTerms_eq (hs : s.Sized y n p) {terms : List (Wire × Coeff)}
    (hterms : ∀ term ∈ terms, term.1.InGates n ∧ term.2 ≠ .full none) (power : Fr) :
    ∃ s', (terms.forM fun term => insertTerm term.1 term.2 (some power)) s = .ok () s' ∧
      s'.Sized y n p ∧ s'.constraints = s.constraints ∧
      s'.laurent = s.laurent +
        (terms.map fun (w, c) => C (c.value * power) * T (w.exponent n)).sum := by
  have hstep : ∀ term ∈ terms, ∀ t : AtY, t.Sized y n p ∧ t.constraints = s.constraints →
      ∃ t', insertTerm term.1 term.2 (some power) t = .ok () t' ∧
        (t'.Sized y n p ∧ t'.constraints = s.constraints) ∧
        t'.laurent = t.laurent + C (term.2.value * power) * T (term.1.exponent n) := by
    rintro term hmem t ⟨ht, hcount⟩
    obtain ⟨hw, hc⟩ := hterms term hmem
    obtain ⟨t', hrun, ht', hcount', hlaurent⟩ := insertTerm_eq ht hw hc power
    exact ⟨t', hrun, ⟨ht', hcount'.trans hcount⟩, hlaurent⟩
  obtain ⟨s', hrun, ⟨hs', hcount⟩, hlaurent⟩ := forM_adds hstep ⟨hs, rfl⟩
  exact ⟨s', hrun, hs', hcount, hlaurent⟩

theorem insertTerms_error (hs : s.Sized y n p) {terms : List (Wire × Coeff)} {e : Fault}
    (he : terms.findSome? (Outline.termFault .x n) = some e) (power : Fr) :
    ∃ s', (terms.forM fun term => insertTerm term.1 term.2 (some power)) s = .error e s' := by
  refine forM_error (P := (Sized y n p ·)) (fun term h t ht => ?_) (fun term e h t ht => ?_) he hs
  · obtain ⟨hw, hc⟩ := Outline.termFault_eq_none_iff.1 h
    obtain ⟨t', hrun, ht', -⟩ := insertTerm_eq ht hw hc power
    exact ⟨t', hrun, ht'⟩
  · exact insertTerm_error ht h power

end

/-! ## Whole circuits -/

def opened (s : AtY) : AtY := { s with constraints := s.constraints + 1, power := s.power * s.y }

theorem newConstraint_eq (s : AtY) : newConstraint s = .ok (s.power * s.y) s.opened := rfl

theorem openWith_holds {y : Fr} {n : Nat} {o : Outline} {s : AtY} {lc : LinearCombination}
    (hs : s.Holds y n o) (hlc : (o.addConstraint lc).InGates n) :
    ∃ s', backend.openWith lc s = .ok () s' ∧ s'.Holds y n (o.addConstraint lc) := by
  have hpower : s.power * s.y = y ^ (n + (o.addConstraint lc).constraints.length) := by
    rw [hs.power_eq, hs.y_eq, ← pow_succ, o.length_addConstraint, add_assoc]
  have hopened : s.opened.Sized y n (s.power * s.y) :=
    ⟨hs.y_eq, hs.gates_eq, rfl, hs.length_u, hs.length_v, hs.length_w⟩
  obtain ⟨s', hrun, hs', hcount, hlaurent⟩ :=
    insertTerms_eq hopened (Outline.inGates_addConstraint.1 hlc).2 (s.power * s.y)
  refine ⟨s', (bind_ok s.newConstraint_eq).trans hrun, ⟨hpower ▸ hs', ?_, ?_⟩⟩
  · rw [hcount, o.length_addConstraint, ← hs.constraints_eq]
    rfl
  · rw [hlaurent, show s.opened.laurent = s.laurent from rfl, hs.laurent_eq, hpower,
      Outline.constraintSeries, Outline.constraintSeries, Outline.sumTerms_addConstraint,
      o.length_addConstraint]
    exact add_assoc _ _ _

theorem openWith_error {y : Fr} {n : Nat} {o : Outline} {s : AtY} {lc : LinearCombination}
    {e : Fault} (hs : s.Holds y n o) (ho : o.fault .x n = none)
    (hlc : (o.addConstraint lc).fault .x n = some e) :
    ∃ s', backend.openWith lc s = .error e s' := by
  have hopened : s.opened.Sized y n (s.power * s.y) :=
    ⟨hs.y_eq, hs.gates_eq, rfl, hs.length_u, hs.length_v, hs.length_w⟩
  rw [Outline.fault_addConstraint, ho, Option.none_or] at hlc
  obtain ⟨s', hrun⟩ := insertTerms_error hopened hlc (s.power * s.y)
  exact ⟨s', (bind_ok s.newConstraint_eq).trans hrun⟩

theorem tracks (y : Fr) (n : Nat) :
    backend.Tracks (fun o s => s.Holds y n o) (Outline.fault .x n) where
  wants_eq _ := rfl
  setValue_eq _ _ _ := rfl
  getValue_eq _ _ := rfl
  newGate hs := ⟨hs.toSized, hs.constraints_eq, hs.laurent_eq⟩
  newInput _ hs := ⟨hs.toSized, hs.constraints_eq, hs.laurent_eq⟩
  openWith _ hs hlc := openWith_holds hs (Outline.fault_eq_none_iff.1 hlc)
  refuses _ hs ho hlc := openWith_error hs ho hlc
  fault_addGate _ := rfl
  fault_addInput _ _ := rfl
  fault_addConstraint _ h := by rw [Outline.fault_addConstraint, h, Option.some_or]

/-- A synthesis accumulates the constraint polynomial of its outline. -/
theorem run_eq {c : Circuit} {n : Nat} (hc : c.outline.InGates n) {y : Fr} (hy : y ≠ 0) :
    ∃ s, start y n = .ok s ∧ outcome (Synthesis.run backend c s) = c.ending ∧
      (endState (Synthesis.run backend c s)).backend.Holds y n c.outline := by
  obtain ⟨s, hstart, hs⟩ := start_holds hy n
  exact ⟨s, hstart, Synthesis.run_ends (tracks y n) hs rfl (Outline.fault_eq_none_iff.2 hc)⟩

theorem Holds.eval_eq {y : Fr} {n : Nat} {o : Outline} {s : AtY} (hs : s.Holds y n o) {x : Fr}
    (hx : x ≠ 0) : s.eval x = .ok (o.constraintValue n x y) := by
  have hvalue := Outline.evalAt_constraintSeries n o (.mk0 x hx) y
  rw [← hs.laurent_eq, laurent, evalAt_twoSided] at hvalue
  rw [eval, if_neg hx]
  exact congrArg Except.ok hvalue

end SnarkBatch.AtY
