import SnarkBatch.Proofs.Circuit.Outline
import SnarkBatch.Proofs.Laurent.Series

/-!
# The constraint polynomial of an outline

`Outline.constraintValue` writes `s(x, y)` out as a sum over the gates and over the terms of all
constraints, and `Outline.constraintSeries` is `s(X, y)` as a Laurent polynomial in `X`. Both are
for constraints on the wires of the gates `1, …, n` (`Outline.InGates`). Other constraints have a
first fault (`Outline.fault`), with which they are refused.
-/

namespace SnarkBatch

open LaurentPolynomial

namespace Wire

/-- The power of `X` that stands for a wire. -/
def exponent (n : Nat) (w : Wire) : Int :=
  match w.kind with
  | .a => -w.index
  | .b => w.index
  | .c => w.index + n
  | .other _ => 0

/-- The wire belongs to one of the gates `1, …, n`. -/
structure InGates (n : Nat) (w : Wire) : Prop where
  kind : w.kind = .a ∨ w.kind = .b ∨ w.kind = .c
  one_le : 1 ≤ w.index
  le : w.index ≤ n

instance (n : Nat) (w : Wire) : Decidable (w.InGates n) :=
  decidable_of_iff ((w.kind = .a ∨ w.kind = .b ∨ w.kind = .c) ∧ 1 ≤ w.index ∧ w.index ≤ n)
    ⟨fun h => ⟨h.1, h.2.1, h.2.2⟩, fun h => ⟨h.kind, h.one_le, h.le⟩⟩

end Wire

namespace Coeff

theorem multiply_eq (c : Coeff) (w : Fr) : c.multiply w = c.value * w := by
  cases c with
  | zero _ => exact (zero_mul w).symm
  | one _ => exact (one_mul w).symm
  | negOne _ => exact (neg_one_mul w).symm
  | full v =>
    show w * v.getD 0 = 1 * v.getD 0 * w
    ring

theorem times_some {c : Coeff} (hc : c ≠ .full none) (w : Fr) :
    c.times (some w) = .ok (c.value * w) := by
  rw [← multiply_eq]
  cases c with
  | full v =>
    cases v with
    | none => exact absurd rfl hc
    | some v => rfl
  | _ => rfl

end Coeff

namespace Outline

/-- All constraints are on wires of the gates `1, …, n`, with coefficients that have a value. -/
def InGates (n : Nat) (o : Outline) : Prop :=
  ∀ lc ∈ o.constraints, ∀ term ∈ lc.terms, term.1.InGates n ∧ term.2 ≠ .full none

instance (n : Nat) (o : Outline) : Decidable (o.InGates n) :=
  inferInstanceAs (Decidable (∀ lc ∈ o.constraints, ∀ term ∈ lc.terms, _ ∧ _))

theorem inGates_addConstraint {n : Nat} {o : Outline} {lc : LinearCombination} :
    (o.addConstraint lc).InGates n ↔
      o.InGates n ∧ ∀ term ∈ lc.terms, term.1.InGates n ∧ term.2 ≠ .full none := by
  simp only [InGates, addConstraint, List.forall_mem_append, List.forall_mem_singleton]

/-- What an accumulator in the variable `free` for `n` gates has against a term. -/
def termFault (free : Axis) (n : Nat) (term : Wire × Coeff) : Option Fault :=
  if 1 ≤ term.1.index ∧ term.1.index ≤ n then
    match term.1.kind with
    | .other _ => some .wireKind
    | _ => if term.2 = .full none then some .missingOperand else none
  else some (.gateRange free term.1.index n)

theorem termFault_eq_none_iff {free : Axis} {n : Nat} {term : Wire × Coeff} :
    termFault free n term = none ↔ term.1.InGates n ∧ term.2 ≠ .full none := by
  obtain ⟨⟨kind, index⟩, coeff⟩ := term
  unfold termFault
  by_cases hrange : 1 ≤ index ∧ index ≤ n
  · rw [if_pos hrange]
    cases kind with
    | other name =>
      refine ⟨fun h => absurd h (Option.some_ne_none _), fun h => ?_⟩
      rcases h.1.kind with h | h | h <;> cases h
    | _ =>
      dsimp only
      split
      · rename_i hcoeff
        exact ⟨fun h => absurd h (Option.some_ne_none _), fun h => absurd hcoeff h.2⟩
      · rename_i hcoeff
        exact ⟨fun _ => ⟨⟨by simp, hrange.1, hrange.2⟩, hcoeff⟩, fun _ => rfl⟩
  · rw [if_neg hrange]
    exact ⟨fun h => absurd h (Option.some_ne_none _), fun h => absurd ⟨h.1.one_le, h.1.le⟩ hrange⟩

def fault (free : Axis) (n : Nat) (o : Outline) : Option Fault :=
  o.constraints.findSome? fun lc => lc.terms.findSome? (termFault free n)

theorem fault_addConstraint {free : Axis} {n : Nat} {o : Outline} {lc : LinearCombination} :
    (o.addConstraint lc).fault free n =
      (o.fault free n).or (lc.terms.findSome? (termFault free n)) := by
  simp only [fault, addConstraint, List.findSome?_append, List.findSome?_singleton]

theorem fault_eq_none_iff {free : Axis} {n : Nat} {o : Outline} :
    o.fault free n = none ↔ o.InGates n := by
  simp only [fault, List.findSome?_eq_none_iff, termFault_eq_none_iff, InGates]

/-! ## Sums over all terms -/

section

variable {M : Type} [AddCommMonoid M]

/-- The sum of a quantity over the terms of all constraints, which are numbered from 1. -/
def sumTerms (f : Nat → Wire → Coeff → M) (o : Outline) : M :=
  ((o.constraints.zipIdx 1).map fun (lc, q) => (lc.terms.map fun (w, c) => f q w c).sum).sum

theorem sumTerms_addConstraint (f : Nat → Wire → Coeff → M) (o : Outline) (lc : LinearCombination) :
    (o.addConstraint lc).sumTerms f =
      o.sumTerms f + (lc.terms.map fun (w, c) => f (o.constraints.length + 1) w c).sum := by
  simp only [sumTerms, addConstraint, List.zipIdx_append, List.map_append, List.sum_append,
    List.zipIdx_singleton, List.map_singleton, List.sum_singleton, add_comm 1]

theorem map_sumTerms {N : Type} [AddCommMonoid N] (h : M →+ N) (f : Nat → Wire → Coeff → M)
    (o : Outline) : h (o.sumTerms f) = o.sumTerms fun q w c => h (f q w c) := by
  simp only [sumTerms, map_list_sum, List.map_map, Function.comp_def]

end

/-! ## The polynomial -/

/-- `s(x, y)`, for a circuit with `n` gates. -/
def constraintValue (n : Nat) (o : Outline) (x y : Fr) : Fr :=
  -∑ i ∈ Finset.range n, (y ^ (i + 1) + y⁻¹ ^ (i + 1)) * x ^ (n + i + 1) +
    o.sumTerms fun q w c => c.value * y ^ (n + q) * x ^ w.exponent n

/-- `s(X, y)`, for a circuit with `n` gates. -/
noncomputable def constraintSeries (n : Nat) (o : Outline) (y : Fr) : Fr[T;T⁻¹] :=
  -∑ i ∈ Finset.range n, C (y ^ (i + 1) + y⁻¹ ^ (i + 1)) * T (n + i + 1) +
    o.sumTerms fun q w c => C (c.value * y ^ (n + q)) * T (w.exponent n)

theorem constraintValue_empty (n : Nat) (x y : Fr) :
    empty.constraintValue n x y =
      -∑ i ∈ Finset.range n, (y ^ (i + 1) + y⁻¹ ^ (i + 1)) * x ^ (n + i + 1) := add_zero _

theorem constraintSeries_empty (n : Nat) (y : Fr) :
    empty.constraintSeries n y =
      -∑ i ∈ Finset.range n, C (y ^ (i + 1) + y⁻¹ ^ (i + 1)) * T (n + i + 1) := add_zero _

theorem evalAt_constraintSeries (n : Nat) (o : Outline) (x : Frˣ) (y : Fr) :
    evalAt x (o.constraintSeries n y) = o.constraintValue n x y := by
  have hterms : evalAt x (o.sumTerms fun q w c => C (c.value * y ^ (n + q)) * T (w.exponent n)) =
      o.sumTerms fun q w c => c.value * y ^ (n + q) * x ^ w.exponent n := by
    refine (map_sumTerms (evalAt x).toAddMonoidHom _ o).trans ?_
    simp only [RingHom.toAddMonoidHom_eq_coe, AddMonoidHom.coe_coe, map_mul, evalAt_C, evalAt_T]
  rw [constraintSeries, constraintValue, map_add, map_neg, map_sum, hterms]
  refine congrArg₂ (· + ·) (congrArg _ (Finset.sum_congr rfl fun i _ => ?_)) rfl
  rw [map_mul, evalAt_C, evalAt_T]
  norm_cast

end Outline

end SnarkBatch
