import SnarkBatch.Proofs.Field.Prime

/-!
# Multiples of the generator

`IsMultiple P k` says that `P` is, in whatever representation, the generator times `k`. A
`LawfulGroup` is one whose multiples of the generator are a cyclic group of order `scalarOrder`
under its operations, which is all that is used of elliptic curves. The scalar of a weighted sum is
the weighted sum of the scalars (`isMultiple_weightedSum`).
-/

namespace SnarkBatch

namespace SourceGroup

variable {G F : Type} [SourceGroup G F]

def IsMultiple (P : G) (k : Fr) : Prop := affine P = affine (smul k (generator : G))

theorem isMultiple_smul_generator (k : Fr) : IsMultiple (smul k (generator : G)) k := rfl

theorem IsMultiple.of_affine_eq {P Q : G} {k : Fr} (hQ : IsMultiple Q k) (h : affine P = affine Q) :
    IsMultiple P k :=
  h.trans hQ

theorem IsMultiple.affine_eq {P Q : G} {k : Fr} (hP : IsMultiple P k) (hQ : IsMultiple Q k) :
    affine P = affine Q :=
  hP.trans (Eq.symm hQ)

end SourceGroup

open SourceGroup

/-- The multiples of the generator form a group of order `scalarOrder`: the scalars add up as the
elements do, and different scalars give different elements. -/
class LawfulGroup (G : Type) {F : outParam Type} [SourceGroup G F] : Prop where
  affine_zero : affine (zero : G) = none
  isMultiple_zero : IsMultiple (zero : G) 0
  isMultiple_generator : IsMultiple (generator : G) 1
  isMultiple_add : ∀ {P Q : G} {k l : Fr},
    IsMultiple P k → IsMultiple Q l → IsMultiple (add P Q) (k + l)
  isMultiple_neg : ∀ {P : G} {k : Fr}, IsMultiple P k → IsMultiple (neg P) (-k)
  isMultiple_smul : ∀ {P : G} {k : Fr} (l : Fr), IsMultiple P k → IsMultiple (smul l P) (l * k)
  isMultiple_unique : ∀ {P : G} {k l : Fr}, IsMultiple P k → IsMultiple P l → k = l

section

variable {G F : Type} [SourceGroup G F] [LawfulGroup G]

theorem affine_eq_none_iff {P : G} {k : Fr} (hP : IsMultiple P k) : affine P = none ↔ k = 0 := by
  have hzero : IsMultiple (zero : G) 0 := LawfulGroup.isMultiple_zero
  constructor
  · intro h
    exact LawfulGroup.isMultiple_unique hP (hzero.of_affine_eq (h.trans LawfulGroup.affine_zero.symm))
  · rintro rfl
    exact (hP.affine_eq hzero).trans LawfulGroup.affine_zero

theorem isMultiple_weightedSum_nil : IsMultiple (weightedSum ([] : List (G × Fr))) 0 :=
  LawfulGroup.isMultiple_zero

theorem isMultiple_weightedSum_concat {terms : List (G × Fr)} {P : G} {k l : Fr} (c : Fr)
    (hterms : IsMultiple (weightedSum terms) k) (hP : IsMultiple P l) :
    IsMultiple (weightedSum (terms ++ [(P, c)])) (k + c * l) := by
  rw [weightedSum, List.foldl_append, List.foldl_cons, List.foldl_nil]
  by_cases hzero : c = 0
  · rw [if_pos hzero, hzero, zero_mul, add_zero]
    exact hterms
  · rw [if_neg hzero]
    exact LawfulGroup.isMultiple_add hterms (LawfulGroup.isMultiple_smul c hP)

/-- A term with its scalar in place of its element. -/
def IsScaled (term : G × Fr) (scalars : Fr × Fr) : Prop :=
  IsMultiple term.1 scalars.1 ∧ term.2 = scalars.2

theorem isMultiple_weightedSum {terms : List (G × Fr)} {scalars : List (Fr × Fr)}
    (h : List.Forall₂ IsScaled terms scalars) :
    IsMultiple (weightedSum terms) (scalars.map fun s => s.2 * s.1).sum := by
  have hfold : ∀ {sum : G} {k : Fr}, IsMultiple sum k →
      IsMultiple (terms.foldl (fun sum term =>
        if term.2 = 0 then sum else add sum (smul term.2 term.1)) sum)
        (k + (scalars.map fun s => s.2 * s.1).sum) := by
    induction h with
    | nil =>
      intro sum k hsum
      rwa [List.map_nil, List.sum_nil, add_zero]
    | @cons term _ _ _ hterm _ ih =>
      intro sum k hsum
      obtain ⟨hmultiple, hscalar⟩ := hterm
      rw [List.foldl_cons, List.map_cons, List.sum_cons, ← add_assoc, ← hscalar]
      by_cases hzero : term.2 = 0
      · rw [if_pos hzero, hzero, zero_mul, add_zero]
        exact ih hsum
      · rw [if_neg hzero]
        exact ih (LawfulGroup.isMultiple_add hsum (LawfulGroup.isMultiple_smul _ hmultiple))
  have hsum := hfold LawfulGroup.isMultiple_zero
  rwa [zero_add] at hsum

end

end SnarkBatch
