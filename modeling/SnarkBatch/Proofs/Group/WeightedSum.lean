import SnarkBatch.Proofs.Curve.Groups
import SnarkBatch.Proofs.Group.Bilinear

/-!
# Weighted sums

A weighted sum of multiples of the generator is the multiple by its `totalScalar`, the sum of the
products of weights and scalars (`isMultiple_totalScalar`). So it has all the laws of a sum: the
order of the terms, the representation of their elements, and terms of weight 0 do not matter, and
it is linear in the weights (`multiexp_laws`). A weight may be given as any integer (`Weight`).
-/

namespace SnarkBatch

open SourceGroup

section

variable {G F : Type} [SourceGroup G F]

theorem weightedSum_filter {α : Type} (terms : List α) (f : α → G × Fr) (keep : α → Bool)
    (h : ∀ term ∈ terms, keep term = false → (f term).2 = 0) :
    weightedSum ((terms.filter keep).map f) = weightedSum (terms.map f) := by
  unfold weightedSum
  rw [List.foldl_map, List.foldl_map, List.foldl_filter]
  refine List.foldl_ext _ _ _ fun sum term hterm => ?_
  by_cases hkeep : keep term = true
  · rw [if_pos hkeep]
  · rw [if_neg hkeep, if_pos (h term hterm (Bool.eq_false_of_not_eq_true hkeep))]

/-- All elements of the terms are multiples of the generator. -/
def AreMultiples {W : Type} (terms : List (G × W)) : Prop :=
  ∀ term ∈ terms, ∃ k, IsMultiple term.1 k

theorem AreMultiples.map {W W' : Type} {terms : List (G × W)} (h : AreMultiples terms)
    (weight : G × W → W') : AreMultiples (terms.map fun term => (term.1, weight term)) := by
  intro term hterm
  obtain ⟨given, hgiven, rfl⟩ := List.mem_map.1 hterm
  exact h given hgiven

/-- The scalar of a weighted sum: the products of the weights and the scalars of the elements. -/
noncomputable def totalScalar (terms : List (G × Fr)) : Fr :=
  (terms.map fun term => term.2 * scalarAt G (affine term.1)).sum

variable [LawfulGroup G]

theorem isMultiple_totalScalar {terms : List (G × Fr)} (h : AreMultiples terms) :
    IsMultiple (weightedSum terms) (totalScalar terms) := by
  have hscaled : List.Forall₂ IsScaled terms
      (terms.map fun term => (scalarAt G (affine term.1), term.2)) := by
    rw [List.forall₂_map_right_iff, List.forall₂_same]
    intro term hterm
    obtain ⟨k, hk⟩ := h term hterm
    exact ⟨by rwa [scalarAt_eq hk], rfl⟩
  have hsum := isMultiple_weightedSum hscaled
  rw [List.map_map] at hsum
  exact hsum

theorem affine_weightedSum_eq {terms terms' : List (G × Fr)} (h : AreMultiples terms)
    (h' : AreMultiples terms') (htotal : totalScalar terms = totalScalar terms') :
    affine (weightedSum terms) = affine (weightedSum terms') :=
  (isMultiple_totalScalar h).affine_eq (htotal ▸ isMultiple_totalScalar h')

end

/-! ## Weights -/

/-- A weight as it is given: as a scalar, or as any integer. -/
inductive Weight
  | scalar (s : Fr)
  | integer (i : Int)
  deriving DecidableEq, Repr

namespace Weight

def toInt : Weight → Int
  | scalar s => s.val
  | integer i => i

/-- The scalar that it stands for. -/
def toFr : Weight → Fr
  | scalar s => s
  | integer i => .ofInt i

theorem toFr_eq (w : Weight) : w.toFr = (w.toInt : Fr) := by
  cases w with
  | scalar s =>
    apply Residue.toZMod_injective
    show Residue.toZMod s = Residue.toZMod (Residue.ofInt s.val)
    rw [Residue.toZMod_ofInt, Int.cast_natCast]
    rfl
  | integer i => rfl

theorem toFr_eq_zero_iff (w : Weight) : w.toFr = 0 ↔ w.toInt ≡ 0 [ZMOD scalarOrder] := by
  rw [toFr_eq, ← Int.cast_zero (R := Fr)]
  exact Residue.ofInt_eq_iff

end Weight

section

variable {G F : Type} [SourceGroup G F]

theorem multiexp_map {α : Type} (terms : List α) (point : α → G) (weight : α → Fr) :
    multiexp (terms.map point) (terms.map weight) =
      .ok (weightedSum (terms.map fun term => (point term, weight term))) := by
  rw [multiexp, if_pos (by rw [List.length_map, List.length_map]), List.zip_map']

theorem multiexp_eq_error_iff {points : List G} {scalars : List Fr} {e : Fault} :
    multiexp points scalars = .error e ↔
      points.length ≠ scalars.length ∧ e = .lengthMismatch points.length scalars.length := by
  unfold multiexp
  split
  · rename_i hlength
    exact ⟨nofun, fun h => absurd hlength h.1⟩
  · rename_i hlength
    exact ⟨fun h => ⟨hlength, (Except.error.inj h).symm⟩, fun h => h.2 ▸ rfl⟩

def reduceWeights (terms : List (G × Weight)) : List (G × Fr) :=
  terms.map fun term => (term.1, term.2.toFr)

/-- The coordinates of the weighted sum. -/
def combined (terms : List (G × Weight)) : Except Fault (Option (F × F)) :=
  affine <$> multiexp (terms.map (·.1)) (terms.map (·.2.toFr))

theorem combined_eq (terms : List (G × Weight)) :
    combined terms = .ok (affine (weightedSum (reduceWeights terms))) := by
  rw [combined, multiexp_map]
  rfl

theorem combined_filter (terms : List (G × Weight)) (keep : G × Weight → Bool)
    (h : ∀ term ∈ terms, keep term = false → term.2.toInt ≡ 0 [ZMOD scalarOrder]) :
    combined (terms.filter keep) = combined terms := by
  have hsum := weightedSum_filter terms (fun term => (term.1, term.2.toFr)) keep
    fun term hterm hkeep => term.2.toFr_eq_zero_iff.2 (h term hterm hkeep)
  rw [combined_eq, combined_eq, reduceWeights, hsum]
  rfl

variable [LawfulGroup G]

theorem combined_eq_of_totalScalar_eq {terms terms' : List (G × Weight)} (h : AreMultiples terms)
    (h' : AreMultiples terms')
    (htotal : totalScalar (reduceWeights terms) = totalScalar (reduceWeights terms')) :
    combined terms = combined terms' := by
  rw [combined_eq, combined_eq]
  exact congrArg Except.ok (affine_weightedSum_eq (h.map _) (h'.map _) htotal)

theorem totalScalar_reduceWeights {terms : List (G × Weight)} {ks : List Int}
    (h : List.Forall₂ (fun term (k : Int) => IsMultiple term.1 (.ofInt k)) terms ks) :
    totalScalar (reduceWeights terms) =
      .ofInt (List.zipWith (fun term k => term.2.toInt * k) terms ks).sum := by
  induction h with
  | nil => exact Int.cast_zero.symm
  | @cons term k terms ks hterm _ ih =>
    have hcast : (Residue.ofInt (term.2.toInt * k +
        (List.zipWith (fun term k => term.2.toInt * k) terms ks).sum) : Fr) =
      term.2.toInt * .ofInt k +
        .ofInt (List.zipWith (fun term k => term.2.toInt * k) terms ks).sum :=
      (Int.cast_add _ _).trans (congrArg (· + _) (Int.cast_mul _ _))
    rw [List.zipWith_cons_cons, List.sum_cons, hcast, ← ih, ← term.2.toFr_eq, ← scalarAt_eq hterm]
    rfl

theorem combined_eq_smul {terms : List (G × Weight)} {ks : List Int}
    (h : List.Forall₂ (fun term (k : Int) => IsMultiple term.1 (.ofInt k)) terms ks) :
    combined terms = .ok (affine (smul
      (.ofInt (List.zipWith (fun term k => term.2.toInt * k) terms ks).sum) (generator : G))) := by
  have hmultiples : AreMultiples terms := by
    intro term hterm
    obtain ⟨i, hi, rfl⟩ := List.getElem_of_mem hterm
    exact ⟨_, h.get hi (h.length_eq ▸ hi)⟩
  have hsum := isMultiple_totalScalar (hmultiples.map (·.2.toFr))
  rw [← reduceWeights, totalScalar_reduceWeights h] at hsum
  rw [combined_eq]
  exact congrArg Except.ok hsum

theorem combined_perm {terms terms' : List (G × Weight)} (h : AreMultiples terms)
    (hperm : terms.Perm terms') : combined terms' = combined terms := by
  have h' : AreMultiples terms' := fun term hterm => h term (hperm.mem_iff.2 hterm)
  exact combined_eq_of_totalScalar_eq h' h ((hperm.symm.map _).map _).sum_eq

theorem combined_split {before after : List (G × Weight)} {P P₁ P₂ : G} {w w₁ w₂ : Weight}
    (h : AreMultiples (before ++ (P, w) :: after)) (hP₁ : affine P₁ = affine P)
    (hP₂ : affine P₂ = affine P) (hw : w₁.toInt + w₂.toInt ≡ w.toInt [ZMOD scalarOrder]) :
    combined (before ++ (P₁, w₁) :: (P₂, w₂) :: after) = combined (before ++ (P, w) :: after) := by
  obtain ⟨hbefore, hhead, hafter⟩ : AreMultiples before ∧ (∃ k, IsMultiple P k) ∧
      AreMultiples after := by
    simpa only [AreMultiples, List.forall_mem_append, List.forall_mem_cons] using h
  obtain ⟨k, hk⟩ := hhead
  have h' : AreMultiples (before ++ (P₁, w₁) :: (P₂, w₂) :: after) :=
    List.forall_mem_append.2 ⟨hbefore, List.forall_mem_cons.2 ⟨⟨k, hk.of_affine_eq hP₁⟩,
      List.forall_mem_cons.2 ⟨⟨k, hk.of_affine_eq hP₂⟩, hafter⟩⟩⟩
  have hweight : w₁.toFr + w₂.toFr = w.toFr := by
    rw [Weight.toFr_eq, Weight.toFr_eq, Weight.toFr_eq, ← Int.cast_add]
    exact Residue.ofInt_eq_iff.2 hw
  refine combined_eq_of_totalScalar_eq h' h ?_
  simp only [totalScalar, reduceWeights, List.map_append, List.map_cons, List.sum_append,
    List.sum_cons, hP₁, hP₂, ← hweight]
  ring

theorem multiexp_linear {terms : List (G × Weight × Weight)} (h : AreMultiples terms)
    (a b : Weight) :
    ∃ S T : G, multiexp (terms.map (·.1)) (terms.map (·.2.1.toFr)) = .ok S ∧
      multiexp (terms.map (·.1)) (terms.map (·.2.2.toFr)) = .ok T ∧
      affine <$> multiexp (terms.map (·.1))
          (terms.map fun term => a.toFr * term.2.1.toFr + b.toFr * term.2.2.toFr) =
        .ok (affine (add (smul a.toFr S) (smul b.toFr T))) := by
  have hsum : ∀ weight : G × Weight × Weight → Fr,
      IsMultiple (weightedSum (terms.map fun term => (term.1, weight term)))
        (terms.map fun term => weight term * scalarAt G (affine term.1)).sum := by
    intro weight
    have htotal := isMultiple_totalScalar (h.map weight)
    rwa [totalScalar, List.map_map] at htotal
  refine ⟨_, _, multiexp_map .., multiexp_map .., ?_⟩
  rw [multiexp_map]
  refine congrArg Except.ok ((hsum _).affine_eq ?_)
  have hright := LawfulGroup.isMultiple_add (LawfulGroup.isMultiple_smul a.toFr (hsum (·.2.1.toFr)))
    (LawfulGroup.isMultiple_smul b.toFr (hsum (·.2.2.toFr)))
  have hscalar : (terms.map fun term => (a.toFr * term.2.1.toFr + b.toFr * term.2.2.toFr) *
        scalarAt G (affine term.1)).sum =
      a.toFr * (terms.map fun term => term.2.1.toFr * scalarAt G (affine term.1)).sum +
        b.toFr * (terms.map fun term => term.2.2.toFr * scalarAt G (affine term.1)).sum := by
    rw [← List.sum_map_mul_left, ← List.sum_map_mul_left, ← List.sum_map_add]
    refine congrArg List.sum (List.map_congr_left fun term _ => ?_)
    ring
  rwa [hscalar]

/-- A weighted sum of multiples of the generator is the multiple by the sum of the products. It does
not depend on the order of the terms, on how a weight is split over terms with one element, or on
terms whose weight is a multiple of the order, and it is linear in the weights. Only lists of
different lengths are refused. -/
theorem multiexp_laws :
    (∀ (terms : List (G × Weight)) (ks : List Int),
      List.Forall₂ (fun term (k : Int) => IsMultiple term.1 (.ofInt k)) terms ks →
      combined terms = .ok (affine (smul
        (.ofInt (List.zipWith (fun term k => term.2.toInt * k) terms ks).sum) (generator : G)))) ∧
    (∀ terms terms' : List (G × Weight), AreMultiples terms → terms.Perm terms' →
      combined terms' = combined terms) ∧
    (∀ (before after : List (G × Weight)) (P P₁ P₂ : G) (w w₁ w₂ : Weight),
      AreMultiples (before ++ (P, w) :: after) → affine P₁ = affine P → affine P₂ = affine P →
      w₁.toInt + w₂.toInt ≡ w.toInt [ZMOD scalarOrder] →
      combined (before ++ (P₁, w₁) :: (P₂, w₂) :: after) = combined (before ++ (P, w) :: after)) ∧
    (∀ (terms : List (G × Weight)) (keep : G × Weight → Bool),
      (∀ term ∈ terms, keep term = false → term.2.toInt ≡ 0 [ZMOD scalarOrder]) →
      combined (terms.filter keep) = combined terms) ∧
    (∀ (terms : List (G × Weight × Weight)) (a b : Weight), AreMultiples terms →
      ∃ S T : G, multiexp (terms.map (·.1)) (terms.map (·.2.1.toFr)) = .ok S ∧
        multiexp (terms.map (·.1)) (terms.map (·.2.2.toFr)) = .ok T ∧
        affine <$> multiexp (terms.map (·.1))
            (terms.map fun term => a.toFr * term.2.1.toFr + b.toFr * term.2.2.toFr) =
          .ok (affine (add (smul a.toFr S) (smul b.toFr T)))) ∧
    ∀ (points : List G) (weights : List Weight) (e : Fault),
      multiexp points (weights.map Weight.toFr) = .error e ↔
        points.length ≠ weights.length ∧ e = .lengthMismatch points.length weights.length ∧
          e.category = .argument := by
  refine ⟨fun _ _ => combined_eq_smul, fun _ _ => combined_perm,
    fun _ _ _ _ _ _ _ _ => combined_split, combined_filter, fun _ a b h => multiexp_linear h a b,
    fun points weights e => ?_⟩
  rw [multiexp_eq_error_iff, List.length_map]
  refine and_congr_right fun _ => ⟨fun h => ⟨h, ?_⟩, fun h => h.1⟩
  rw [h]
  rfl

end

/-- The first generator in two representations and the neutral element, with weights that are
negative and beyond the order; and a weight split over two representations of the second. -/
theorem multiexp_laws_generators :
    combined [(generator₁, .integer (-1)), (⟨3, 6, 3⟩, .integer (scalarOrder + 5)),
        (⟨0, 7, 0⟩, .scalar 4)] = .ok (affine (smul 4 (generator : Point Fp))) ∧
    combined [(generator₂.double, .scalar 2), (generator₂, .integer (-7)),
        (generator₂.double.add generator₂.neg, .integer (7 - scalarOrder))] =
      combined [(generator₂.double, .scalar 2), (generator₂, .integer 0)] ∧
    multiexp [generator₂] ([.scalar 0, .integer 0].map Weight.toFr) =
      .error (.lengthMismatch 1 2) := by
  obtain ⟨hmultiple, -⟩ := multiexp_laws (G := Point Fp)
  obtain ⟨-, -, hsplit, -, -, hrefused⟩ := multiexp_laws (G := Point Fp2)
  refine ⟨?_, ?_, (hrefused _ _ _).2 ⟨by decide, rfl, rfl⟩⟩
  · have hgenerator : IsMultiple generator₁ 1 := LawfulGroup.isMultiple_generator
    have hscaled : IsMultiple (⟨3, 6, 3⟩ : Point Fp) 1 :=
      hgenerator.of_affine_eq (by decide +kernel)
    have hinfinity : IsMultiple (⟨0, 7, 0⟩ : Point Fp) 0 :=
      LawfulGroup.isMultiple_zero.of_affine_eq (by decide +kernel)
    have hsum := hmultiple [(generator₁, .integer (-1)), (⟨3, 6, 3⟩, .integer (scalarOrder + 5)),
      (⟨0, 7, 0⟩, .scalar 4)] [1, 1, 0] (.cons hgenerator (.cons hscaled (.cons hinfinity .nil)))
    have hscalar : (Residue.ofInt (List.zipWith (fun (term : Point Fp × Weight) k =>
        term.2.toInt * k) [(generator₁, .integer (-1)), (⟨3, 6, 3⟩, .integer (scalarOrder + 5)),
          (⟨0, 7, 0⟩, .scalar 4)] [1, 1, 0]).sum : Fr) = 4 := by decide +kernel
    rwa [hscalar] at hsum
  · refine hsplit [(generator₂.double, .scalar 2)] [] generator₂ generator₂ _ (.integer 0) _ _ ?_
      rfl (by decide +kernel) (by decide +kernel)
    have hgenerator : IsMultiple generator₂ 1 := LawfulGroup.isMultiple_generator
    have hdouble : IsMultiple generator₂.double 2 :=
      (isMultiple_smul_generator 2).of_affine_eq (by decide +kernel)
    intro term hterm
    rcases List.mem_cons.1 hterm with rfl | hterm
    · exact ⟨2, hdouble⟩
    · obtain rfl := List.mem_singleton.1 hterm
      exact ⟨1, hgenerator⟩

end SnarkBatch
