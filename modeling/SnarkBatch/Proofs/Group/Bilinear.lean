import Mathlib.Algebra.GroupWithZero.WithZero
import Mathlib.Algebra.Ring.Subring.Basic
import SnarkBatch.Proofs.Group.Multiples

/-!
# Bilinear pairings

A `BilinearPairing` is what is assumed of a pairing: its final power turns the value of a pair into
that of a map `e` which is bilinear on the multiples of the generators and not trivial. Then a
product of pairings is one exactly when the products of the scalars add up to 0
(`BilinearPairing.productIsOne_eq`).
-/

namespace SnarkBatch

open SourceGroup

/-- A pairing whose final power is a bilinear map to the multiplicative group of `E`. -/
structure BilinearPairing (G₁ G₂ E : Type) {F₁ F₂ T : Type} [SourceGroup G₁ F₁] [SourceGroup G₂ F₂]
    [Pairing G₁ G₂ T] [CommGroupWithZero E] where
  /-- The final power. -/
  final : T → E
  e : G₁ → G₂ → E
  final_one : final (Pairing.one G₁ G₂) = 1
  final_mul : ∀ s t, final (Pairing.mul G₁ G₂ s t) = final s * final t
  isOne_iff : ∀ t, final t ≠ 0 → (Pairing.isOne G₁ G₂ t = true ↔ final t = 1)
  /-- The value is only asked for where neither element is neutral. -/
  value_eq : ∀ {P : G₁} {Q : G₂} {k l : Fr}, IsMultiple P k → IsMultiple Q l →
    affine P ≠ none → affine Q ≠ none → ∃ t, Pairing.value P Q = .ok t ∧ final t = e P Q
  e_congr : ∀ {P P' : G₁} {Q Q' : G₂}, affine P = affine P' → affine Q = affine Q' → e P Q = e P' Q'
  e_zero_left : ∀ Q, e zero Q = 1
  e_zero_right : ∀ P, e P zero = 1
  e_add_left : ∀ {P P' : G₁} {Q : G₂} {k k' l : Fr}, IsMultiple P k → IsMultiple P' k' →
    IsMultiple Q l → e (add P P') Q = e P Q * e P' Q
  e_add_right : ∀ {P : G₁} {Q Q' : G₂} {k l l' : Fr}, IsMultiple P k → IsMultiple Q l →
    IsMultiple Q' l' → e P (add Q Q') = e P Q * e P Q'
  nondegenerate : e generator generator ≠ 1

namespace BilinearPairing

variable {G₁ G₂ E F₁ F₂ T : Type} [SourceGroup G₁ F₁] [SourceGroup G₂ F₂] [Pairing G₁ G₂ T]
  [CommGroupWithZero E] (b : BilinearPairing G₁ G₂ E)

/-- The map on scalars. -/
def onScalars (k l : Fr) : E := b.e (smul k generator) (smul l generator)

theorem e_eq {P : G₁} {Q : G₂} {k l : Fr} (hP : IsMultiple P k) (hQ : IsMultiple Q l) :
    b.e P Q = b.onScalars k l :=
  b.e_congr hP hQ

theorem exists_natCast (k : Fr) : ∃ n : Nat, (n : Fr) = k := ⟨k.val, Residue.ofNat_val k⟩

section Left

variable [LawfulGroup G₁]

theorem onScalars_zero_left (l : Fr) : b.onScalars 0 l = 1 := by
  have hzero : IsMultiple (zero : G₁) 0 := LawfulGroup.isMultiple_zero
  rw [← b.e_eq hzero (isMultiple_smul_generator l), b.e_zero_left]

theorem onScalars_add_left (k k' l : Fr) :
    b.onScalars (k + k') l = b.onScalars k l * b.onScalars k' l := by
  have hk : IsMultiple (smul k (generator : G₁)) k := isMultiple_smul_generator k
  have hk' : IsMultiple (smul k' (generator : G₁)) k' := isMultiple_smul_generator k'
  have hl : IsMultiple (smul l (generator : G₂)) l := isMultiple_smul_generator l
  rw [← b.e_eq (LawfulGroup.isMultiple_add hk hk') hl, b.e_add_left hk hk' hl]
  rfl

theorem onScalars_natCast_left (n : Nat) (l : Fr) : b.onScalars n l = b.onScalars 1 l ^ n := by
  induction n with
  | zero => rw [Nat.cast_zero, b.onScalars_zero_left, pow_zero]
  | succ n ih => rw [Nat.cast_succ, b.onScalars_add_left, ih, pow_succ]

theorem onScalars_ne_zero (k l : Fr) : b.onScalars k l ≠ 0 := by
  intro h
  have hsum := b.onScalars_add_left k (-k) l
  rw [add_neg_cancel, b.onScalars_zero_left, h, zero_mul] at hsum
  exact one_ne_zero hsum

end Left

section Right

variable [LawfulGroup G₂]

theorem onScalars_zero_right (k : Fr) : b.onScalars k 0 = 1 := by
  have hzero : IsMultiple (zero : G₂) 0 := LawfulGroup.isMultiple_zero
  rw [← b.e_eq (isMultiple_smul_generator k) hzero, b.e_zero_right]

theorem onScalars_add_right (k l l' : Fr) :
    b.onScalars k (l + l') = b.onScalars k l * b.onScalars k l' := by
  have hk : IsMultiple (smul k (generator : G₁)) k := isMultiple_smul_generator k
  have hl : IsMultiple (smul l (generator : G₂)) l := isMultiple_smul_generator l
  have hl' : IsMultiple (smul l' (generator : G₂)) l' := isMultiple_smul_generator l'
  rw [← b.e_eq hk (LawfulGroup.isMultiple_add hl hl'), b.e_add_right hk hl hl']
  rfl

theorem onScalars_natCast_right (k : Fr) (n : Nat) : b.onScalars k n = b.onScalars k 1 ^ n := by
  induction n with
  | zero => rw [Nat.cast_zero, b.onScalars_zero_right, pow_zero]
  | succ n ih => rw [Nat.cast_succ, b.onScalars_add_right, ih, pow_succ]

end Right

variable [LawfulGroup G₁] [LawfulGroup G₂]

/-- Scalars can be moved from one side to the other. -/
theorem onScalars_eq (k l : Fr) : b.onScalars k l = b.onScalars (k * l) 1 := by
  obtain ⟨m, rfl⟩ := exists_natCast k
  obtain ⟨n, rfl⟩ := exists_natCast l
  rw [b.onScalars_natCast_left, b.onScalars_natCast_right, ← Nat.cast_mul, b.onScalars_natCast_left,
    ← pow_mul, mul_comm]

theorem onScalars_one_eq_one_iff (k : Fr) : b.onScalars k 1 = 1 ↔ k = 0 := by
  constructor
  · intro h
    by_contra hk
    obtain ⟨n, hn⟩ := exists_natCast k⁻¹
    have hone : b.onScalars 1 k = 1 := by rw [b.onScalars_eq, one_mul, h]
    apply b.nondegenerate
    calc b.e generator generator
        = b.onScalars 1 1 := b.e_eq LawfulGroup.isMultiple_generator LawfulGroup.isMultiple_generator
      _ = b.onScalars n k := by rw [b.onScalars_eq n, hn, inv_mul_cancel₀ hk]
      _ = b.onScalars 1 k ^ n := b.onScalars_natCast_left n k
      _ = 1 := by rw [hone, one_pow]
  · rintro rfl
    exact b.onScalars_zero_left 1

/-- A pair with the scalars of its elements. -/
def AreMultiples (pair : G₁ × G₂) (scalars : Fr × Fr) : Prop :=
  IsMultiple pair.1 scalars.1 ∧ IsMultiple pair.2 scalars.2

/-- Skipping a pair and multiplying by its value come to the same. -/
theorem product_eq {pairs : List (G₁ × G₂)} {scalars : List (Fr × Fr)}
    (h : List.Forall₂ AreMultiples pairs scalars) :
    ∃ t, Pairing.product pairs = .ok t ∧
      b.final t = b.onScalars (scalars.map fun s => s.1 * s.2).sum 1 := by
  have hfold : ∀ {s : T} {c : Fr}, b.final s = b.onScalars c 1 →
      ∃ t, pairs.foldlM (fun product pair =>
          if (affine pair.1).isNone || (affine pair.2).isNone then pure product
          else return Pairing.mul G₁ G₂ product (← Pairing.value pair.1 pair.2)) s =
        (.ok t : Except Fault T) ∧
        b.final t = b.onScalars (c + (scalars.map fun s => s.1 * s.2).sum) 1 := by
    induction h with
    | nil =>
      intro s c hs
      exact ⟨s, rfl, by rwa [List.map_nil, List.sum_nil, add_zero]⟩
    | @cons pair scalars _ _ hpair _ ih =>
      intro s c hs
      obtain ⟨hP, hQ⟩ := hpair
      rw [List.foldlM_cons, List.map_cons, List.sum_cons, ← add_assoc]
      by_cases hskip : (affine pair.1).isNone || (affine pair.2).isNone
      · have hzero : scalars.1 * scalars.2 = 0 := by
          rw [Bool.or_eq_true, Option.isNone_iff_eq_none, Option.isNone_iff_eq_none,
            affine_eq_none_iff hP, affine_eq_none_iff hQ] at hskip
          exact mul_eq_zero.2 hskip
        rw [if_pos hskip, hzero, add_zero]
        exact ih hs
      · rw [if_neg hskip]
        rw [Bool.or_eq_true, Option.isNone_iff_eq_none, Option.isNone_iff_eq_none, not_or] at hskip
        obtain ⟨t, ht, hfinal⟩ := b.value_eq hP hQ hskip.1 hskip.2
        rw [ht]
        refine ih ?_
        rw [b.final_mul, hs, hfinal, b.e_eq hP hQ, b.onScalars_eq scalars.1, ← b.onScalars_add_left]
  obtain ⟨t, ht, hfinal⟩ := hfold (b.final_one.trans (b.onScalars_zero_left 1).symm)
  exact ⟨t, ht, by rw [hfinal, zero_add]⟩

include b in
/-- A product of pairings is one exactly when the products of the scalars add up to 0. -/
theorem productIsOne_eq {pairs : List (G₁ × G₂)} {scalars : List (Fr × Fr)}
    (h : List.Forall₂ AreMultiples pairs scalars) :
    Pairing.productIsOne pairs = .ok (decide ((scalars.map fun s => s.1 * s.2).sum = 0)) := by
  obtain ⟨t, ht, hfinal⟩ := b.product_eq h
  have hanswer : Pairing.isOne G₁ G₂ t = decide ((scalars.map fun s => s.1 * s.2).sum = 0) := by
    rw [Bool.eq_iff_iff, decide_eq_true_iff, ← b.onScalars_one_eq_one_iff, ← hfinal]
    exact b.isOne_iff t (hfinal ▸ b.onScalars_ne_zero _ 1)
  rw [Pairing.productIsOne, ht, ← hanswer]
  rfl

end BilinearPairing

/-! ## A pairing by scalars -/

section Exponents

variable {G₁ G₂ F₁ F₂ : Type} [SourceGroup G₁ F₁] [SourceGroup G₂ F₂]

/-- The scalar of the multiple with some coordinates, or 0. -/
noncomputable def scalarAt (G : Type) {F : Type} [SourceGroup G F] (coordinates : Option (F × F)) :
    Fr :=
  open Classical in
  if h : ∃ k, coordinates = affine (smul k (generator : G)) then h.choose else 0

theorem scalarAt_eq {G F : Type} [SourceGroup G F] [LawfulGroup G] {P : G} {k : Fr}
    (hP : IsMultiple P k) : scalarAt G (affine P) = k := by
  have h : ∃ k, affine P = affine (smul k (generator : G)) := ⟨k, hP⟩
  rw [scalarAt, dif_pos h]
  exact LawfulGroup.isMultiple_unique h.choose_spec hP

variable (G₁ G₂) in
/-- The pairing whose values are the products of the scalars, and whose products are their sums. -/
noncomputable abbrev scalarPairing : Pairing G₁ G₂ Fr where
  value P Q := .ok (scalarAt G₁ (affine P) * scalarAt G₂ (affine Q))
  one := 0
  mul s t := s + t
  isOne t := decide (t = 0)

variable (G₁ G₂) in
/-- The laws of a pairing can be met over any two groups. -/
noncomputable def scalarPairing_bilinear [LawfulGroup G₁] [LawfulGroup G₂] :
    @BilinearPairing G₁ G₂ (WithZero (Multiplicative Fr)) F₁ F₂ Fr _ _ (scalarPairing G₁ G₂) _ :=
  letI := scalarPairing G₁ G₂
  { final t := (Multiplicative.ofAdd t : Multiplicative Fr)
    e P Q := (Multiplicative.ofAdd (scalarAt G₁ (affine P) * scalarAt G₂ (affine Q)) :
      Multiplicative Fr)
    final_one := rfl
    final_mul s t := by
      rw [← WithZero.coe_mul, ← ofAdd_add]
      rfl
    isOne_iff t _ := by
      rw [← WithZero.coe_one, WithZero.coe_inj, ← ofAdd_zero, Multiplicative.ofAdd.injective.eq_iff]
      exact decide_eq_true_iff
    value_eq _ _ _ _ := ⟨_, rfl, rfl⟩
    e_congr hP hQ := by rw [hP, hQ]
    e_zero_left Q := by
      rw [scalarAt_eq LawfulGroup.isMultiple_zero, zero_mul]
      rfl
    e_zero_right P := by
      rw [scalarAt_eq (P := (zero : G₂)) LawfulGroup.isMultiple_zero, mul_zero]
      rfl
    e_add_left hP hP' _ := by
      rw [scalarAt_eq (LawfulGroup.isMultiple_add hP hP'), scalarAt_eq hP, scalarAt_eq hP', add_mul,
        ofAdd_add, WithZero.coe_mul]
    e_add_right _ hQ hQ' := by
      rw [scalarAt_eq (LawfulGroup.isMultiple_add hQ hQ'), scalarAt_eq hQ, scalarAt_eq hQ', mul_add,
        ofAdd_add, WithZero.coe_mul]
    nondegenerate := by
      rw [scalarAt_eq LawfulGroup.isMultiple_generator, scalarAt_eq LawfulGroup.isMultiple_generator,
        mul_one, ← WithZero.coe_one, Ne, WithZero.coe_inj]
      exact one_ne_zero (α := Fr) }

end Exponents

end SnarkBatch
