import Mathlib.FieldTheory.Finiteness
import Mathlib.LinearAlgebra.Dual.Lemmas
import SnarkBatch.Proofs.Additivity

/-!
# Folding claims at random

A batch checks many claims by one equation, in which the defect of every claim is multiplied by the
coefficient of that claim (`Claim.balance_fold`). Claims that are right have no defect, so they are
accepted with any coefficients. Otherwise the coefficients that are accepted are the zeros of a
linear form other than 0: one vector of coefficients in `scalarOrder` (`Claim.card_accepting`).
-/

namespace SnarkBatch

open SourceGroup

/-- That a commitment opens at a point to a value. -/
structure Claim (G : Type) where
  evidence : G
  point : Fr
  value : Fr
  commitment : G
  /-- Whether the commitment is bounded by the number of gates. -/
  isBounded : Bool
  deriving DecidableEq, Repr

namespace Claim

section

variable {G : Type}

def elements (c : Claim G) : List G := [c.evidence, c.commitment]

def entries (c : Claim G) (r : Fr) : List (Entry G) :=
  [.opening c.evidence r c.point, .value c.value r,
    if c.isBounded then .bounded c.commitment r else .commitment c.commitment r]

/-- Claims as the entries of one batch. -/
def fold {k : Nat} (claims : Fin k → Claim G) (coefficients : Fin k → Fr) : List (Entry G) :=
  (List.finRange k).flatMap fun i => (claims i).entries (coefficients i)

/-- The same claim with scalars, of which the elements are the multiples. -/
structure IsMultiple {F : Type} [SourceGroup G F] (c : Claim G) (s : Claim Fr) : Prop where
  evidence : SourceGroup.IsMultiple c.evidence s.evidence
  commitment : SourceGroup.IsMultiple c.commitment s.commitment
  point_eq : s.point = c.point
  value_eq : s.value = c.value
  isBounded_eq : s.isBounded = c.isBounded

end

/-! ## The equation of a claim -/

section

variable (d n : Int) (x alpha : Fr)

/-- What the evidence of the claim would have to commit to. -/
def committed (s : Claim Fr) : Fr :=
  if s.isBounded then x ^ (n - d) * s.commitment else s.commitment

def Holds (s : Claim Fr) : Prop :=
  alpha * (x - s.point) * s.evidence + alpha * s.value = s.committed d n x

/-- What the claim is off by. -/
def defect (s : Claim Fr) : Fr :=
  alpha * (x - s.point) * s.evidence + alpha * s.value - s.committed d n x

variable {d n x alpha}

theorem defect_eq_zero {s : Claim Fr} : s.defect d n x alpha = 0 ↔ s.Holds d n x alpha :=
  sub_eq_zero

theorem balance_entries (s : Claim Fr) (r : Fr) :
    Entry.balance d n x alpha (s.entries r) = r * s.defect d n x alpha := by
  unfold Entry.balance entries defect committed
  cases s.isBounded <;>
    simp [Entry.openingPart, Entry.valuePart, Entry.commitmentPart, Entry.boundedPart] <;> ring

theorem balance_fold {k : Nat} (scalars : Fin k → Claim Fr) (coefficients : Fin k → Fr) :
    Entry.balance d n x alpha (fold scalars coefficients) =
      ∑ i, coefficients i * (scalars i).defect d n x alpha := by
  rw [fold, Entry.balance_flatMap, Fin.sum_univ_def]
  simp [balance_entries]

end

section

variable {G F : Type} [SourceGroup G F]

theorem IsMultiple.entries {c : Claim G} {s : Claim Fr} (h : c.IsMultiple s) (r : Fr) :
    List.Forall₂ Entry.IsMultiple (c.entries r) (s.entries r) := by
  obtain ⟨hevidence, hcommitment, hpoint, hvalue, hbounded⟩ := h
  unfold Claim.entries
  rw [hpoint, hvalue, hbounded]
  refine .cons (.opening r c.point hevidence) (.cons (.value c.value r) (.cons ?_ .nil))
  cases c.isBounded with
  | true => exact .bounded r hcommitment
  | false => exact .commitment r hcommitment

theorem IsMultiple.fold {k : Nat} {claims : Fin k → Claim G} {scalars : Fin k → Claim Fr}
    (h : ∀ i, (claims i).IsMultiple (scalars i)) (coefficients : Fin k → Fr) :
    List.Forall₂ Entry.IsMultiple (fold claims coefficients) (fold scalars coefficients) := by
  unfold Claim.fold
  induction List.finRange k with
  | nil => exact .nil
  | cons i is ih => exact List.rel_append ((h i).entries (coefficients i)) ih

theorem exists_isMultiple {c : Claim (Point Fp)}
    (h : ∀ P ∈ c.elements, P.OnCurve AtePairing.curveConstant) : ∃ s, c.IsMultiple s := by
  obtain ⟨w, hw⟩ := exists_isMultiple_of_onCurve (h c.evidence (by simp [elements]))
  obtain ⟨m, hm⟩ := exists_isMultiple_of_onCurve (h c.commitment (by simp [elements]))
  exact ⟨⟨w, c.point, c.value, m, c.isBounded⟩, hw, hm, rfl, rfl, rfl⟩

end

end Claim

/-! ## Counting coefficients -/

/-- One vector in `scalarOrder` is a zero of a linear form. -/
theorem card_zeros {k : Nat} {form : Fin k → Fr} (h : ∃ i, form i ≠ 0) :
    Nat.card {v : Fin k → Fr // ∑ i, v i * form i = 0} = scalarOrder ^ (k - 1) := by
  let f : Module.Dual Fr (Fin k → Fr) := ∑ i, form i • LinearMap.proj i
  have hf : ∀ v, f v = ∑ i, v i * form i := by
    intro v
    simp [f, mul_comm]
  have hne : f ≠ 0 := by
    obtain ⟨i, hi⟩ := h
    intro hzero
    apply hi
    have hvalue := hf (Pi.single i 1)
    simpa [hzero, Pi.single_apply] using hvalue.symm
  have := Fintype.ofFinite Fr
  have := Fintype.ofFinite (LinearMap.ker f)
  have hrank := Module.Dual.finrank_ker_add_one_of_ne_zero hne
  rw [Module.finrank_fin_fun] at hrank
  have hdimension : Module.finrank Fr (LinearMap.ker f) = k - 1 := by omega
  calc Nat.card {v : Fin k → Fr // ∑ i, v i * form i = 0}
      = Nat.card (LinearMap.ker f) := by
        refine Nat.card_congr (Equiv.subtypeEquivRight fun v => ?_)
        rw [LinearMap.mem_ker, hf]
    _ = Nat.card Fr ^ Module.finrank Fr (LinearMap.ker f) := by
        rw [Nat.card_eq_fintype_card, Module.card_eq_pow_finrank (K := Fr),
          Nat.card_eq_fintype_card]
    _ = scalarOrder ^ (k - 1) := by rw [Residue.card, hdimension]

/-! ## The answer of a batch -/

namespace Batch

variable {G₁ G₂ F₁ F₂ T : Type} [SourceGroup G₁ F₁] [SourceGroup G₂ F₂] [Pairing G₁ G₂ T]

/-- What the check answers once some entries are added. -/
def answer (b : Batch G₁ G₂) (entries : List (Entry G₁)) : Except Fault Bool :=
  outcome ((do entries.forM add; check) b)

variable {E : Type} [LawfulGroup G₁] [LawfulGroup G₂] [CommGroupWithZero E]
  (e : BilinearPairing G₁ G₂ E)
include e

theorem answer_eq {d n : Int} {x alpha : Fr} {b : Batch G₁ G₂} (hkeys : b.HasKeys d n x alpha)
    (hb : b.Collects []) {entries : List (Entry G₁)} {scalars : List (Entry Fr)}
    (h : List.Forall₂ Entry.IsMultiple entries scalars) :
    b.answer entries = .ok (decide (Entry.balance d n x alpha scalars = 0)) := by
  have hcheck := check_eq e (hkeys.foldl_push entries) (hb.foldl_push h)
  unfold answer
  rw [bind_ok (forM_add hb.finalized entries), hcheck, List.nil_append]
  rfl

end Batch

namespace Claim

variable {E T : Type} [Pairing (Point Fp) (Point Fp2) T] [CommGroupWithZero E]
  (e : BilinearPairing (Point Fp) (Point Fp2) E)
include e

/-- Folding at random is sound, and exactly how sound. Whatever claims with points on the curve are
folded in a new batch, the check answers. It accepts claims that are all right with any
coefficients, and any others with one vector of coefficients in `scalarOrder`. -/
theorem card_accepting {d n : Int} (hd : 1 ≤ d) (hn : 0 ≤ n) (hnd : n ≤ d) {x : Fr} (hx : x ≠ 0)
    (alpha : Fr) {k : Nat} (claims : Fin k → Claim (Point Fp))
    (hcurve : ∀ i, ∀ P ∈ (claims i).elements, P.OnCurve AtePairing.curveConstant) :
    ∃ (srs : ReferenceString (Point Fp) (Point Fp2)) (b : Batch (Point Fp) (Point Fp2))
      (scalars : Fin k → Claim Fr),
      ReferenceString.ofSecrets d x alpha = .ok srs ∧ Batch.start srs n = .ok b ∧
      (∀ i, (claims i).IsMultiple (scalars i)) ∧
      (∀ rho, ∃ accepted, b.answer (fold claims rho) = .ok accepted) ∧
      ((∀ i, (scalars i).Holds d n x alpha) → ∀ rho, b.answer (fold claims rho) = .ok true) ∧
      ((∃ i, ¬ (scalars i).Holds d n x alpha) →
        Nat.card {rho : Fin k → Fr // b.answer (fold claims rho) = .ok true} =
          scalarOrder ^ (k - 1)) := by
  obtain ⟨srs, hsrs⟩ : ∃ srs : ReferenceString (Point Fp) (Point Fp2),
      ReferenceString.ofSecrets d x alpha = .ok srs :=
    ReferenceString.exists_ofSecrets hd hx alpha
  obtain ⟨b, hstart, hkeys, hb⟩ :=
    Batch.start_eq (ReferenceString.tables_of_ofSecrets hsrs) hn hnd
  choose scalars hscalars using fun i => exists_isMultiple (hcurve i)
  have hanswer : ∀ rho, b.answer (fold claims rho) =
      .ok (decide (∑ i, rho i * (scalars i).defect d n x alpha = 0)) := by
    intro rho
    rw [Batch.answer_eq e hkeys hb (IsMultiple.fold hscalars rho), balance_fold]
  refine ⟨srs, b, scalars, hsrs, hstart, hscalars, fun rho => ⟨_, hanswer rho⟩, ?_, ?_⟩
  · intro hholds rho
    simp [hanswer, defect_eq_zero.2 (hholds _)]
  · rintro ⟨i, hi⟩
    have hne : ∃ i, (scalars i).defect d n x alpha ≠ 0 := ⟨i, mt defect_eq_zero.1 hi⟩
    rw [← card_zeros hne]
    refine Nat.card_congr (Equiv.subtypeEquivRight fun rho => ?_)
    simp [hanswer]

omit e in
/-- A right claim beside one that claims a value other than 0 of the zero polynomial. -/
theorem card_accepting_wrong_value :
    letI := scalarPairing (Point Fp) (Point Fp2)
    ∃ (srs : ReferenceString (Point Fp) (Point Fp2)) (b : Batch (Point Fp) (Point Fp2)),
      ReferenceString.ofSecrets 2 2 3 = .ok srs ∧ Batch.start srs 1 = .ok b ∧
      Nat.card {rho : Fin 2 → Fr //
        b.answer (fold ![⟨zero, 7, 0, ⟨4, 9, 0⟩, true⟩, ⟨zero, 5, 1, zero, false⟩] rho) =
          .ok true} = scalarOrder := by
  let := scalarPairing (Point Fp) (Point Fp2)
  let claims : Fin 2 → Claim (Point Fp) :=
    ![⟨zero, 7, 0, ⟨4, 9, 0⟩, true⟩, ⟨zero, 5, 1, zero, false⟩]
  have hcurve : ∀ i, ∀ P ∈ (claims i).elements, P.OnCurve AtePairing.curveConstant := by
    decide +kernel
  obtain ⟨srs, b, scalars, hsrs, hstart, hscalars, -, -, hcard⟩ :=
    card_accepting (scalarPairing_bilinear (Point Fp) (Point Fp2)) (d := 2) (n := 1) (by decide)
      (by decide) (by decide) (x := 2) (by decide +kernel) 3 claims hcurve
  have hwrong : ¬ (scalars 1).Holds 2 1 2 3 := by
    obtain ⟨hevidence, hcommitment, hpoint, hvalue, hbounded⟩ := hscalars 1
    have hw := LawfulGroup.isMultiple_unique hevidence LawfulGroup.isMultiple_zero
    have hc := LawfulGroup.isMultiple_unique hcommitment LawfulGroup.isMultiple_zero
    rw [Holds, committed, hw, hc, hpoint, hvalue, hbounded]
    exact (by decide +kernel : ¬ (3 * (2 - 5) * 0 + 3 * 1 : Fr) = 0)
  exact ⟨srs, b, hsrs, hstart, (hcard ⟨1, hwrong⟩).trans (pow_one _)⟩

end Claim

end SnarkBatch
