import SnarkBatch.Proofs.Commitment
import SnarkBatch.Proofs.Folding

/-!
# Claims about committed polynomials

The claim that a commitment to `f` opens at `z` to `v`, with an opening that was made for `v` as the
evidence, is off by

    α · (f(x) · (1 - x^(b - m)) - (x / z)^min(lowest, 0) · (f(z) - v)),

where `m` is the bound that the commitment was made with and `b` the one that it is declared with
(`Claim.defect_of_commitment`). So a batch with no other claim accepts it exactly when the bracket
is 0: with the right bound for the right value only, and with a wrong bound only for secrets that
make the difference vanish (`Batch.accepts_opening_iff`).
-/

namespace SnarkBatch

open SourceGroup

theorem Entry.balance_perm {entries entries' : List (Entry Fr)} (h : entries.Perm entries')
    (d n : Int) (x alpha : Fr) : balance d n x alpha entries = balance d n x alpha entries' := by
  unfold balance
  rw [(h.map (openingPart x)).sum_eq, (h.map valuePart).sum_eq, (h.map commitmentPart).sum_eq,
    (h.map boundedPart).sum_eq]

namespace Claim

/-- The bound that the commitment of a claim is declared with. -/
def declared {G : Type} (d n : Int) (c : Claim G) : Int := if c.isBounded then n else d

section

variable {d n m : Int} {x alpha : Fr} {s : Claim Fr}

/-- A commitment is shifted by the bound that it was made with, and back by the declared one. -/
theorem committed_of_commitment (hx : x ≠ 0) {value : Fr}
    (hs : s.commitment = alpha * x ^ (d - m) * value) :
    s.committed d n x = alpha * (x ^ (s.declared d n - m) * value) := by
  unfold committed declared
  cases s.isBounded with
  | false =>
    rw [if_neg Bool.false_ne_true, if_neg Bool.false_ne_true, hs, mul_assoc]
  | true =>
    have hshift : x ^ (n - d) * x ^ (d - m) = x ^ (n - m) := by
      rw [← zpow_add₀ hx, sub_add_sub_cancel]
    rw [if_pos rfl, if_pos rfl, hs]
    linear_combination alpha * value * hshift

theorem defect_of_commitment (hx : x ≠ 0) {f : Laurent} {v z : Fr} (hz : z ≠ 0)
    (hpoint : s.point = z) (hvalue : s.value = v)
    (hcommitment : s.commitment = alpha * x ^ (d - m) * f.eval x)
    (hevidence : s.evidence = (f.quotient v z).eval x) :
    s.defect d n x alpha = alpha * (f.eval x * (1 - x ^ (s.declared d n - m)) -
      (x / z) ^ min f.lowest 0 * (f.eval z - v)) := by
  unfold defect
  rw [committed_of_commitment hx hcommitment, hpoint, hvalue, hevidence]
  linear_combination alpha * f.eval_quotient v hz hx

end

end Claim

/-! ## The answer -/

namespace Batch

variable {G₁ G₂ F₁ F₂ E T : Type} [SourceGroup G₁ F₁] [SourceGroup G₂ F₂] [LawfulGroup G₁]
  [LawfulGroup G₂] [Pairing G₁ G₂ T] [CommGroupWithZero E] (e : BilinearPairing G₁ G₂ E)
include e

/-- A batch with one claim, whose parts may come in any order, accepts exactly when the claim is not
off by anything. -/
theorem answer_claim {d n : Int} {x alpha : Fr} {b : Batch G₁ G₂} (hkeys : b.HasKeys d n x alpha)
    (hb : b.Collects []) {c : Claim G₁} {s : Claim Fr} (hs : c.IsMultiple s) {rho : Fr}
    (hrho : rho ≠ 0) {entries : List (Entry G₁)} (hperm : entries.Perm (c.entries rho)) :
    b.answer entries = .ok (decide (s.defect d n x alpha = 0)) := by
  obtain ⟨scalars, hscalars, hperm'⟩ := List.perm_comp_forall₂ hperm (hs.entries rho)
  rw [answer_eq e hkeys hb hscalars, Entry.balance_perm hperm', Claim.balance_entries]
  simp only [mul_eq_zero, hrho, false_or]

/-- An opening is accepted exactly when it is true. The claim is that `C`, a commitment to `f` made
with the bound `m`, opens at `z` to `v`, and `W` was made as the evidence. With any coefficient
other than 0 and its parts in any order, the check of a new batch answers, and accepts if and only
if the difference of the bounds and the error of the value cancel. So it accepts with the right
bound if and only if the value is right, and with the right value if and only if the bound makes no
difference to the polynomial at the secret. -/
theorem accepts_opening_iff {d n m : Int} {x alpha v z rho : Fr} {srs : ReferenceString G₁ G₂}
    (hsrs : ReferenceString.ofSecrets d x alpha = .ok srs) (halpha : alpha ≠ 0) (hn : 0 ≤ n)
    (hnd : n ≤ d) {f : Laurent} (hz : z ≠ 0) (hrho : rho ≠ 0) {C W : G₁}
    (hcommit : commitment srs m f = .ok C) (hopen : opening srs f v z = .ok W)
    (isBounded : Bool) {bound : Int} (hbound : bound = if isBounded then n else d) :
    ∃ b : Batch G₁ G₂, start srs n = .ok b ∧
      ∀ entries, entries.Perm (Claim.entries ⟨W, z, v, C, isBounded⟩ rho) →
        ∃ accepted, b.answer entries = .ok accepted ∧
          (accepted = true ↔
            f.eval x * (1 - x ^ (bound - m)) = (x / z) ^ min f.lowest 0 * (f.eval z - v)) ∧
          (m = bound → (accepted = true ↔ v = f.eval z)) ∧
          (v = f.eval z → (accepted = true ↔ f.eval x = 0 ∨ x ^ (bound - m) = 1)) := by
  have htables := ReferenceString.tables_of_ofSecrets hsrs
  have hx := htables.secret_ne_zero
  obtain ⟨b, hstart, hkeys, hb⟩ := start_eq htables hn hnd
  refine ⟨b, hstart, fun entries hperm => ?_⟩
  let scalars : Claim Fr :=
    ⟨(f.quotient v z).eval x, z, v, alpha * x ^ (d - m) * f.eval x, isBounded⟩
  have hscalars : Claim.IsMultiple ⟨W, z, v, C, isBounded⟩ scalars :=
    ⟨opening_gives htables f v z W hopen, commitment_gives htables m f C hcommit, rfl, rfl, rfl⟩
  have hdefect : scalars.defect d n x alpha = _ :=
    Claim.defect_of_commitment hx hz rfl rfl rfl rfl
  have hdeclared : scalars.declared d n = bound := hbound.symm
  have haccepted : decide (scalars.defect d n x alpha = 0) = true ↔
      f.eval x * (1 - x ^ (bound - m)) = (x / z) ^ min f.lowest 0 * (f.eval z - v) := by
    rw [decide_eq_true_iff, hdefect, hdeclared, mul_eq_zero, or_iff_right halpha, sub_eq_zero]
  refine ⟨_, answer_claim e hkeys hb hscalars hrho hperm, haccepted, ?_, ?_⟩
  · rintro rfl
    have hpower : (x / z) ^ min f.lowest 0 ≠ 0 := zpow_ne_zero _ (div_ne_zero hx hz)
    rw [haccepted, sub_self, zpow_zero, sub_self, mul_zero, eq_comm, mul_eq_zero,
      or_iff_right hpower, sub_eq_zero, eq_comm]
  · rintro rfl
    rw [haccepted, sub_self, mul_zero, mul_eq_zero, sub_eq_zero, eq_comm (a := 1)]

omit e in
/-- A bounded commitment to `5·X⁻² + 7·X`, opened to its value at 3 and to another one. -/
theorem accepts_opening_bounded :
    letI := scalarPairing (Point Fp) (Point Fp2)
    ∃ (srs : ReferenceString (Point Fp) (Point Fp2)) (b : Batch (Point Fp) (Point Fp2))
      (C W W' : Point Fp),
      ReferenceString.ofSecrets 2 2 3 = .ok srs ∧ start srs 1 = .ok b ∧
      commitment srs 1 ⟨[5, 0, 0, 7], -2⟩ = .ok C ∧
      opening srs ⟨[5, 0, 0, 7], -2⟩ (Laurent.eval ⟨[5, 0, 0, 7], -2⟩ 3) 3 = .ok W ∧
      opening srs ⟨[5, 0, 0, 7], -2⟩ 1 3 = .ok W' ∧
      b.answer [.bounded C 4, .value (Laurent.eval ⟨[5, 0, 0, 7], -2⟩ 3) 4, .opening W 4 3] =
        .ok true ∧
      b.answer [.opening W' 4 3, .value 1 4, .bounded C 4] = .ok false := by
  let := scalarPairing (Point Fp) (Point Fp2)
  let f : Laurent := ⟨[5, 0, 0, 7], -2⟩
  obtain ⟨srs, hsrs⟩ : ∃ srs : ReferenceString (Point Fp) (Point Fp2),
      ReferenceString.ofSecrets 2 2 3 = .ok srs :=
    ReferenceString.exists_ofSecrets (by decide) (by decide +kernel) 3
  have htables := ReferenceString.tables_of_ofSecrets hsrs
  obtain ⟨C, hcommit, -⟩ := exists_commitment htables 1 (f := f) (by decide +kernel)
  obtain ⟨W, hopen⟩ := exists_opening_for htables (f := f) (by decide) (by decide) (f.eval 3) 3
  obtain ⟨W', hopen'⟩ := exists_opening_for htables (f := f) (by decide) (by decide) 1 3
  have haccepts := fun {v W} (hopen : opening srs f v 3 = .ok W) =>
    accepts_opening_iff (scalarPairing_bilinear (Point Fp) (Point Fp2)) hsrs (by decide +kernel)
      (n := 1) (by decide) (by decide) (by decide +kernel) (by decide +kernel : (4 : Fr) ≠ 0) hcommit
      hopen true rfl
  obtain ⟨b, hstart, hright⟩ := haccepts hopen
  obtain ⟨b', hstart', hwrong⟩ := haccepts hopen'
  obtain rfl : b' = b := Except.ok.inj (hstart'.symm.trans hstart)
  obtain ⟨accepted, hanswer, -, hiff, -⟩ :=
    hright _ (List.reverse_perm (Claim.entries ⟨W, 3, f.eval 3, C, true⟩ 4))
  obtain ⟨accepted', hanswer', -, hiff', -⟩ :=
    hwrong [.opening W' 4 3, .value 1 4, .bounded C 4] (.refl _)
  rw [(hiff rfl).2 rfl] at hanswer
  have hvalue : (1 : Fr) ≠ f.eval 3 := by decide +kernel
  rw [Bool.eq_false_iff.2 fun h => hvalue ((hiff' rfl).1 h)] at hanswer'
  exact ⟨srs, b', C, W, W', hsrs, hstart, hcommit, hopen, hopen', hanswer, hanswer'⟩

end Batch

end SnarkBatch
