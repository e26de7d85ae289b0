import SnarkBatch.Batch
import SnarkBatch.Proofs.Curve.Groups
import SnarkBatch.Proofs.Group.Bilinear
import SnarkBatch.Proofs.ReferenceString
import SnarkBatch.Proofs.Result

/-!
# The equation of a batch

With the scalars of its elements in place of the elements, a list of entries has the balance

    α · Σ r · (x - z) · w + α · Σ r · v - Σ r · c - x^(n - d) · Σ r · c',

summed over its openings, values, commitments and bounded commitments. A batch adds up just that:
`Batch.Collects` is what its sums are after any sequence of entries, each entry keeps it
(`Batch.Collects.push`), and the check accepts exactly when the balance is 0 (`Batch.check_eq`).
-/

namespace SnarkBatch

open SourceGroup

/-! ## Entries in scalars -/

namespace Entry

/-- The same entry with scalars, of which the elements are the multiples. -/
inductive IsMultiple {G F : Type} [SourceGroup G F] : Entry G → Entry Fr → Prop
  | opening {evidence : G} {w : Fr} (r z : Fr) :
    SourceGroup.IsMultiple evidence w → IsMultiple (.opening evidence r z) (.opening w r z)
  | value (v r : Fr) : IsMultiple (.value v r) (.value v r)
  | commitment {element : G} {c : Fr} (r : Fr) :
    SourceGroup.IsMultiple element c → IsMultiple (.commitment element r) (.commitment c r)
  | bounded {element : G} {c : Fr} (r : Fr) :
    SourceGroup.IsMultiple element c → IsMultiple (.bounded element r) (.bounded c r)

def openingPart (x : Fr) : Entry Fr → Fr
  | opening w r z => r * (x - z) * w
  | _ => 0

def valuePart : Entry Fr → Fr
  | value v r => r * v
  | _ => 0

def commitmentPart : Entry Fr → Fr
  | commitment c r => r * c
  | _ => 0

def boundedPart : Entry Fr → Fr
  | bounded c r => r * c
  | _ => 0

/-- The evidence of an opening, without and with its point. -/
def evidencePart : Entry Fr → Fr
  | opening w r _ => r * w
  | _ => 0

def pointPart : Entry Fr → Fr
  | opening w r z => -(z * r) * w
  | _ => 0

theorem openingPart_eq (x : Fr) (e : Entry Fr) :
    e.openingPart x = x * e.evidencePart + e.pointPart := by
  cases e with
  | opening w r z =>
    simp only [openingPart, evidencePart, pointPart]
    ring
  | _ => exact (by rw [mul_zero, add_zero] : (0 : Fr) = x * 0 + 0)

theorem sum_openingPart (x : Fr) (entries : List (Entry Fr)) :
    (entries.map (openingPart x)).sum =
      x * (entries.map evidencePart).sum + (entries.map pointPart).sum := by
  rw [← List.sum_map_mul_left, ← List.sum_map_add]
  exact congrArg List.sum (List.map_congr_left fun e _ => openingPart_eq x e)

/-- What the claims are off by. -/
def balance (d n : Int) (x alpha : Fr) (entries : List (Entry Fr)) : Fr :=
  alpha * (entries.map (openingPart x)).sum + alpha * (entries.map valuePart).sum -
    (entries.map commitmentPart).sum - x ^ (n - d) * (entries.map boundedPart).sum

theorem balance_append (d n : Int) (x alpha : Fr) (entries entries' : List (Entry Fr)) :
    balance d n x alpha (entries ++ entries') =
      balance d n x alpha entries + balance d n x alpha entries' := by
  simp only [balance, List.map_append, List.sum_append]
  ring

section

variable {G F : Type} [SourceGroup G F] (d n : Int) (x alpha : Fr)

/-- Claims that are right. -/
def Balanced (entries : List (Entry G)) : Prop :=
  ∃ scalars, List.Forall₂ IsMultiple entries scalars ∧ balance d n x alpha scalars = 0

variable {d n x alpha}

theorem Balanced.nil : Balanced d n x alpha ([] : List (Entry G)) := by
  refine ⟨[], .nil, ?_⟩
  simp only [balance, List.map_nil, List.sum_nil]
  ring

theorem Balanced.append {as bs : List (Entry G)} (ha : Balanced d n x alpha as)
    (hb : Balanced d n x alpha bs) : Balanced d n x alpha (as ++ bs) := by
  obtain ⟨as', has, ha⟩ := ha
  obtain ⟨bs', hbs, hb⟩ := hb
  exact ⟨as' ++ bs', List.rel_append has hbs, by rw [balance_append, ha, hb, add_zero]⟩

theorem Balanced.flatten {A : Type} {items : List A} {each : List (List (Entry G))}
    (h : List.Forall₂ (fun _ entries => Balanced d n x alpha entries) items each) :
    Balanced d n x alpha each.flatten := by
  induction h with
  | nil => exact .nil
  | cons hhead _ ih => exact hhead.append ih

end

end Entry

namespace Batch

variable {G₁ G₂ F₁ F₂ : Type} [SourceGroup G₁ F₁] [SourceGroup G₂ F₂]

/-! ## The invariant -/

/-- The elements that the sums are paired with, for the degree `d` and `n` gates. -/
structure HasKeys (d n : Int) (x alpha : Fr) (b : Batch G₁ G₂) : Prop where
  g : IsMultiple b.g 1
  alphaXKey : IsMultiple b.alphaXKey (alpha * x)
  alphaKey : IsMultiple b.alphaKey alpha
  fullKey : IsMultiple b.fullKey (-1)
  boundedKey : IsMultiple b.boundedKey (-x ^ (n - d))

/-- The sums of an open batch after some entries. -/
structure Collects (entries : List (Entry Fr)) (b : Batch G₁ G₂) : Prop where
  alphaX : IsMultiple (weightedSum b.alphaX) (entries.map Entry.evidencePart).sum
  alpha : IsMultiple (weightedSum b.alpha) (entries.map Entry.pointPart).sum
  full : IsMultiple (weightedSum b.full) (entries.map Entry.commitmentPart).sum
  bounded : IsMultiple (weightedSum b.bounded) (entries.map Entry.boundedPart).sum
  value : b.value = (entries.map Entry.valuePart).sum
  finalized : b.finalized = false

section

variable [LawfulGroup G₁] [LawfulGroup G₂] {d n : Int} {x alpha : Fr}

theorem start_eq {srs : ReferenceString G₁ G₂} (hsrs : srs.Tables d x alpha) (hn : 0 ≤ n)
    (hnd : n ≤ d) :
    ∃ b, start srs n = .ok b ∧ b.HasKeys d n x alpha ∧ b.Collects [] := by
  have hd := hsrs.one_le
  have hshift : (-x⁻¹ ^ (srs.degree - n).toNat : Fr) = -x ^ (n - d) := by
    rw [hsrs.degree_eq, ← zpow_natCast, inv_zpow', Int.toNat_of_nonneg (by omega), neg_sub]
  refine ⟨{
    g := smul (x ^ 0) generator
    alphaXKey := smul (alpha * x ^ 1) generator
    alphaKey := smul (alpha * x ^ 0) generator
    fullKey := neg (smul (x⁻¹ ^ 0) generator)
    boundedKey := neg (smul (x⁻¹ ^ (srs.degree - n).toNat) generator)
    alphaX := []
    alpha := []
    full := []
    bounded := []
    value := 0
    finalized := false }, ?_, ?_, ?_⟩
  · rw [start, if_neg (by rw [hsrs.degree_eq]; omega), hsrs.hPositiveAlpha (by omega),
      hsrs.hPositiveAlpha (by omega), hsrs.hNegative (by omega),
      hsrs.hNegative (by rw [hsrs.degree_eq]; omega), hsrs.gPositive (by omega)]
    rfl
  · refine ⟨?_, ?_, ?_, ?_, ?_⟩
    · rw [pow_zero]
      exact isMultiple_smul_generator 1
    · rw [pow_one]
      exact isMultiple_smul_generator _
    · rw [pow_zero, mul_one]
      exact isMultiple_smul_generator alpha
    · show IsMultiple (neg (smul (x⁻¹ ^ 0) (generator : G₂))) (-1)
      rw [pow_zero]
      exact LawfulGroup.isMultiple_neg (isMultiple_smul_generator 1)
    · rw [← hshift]
      exact LawfulGroup.isMultiple_neg (isMultiple_smul_generator _)
  · have hnil : IsMultiple (weightedSum ([] : List (G₁ × Fr))) 0 := isMultiple_weightedSum_nil
    exact ⟨hnil, hnil, hnil, hnil, rfl, rfl⟩

omit [SourceGroup G₁ F₁] [LawfulGroup G₁] [LawfulGroup G₂] in
/-- A new batch is open and has collected nothing, whatever the reference string. -/
theorem start_fresh {srs : ReferenceString G₁ G₂} {b : Batch G₁ G₂} (h : start srs n = .ok b) :
    ∃ g alphaXKey alphaKey fullKey boundedKey,
      b = ⟨g, alphaXKey, alphaKey, fullKey, boundedKey, [], [], [], [], 0, false⟩ := by
  unfold start at h
  split at h
  · cases h
  · obtain ⟨alphaXKey, -, h⟩ := exists_of_bind_ok h
    obtain ⟨alphaKey, -, h⟩ := exists_of_bind_ok h
    obtain ⟨_, -, h⟩ := exists_of_bind_ok h
    obtain ⟨_, -, h⟩ := exists_of_bind_ok h
    obtain ⟨g, -, h⟩ := exists_of_bind_ok h
    cases h
    exact ⟨g, alphaXKey, alphaKey, _, _, rfl⟩

/-! ## Adding entries -/

omit [LawfulGroup G₁] [LawfulGroup G₂] in
theorem HasKeys.push {b : Batch G₁ G₂} (hb : b.HasKeys d n x alpha) (entry : Entry G₁) :
    (b.push entry).HasKeys d n x alpha := by
  cases entry <;> exact ⟨hb.g, hb.alphaXKey, hb.alphaKey, hb.fullKey, hb.boundedKey⟩

/-- Each entry goes to its own sums and leaves the others alone. -/
theorem Collects.push {b : Batch G₁ G₂} {entries : List (Entry Fr)} (hb : b.Collects entries)
    {entry : Entry G₁} {scalars : Entry Fr} (h : entry.IsMultiple scalars) :
    (b.push entry).Collects (entries ++ [scalars]) := by
  obtain ⟨alphaX, alpha, full, bounded, value, finalized⟩ := hb
  have hkeep : ∀ {f : Entry Fr → Fr}, f scalars = 0 →
      ((entries ++ [scalars]).map f).sum = (entries.map f).sum := by
    intro f hf
    rw [List.map_append, List.sum_append, List.map_singleton, List.sum_singleton, hf, add_zero]
  have hgrow : ∀ {f : Entry Fr → Fr} {k : Fr}, f scalars = k →
      ((entries ++ [scalars]).map f).sum = (entries.map f).sum + k := by
    intro f k hf
    rw [List.map_append, List.sum_append, List.map_singleton, List.sum_singleton, hf]
  cases h with
  | opening r z hw =>
    refine ⟨?_, ?_, hkeep (f := Entry.commitmentPart) rfl ▸ full,
      hkeep (f := Entry.boundedPart) rfl ▸ bounded, hkeep (f := Entry.valuePart) rfl ▸ value,
      finalized⟩
    · rw [hgrow (f := Entry.evidencePart) rfl]
      exact isMultiple_weightedSum_concat r alphaX hw
    · rw [hgrow (f := Entry.pointPart) rfl]
      exact isMultiple_weightedSum_concat (-(z * r)) alpha hw
  | value v r =>
    refine ⟨hkeep (f := Entry.evidencePart) rfl ▸ alphaX, hkeep (f := Entry.pointPart) rfl ▸ alpha,
      hkeep (f := Entry.commitmentPart) rfl ▸ full, hkeep (f := Entry.boundedPart) rfl ▸ bounded,
      ?_, finalized⟩
    rw [hgrow (f := Entry.valuePart) rfl, ← value]
    exact congrArg (b.value + ·) (mul_comm v r)
  | commitment r hc =>
    refine ⟨hkeep (f := Entry.evidencePart) rfl ▸ alphaX, hkeep (f := Entry.pointPart) rfl ▸ alpha,
      ?_, hkeep (f := Entry.boundedPart) rfl ▸ bounded, hkeep (f := Entry.valuePart) rfl ▸ value,
      finalized⟩
    rw [hgrow (f := Entry.commitmentPart) rfl]
    exact isMultiple_weightedSum_concat r full hc
  | bounded r hc =>
    refine ⟨hkeep (f := Entry.evidencePart) rfl ▸ alphaX, hkeep (f := Entry.pointPart) rfl ▸ alpha,
      hkeep (f := Entry.commitmentPart) rfl ▸ full, ?_, hkeep (f := Entry.valuePart) rfl ▸ value,
      finalized⟩
    rw [hgrow (f := Entry.boundedPart) rfl]
    exact isMultiple_weightedSum_concat r bounded hc

omit [SourceGroup G₁ F₁] [SourceGroup G₂ F₂] [LawfulGroup G₁] [LawfulGroup G₂] in
theorem finalized_foldl_push (entries : List (Entry G₁)) (b : Batch G₁ G₂) :
    (entries.foldl push b).finalized = b.finalized := by
  induction entries generalizing b with
  | nil => rfl
  | cons entry entries ih =>
    rw [List.foldl_cons, ih]
    cases entry <;> rfl

theorem add_eq {b : Batch G₁ G₂} (hb : b.finalized = false) (entry : Entry G₁) :
    add entry b = .ok () (b.push entry) := by
  have hget : (get : EStateM Fault (Batch G₁ G₂) (Batch G₁ G₂)) b = .ok b b := rfl
  unfold add
  refine (bind_ok hget).trans ?_
  rw [hb]
  rfl

theorem add_finalized {b : Batch G₁ G₂} (hb : b.finalized = true) (entry : Entry G₁) :
    add entry b = .error .batchFinalized b := by
  unfold add
  rw [get_bind, hb]
  rfl

omit [LawfulGroup G₁] [LawfulGroup G₂] in
theorem HasKeys.foldl_push {b : Batch G₁ G₂} (hb : b.HasKeys d n x alpha)
    (entries : List (Entry G₁)) : (entries.foldl Batch.push b).HasKeys d n x alpha := by
  induction entries generalizing b with
  | nil => exact hb
  | cons entry entries ih => exact ih (hb.push entry)

omit [SourceGroup G₂ F₂] [LawfulGroup G₂] in
theorem Collects.foldl_push {b : Batch G₁ G₂} {before : List (Entry Fr)} (hb : b.Collects before)
    {entries : List (Entry G₁)} {scalars : List (Entry Fr)}
    (h : List.Forall₂ Entry.IsMultiple entries scalars) :
    (entries.foldl Batch.push b).Collects (before ++ scalars) := by
  induction h generalizing b before with
  | nil =>
    rw [List.append_nil]
    exact hb
  | cons hentry _ ih =>
    have hb' := ih (hb.push hentry)
    rwa [List.append_assoc, List.singleton_append] at hb'

theorem forM_add {b : Batch G₁ G₂} (hb : b.finalized = false) (entries : List (Entry G₁)) :
    entries.forM add b = .ok () (entries.foldl push b) := by
  induction entries generalizing b with
  | nil => rfl
  | cons entry entries ih =>
    have hpush : (b.push entry).finalized = false := (finalized_foldl_push [entry] b).trans hb
    exact (bind_ok (add_eq hb entry)).trans (ih hpush)

/-! ## The check -/

/-- The batch that the verdict is about. -/
def closed (b : Batch G₁ G₂) : Batch G₁ G₂ :=
  { b with finalized := true, alpha := b.alpha ++ [(b.g, b.value)] }

omit [SourceGroup G₁ F₁] [SourceGroup G₂ F₂] [LawfulGroup G₁] [LawfulGroup G₂] in
theorem finalize_eq {b : Batch G₁ G₂} (hb : b.finalized = false) : finalize b = .ok () b.closed := by
  unfold finalize
  rw [get_bind, hb]
  rfl

section

variable {E T : Type} [Pairing G₁ G₂ T] [CommGroupWithZero E] (e : BilinearPairing G₁ G₂ E)
include e

theorem verdict_closed {b : Batch G₁ G₂} {entries : List (Entry Fr)} (hkeys : b.HasKeys d n x alpha)
    (hb : b.Collects entries) :
    b.closed.verdict = .ok (decide (Entry.balance d n x alpha entries = 0)) := by
  have halpha := isMultiple_weightedSum_concat b.value hb.alpha hkeys.g
  have hpairs : List.Forall₂ BilinearPairing.AreMultiples b.closed.pairs
      [((entries.map Entry.evidencePart).sum, alpha * x),
        ((entries.map Entry.pointPart).sum + b.value * 1, alpha),
        ((entries.map Entry.commitmentPart).sum, -1),
        ((entries.map Entry.boundedPart).sum, -x ^ (n - d))] :=
    .cons ⟨hb.alphaX, hkeys.alphaXKey⟩ <| .cons ⟨halpha, hkeys.alphaKey⟩ <|
      .cons ⟨hb.full, hkeys.fullKey⟩ <| .cons ⟨hb.bounded, hkeys.boundedKey⟩ .nil
  have hsum : (List.map (fun s : Fr × Fr => s.1 * s.2)
      [((entries.map Entry.evidencePart).sum, alpha * x),
        ((entries.map Entry.pointPart).sum + b.value * 1, alpha),
        ((entries.map Entry.commitmentPart).sum, -1),
        ((entries.map Entry.boundedPart).sum, -x ^ (n - d))]).sum =
      Entry.balance d n x alpha entries := by
    rw [List.map_cons, List.map_cons, List.map_cons, List.map_cons, List.map_nil, List.sum_cons,
      List.sum_cons, List.sum_cons, List.sum_cons, List.sum_nil, Entry.balance,
      Entry.sum_openingPart, hb.value]
    ring
  have hverdict := e.productIsOne_eq hpairs
  rwa [hsum] at hverdict

theorem check_eq {b : Batch G₁ G₂} {entries : List (Entry Fr)} (hkeys : b.HasKeys d n x alpha)
    (hb : b.Collects entries) :
    check b = .ok (decide (Entry.balance d n x alpha entries = 0)) b.closed := by
  unfold check
  refine (bind_ok (finalize_eq hb.finalized)).trans ((bind_ok rfl).trans ?_)
  rw [verdict_closed e hkeys hb]
  rfl

/-- The verdict of a batch is one equation. Whatever entries are added to a new batch, in whatever
order, the check accepts exactly when the openings and values of the claims balance the
commitments. -/
theorem check_eq_true_iff {d n : Int} (hd : 1 ≤ d) (hn : 0 ≤ n) (hnd : n ≤ d) {x : Fr} (hx : x ≠ 0)
    (alpha : Fr) {entries : List (Entry G₁)} {scalars : List (Entry Fr)}
    (h : List.Forall₂ Entry.IsMultiple entries scalars) :
    ∃ (srs : ReferenceString G₁ G₂) (b : Batch G₁ G₂) (answer : Bool) (b' : Batch G₁ G₂),
      ReferenceString.ofSecrets d x alpha = .ok srs ∧ start srs n = .ok b ∧
      (do entries.forM add; check) b = .ok answer b' ∧
      (answer = true ↔
        alpha * (scalars.map (Entry.openingPart x)).sum + alpha * (scalars.map Entry.valuePart).sum -
          (scalars.map Entry.commitmentPart).sum -
          x ^ (n - d) * (scalars.map Entry.boundedPart).sum = 0) := by
  obtain ⟨srs, hsrs⟩ : ∃ srs : ReferenceString G₁ G₂, ReferenceString.ofSecrets d x alpha = .ok srs :=
    ReferenceString.exists_ofSecrets hd hx alpha
  obtain ⟨b, hstart, hkeys, hb⟩ := start_eq (ReferenceString.tables_of_ofSecrets hsrs) hn hnd
  have hb' := hb.foldl_push h
  have hcheck := check_eq e (hkeys.foldl_push entries) hb'
  refine ⟨srs, b, _, _, hsrs, hstart, (bind_ok (forM_add hb.finalized entries)).trans hcheck, ?_⟩
  rw [decide_eq_true_iff, List.nil_append]
  rfl

end

end

/-- Claims that cancel, with the point at infinity among their elements. -/
theorem check_cancelling_claims :
    letI := scalarPairing (Point Fp) (Point Fp2)
    ∃ (srs : ReferenceString (Point Fp) (Point Fp2)) (b b' : Batch (Point Fp) (Point Fp2)),
      ReferenceString.ofSecrets 2 2 3 = .ok srs ∧ start srs 1 = .ok b ∧
      (do
        ([.bounded (smul 10 generator) 1, .opening (smul 5 generator) 1 7, .commitment ⟨7, 9, 0⟩ 4,
          .value 4 2, .commitment (smul 8 generator) (-7)] : List (Entry (Point Fp))).forM add
        check) b = .ok true b' := by
  let := scalarPairing (Point Fp) (Point Fp2)
  have hinfinity : IsMultiple (⟨7, 9, 0⟩ : Point Fp) 0 := by
    show Point.affine _ = Point.affine _
    decide +kernel
  obtain ⟨srs, b, answer, b', hsrs, hstart, hrun, hanswer⟩ :=
    check_eq_true_iff (scalarPairing_bilinear (Point Fp) (Point Fp2)) (d := 2) (n := 1) (by decide)
      (by decide) (by decide) (x := 2) (by decide +kernel) 3
      (.cons (.bounded 1 (isMultiple_smul_generator 10)) <|
        .cons (.opening 1 7 (isMultiple_smul_generator 5)) <| .cons (.commitment 4 hinfinity) <|
        .cons (.value 4 2) <| .cons (.commitment (-7) (isMultiple_smul_generator 8)) .nil)
  have htrue : answer = true := by
    rw [hanswer]
    have hhalf : (2 : Fr) ^ ((1 : Int) - 2) * 2 = 1 := by decide +kernel
    simp only [List.map_cons, List.map_nil, List.sum_cons, List.sum_nil, Entry.openingPart,
      Entry.valuePart, Entry.commitmentPart, Entry.boundedPart]
    linear_combination -5 * hhalf
  subst htrue
  exact ⟨srs, b, b', hsrs, hstart, hrun⟩

end Batch

end SnarkBatch
