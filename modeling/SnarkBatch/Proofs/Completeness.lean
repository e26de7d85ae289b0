import SnarkBatch.Proofs.Calls
import SnarkBatch.Proofs.Prover

/-!
# Completeness

A new verifier accepts a call whose claims balance (`Verifier.Call.runNew_delivers`). Those of an
honest proof do (`Prover.IsHonest.balanced`): the value that the verifier expects of `t` at `z` is
the one that the proof opens, because the constant term that the prover has removed is `k(y)` for an
assignment that satisfies the circuit. So a new verifier accepts what the prover makes
(`Prover.completeness`).
-/

namespace SnarkBatch

open SourceGroup

section

variable {G₁ G₂ F₂ E T : Type} [SourceGroup G₁ Fp] [SourceGroup G₂ F₂] [LawfulGroup G₁]
  [LawfulGroup G₂] [Pairing G₁ G₂ T] [CommGroupWithZero E] (e : BilinearPairing G₁ G₂ E)
include e

/-- A new verifier accepts a call whose claims balance, unless there is no challenge for them. -/
theorem Verifier.Call.runNew_delivers {oracle : Oracle} {d : Int} {x alpha : Fr}
    {srs : ReferenceString G₁ G₂} (hsrs : srs.Tables d x alpha) {c : Circuit} (hc : c.Uniform)
    (hend : c.ending = .ok ()) (hgates : c.outline.gates ≤ d) {call : Call G₁}
    (hclaims : Delivers oracle (call.claims oracle c.outline.shape c.outline.evaluate)
      (Entry.Balanced d c.outline.gates x alpha)) (pass : Nat) :
    Delivers oracle (runNew srs (c.atPass pass) do
      call.run oracle
      check) (· = true) := by
  obtain ⟨v₀, log, hstart, hv₀⟩ := exists_start hsrs hc hend hgates pass []
  unfold runNew
  rw [hstart]
  dsimp only
  rcases hclaims with ⟨entries, hclaims, scalars, hscalars, hbalance⟩ | ⟨hdry, hnone⟩
  · obtain ⟨v₁, hadd, hv₁⟩ := hv₀.run_ok oracle hc hend hclaims hscalars
    obtain ⟨v₂, hcheck⟩ := check_eq e hv₁
    rw [bind_ok hadd, hcheck]
    exact .pure (decide_eq_true hbalance)
  · obtain ⟨v₁, hadd, -⟩ := hv₀.run_error oracle hc hend hdry
    refine .inr ⟨?_, hnone⟩
    rw [bind_error hadd]

end

namespace Prover

variable {G₁ G₂ F₂ : Type} [SourceGroup G₁ Fp] [SourceGroup G₂ F₂] {d : Int} {n : Nat}
  {x alpha : Fr} {r t : Laurent} {y z mix : Fr} {p : Proof G₁}

/-- The claims of an honest proof balance where the value expected of `t` is right. -/
theorem IsHonest.balanced (hp : IsHonest d n x alpha r t y z mix p) (hx : x ≠ 0)
    {ch : Proof.Challenges} (hy : ch.y = y) (hz : ch.z = z) (hmix : ch.mix = mix) :
    Entry.Balanced d n x alpha (p.entries ch (t.eval z)) := by
  obtain ⟨hr, ht, hrz, hrzy, ⟨u, hzOpening, hu⟩, ⟨w, hzyOpening, hw⟩⟩ := hp
  refine ⟨[.opening w ch.first (ch.z * ch.y), .bounded (alpha * x ^ (d - n) * r.eval x) ch.first,
    .value p.rzy ch.first, .opening u ch.second ch.z, .value (t.eval z) ch.second,
    .commitment (alpha * t.eval x) ch.second, .value p.rz (ch.second * ch.mix),
    .bounded (alpha * x ^ (d - n) * r.eval x) (ch.second * ch.mix)], ?_, ?_⟩
  · exact .cons (.opening _ _ hzyOpening) <| .cons (.bounded _ hr) <| .cons (.value _ _) <|
      .cons (.opening _ _ hzOpening) <| .cons (.value _ _) <| .cons (.commitment _ ht) <|
      .cons (.value _ _) <| .cons (.bounded _ hr) .nil
  · have hshift : x ^ ((n : Int) - d) * x ^ (d - n) = 1 := by
      rw [← zpow_add₀ hx, sub_add_sub_cancel, sub_self, zpow_zero]
    rw [hy, hz, hmix, hrz, hrzy]
    simp only [Entry.balance, Entry.openingPart, Entry.valuePart, Entry.commitmentPart,
      Entry.boundedPart, List.map_cons, List.map_nil, List.sum_cons, List.sum_nil]
    linear_combination alpha * ch.first * hw + alpha * ch.second * hu -
      alpha * r.eval x * (ch.first + ch.second * mix) * hshift

omit [SourceGroup G₁ Fp] in
theorem IsProduct.claimedT_eq {c : Circuit} {v : Assignment c.outline.gates} {t : Laurent}
    (ht : IsProduct v c.outline y t) (hwires : c.outline.InGates c.outline.gates)
    {inputs : List Fr} (hv : v.Satisfies c.outline (c.outline.shape.publicInput inputs)) (hz : z ≠ 0)
    (hrz : p.rz = v.row.eval z) (hrzy : p.rzy = v.row.eval (z * y)) :
    p.claimedT (c.outline.constraintValue c.outline.gates z y)
      (c.outline.shape.publicValue y inputs) = t.eval z := by
  have hdefect := c.constantTerm_eq_defect hwires v inputs y
  rw [Assignment.defect_eq_zero hv, sub_eq_zero] at hdefect
  rw [ht.eval_eq z hz, hdefect, Proof.claimedT, hrz, hrzy, mul_comm]

theorem IsHonest.claims_delivers {oracle : Oracle} {c : Circuit}
    (hwires : c.outline.InGates c.outline.gates) {v : Assignment c.outline.gates} {inputs : List Fr}
    (hinputs : inputs.length = c.outline.shape.inputs.length - 1)
    (hv : v.Satisfies c.outline (c.outline.shape.publicInput inputs)) (hx : x ≠ 0) (hy : y ≠ 0)
    (hz : z ≠ 0) (ht : IsProduct v c.outline y t)
    (hp : IsHonest d c.outline.gates x alpha v.row t y z mix p)
    {transcript : Transcript} (hpts : p.points oracle = .ok ⟨y, z, mix, transcript⟩) :
    Delivers oracle
      ((Verifier.Call.proof p inputs none).claims oracle c.outline.shape c.outline.evaluate)
      (Entry.Balanced d c.outline.gates x alpha) := by
  have hvalue := Outline.evaluate_eq hwires hy hz
  have hclaimed := ht.claimedT_eq hwires hv hz hp.rz_eq hp.rzy_eq
  have hprepared : Verifier.Call.preparation oracle c.outline.shape c.outline.evaluate p inputs none =
      .ok (⟨y, z, mix, transcript⟩, t.eval z) := by
    rw [Verifier.Call.preparation_none hinputs hpts, ← hclaimed]
    exact except_bind_ok hvalue _
  have hproof : Delivers oracle
      (Verifier.Call.proofClaims oracle c.outline.shape c.outline.evaluate p inputs none)
      fun claims => Entry.Balanced d c.outline.gates x alpha claims.2 :=
    .bind_of_ok hprepared <| (Proof.Points.challenges_delivers oracle _).bind fun ch hch =>
      .pure (hp.balanced hx hch.1 hch.2.1 hch.2.2)
  exact hproof.bind fun _ hbalanced => .pure hbalanced

section

variable {E T : Type} [LawfulGroup G₁] [LawfulGroup G₂] [Pairing G₁ G₂ T]
  [CommGroupWithZero E] (e : BilinearPairing G₁ G₂ E)
include e

/-- Completeness. For a circuit that does the same on every pass, with constraints on its own gates
only, and an assignment that satisfies it with the public inputs, every round of the prover succeeds
over a reference string of degree `4n` or more, and a new verifier accepts the proof, as long as the
first two challenges are not 0. -/
theorem completeness (oracle : Oracle) (c : Circuit) (hc : c.Uniform) (shape : Shape)
    (hshape : outcome (Shape.measure c) = .ok shape) (hwires : c.outline.InGates shape.gates)
    (v : Assignment shape.gates) (inputs : List Fr)
    (hinputs : inputs.length = shape.inputs.length - 1)
    (hv : v.Satisfies c.outline (shape.publicInput inputs)) (hd : 4 * shape.gates ≤ d)
    (hx : x ≠ 0) (alpha : Fr) (pass pass' : Nat) :
    ∃ srs : ReferenceString G₁ G₂, ReferenceString.ofSecrets d x alpha = .ok srs ∧
      Delivers oracle (first v oracle srs) fun m₁ => m₁.y ≠ 0 →
        Delivers oracle (second v oracle srs (c.atPass pass) m₁) fun m₂ => m₂.z ≠ 0 →
          Delivers oracle (third v oracle srs m₁ m₂) fun p =>
            Delivers oracle (Verifier.runNew srs (c.atPass pass') do
              Verifier.addProof oracle p inputs none
              Verifier.check) (· = true) := by
  rw [Shape.measure_eq] at hshape
  cases hend : c.ending with
  | error e => rw [hend] at hshape; cases hshape
  | ok _ =>
    rw [hend] at hshape
    obtain rfl : c.outline.shape = shape := Except.ok.inj hshape
    have hpos := c.outline_gates_pos
    have hgates : 4 * (c.outline.gates : Int) ≤ d := hd
    obtain ⟨srs, hsrs⟩ : ∃ srs : ReferenceString G₁ G₂, ReferenceString.ofSecrets d x alpha = .ok srs :=
      ReferenceString.exists_ofSecrets (by omega) hx alpha
    have htables := ReferenceString.tables_of_ofSecrets hsrs
    obtain ⟨houtline, hending⟩ := hc pass
    refine ⟨srs, hsrs, (first_delivers oracle htables hd).mono ?_⟩
    rintro m₁ ⟨hr, hy⟩ hy₀
    refine (second_delivers oracle htables hd (c := c.atPass pass) (houtline ▸ hwires)
      (hending.trans hend) hy₀).mono ?_
    rintro m₂ ⟨hproduct, ht, hz⟩ hz₀
    rw [houtline] at hproduct
    refine (third_delivers oracle htables hd hr ht hproduct hy₀ hz₀).mono ?_
    rintro p ⟨hpr, hpt, mix, transcript, hmix, hp⟩
    rw [← hpr] at hy
    rw [← hpt] at hz
    exact Verifier.Call.runNew_delivers e htables hc hend (by omega) (hp.claims_delivers hwires hinputs
      hv hx hy₀ hz₀ hproduct (Proof.points_eq hy hz hmix)) pass'

end

theorem completeness_productCircuit :
    letI := scalarPairing (Point Fp) (Point Fp2)
    ∃ (srs : ReferenceString (Point Fp) (Point Fp2)) (m₁ : First (Point Fp))
      (m₂ : Second (Point Fp)) (p : Proof (Point Fp)),
      ReferenceString.ofSecrets 8 2 3 = .ok srs ∧
      first productAssignment (.constant 5) srs = .ok m₁ ∧
      second productAssignment (.constant 5) srs (productCircuit.atPass 0) m₁ = .ok m₂ ∧
      third productAssignment (.constant 5) srs m₁ m₂ = .ok p ∧
      (Verifier.runNew srs (productCircuit.atPass 1) do
        Verifier.addProof (.constant 5) p [6] none
        Verifier.check) = .ok true := by
  let := scalarPairing (Point Fp) (Point Fp2)
  have hdraw : ∀ {t t' : Transcript} {c : Fr}, t.challenge (.constant 5) = .ok (c, t') → c ≠ 0 := by
    intro t t' c h
    rw [Oracle.eq_of_challenge_constant h]
    decide +kernel
  have hnever := Oracle.challenge_constant_ne 5
  have hwires : productCircuit.outline.InGates 2 := by
    rw [productCircuit_outline]
    decide
  obtain ⟨srs, hsrs, hfirst⟩ := completeness (scalarPairing_bilinear (Point Fp) (Point Fp2))
    (.constant 5) productCircuit productCircuit_uniform ⟨[1, 2], 2, 3⟩ (by decide +kernel) hwires
    productAssignment [6] rfl productAssignment_satisfies (d := 8) (by decide) (x := 2)
    (by decide +kernel) 3 0 1
  have htables := ReferenceString.tables_of_ofSecrets hsrs
  obtain ⟨m₁, hm₁, hsecond⟩ := hfirst.exists_of_forall hnever
  have hy : m₁.y ≠ 0 := by
    obtain ⟨m, hm, -, hdrawn⟩ :=
      (first_delivers (v := productAssignment) (.constant 5) htables (by decide)).exists_of_forall hnever
    cases hm₁.symm.trans hm
    exact hdraw hdrawn
  obtain ⟨m₂, hm₂, hthird⟩ := (hsecond hy).exists_of_forall hnever
  have hz : m₂.z ≠ 0 := by
    obtain ⟨m, hm, -, -, hdrawn⟩ := (second_delivers (v := productAssignment) (.constant 5) htables
      (by decide) (c := productCircuit.atPass 0) hwires (by decide +kernel) hy).exists_of_forall hnever
    cases hm₂.symm.trans hm
    exact hdraw hdrawn
  obtain ⟨p, hp, haccepted⟩ := (hthird hz).exists_of_forall hnever
  obtain ⟨answer, hanswer, rfl⟩ := haccepted.exists_of_forall hnever
  exact ⟨srs, m₁, m₂, p, hsrs, hm₁, hm₂, hp, hanswer⟩

end Prover

end SnarkBatch
