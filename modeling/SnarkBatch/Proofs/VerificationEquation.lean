import SnarkBatch.Proofs.Atomicity

/-!
# The equation of one proof

With the scalars of its elements in place of the elements, a proof is off by `Proof.defect` and its
advice by `Advice.defect`: explicit functions of the challenges and of the value `t(z, y)` that the
identity of the proof system gives. The challenges come from one transcript, each after what the
proof has to say before it (`Proof.Draws`), and the coefficient of the advice from another
(`Advice.Draws`). A new verifier that has taken one proof accepts exactly when the proof, with its
advice if it has any, is not off by anything (`Verifier.verification_equation`).
-/

namespace SnarkBatch

open SourceGroup

/-! ## The order of the challenges -/

section

variable {G : Type} [SourceGroup G Fp]

/-- The challenges of a proof are drawn from one transcript that starts empty. It absorbs `r` before
the first, `t` before the second, the two values before the third, the two openings before the
fourth and nothing more before the fifth. -/
def Proof.Draws (oracle : Oracle) (p : Proof G) (ch : Proof.Challenges) : Prop :=
  ∃ t₁ t₂ t₃ t₄ t₅ : Transcript,
    ((Transcript.start []).absorbElement p.r).challenge oracle = .ok (ch.y, t₁) ∧
    (t₁.absorbElement p.t).challenge oracle = .ok (ch.z, t₂) ∧
    ((t₂.absorbScalar p.rz).absorbScalar p.rzy).challenge oracle = .ok (ch.mix, t₃) ∧
    ((t₃.absorbElement p.zOpening).absorbElement p.zyOpening).challenge oracle =
      .ok (ch.first, t₄) ∧
    t₄.challenge oracle = .ok (ch.second, t₅)

/-- The coefficient of an advice is drawn from a transcript of its own. -/
def Advice.Draws (oracle : Oracle) (a : Advice G) (rho : Fr) : Prop :=
  ∃ t, ((((Transcript.start []).absorbElement a.opening).absorbElement a.s).absorbScalar
    a.szy).challenge oracle = .ok (rho, t)

variable {oracle : Oracle}

theorem Proof.challenges_ok {p : Proof G} {ch : Proof.Challenges}
    (h : p.challenges oracle = .ok ch) : p.Draws oracle ch := by
  obtain ⟨pts, hpts, h⟩ := exists_of_bind_ok h
  obtain ⟨⟨y, t₁⟩, hy, hpts⟩ := exists_of_bind_ok hpts
  obtain ⟨⟨z, t₂⟩, hz, hpts⟩ := exists_of_bind_ok hpts
  obtain ⟨⟨mix, t₃⟩, hmix, hpts⟩ := exists_of_bind_ok hpts
  cases hpts
  obtain ⟨⟨first, t₄⟩, hfirst, h⟩ := exists_of_bind_ok h
  obtain ⟨⟨second, t₅⟩, hsecond, h⟩ := exists_of_bind_ok h
  cases h
  exact ⟨t₁, t₂, t₃, t₄, t₅, hy, hz, hmix, hfirst, hsecond⟩

theorem Advice.coefficient_ok {a : Advice G} {rho : Fr} (h : a.coefficient oracle = .ok rho) :
    a.Draws oracle rho := by
  obtain ⟨⟨rho', t⟩, hrho, h⟩ := exists_of_bind_ok h
  cases h
  exact ⟨t, hrho⟩

theorem Proof.Draws.eq_of_constant {p : Proof G} {c : Fr} {ch : Proof.Challenges}
    (h : p.Draws (.constant c) ch) : ch = ⟨c, c, c, c, c⟩ := by
  obtain ⟨_, _, _, _, _, hy, hz, hmix, hfirst, hsecond⟩ := h
  obtain ⟨y, z, mix, first, second⟩ := ch
  obtain rfl : y = c := Oracle.eq_of_challenge_constant hy
  rw [Proof.Challenges.mk.injEq]
  exact ⟨rfl, Oracle.eq_of_challenge_constant hz, Oracle.eq_of_challenge_constant hmix,
    Oracle.eq_of_challenge_constant hfirst, Oracle.eq_of_challenge_constant hsecond⟩

theorem Advice.Draws.eq_of_constant {a : Advice G} {c rho : Fr} (h : a.Draws (.constant c) rho) :
    rho = c := by
  obtain ⟨t, ht⟩ := h
  exact Oracle.eq_of_challenge_constant ht

theorem Advice.coefficient_constant (a : Advice G) (c : Fr) :
    a.coefficient (.constant c) = .ok c := by
  obtain ⟨t, ht⟩ := Oracle.challenge_constant c
    ((((Transcript.start []).absorbElement a.opening).absorbElement a.s).absorbScalar a.szy)
  unfold coefficient
  dsimp only
  rw [ht]
  rfl

end

/-! ## Proofs in scalars -/

/-- The same proof with scalars, of which the elements are the multiples. -/
structure Proof.IsMultiple {G F : Type} [SourceGroup G F] (p : Proof G) (s : Proof Fr) : Prop where
  r : SourceGroup.IsMultiple p.r s.r
  t : SourceGroup.IsMultiple p.t s.t
  rz_eq : s.rz = p.rz
  rzy_eq : s.rzy = p.rzy
  zOpening : SourceGroup.IsMultiple p.zOpening s.zOpening
  zyOpening : SourceGroup.IsMultiple p.zyOpening s.zyOpening

structure Advice.IsMultiple {G F : Type} [SourceGroup G F] (a : Advice G) (k : Advice Fr) : Prop where
  s : SourceGroup.IsMultiple a.s k.s
  szy_eq : k.szy = a.szy
  opening : SourceGroup.IsMultiple a.opening k.opening

section

variable {G F : Type} [SourceGroup G F]

theorem Proof.IsMultiple.entries {p : Proof G} {s : Proof Fr} (h : p.IsMultiple s)
    (ch : Proof.Challenges) (tzy : Fr) :
    List.Forall₂ Entry.IsMultiple (p.entries ch tzy) (s.entries ch tzy) := by
  obtain ⟨hr, ht, hrz, hrzy, hzOpening, hzyOpening⟩ := h
  unfold Proof.entries Proof.productEntries Proof.mixedEntries
  rw [hrz, hrzy]
  exact .cons (.opening _ _ hzyOpening) <| .cons (.bounded _ hr) <| .cons (.value _ _) <|
    .cons (.opening _ _ hzOpening) <| .cons (.value _ _) <| .cons (.commitment _ ht) <|
    .cons (.value _ _) <| .cons (.bounded _ hr) .nil

theorem Advice.IsMultiple.entries {a : Advice G} {k : Advice Fr} (h : a.IsMultiple k) (rho z : Fr) :
    List.Forall₂ Entry.IsMultiple (a.entries rho z) (k.entries rho z) := by
  obtain ⟨hs, hszy, hopening⟩ := h
  unfold Advice.entries
  rw [hszy]
  exact .cons (.opening _ _ hopening) <| .cons (.commitment _ hs) <| .cons (.value _ _) .nil

end

section

variable (d n : Int) (x alpha : Fr)

/-- What a proof is off by, where `t(z, y)` should be `tzy`. -/
def Proof.defect (ch : Proof.Challenges) (tzy : Fr) (s : Proof Fr) : Fr :=
  ch.first * (alpha * ((x - ch.z * ch.y) * s.zyOpening + s.rzy) - x ^ (n - d) * s.r) +
    ch.second * (alpha * ((x - ch.z) * s.zOpening + tzy) - s.t +
      ch.mix * (alpha * s.rz - x ^ (n - d) * s.r))

/-- What an advice is off by at `z`. -/
def Advice.defect (rho z : Fr) (a : Advice Fr) : Fr :=
  rho * (alpha * ((x - z) * a.opening + a.szy) - a.s)

variable {d n x alpha}

theorem Proof.balance_entries (s : Proof Fr) (ch : Proof.Challenges) (tzy : Fr) :
    Entry.balance d n x alpha (s.entries ch tzy) = s.defect d n x alpha ch tzy := by
  rw [Proof.entries, Entry.balance_append]
  simp only [Entry.balance, Proof.productEntries, Proof.mixedEntries, Entry.openingPart,
    Entry.valuePart, Entry.commitmentPart, Entry.boundedPart, List.map_cons, List.map_nil,
    List.sum_cons, List.sum_nil, Proof.defect]
  ring

theorem Advice.balance_entries (a : Advice Fr) (rho z : Fr) :
    Entry.balance d n x alpha (a.entries rho z) = a.defect x alpha rho z := by
  simp only [Entry.balance, Advice.entries, Entry.openingPart, Entry.valuePart,
    Entry.commitmentPart, Entry.boundedPart, List.map_cons, List.map_nil, List.sum_cons,
    List.sum_nil, Advice.defect]
  ring

end

/-! ## The value that a proof claims -/

theorem sum_zip_eq_sum_range {A B : Type} (f : A → B → Fr) {as : List A} {bs : List B}
    (h : as.length ≤ bs.length) (a : A) (b : B) :
    ((as.zip bs).map fun ab => f ab.1 ab.2).sum =
      ∑ j ∈ Finset.range as.length, f (as.getD j a) (bs.getD j b) := by
  induction as generalizing bs with
  | nil => rfl
  | cons a' as ih =>
    cases bs with
    | nil => exact absurd h (Nat.not_succ_le_zero _)
    | cons b' bs =>
      rw [List.zip_cons_cons, List.map_cons, List.sum_cons, ih (Nat.le_of_succ_le_succ h),
        List.length_cons, Finset.sum_range_succ', add_comm]
      rfl

/-- `(rzy + szy) · rz - Σ y^(k + n) · input`, where `k` is the constraint of the input and the first
input is the constant 1. -/
theorem Proof.claimedT_eq {G : Type} (p : Proof G) {shape : Shape} {inputs : List Fr}
    (h : inputs.length = shape.inputs.length - 1) (szy y : Fr) :
    p.claimedT szy (shape.publicValue y inputs) = (p.rzy + szy) * p.rz -
      ∑ j ∈ Finset.range shape.inputs.length,
        y ^ (shape.inputs.getD j 0 + shape.gates) * (1 :: inputs).getD j 0 := by
  have hlength : shape.inputs.length ≤ (1 :: inputs).length := by
    rw [List.length_cons, h]
    omega
  exact congrArg _ (sum_zip_eq_sum_range (fun k input => y ^ (k + shape.gates) * input) hlength 0 0)

theorem Outline.eq_of_evaluate {o : Outline} {y x s : Fr} (h : o.evaluate y x = .ok s) :
    s = o.constraintValue o.gates x y := by
  have hgates : o.shape.gates = o.gates := rfl
  rw [← evaluateFor_shape] at h
  rw [eq_of_evaluateFor h, hgates]

namespace Verifier

namespace Call

variable {G : Type} [SourceGroup G Fp] {oracle : Oracle} {shape : Shape}
  {s : Fr → Fr → Except Fault Fr} {p : Proof G} {inputs : List Fr}

theorem claims_advised (hinputs : inputs.length = shape.inputs.length - 1) {ch : Proof.Challenges}
    (hch : p.challenges oracle = .ok ch) {advice : Advice G} {rho : Fr}
    (hrho : advice.coefficient oracle = .ok rho) :
    (advised p inputs advice).claims oracle shape s =
      .ok (p.entries ch (p.claimedT advice.szy (shape.publicValue ch.y inputs)) ++
        advice.entries rho ch.z) :=
  (except_bind_ok (proofClaims_eq hinputs hch (some advice.szy) rfl) _).trans
    (except_bind_ok hrho _)

end Call

/-! ## The verdict on one call -/

variable {G₁ G₂ F₂ E T : Type} [SourceGroup G₁ Fp] [SourceGroup G₂ F₂] [LawfulGroup G₁]
  [LawfulGroup G₂] [Pairing G₁ G₂ T] [CommGroupWithZero E] (e : BilinearPairing G₁ G₂ E)
  {oracle : Oracle} {c : Circuit} {d : Int} {x alpha : Fr} {v v' : Verifier G₁ G₂}
include e

/-- A verifier that has taken one call accepts exactly when its claims balance. -/
theorem Collects.check_call (hv : v.Collects c d x alpha []) {call : Call G₁}
    (hrun : call.run oracle v = .ok () v') {entries : List (Entry G₁)}
    (hclaims : call.claims oracle v.shape v.evaluate = .ok entries) {scalars : List (Entry Fr)}
    (hscalars : List.Forall₂ Entry.IsMultiple entries scalars) :
    outcome (check v') = .ok (decide (Entry.balance d c.outline.gates x alpha scalars = 0)) := by
  obtain ⟨entries', hclaims', -, hbatch, hfinalized⟩ := Call.exists_claims_of_run hrun
  obtain rfl : entries = entries' := Except.ok.inj (hclaims.symm.trans hclaims')
  have hkeys := hv.keys.foldl_push entries
  have hcollects := hv.batch.foldl_push hscalars
  rw [← hbatch] at hkeys hcollects
  exact (outcome_check (hfinalized.trans hv.finalized_eq) hcollects.finalized).trans
    (Batch.verdict_closed e hkeys hcollects)

theorem Collects.check_proof (hv : v.Collects c d x alpha []) (hc : c.Uniform)
    (hend : c.ending = .ok ()) {p : Proof G₁} {s : Proof Fr} (hs : p.IsMultiple s)
    {inputs : List Fr} {szy : Option Fr} (hrun : addProof oracle p inputs szy v = .ok () v') :
    inputs.length = c.outline.shape.inputs.length - 1 ∧ ∃ ch, p.Draws oracle ch ∧
      outcome (check v') = .ok (decide (s.defect d c.outline.gates x alpha ch
        (p.claimedT (szy.getD (c.outline.constraintValue c.outline.gates ch.z ch.y))
          (c.outline.shape.publicValue ch.y inputs)) = 0)) := by
  have hcall : (Call.proof p inputs szy).run oracle v = .ok () v' := hrun
  obtain ⟨entries, hclaims, -⟩ := Call.exists_claims_of_run hcall
  obtain ⟨prepared, hprepared, hentries⟩ := exists_of_bind_ok hclaims
  obtain ⟨hinputs, ch, u, hch, hu, rfl⟩ := Call.exists_of_proofClaims hprepared
  have hvalue : u = szy.getD (c.outline.constraintValue c.outline.gates ch.z ch.y) := by
    cases szy with
    | some szy => exact (Except.ok.inj hu).symm
    | none =>
      rw [hv.evaluate_eq hc hend] at hu
      exact Outline.eq_of_evaluate hu
  cases hentries
  rw [hv.shape_eq] at hinputs
  refine ⟨hinputs, ch, Proof.challenges_ok hch, ?_⟩
  have hcheck := hv.check_call e hcall hclaims (hs.entries ch _)
  rwa [Proof.balance_entries, hvalue, hv.shape_eq] at hcheck

theorem Collects.check_advised (hv : v.Collects c d x alpha []) {p : Proof G₁} {s : Proof Fr}
    (hs : p.IsMultiple s) {inputs : List Fr} {advice : Advice G₁} {a : Advice Fr}
    (ha : advice.IsMultiple a) (hrun : addAdvisedProof oracle p inputs advice v = .ok () v') :
    inputs.length = c.outline.shape.inputs.length - 1 ∧ ∃ ch rho, p.Draws oracle ch ∧
      advice.Draws oracle rho ∧
      outcome (check v') = .ok (decide (s.defect d c.outline.gates x alpha ch
        (p.claimedT advice.szy (c.outline.shape.publicValue ch.y inputs)) +
          a.defect x alpha rho ch.z = 0)) := by
  have hcall : (Call.advised p inputs advice).run oracle v = .ok () v' := hrun
  obtain ⟨entries, hclaims, -⟩ := Call.exists_claims_of_run hcall
  obtain ⟨prepared, hprepared, hentries⟩ := exists_of_bind_ok hclaims
  obtain ⟨rho, hrho, hentries⟩ := exists_of_bind_ok hentries
  obtain ⟨hinputs, ch, u, hch, hu, rfl⟩ := Call.exists_of_proofClaims hprepared
  cases hu
  cases hentries
  rw [hv.shape_eq] at hinputs
  refine ⟨hinputs, ch, rho, Proof.challenges_ok hch, Advice.coefficient_ok hrho, ?_⟩
  have hcheck := hv.check_call e hcall hclaims
    (List.rel_append (hs.entries ch _) (ha.entries rho ch.z))
  rwa [Entry.balance_append, Proof.balance_entries, Advice.balance_entries, hv.shape_eq] at hcheck

/-- The exact equation of one proof. For a circuit that does the same on every pass, with no more
gates than the degree, there is a new verifier. Once it has taken a proof, with a value of the
constraint polynomial or without, its check answers, and it accepts exactly when the proof is not
off by anything. With advice it accepts exactly when the defects of the proof and of the advice
cancel. -/
theorem verification_equation (oracle : Oracle) {c : Circuit} (hc : c.Uniform) {shape : Shape}
    (hshape : outcome (Shape.measure c) = .ok shape) {d : Int} {x alpha : Fr}
    {srs : ReferenceString G₁ G₂} (hsrs : ReferenceString.ofSecrets d x alpha = .ok srs)
    (hgates : shape.gates ≤ d) (pass : Nat) (log : List LogEntry) :
    ∃ (v : Verifier G₁ G₂) (log' : List LogEntry), start srs (c.atPass pass) log = .ok v log' ∧
      ∀ (p : Proof G₁) (s : Proof Fr), p.IsMultiple s → ∀ inputs : List Fr,
        (∀ szy v', addProof oracle p inputs szy v = .ok () v' → ∃ ch, p.Draws oracle ch ∧
          outcome (check v') = .ok (decide (s.defect d shape.gates x alpha ch
            ((p.rzy + szy.getD (c.outline.constraintValue shape.gates ch.z ch.y)) * p.rz -
              ∑ j ∈ Finset.range shape.inputs.length,
                ch.y ^ (shape.inputs.getD j 0 + shape.gates) * (1 :: inputs).getD j 0) = 0))) ∧
        ∀ (advice : Advice G₁) (a : Advice Fr), advice.IsMultiple a → ∀ v',
          addAdvisedProof oracle p inputs advice v = .ok () v' →
          ∃ ch rho, p.Draws oracle ch ∧ advice.Draws oracle rho ∧
            outcome (check v') = .ok (decide (s.defect d shape.gates x alpha ch
              ((p.rzy + advice.szy) * p.rz - ∑ j ∈ Finset.range shape.inputs.length,
                ch.y ^ (shape.inputs.getD j 0 + shape.gates) * (1 :: inputs).getD j 0) +
              a.defect x alpha rho ch.z = 0)) := by
  obtain ⟨hend, rfl⟩ := Shape.ending_of_measure hshape
  obtain ⟨v, log', hstart, hv⟩ :=
    exists_start (ReferenceString.tables_of_ofSecrets hsrs) hc hend hgates pass log
  refine ⟨v, log', hstart, fun p s hs inputs => ⟨fun szy v' hrun => ?_, fun advice a ha v' hrun => ?_⟩⟩
  · obtain ⟨hinputs, ch, hdraws, hcheck⟩ := hv.check_proof e hc hend hs hrun
    rw [p.claimedT_eq hinputs] at hcheck
    exact ⟨ch, hdraws, hcheck⟩
  · obtain ⟨hinputs, ch, rho, hdraws, hrho, hcheck⟩ := hv.check_advised e hs ha hrun
    rw [p.claimedT_eq hinputs] at hcheck
    exact ⟨ch, rho, hdraws, hrho, hcheck⟩

omit e in
/-- A proof that meets the equation without being an honest one, and the same with a commitment to
`s` that does not open to the value of its advice. -/
theorem verification_equation_productCircuit :
    letI := scalarPairing (Point Fp) (Point Fp2)
    ∃ (srs : ReferenceString (Point Fp) (Point Fp2)) (v v₁ v₂ : Verifier (Point Fp) (Point Fp2))
      (log : List LogEntry) (p : Proof (Point Fp)) (advice : Advice (Point Fp)),
      ReferenceString.ofSecrets 2 2 3 = .ok srs ∧
      start srs (productCircuit.atPass 0) [] = .ok v log ∧
      addProof (.constant 5) p [6] none v = .ok () v₁ ∧ outcome (check v₁) = .ok true ∧
      addAdvisedProof (.constant 5) p [6] advice v = .ok () v₂ ∧ outcome (check v₂) = .ok false := by
  let := scalarPairing (Point Fp) (Point Fp2)
  let p : Proof (Point Fp) :=
    ⟨smul 3 generator, smul 11534127 generator, 2, 7, smul 1 generator, smul 6 generator⟩
  let advice : Advice (Point Fp) := ⟨smul 0 generator, 1924350, smul 2 generator⟩
  have hp : p.IsMultiple ⟨3, 11534127, 2, 7, 1, 6⟩ := ⟨rfl, rfl, rfl, rfl, rfl, rfl⟩
  have hadvice : advice.IsMultiple ⟨0, 1924350, 2⟩ := ⟨rfl, rfl, rfl⟩
  obtain ⟨srs, v, log, hsrs, hstart, hv, -⟩ := productCircuit_takes_proofs
  have hshape : outcome (Shape.measure productCircuit) = .ok ⟨[1, 2], 2, 3⟩ := by decide +kernel
  obtain ⟨v', log', hstart', hequation⟩ :=
    verification_equation (scalarPairing_bilinear (Point Fp) (Point Fp2)) (.constant 5)
      productCircuit_uniform hshape hsrs (by decide) 0 []
  cases hstart.symm.trans hstart'
  obtain ⟨hproof, hadvised⟩ := hequation p ⟨3, 11534127, 2, 7, 1, 6⟩ hp [6]
  have hinputs : [(6 : Fr)].length = v.shape.inputs.length - 1 := by
    rw [hv.shape_eq, productCircuit_outline]
    rfl
  have hvalue : v.evaluate 5 5 = .ok 1924350 := by
    rw [hv.evaluate_eq productCircuit_uniform (by decide +kernel)]
    decide +kernel
  obtain ⟨v₁, log₁, -, hrun₁⟩ := Call.run_ok (.constant 5) hv.finalized_eq hv.batch.finalized
    (Call.claims_proof hinputs (p.challenges_constant 5) hvalue)
  obtain ⟨v₂, log₂, -, hrun₂⟩ := Call.run_ok (.constant 5) hv.finalized_eq hv.batch.finalized
    (Call.claims_advised hinputs (p.challenges_constant 5) (advice.coefficient_constant 5))
  obtain ⟨ch, hdraws, hcheck₁⟩ := hproof none _ hrun₁
  obtain ⟨ch', rho, hdraws', hrho, hcheck₂⟩ := hadvised advice _ hadvice _ hrun₂
  cases hdraws.eq_of_constant
  cases hdraws'.eq_of_constant
  cases hrho.eq_of_constant
  refine ⟨srs, v, _, _, log, p, advice, hsrs, hstart, hrun₁, hcheck₁.trans ?_, hrun₂,
    hcheck₂.trans ?_⟩
  · exact congrArg Except.ok (by decide +kernel)
  · exact congrArg Except.ok (by decide +kernel)

end Verifier

end SnarkBatch
