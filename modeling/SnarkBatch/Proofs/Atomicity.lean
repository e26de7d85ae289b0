import SnarkBatch.Proofs.Drift

/-!
# Calls are all or nothing

Whatever has happened to a verifier before, and whatever the next pass of its circuit does, a call
either fails for one of the reasons of `Call.Refused` and leaves the batch as it was, or it appends
a fixed number of terms to each sum of the batch (`Call.growth`) and keeps all that was there. The
terms are those that the claims of the call give when they are added one at a time
(`Call.run_all_or_nothing`). Over a sequence of calls the terms of those that return add up
(`Call.forM_attempt_grows`).
-/

namespace SnarkBatch

/-- The numbers of terms in the sums `alphaX`, `alpha`, `full` and `bounded` of a batch. -/
abbrev Batch.Counts := Nat × Nat × Nat × Nat

/-- The terms that an entry adds to each sum. -/
def Entry.counts {G : Type} : Entry G → Batch.Counts
  | opening .. => (1, 1, 0, 0)
  | value .. => (0, 0, 0, 0)
  | commitment .. => (0, 0, 1, 0)
  | bounded .. => (0, 0, 0, 1)

namespace Batch

variable {G₁ G₂ : Type} {b b' b'' : Batch G₁ G₂} {added added' : Counts}

def counts (b : Batch G₁ G₂) : Counts :=
  (b.alphaX.length, b.alpha.length, b.full.length, b.bounded.length)

/-- Each sum of `b'` begins with that of `b`, and `added` terms follow. -/
structure Grows (added : Counts) (b b' : Batch G₁ G₂) : Prop where
  alphaX : b.alphaX <+: b'.alphaX
  alpha : b.alpha <+: b'.alpha
  full : b.full <+: b'.full
  bounded : b.bounded <+: b'.bounded
  counts : b'.counts = b.counts + added

theorem Grows.refl (b : Batch G₁ G₂) : Grows 0 b b :=
  ⟨List.prefix_rfl, List.prefix_rfl, List.prefix_rfl, List.prefix_rfl, (add_zero _).symm⟩

theorem Grows.trans (h : Grows added b b') (h' : Grows added' b' b'') :
    Grows (added + added') b b'' where
  alphaX := h.alphaX.trans h'.alphaX
  alpha := h.alpha.trans h'.alpha
  full := h.full.trans h'.full
  bounded := h.bounded.trans h'.bounded
  counts := by rw [h'.counts, h.counts, add_assoc]

theorem grows_push (b : Batch G₁ G₂) (entry : Entry G₁) : Grows entry.counts b (b.push entry) := by
  cases entry <;> constructor <;> simp [push, counts, Entry.counts]

theorem grows_foldl_push (b : Batch G₁ G₂) (entries : List (Entry G₁)) :
    Grows (entries.map Entry.counts).sum b (entries.foldl push b) := by
  induction entries generalizing b with
  | nil => exact .refl b
  | cons entry entries ih =>
    rw [List.map_cons, List.sum_cons]
    exact (b.grows_push entry).trans (ih (b.push entry))

end Batch

namespace Verifier

/-! ## The terms of a call -/

namespace Call

/-- The terms that a call adds. -/
def growth {G : Type} : Call G → Batch.Counts
  | proof .. => (2, 2, 1, 2)
  | advised .. => (3, 3, 2, 2)
  | aggregate proofs _ => (proofs.length + 2, proofs.length + 2, 2 * proofs.length + 1, 0)

variable {G : Type} {oracle : Oracle}

theorem counts_pointEntries (agg : Aggregate G) (evidence : G) (coefficient point value : Fr) :
    ((agg.pointEntries evidence coefficient point value).map Entry.counts).sum = (1, 1, 1, 0) := rfl

theorem openingEntries_counts (agg : Aggregate G) (pts : Aggregate.Points) :
    Gives (fun openings : List (Entry G) => (openings.map Entry.counts).sum =
        (agg.cOpenings.zip pts.ys).length • (1, 1, 1, 0))
      (agg.openingEntries oracle pts) := by
  have hflatten : ∀ {A : Type} {items : List A} {each : List (List (Entry G))},
      List.Forall₂ (fun _ entries => (entries.map Entry.counts).sum = (1, 1, 1, 0)) items each →
        (each.flatten.map Entry.counts).sum = items.length • (1, 1, 1, 0) := by
    intro A items each h
    induction h with
    | nil => rfl
    | cons hhead _ ih =>
      rw [List.flatten_cons, List.map_append, List.sum_append, hhead, ih, List.length_cons,
        succ_nsmul']
  refine .bind (.mapM fun oy _ => ?_) fun each heach => .pure (hflatten heach)
  exact .of_forall fun coefficient => .pure (counts_pointEntries agg _ _ _ _)

theorem combine_counts (coefficient : Fr) (advised : List (Advice G × Fr)) (t : Transcript) :
    Gives (fun combined => (combined.2.map Entry.counts).sum = advised.length • (0, 0, 1, 0))
      (Aggregate.combine oracle coefficient advised t) := by
  induction advised generalizing t with
  | nil => exact .pure rfl
  | cons av rest ih =>
    refine .of_forall fun drawn => .bind (ih drawn.2) fun combined hcombined => .pure ?_
    rw [List.map_cons, List.sum_cons, hcombined, List.length_cons, succ_nsmul']
    rfl

theorem aggregateEntries_counts {proofs : List (Proof G × Advice G)} {agg : Aggregate G}
    (hcount : agg.cOpenings.length = proofs.length) {pts : Aggregate.Points}
    (hys : pts.ys.length = proofs.length) (szw : Fr) :
    Gives (fun entries => (entries.map Entry.counts).sum = (aggregate proofs agg).growth)
      (agg.entries oracle proofs pts szw) := by
  refine .of_forall fun shared => .bind (openingEntries_counts agg pts) fun openings hopenings => ?_
  refine .of_forall fun coefficient => .bind (combine_counts _ _ _) fun combined hcombined =>
    .pure ?_
  have hlast : ∀ (v r : Fr) (evidence : G) (r' z : Fr),
      (List.map Entry.counts [.value v r, .opening evidence r' z]).sum = (1, 1, 0, 0) :=
    fun _ _ _ _ _ => rfl
  simp only [List.map_append, List.sum_append, counts_pointEntries, hopenings, hcombined, hlast,
    List.length_zip, List.length_map, hcount, hys, min_self, growth, Prod.smul_mk, Prod.mk_add_mk,
    smul_eq_mul, Prod.mk.injEq]
  omega

variable [SourceGroup G Fp] {shape : Shape} {s : Fr → Fr → Except Fault Fr}

theorem points_length (proofs : List (Proof G × Advice G)) (agg : Aggregate G) :
    Gives (fun pts => pts.ys.length = proofs.length) (agg.points oracle proofs) := by
  unfold Aggregate.points
  have hys : Gives (List.Forall₂ (fun _ _ => True) proofs) (Aggregate.proofPoints oracle proofs) :=
    .mapM fun _ _ => .of_forall fun _ => .pure trivial
  exact .bind hys fun ys hys => .of_forall fun _ => .of_forall fun _ => .pure hys.length_eq.symm

theorem proofClaims_counts (p : Proof G) (inputs : List Fr) (szy : Option Fr) :
    Gives (fun prepared => (prepared.2.map Entry.counts).sum = (2, 2, 1, 2))
      (proofClaims oracle shape s p inputs szy) :=
  .of_forall fun _ => .of_forall fun _ => .pure rfl

theorem claims_counts (call : Call G) :
    Gives (fun entries => (entries.map Entry.counts).sum = call.growth)
      (call.claims oracle shape s) := by
  cases call with
  | proof p inputs szy => exact .bind (proofClaims_counts p inputs szy) fun _ h => .pure h
  | advised p inputs advice =>
    refine .bind (proofClaims_counts p inputs _) fun prepared h => .of_forall fun coefficient =>
      .pure ?_
    rw [List.map_append, List.sum_append, h]
    rfl
  | aggregate proofs agg =>
    unfold claims aggregateClaims
    dsimp only
    split
    · rename_i hcount
      exact .bind (points_length proofs agg) fun pts hys => .of_forall fun szw =>
        aggregateEntries_counts hcount hys szw
    · exact .error _

end Call

/-! ## The reasons to refuse a call -/

variable {G₁ G₂ : Type} [SourceGroup G₁ Fp] {oracle : Oracle} {v : Verifier G₁ G₂}

/-- Why a call fails. A synthesis is refused for whatever the next pass of the circuit comes to: a
fault of the circuit, a count of constraints that has changed, a challenge that is 0. -/
inductive Call.Refused (oracle : Oracle) (v : Verifier G₁ G₂) : Call G₁ → Fault → Prop
  | verifierFinalized {call : Call G₁} : v.finalized = true → Refused oracle v call .verifierFinalized
  | batchFinalized {call : Call G₁} : v.batch.finalized = true → Refused oracle v call .batchFinalized
  | proofInputs {p : Proof G₁} {inputs : List Fr} {szy : Option Fr} :
    inputs.length ≠ v.shape.inputs.length - 1 →
    Refused oracle v (.proof p inputs szy) (.inputCount inputs.length (v.shape.inputs.length - 1))
  | advisedInputs {p : Proof G₁} {inputs : List Fr} {advice : Advice G₁} :
    inputs.length ≠ v.shape.inputs.length - 1 →
    Refused oracle v (.advised p inputs advice)
      (.inputCount inputs.length (v.shape.inputs.length - 1))
  | openings {proofs : List (Proof G₁ × Advice G₁)} {agg : Aggregate G₁} :
    agg.cOpenings.length ≠ proofs.length →
    Refused oracle v (.aggregate proofs agg) (.openingCount agg.cOpenings.length proofs.length)
  | synthesis {call : Call G₁} {y x : Fr} {e : Fault} :
    call.Synthesises oracle v.shape y x → v.evaluate y x = .error e → Refused oracle v call e
  | noChallenge {call : Call G₁} {t : Transcript} :
    t.challenge oracle = .error .noChallenge → Refused oracle v call .noChallenge

namespace Call

/-- With a value at hand, only a challenge may fail to come. -/
theorem proofClaims_delivers {shape : Shape} {s : Fr → Fr → Except Fault Fr} (p : Proof G₁)
    {inputs : List Fr} (hinputs : inputs.length = shape.inputs.length - 1) (szy : Fr) :
    Delivers oracle (proofClaims oracle shape s p inputs (some szy)) fun _ => True := by
  have hprepared : Delivers oracle (preparation oracle shape s p inputs (some szy)) fun _ => True := by
    unfold preparation
    rw [if_pos hinputs]
    exact (p.points_delivers oracle).bind fun _ _ => .pure trivial
  exact hprepared.bind fun prepared _ =>
    (Proof.Points.challenges_delivers oracle prepared.1).bind fun _ _ => .pure trivial

theorem points_delivers (oracle : Oracle) (proofs : List (Proof G₁ × Advice G₁))
    (agg : Aggregate G₁) :
    Delivers oracle (agg.points oracle proofs) fun pts => agg.points oracle proofs = .ok pts := by
  have hys : Delivers oracle (Aggregate.proofPoints oracle proofs)
      (List.Forall₂ (fun _ _ => True) proofs) :=
    .mapM fun _ _ => .bind (.challenge _ _) fun _ _ => .pure trivial
  have hdelivers : Delivers oracle (agg.points oracle proofs) fun _ => True :=
    .bind hys fun _ _ => .bind (.challenge _ _) fun _ _ => .bind (.challenge _ _) fun _ _ =>
      .pure trivial
  exact hdelivers.eq_ok.mono fun _ h => h.1

/-- Short of a challenge that does not come, what delivers a result does not fail. -/
theorem refused_of_delivers {α : Type} {x : Except Fault α} {Q : α → Prop} {e : Fault}
    {call : Call G₁} (hx : Delivers oracle x Q) (he : x = .error e) : call.Refused oracle v e := by
  rcases hx with ⟨a, ha, -⟩ | ⟨hdry, t, ht⟩
  · rw [ha] at he
    cases he
  · cases hdry.symm.trans he
    exact .noChallenge ht

theorem Synthesises.refused {call : Call G₁} {y x : Fr} (hcall : call.Synthesises oracle v.shape y x)
    {e : Fault} (he : call.claims oracle v.shape v.evaluate = .error e) : call.Refused oracle v e := by
  cases hvalue : v.evaluate y x with
  | error e' =>
    cases (hcall.claims_error hvalue).symm.trans he
    exact .synthesis hcall hvalue
  | ok s =>
    rw [hcall.claims_congr (t := fun _ _ => .ok s) hvalue] at he
    exact refused_of_delivers (hcall.claims_delivers s) he

/-- Where a call has no claims, there is a reason to refuse it. -/
theorem refused_of_claims {call : Call G₁} {e : Fault}
    (he : call.claims oracle v.shape v.evaluate = .error e) : call.Refused oracle v e := by
  cases call with
  | proof p inputs szy =>
    by_cases hinputs : inputs.length = v.shape.inputs.length - 1
    · cases szy with
      | some szy =>
        exact refused_of_delivers (Q := fun _ => True)
          ((proofClaims_delivers p hinputs szy).bind fun _ _ => .pure trivial) he
      | none =>
        rcases p.points_delivers oracle with ⟨pts, hpts, -⟩ | ⟨hdry, t, ht⟩
        · exact (Synthesises.proof hinputs hpts).refused he
        · rw [claims, proofClaims, preparation, if_pos hinputs, hdry] at he
          cases he
          exact .noChallenge ht
    · rw [claims, proofClaims, preparation, if_neg hinputs] at he
      cases he
      exact .proofInputs hinputs
  | advised p inputs advice =>
    by_cases hinputs : inputs.length = v.shape.inputs.length - 1
    · have hcoefficient : Delivers oracle (advice.coefficient oracle) fun _ => True :=
        .bind (.challenge _ _) fun _ _ => .pure trivial
      exact refused_of_delivers (Q := fun _ => True)
        ((proofClaims_delivers p hinputs advice.szy).bind fun _ _ =>
          hcoefficient.bind fun _ _ => .pure trivial) he
    · rw [claims, advisedClaims, proofClaims, preparation, if_neg hinputs] at he
      cases he
      exact .advisedInputs hinputs
  | aggregate proofs agg =>
    by_cases hcount : agg.cOpenings.length = proofs.length
    · rcases points_delivers oracle proofs agg with ⟨pts, hpts, -⟩ | ⟨hdry, t, ht⟩
      · exact (Synthesises.aggregate hcount hpts).refused he
      · rw [claims, aggregateClaims, if_pos hcount, hdry] at he
        cases he
        exact .noChallenge ht
    · rw [claims, aggregateClaims, if_neg hcount] at he
      cases he
      exact .openings hcount

theorem run_finalized (hclosed : v.finalized = true) (call : Call G₁) :
    call.run oracle v = .error .verifierFinalized v := by
  have hensure : ensureOpen v = .error .verifierFinalized v := by
    unfold ensureOpen
    rw [get_bind, hclosed]
    rfl
  cases call <;> exact awaited_error (bind_error hensure) nofun

/-! ## What a call does -/

theorem run_error {call : Call G₁} {e : Fault} {v' : Verifier G₁ G₂}
    (hrun : call.run oracle v = .error e v') :
    call.Refused oracle v e ∧ v'.batch = v.batch ∧ v'.finalized = v.finalized := by
  cases hopen : v.finalized with
  | true =>
    rw [run_finalized hopen] at hrun
    cases hrun
    exact ⟨.verifierFinalized hopen, rfl, hopen⟩
  | false =>
    have hanswers := run_answers oracle hopen call
    rw [hrun] at hanswers
    generalize hclaims : call.claims oracle v.shape v.evaluate = claims at hanswers
    cases hanswers with
    | failed _ hv' =>
      obtain ⟨c, rfl⟩ := hv'.exists_circuit
      exact ⟨refused_of_claims hclaims, rfl, hopen⟩
    | refused _ hbatch hv' =>
      obtain ⟨c, rfl⟩ := hv'.exists_circuit
      exact ⟨.batchFinalized hbatch, rfl, hopen⟩

theorem exists_claims_of_run {call : Call G₁} {v' : Verifier G₁ G₂}
    (hrun : call.run oracle v = .ok () v') :
    ∃ entries, call.claims oracle v.shape v.evaluate = .ok entries ∧ v.batch.finalized = false ∧
      v'.batch = entries.foldl Batch.push v.batch ∧ v'.finalized = v.finalized := by
  cases hopen : v.finalized with
  | true =>
    rw [run_finalized hopen] at hrun
    cases hrun
  | false =>
    have hanswers := run_answers oracle hopen call
    rw [hrun] at hanswers
    generalize hclaims : call.claims oracle v.shape v.evaluate = claims at hanswers
    cases hanswers with
    | added entries hgained =>
      obtain ⟨hbatch, v₁, log, hv₁, rfl⟩ := hgained
      obtain ⟨c, rfl⟩ := hv₁.exists_circuit
      exact ⟨entries, rfl, hbatch, rfl, hopen⟩

theorem run_grows {call : Call G₁} {v' : Verifier G₁ G₂} (hrun : call.run oracle v = .ok () v') :
    v.batch.Grows call.growth v'.batch := by
  obtain ⟨entries, hclaims, -, hbatch, -⟩ := exists_claims_of_run hrun
  rw [hbatch, ← claims_counts call entries hclaims]
  exact v.batch.grows_foldl_push entries

/-- A call is all or nothing, for every state of the verifier and every next pass of its circuit. If
it fails, then for one of the reasons to refuse it, and the batch and both marks of being finalized
are as before. If it returns, the batch is what the claims of the call make of it one at a time:
each sum begins with what it was, and has gained as many terms as the call always adds. -/
theorem run_all_or_nothing (oracle : Oracle) (v : Verifier G₁ G₂) (call : Call G₁) :
    match call.run oracle v with
    | .error e v' => call.Refused oracle v e ∧ v'.batch = v.batch ∧ v'.finalized = v.finalized
    | .ok () v' =>
      (∃ entries, call.claims oracle v.shape v.evaluate = .ok entries ∧
        entries.forM Batch.add v.batch = .ok () v'.batch) ∧
      v.batch.Grows call.growth v'.batch ∧
      v'.finalized = v.finalized ∧ v'.batch.finalized = v.batch.finalized := by
  cases hrun : call.run oracle v with
  | error e v' => exact run_error hrun
  | ok _ v' =>
    obtain ⟨entries, hclaims, hopen, hbatch, hfinalized⟩ := exists_claims_of_run hrun
    refine ⟨⟨entries, hclaims, ?_⟩, run_grows hrun, hfinalized, ?_⟩
    · rw [Batch.forM_add hopen, hbatch]
    · rw [hbatch, Batch.finalized_foldl_push]

/-- Over a sequence of calls, the terms of those that return add up. -/
theorem forM_attempt_grows {calls : List (Call G₁)} {v' : Verifier G₁ G₂}
    (hrun : calls.forM (attempt oracle) v = .ok () v') :
    ∃ returned : List (Call G₁), returned.Sublist calls ∧
      v.batch.Grows (returned.map growth).sum v'.batch := by
  induction calls generalizing v with
  | nil =>
    cases hrun
    exact ⟨[], .slnil, .refl _⟩
  | cons call calls ih =>
    replace hrun := (bind_ok (attempt_eq oracle call v)).symm.trans hrun
    obtain ⟨returned, hreturned, hgrows⟩ := ih hrun
    cases hcall : call.run oracle v with
    | ok _ v₁ =>
      rw [hcall] at hgrows
      exact ⟨call :: returned, hreturned.cons_cons call, (run_grows hcall).trans hgrows⟩
    | error e v₁ =>
      rw [hcall] at hgrows
      refine ⟨returned, hreturned.cons call, ?_⟩
      rwa [endState, (run_error hcall).2.1] at hgrows

end Call

end Verifier

end SnarkBatch
