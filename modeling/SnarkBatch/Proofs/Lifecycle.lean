import SnarkBatch.Proofs.Atomicity
import SnarkBatch.Proofs.Circuit.Faults

/-!
# Single use

Batches and verifiers serve requests until they are checked. What that means for one request at a
time is `SingleUse`: before the check no request is refused for coming late, the check gives a
verdict and closes, and what is closed refuses everything and stays as it is. Over a whole sequence
of requests it follows that the first check is the only one, wherever it stands (`ClosesOnce`,
`SingleUse.closesOnce`).

A verifier and its batch are marked as finalized separately; together they close once
(`closesOnce`). A call of the verifier may fail before the check for many reasons, among them those
that the circuit comes to, and none of them is the mark (`Verifier.Call.Refused.inTime`).
-/

namespace SnarkBatch

open SourceGroup (generator)

/-- The fault is not that something has been finalized. -/
def Fault.InTime (e : Fault) : Prop := e.category ≠ .lifecycle

/-! ## Requests one after another -/

section

variable {R ε σ α : Type} (serve : R → EStateM ε σ α)

/-- Serves one request after another, whether or not they fail. Gives the answers, and the state
after all of them. -/
def answers : List R → σ → List (Except ε α) × σ
  | [], s => ([], s)
  | r :: rs, s =>
    let result := serve r s
    let rest := answers rs (endState result)
    (outcome result :: rest.1, rest.2)

theorem answers_append (earlier later : List R) (s : σ) :
    answers serve (earlier ++ later) s =
      ((answers serve earlier s).1 ++ (answers serve later (answers serve earlier s).2).1,
        (answers serve later (answers serve earlier s).2).2) := by
  induction earlier generalizing s with
  | nil => rfl
  | cons r earlier ih => rw [List.cons_append, answers, answers, ih, List.cons_append]

theorem answers_keeps {P : σ → Prop} {requests : List R}
    (hstep : ∀ r ∈ requests, ∀ s, P s → P (endState (serve r s))) {s : σ} (hs : P s) :
    P (answers serve requests s).2 := by
  induction requests generalizing s with
  | nil => exact hs
  | cons r requests ih =>
    obtain ⟨hhead, htail⟩ := List.forall_mem_cons.1 hstep
    exact ih htail (hhead s hs)

theorem answers_refused {late : ε} {s : σ} (h : ∀ r, serve r s = .error late s)
    (requests : List R) :
    answers serve requests s = (List.replicate requests.length (.error late), s) := by
  induction requests with
  | nil => rfl
  | cons r requests ih =>
    have hend : endState (serve r s) = s := by rw [h, endState]
    have houtcome : outcome (serve r s) = .error late := by rw [h, outcome]
    rw [answers, hend, houtcome, ih]
    rfl

end

section

variable {R σ α : Type} {serve : R → EStateM Fault σ α} {check : R} {late : Fault}
  {verdict : σ → Except Fault α} {close : σ → σ} {Open : σ → Prop}

/-- One request at a time, in a state that is open and in one that has been closed. -/
structure SingleUse (serve : R → EStateM Fault σ α) (check : R) (late : Fault)
    (verdict : σ → Except Fault α) (close : σ → σ) (Open : σ → Prop) : Prop where
  stays_open : ∀ r, r ≠ check → ∀ s, Open s → Open (endState (serve r s))
  in_time : ∀ r, r ≠ check → ∀ s, Open s → ∀ e, outcome (serve r s) = .error e → e.InTime
  check_eq : ∀ s, Open s → serve check s = withEnd (close s) (verdict s)
  refused : ∀ r s, Open s → serve r (close s) = .error late (close s)

/-- From the state `s`, no request before the first check is refused for coming late. The check is
answered by the verdict on what there is until then, and closes. All requests that follow are
refused and change nothing. -/
structure ClosesOnce (serve : R → EStateM Fault σ α) (check : R) (late : Fault)
    (verdict : σ → Except Fault α) (close : σ → σ) (s : σ) : Prop where
  in_time : ∀ earlier, check ∉ earlier → ∀ e, .error e ∈ (answers serve earlier s).1 → e.InTime
  answers_eq : ∀ earlier later, check ∉ earlier →
    answers serve (earlier ++ check :: later) s =
      ((answers serve earlier s).1 ++ verdict (answers serve earlier s).2 ::
          List.replicate later.length (.error late),
        close (answers serve earlier s).2)

namespace SingleUse

variable (h : SingleUse serve check late verdict close Open)
include h

theorem open_answers {earlier : List R} (hcheck : check ∉ earlier) {s : σ} (hs : Open s) :
    Open (answers serve earlier s).2 :=
  answers_keeps serve (fun r hr => h.stays_open r fun hr' => hcheck (hr' ▸ hr)) hs

theorem inTime_answers {earlier : List R} (hcheck : check ∉ earlier) {s : σ} (hs : Open s)
    {e : Fault} (he : .error e ∈ (answers serve earlier s).1) : e.InTime := by
  induction earlier generalizing s with
  | nil => cases he
  | cons r earlier ih =>
    obtain ⟨hr, hrest⟩ := List.ne_and_not_mem_of_not_mem_cons hcheck
    rcases List.mem_cons.1 he with hhead | htail
    · exact h.in_time r hr.symm s hs e hhead.symm
    · exact ih hrest (h.stays_open r hr.symm s hs) htail

theorem answers_check {s : σ} (hs : Open s) (later : List R) :
    answers serve (check :: later) s =
      (verdict s :: List.replicate later.length (.error late), close s) := by
  rw [answers, h.check_eq s hs, outcome_withEnd, endState_withEnd,
    answers_refused serve fun r => h.refused r s hs]

theorem closesOnce {s : σ} (hs : Open s) : ClosesOnce serve check late verdict close s where
  in_time earlier hcheck e he := h.inTime_answers hcheck hs he
  answers_eq earlier later hcheck := by
    rw [answers_append, h.answers_check (h.open_answers hcheck hs)]

end SingleUse

end

/-! ## Batches -/

namespace Batch

inductive Request (G : Type)
  | add (entry : Entry G)
  | check
  deriving DecidableEq, Repr

variable {G₁ G₂ F₁ F₂ T : Type} [SourceGroup G₁ F₁] [SourceGroup G₂ F₂] [Pairing G₁ G₂ T]

/-- Serves a request. Only the check returns something. -/
def serve : Request G₁ → EStateM Fault (Batch G₁ G₂) (Option Bool)
  | .add entry => do
    add entry
    return none
  | .check => return some (← check)

/-- The answer to the check of an open batch. -/
def reply (b : Batch G₁ G₂) : Except Fault (Option Bool) := b.closed.verdict.map some

theorem serve_finalized {b : Batch G₁ G₂} (hb : b.finalized = true) (r : Request G₁) :
    serve r b = .error .batchFinalized b := by
  cases r with
  | add entry => exact bind_error (add_finalized hb entry)
  | check =>
    refine bind_error (bind_error (?_ : finalize b = _))
    unfold finalize
    rw [get_bind, hb]
    rfl

theorem serve_check {b : Batch G₁ G₂} (hb : b.finalized = false) :
    serve .check b = withEnd b.closed b.reply := by
  have hcheck : check b = withEnd b.closed b.closed.verdict := by
    unfold check
    rw [bind_ok (finalize_eq hb), get_bind]
    cases b.closed.verdict <;> rfl
  refine (bind_pure_eq check some b).trans ?_
  rw [hcheck, endState_withEnd, outcome_withEnd, reply]
  cases b.closed.verdict <;> rfl

theorem serve_singleUse :
    SingleUse (serve : Request G₁ → EStateM Fault (Batch G₁ G₂) (Option Bool)) .check
      .batchFinalized reply closed fun b => b.finalized = false := by
  have hadd : ∀ (entry : Entry G₁) (b : Batch G₁ G₂), b.finalized = false →
      serve (.add entry) b = .ok none (b.push entry) := fun entry b hb => bind_ok (add_eq hb entry)
  refine ⟨fun r hr b hb => ?_, fun r hr b hb e he => ?_, fun b hb => serve_check hb,
    fun r b hb => serve_finalized rfl r⟩
  · cases r with
    | add entry =>
      rw [hadd entry b hb]
      exact (finalized_foldl_push [entry] b).trans hb
    | check => exact absurd rfl hr
  · cases r with
    | add entry =>
      rw [hadd entry b hb] at he
      cases he
    | check => exact absurd rfl hr

end Batch

/-! ## Verifiers -/

namespace Verifier

/-! ### Evaluating the constraint polynomial -/

theorem times_error {c : Coeff} {w : Option Fr} {e : Fault} (h : c.times w = .error e) :
    e = .missingOperand := by
  unfold Coeff.times at h
  split at h
  · cases h
  · unfold Coeff.filled at h
    split at h
    · cases h
      rfl
    · cases h
  · cases h
    rfl

theorem newConstraint_inTime : FailsOnly Fault.InTime AtY.newConstraint :=
  .bind (.modify _) fun _ => .get_bind fun _ => .pure _

theorem insertTerm_inTime (w : Wire) (c : Coeff) (power : Option Fr) :
    FailsOnly Fault.InTime (AtY.insertTerm w c power) := by
  have hrow : ∀ row : List Fr, FailsOnly Fault.InTime (do
      let term ← (ofExcept (c.times power) : EStateM Fault AtY Fr)
      return row.modify (w.index - 1).toNat (· + term)) := by
    refine fun row => .bind (.ofExcept fun e he => ?_) fun term => .pure _
    rw [times_error he]
    exact nofun
  refine .get_bind fun s => ?_
  dsimp only
  split
  · exact .throw_bind nofun
  · cases w.kind with
    | a | b | c => exact .bind (hrow _) fun row => .set _
    | other _ => exact .throw nofun

theorem whenRepeated_inTime {e : Fault} (he : e.InTime) : (whenRepeated e).InTime := by
  cases e with
  | synthesis _ => exact nofun
  | _ => exact he

theorem start_inTime {y : Fr} {gates : Nat} {e : Fault} (he : AtY.start y gates = .error e) :
    e.InTime := by
  unfold AtY.start at he
  split at he
  · cases he
    exact nofun
  · cases he

theorem eval_inTime {s : AtY} {x : Fr} {e : Fault} (he : s.eval x = .error e) : e.InTime := by
  unfold AtY.eval at he
  split at he
  · cases he
    exact nofun
  · cases he

/-- Another pass of the circuit may fail for many reasons, but not because it comes late. -/
theorem constraintValue_inTime {G₁ G₂ : Type} (y x : Fr) :
    FailsOnly Fault.InTime (constraintValue y x : Action G₁ G₂ Fr) := by
  have hdriver : Synthesis.DriverFaults Fault.InTime := ⟨fun _ => nofun, nofun, nofun, nofun⟩
  have hbuild : FailsOnly Fault.InTime (Synthesis.build AtY.backend) :=
    Synthesis.build_failsOnly hdriver newConstraint_inTime fun w c power =>
      insertTerm_inTime w c (some power)
  refine .get_bind fun v => .bind (.ofExcept fun _ => start_inTime) fun s => .bind ?_ fun done => ?_
  · intro v e he
    unfold onCircuit Synthesis.complete Synthesis.run at he
    dsimp only at he
    cases hrun : Synthesis.build AtY.backend (Synthesis.start v.circuit s) with
    | ok _ done =>
      rw [hrun] at he
      cases he
    | error e' done =>
      rw [hrun] at he
      cases he
      exact whenRepeated_inTime (hbuild _ _ (congrArg outcome hrun))
  · dsimp only
    split
    · exact .throw_bind nofun
    · exact .ofExcept fun _ => eval_inTime

section

variable {G₁ G₂ : Type} [SourceGroup G₁ Fp] {oracle : Oracle} {v : Verifier G₁ G₂}

/-- Until the check, no call is refused for coming late. -/
theorem Call.Refused.inTime {call : Call G₁} {e : Fault} (h : call.Refused oracle v e)
    (hopen : v.finalized = false) (hbatch : v.batch.finalized = false) : e.InTime := by
  cases h with
  | verifierFinalized hclosed => exact absurd hclosed (Bool.eq_false_iff.1 hopen)
  | batchFinalized hclosed => exact absurd hclosed (Bool.eq_false_iff.1 hbatch)
  | proofInputs _ | advisedInputs _ | openings _ | noChallenge _ => exact nofun
  | synthesis _ hvalue => exact constraintValue_inTime _ _ v e hvalue

end

/-! ### How often the batch is evaluated -/

section

variable {G₁ G₂ α β : Type}

/-- The evaluations of a batch that the log tells of. -/
def evaluations (v : Verifier G₁ G₂) : Nat := v.log.countP fun entry => entry matches .batchChecked ..

/-- The action evaluates no batch. -/
def Quiet (act : Action G₁ G₂ α) : Prop := ∀ v, (endState (act v)).evaluations = v.evaluations

namespace Quiet

theorem throw (e : Fault) : Quiet (MonadExcept.throw e : Action G₁ G₂ α) := fun _ => rfl

theorem bind {x : Action G₁ G₂ α} {f : α → Action G₁ G₂ β} (hx : Quiet x) (hf : ∀ a, Quiet (f a)) :
    Quiet (x >>= f) := fun v =>
  endState_bind (P := fun v' => v'.evaluations = v.evaluations) (hx v) fun a v' hv' =>
    (hf a v').trans hv'

theorem throw_bind (e : Fault) {f : α → Action G₁ G₂ β} : Quiet (MonadExcept.throw e >>= f) :=
  fun _ => rfl

theorem get_bind {f : Verifier G₁ G₂ → Action G₁ G₂ α} (hf : ∀ v, Quiet (f v)) : Quiet (get >>= f) :=
  fun v => hf v v

theorem ofExcept (x : Except Fault α) : Quiet (ofExcept x : Action G₁ G₂ α) := fun v => by
  cases x <;> rfl

theorem forM {f : β → Action G₁ G₂ Unit} (hf : ∀ b, Quiet (f b)) (bs : List β) :
    Quiet (bs.forM f) := by
  induction bs with
  | nil => exact fun _ => rfl
  | cons b bs ih => exact bind (hf b) fun _ => ih

theorem ensureOpen : Quiet (ensureOpen : Action G₁ G₂ Unit) := by
  refine .get_bind fun v => ?_
  split
  · exact .throw _
  · exact fun _ => rfl

theorem onBatch (act : EStateM Fault (Batch G₁ G₂) α) : Quiet (onBatch act) := fun v => by
  unfold Verifier.onBatch
  cases act v.batch <;> rfl

theorem send (entries : List (Entry G₁)) : Quiet (send entries : Action G₁ G₂ Unit) :=
  forM (fun _ => onBatch _) entries

theorem constraintValue (y x : Fr) : Quiet (constraintValue y x : Action G₁ G₂ Fr) := fun v => by
  obtain ⟨c, hc⟩ := endState_constraintValue v y x
  rw [hc]
  rfl

theorem note {entry : LogEntry} (h : (entry matches .batchChecked ..) = false) :
    Quiet (note entry : Action G₁ G₂ Unit) := fun v => by
  show (v.log ++ [entry]).countP _ = v.log.countP _
  rw [List.countP_append, List.countP_singleton, h]
  rfl

theorem awaited {call : Action G₁ G₂ α} (h : Quiet call) : Quiet (awaited call) := fun v => by
  unfold Verifier.awaited
  split
  · rfl
  · exact h v

end Quiet

variable (oracle : Oracle)

theorem claimProof_quiet (p : Proof G₁) (pts : Proof.Points) (tzy : Fr) :
    Quiet (claimProof oracle p pts tzy : Action G₁ G₂ Unit) :=
  .bind (.ofExcept _) fun _ => .bind (.send _) fun _ => .bind (.ofExcept _) fun _ => .send _

theorem claimCombination_quiet (coefficient : Fr) (advised : List (Advice G₁ × Fr)) (expected : Fr)
    (t : Transcript) :
    Quiet (claimCombination oracle coefficient advised expected t : Action G₁ G₂ Fr) := by
  induction advised generalizing expected t with
  | nil => exact fun _ => rfl
  | cons av rest ih => exact .bind (.ofExcept _) fun _ => .bind (.send _) fun _ => ih _ _

theorem claimAggregate_quiet (proofs : List (Proof G₁ × Advice G₁)) (agg : Aggregate G₁)
    (pts : Aggregate.Points) (szw : Fr) :
    Quiet (claimAggregate oracle proofs agg pts szw : Action G₁ G₂ Unit) :=
  .bind (.ofExcept _) fun _ => .bind (.send _) fun _ =>
    .bind (.forM (fun _ => .bind (.ofExcept _) fun _ => .send _) _) fun _ =>
    .bind (.ofExcept _) fun _ => .bind (claimCombination_quiet oracle _ _ _ _) fun _ => .send _

variable [SourceGroup G₁ Fp]

theorem prepare_quiet (p : Proof G₁) (inputs : List Fr) (szy : Option Fr) :
    Quiet (prepare oracle p inputs szy : Action G₁ G₂ _) := fun v => by
  obtain ⟨v', hv', hprepare⟩ := prepare_spec oracle v p inputs szy
  obtain ⟨c, rfl⟩ := hv'.exists_circuit
  rw [hprepare, endState_withEnd]
  rfl

theorem takeProof_quiet (p : Proof G₁) (inputs : List Fr) (szy : Option Fr) :
    Quiet (takeProof oracle p inputs szy : Action G₁ G₂ Fr) :=
  .bind (prepare_quiet oracle p inputs szy) fun _ => .bind (claimProof_quiet oracle _ _ _) fun _ =>
    .get_bind fun _ => .bind (.note rfl) fun _ _ => rfl

theorem Call.run_quiet (call : Call G₁) : Quiet (call.run oracle : Action G₁ G₂ Unit) := by
  cases call with
  | proof p inputs szy =>
    exact .awaited <| .bind .ensureOpen fun _ => .bind (takeProof_quiet oracle p inputs szy)
      fun _ _ => rfl
  | advised p inputs advice =>
    exact .awaited <| .bind .ensureOpen fun _ => .bind (takeProof_quiet oracle p inputs _) fun _ =>
      .bind (.ofExcept _) fun _ => .send _
  | aggregate proofs agg =>
    refine .awaited <| .bind .ensureOpen fun _ => ?_
    dsimp only
    split
    · exact .throw_bind _
    · exact .bind (.ofExcept _) fun _ => .bind (.constraintValue _ _) fun _ =>
        .bind (claimAggregate_quiet oracle proofs agg _ _) fun _ => .get_bind fun _ => .note rfl

end

/-! ### Requests -/

inductive Request (G : Type)
  | call (call : Call G)
  | check
  deriving DecidableEq, Repr

section

variable {G₁ G₂ F₂ T : Type} [SourceGroup G₁ Fp] [SourceGroup G₂ F₂] [Pairing G₁ G₂ T]
  (oracle : Oracle) {v : Verifier G₁ G₂}

/-- Serves a request. Only the check returns something. -/
def serve : Request G₁ → Action G₁ G₂ (Option Bool)
  | .call call => do
    call.run oracle
    return none
  | .check => return some (← check)

def reply (v : Verifier G₁ G₂) : Except Fault (Option Bool) := v.batch.reply

theorem serve_call (call : Call G₁) (v : Verifier G₁ G₂) :
    serve oracle (.call call) v = withEnd (endState (call.run oracle v))
      (outcome (call.run oracle v) >>= fun _ => .ok none) :=
  bind_pure_eq (call.run oracle) (fun _ => none) v

theorem serve_check (hopen : v.finalized = false) (hbatch : v.batch.finalized = false) :
    serve oracle .check v = withEnd v.closed v.reply := by
  refine (bind_pure_eq check some v).trans ?_
  rw [check_open hopen hbatch, endState_withEnd, outcome_withEnd, reply, Batch.reply]
  cases v.batch.closed.verdict <;> rfl

theorem serve_finalized (hclosed : v.finalized = true) (r : Request G₁) :
    serve oracle r v = .error .verifierFinalized v := by
  cases r with
  | call call => exact bind_error (Call.run_finalized hclosed call)
  | check =>
    refine bind_error (bind_error (?_ : ensureOpen v = _))
    unfold ensureOpen
    rw [get_bind, hclosed]
    rfl

theorem serve_singleUse (shape : Shape) :
    SingleUse (serve oracle : Request G₁ → Action G₁ G₂ (Option Bool)) .check .verifierFinalized
      reply closed fun v => v.TakesClaims shape := by
  refine ⟨fun r hr v hv => ?_, fun r hr v hv e he => ?_, fun v hv => ?_,
    fun r v hv => serve_finalized oracle rfl r⟩
  · cases r with
    | call call =>
      obtain ⟨v', hrun, hv'⟩ := hv.attempt oracle call
      rw [Call.attempt_eq] at hrun
      cases hrun
      rwa [serve_call, endState_withEnd]
    | check => exact absurd rfl hr
  · cases r with
    | call call =>
      rw [serve_call, outcome_withEnd] at he
      cases hrun : call.run oracle v with
      | ok _ v' =>
        rw [hrun] at he
        cases he
      | error e' v' =>
        rw [hrun] at he
        cases he
        exact (Call.run_error hrun).1.inTime hv.finalized_eq hv.batch_finalized_eq
    | check => exact absurd rfl hr
  · exact serve_check oracle hv.finalized_eq hv.batch_finalized_eq

theorem evaluations_answers {earlier : List (Request G₁)} (hcheck : .check ∉ earlier) :
    (answers (serve oracle) earlier v).2.evaluations = v.evaluations := by
  refine answers_keeps (serve oracle) (P := fun v' => v'.evaluations = v.evaluations)
    (fun r hr v' hv' => ?_) rfl
  cases r with
  | call call =>
    rw [serve_call, endState_withEnd]
    exact (call.run_quiet oracle v').trans hv'
  | check => exact absurd hr hcheck

theorem evaluations_closed (v : Verifier G₁ G₂) : v.closed.evaluations = v.evaluations + 1 := by
  unfold evaluations closed
  cases v.batch.closed.verdict <;> simp

end

end Verifier

/-! ## Runs -/

section

variable {G₁ G₂ F₂ T : Type} [SourceGroup G₁ Fp] [SourceGroup G₂ F₂] [Pairing G₁ G₂ T]

/-- Verifiers and batches are for single use. Whatever is requested of a new verifier, with whatever
arguments and for whatever circuit, nothing is refused for coming late before the first check; the
first check closes the verifier with the verdict on its batch, if there is one, and the batch is
evaluated then and only then; every later request is refused as such and leaves the whole verifier
as it is, its circuit and its batch included. A batch by itself behaves alike. -/
theorem single_use (oracle : Oracle) (srs : ReferenceString G₁ G₂) :
    (∀ circuit log log' (v : Verifier G₁ G₂), Verifier.start srs circuit log = .ok v log' →
      ClosesOnce (Verifier.serve oracle) .check .verifierFinalized Verifier.reply Verifier.closed v ∧
      ∀ earlier later : List (Verifier.Request G₁), .check ∉ earlier →
        (answers (Verifier.serve oracle) earlier v).2.evaluations = v.evaluations ∧
        (answers (Verifier.serve oracle) (earlier ++ .check :: later) v).2.evaluations =
          v.evaluations + 1) ∧
    ∀ gates (b : Batch G₁ G₂), Batch.start srs gates = .ok b →
      ClosesOnce Batch.serve .check .batchFinalized Batch.reply Batch.closed b := by
  refine ⟨fun circuit log log' v hstart => ?_, fun gates b hstart => ?_⟩
  · have hv := Verifier.takesClaims_of_start hstart
    have honce := (Verifier.serve_singleUse oracle circuit.outline.shape).closesOnce hv
    refine ⟨honce, fun earlier later hcheck => ?_⟩
    have hevaluations := Verifier.evaluations_answers oracle (v := v) hcheck
    refine ⟨hevaluations, ?_⟩
    rw [honce.answers_eq earlier later hcheck, Verifier.evaluations_closed, hevaluations]
  · obtain ⟨_, _, _, _, _, rfl⟩ := Batch.start_fresh hstart
    exact Batch.serve_singleUse.closesOnce rfl

end

/-- A verifier that is checked twice, with a call before each check that has too few inputs, and a
batch with a claim that does not hold. -/
theorem single_use_productCircuit :
    letI := scalarPairing (Point Fp) (Point Fp2)
    let call : Verifier.Request (Point Fp) :=
      .call (.proof ⟨generator, generator, 3, 4, generator, generator⟩ [] none)
    let claim : Batch.Request (Point Fp) := .add (.value 3 2)
    ∃ (srs : ReferenceString (Point Fp) (Point Fp2)) (v : Verifier (Point Fp) (Point Fp2))
      (log : List LogEntry) (b : Batch (Point Fp) (Point Fp2)),
      ReferenceString.ofSecrets 2 2 3 = .ok srs ∧
      Verifier.start srs (productCircuit.atPass 0) [] = .ok v log ∧
      answers (Verifier.serve (.constant 5)) [call, .check, call, .check] v =
        ([.error (.inputCount 0 1), .ok (some true), .error .verifierFinalized,
          .error .verifierFinalized], v.closed) ∧
      Batch.start srs 2 = .ok b ∧
      answers Batch.serve [claim, .check, claim, .check] b =
        ([.ok none, .ok (some false), .error .batchFinalized, .error .batchFinalized],
          (b.push (.value 3 2)).closed) := by
  let := scalarPairing (Point Fp) (Point Fp2)
  intro call claim
  have e := scalarPairing_bilinear (Point Fp) (Point Fp2)
  obtain ⟨srs, v, log, hsrs, hstart, hv, -⟩ := Verifier.productCircuit_takes_proofs
  obtain ⟨b, hb, hkeys, hcollects⟩ : ∃ b : Batch (Point Fp) (Point Fp2),
      Batch.start srs 2 = .ok b ∧ b.HasKeys 2 2 2 3 ∧ b.Collects [] :=
    Batch.start_eq (ReferenceString.tables_of_ofSecrets hsrs) (by decide) (by decide)
  obtain ⟨hverifier, hbatch⟩ := single_use (.constant 5) srs
  refine ⟨srs, v, log, b, hsrs, hstart, ?_, hb, ?_⟩
  · have hcall : answers (Verifier.serve (.constant 5)) [call] v = ([.error (.inputCount 0 1)], v) := by
      have hprepare : ∀ p : Proof (Point Fp), Verifier.prepare (.constant 5) p [] none v =
          .error (.inputCount 0 1) v := by
        intro p
        unfold Verifier.prepare
        rw [get_bind]
        dsimp only
        rw [hv.shape_eq, productCircuit_outline]
        rfl
      have hserve : Verifier.serve (.constant 5) call v = .error (.inputCount 0 1) v :=
        bind_error <| Verifier.awaited_error ((bind_ok (Verifier.ensureOpen_eq hv.finalized_eq)).trans
          (bind_error (bind_error (hprepare _)))) nofun
      rw [answers, hserve]
      rfl
    have hanswer : v.reply = .ok (some true) := by
      rw [Verifier.reply, Batch.reply, Batch.verdict_closed e hv.keys hv.batch]
      exact congrArg (fun accepted => Except.ok (some accepted)) (by decide +kernel)
    have hrun := (hverifier _ _ _ _ hstart).1.answers_eq [call] [call, .check] (by decide)
    rw [hcall, hanswer] at hrun
    exact hrun
  · have hclaim : answers Batch.serve [claim] b = ([.ok none], b.push (.value 3 2)) := by
      have hserve : Batch.serve claim b = .ok none (b.push (.value 3 2)) :=
        bind_ok (Batch.add_eq hcollects.finalized _)
      rw [answers, hserve]
      rfl
    have hanswer : (b.push (.value 3 2)).reply = .ok (some false) := by
      rw [Batch.reply, Batch.verdict_closed e (hkeys.push _) (hcollects.push (.value 3 2))]
      exact congrArg (fun accepted => Except.ok (some accepted)) (by decide +kernel)
    have hrun := (hbatch _ _ hb).answers_eq [claim] [claim, .check] (by decide)
    rw [hclaim, hanswer] at hrun
    exact hrun

end SnarkBatch
