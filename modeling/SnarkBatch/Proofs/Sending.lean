import SnarkBatch.Proofs.Transcript
import SnarkBatch.Proofs.Verifier

/-!
# Sending claims

A call first works out what may fail, with a pass of the circuit if need be, and then draws its
coefficients and adds its claims by turns. `Follows` puts a part of a call beside the computation
that gives the same results without a batch: it either does what that computation says, or fails
with the same fault. Two things can come between. The first claim of all finds the batch finalized,
before anything has been added; or a later challenge does not come, and then nobody sees how far the
call came (`Verifier.awaited`). So the claims of a proof and of an aggregate are those worked out in
`Proofs/Claims.lean` (`claimProof_follows`, `claimAggregate_follows`).
-/

namespace SnarkBatch.Verifier

variable {G₁ G₂ : Type} {v v' : Verifier G₁ G₂}

/-! ## Evaluating the constraint polynomial -/

/-- `s(x, y)` as the next pass of the verifier's circuit gives it. -/
def evaluate (v : Verifier G₁ G₂) (y x : Fr) : Except Fault Fr := outcome (constraintValue y x v)

/-- The verifier before or after another pass of its circuit. -/
def Evaluated (v v' : Verifier G₁ G₂) : Prop := v' = v ∨ ∃ y x, v' = endState (constraintValue y x v)

/-- A pass changes nothing but the circuit. -/
theorem endState_constraintValue (v : Verifier G₁ G₂) (y x : Fr) :
    ∃ c, endState (constraintValue y x v) = { v with circuit := c } := by
  have hcircuit : ∀ {α : Type} (act : EStateM Fault Circuit α),
      ∃ c, endState (onCircuit act v) = { v with circuit := c } := by
    intro α act
    unfold onCircuit
    cases act v.circuit with
    | ok a c => exact ⟨c, rfl⟩
    | error e c => exact ⟨c, rfl⟩
  unfold constraintValue
  rw [get_bind]
  dsimp only
  cases AtY.start y v.shape.gates with
  | error e => exact ⟨v.circuit, rfl⟩
  | ok s =>
    rw [ofExcept_bind rfl]
    refine endState_bind (P := fun v' => ∃ c, v' = { v with circuit := c }) (hcircuit _) ?_
    rintro done _ ⟨c, rfl⟩
    refine ⟨c, ?_⟩
    split
    · rfl
    · cases done.backend.eval x <;> rfl

theorem Evaluated.exists_circuit (h : v.Evaluated v') : ∃ c, v' = { v with circuit := c } := by
  rcases h with rfl | ⟨y, x, rfl⟩
  · exact ⟨v'.circuit, rfl⟩
  · exact endState_constraintValue v y x

theorem Evaluated.batch_eq (h : v.Evaluated v') : v'.batch = v.batch := by
  obtain ⟨c, rfl⟩ := h.exists_circuit
  rfl

/-! ## Sending entries -/

/-- The verifier with some entries more in its batch. -/
def push (v : Verifier G₁ G₂) (entries : List (Entry G₁)) : Verifier G₁ G₂ :=
  { v with batch := entries.foldl Batch.push v.batch }

theorem push_append (v : Verifier G₁ G₂) (entries more : List (Entry G₁)) :
    v.push (entries ++ more) = (v.push entries).push more := by
  unfold push
  rw [List.foldl_append]

theorem push_open (hbatch : v.batch.finalized = false) (entries : List (Entry G₁)) :
    (v.push entries).batch.finalized = false :=
  (Batch.finalized_foldl_push entries v.batch).trans hbatch

theorem send_eq (hbatch : v.batch.finalized = false) (entries : List (Entry G₁)) :
    send entries v = .ok () (v.push entries) := by
  induction entries generalizing v with
  | nil => rfl
  | cons entry entries ih =>
    have hadd : onBatch (Batch.add entry) v = .ok () (v.push [entry]) := by
      unfold onBatch
      rw [Batch.add_eq hbatch]
      rfl
    exact (bind_ok hadd).trans (ih (push_open hbatch [entry]))

theorem send_finalized (hbatch : v.batch.finalized = true) {entries : List (Entry G₁)}
    (hentries : entries ≠ []) : send entries v = .error .batchFinalized v := by
  cases entries with
  | nil => exact absurd rfl hentries
  | cons entry entries =>
    refine bind_error (?_ : onBatch (Batch.add entry) v = _)
    unfold onBatch
    rw [Batch.add_finalized hbatch]

/-! ## Following a computation -/

/-- How a part of a call on the verifier `v` ends, beside a computation: with results and a state
related by `Q`; with the same fault, before any claim; because a challenge does not come; or because
the batch takes no claims. -/
inductive Follows {α γ : Type} (v : Verifier G₁ G₂) (Q : γ → α → Verifier G₁ G₂ → Prop) :
    Except Fault γ → EStateM.Result Fault (Verifier G₁ G₂) α → Prop
  | ok {c : γ} {a : α} {v' : Verifier G₁ G₂} : Q c a v' → Follows v Q (.ok c) (.ok a v')
  | failed {v' : Verifier G₁ G₂} (e : Fault) : v.Evaluated v' →
    Follows v Q (.error e) (.error e v')
  | waiting (v' : Verifier G₁ G₂) : Follows v Q (.error .noChallenge) (.error .noChallenge v')
  | refused {v' : Verifier G₁ G₂} (x : Except Fault γ) : v.batch.finalized = true →
    v.Evaluated v' → Follows v Q x (.error .batchFinalized v')

namespace Follows

variable {α β γ δ : Type} {Q : γ → α → Verifier G₁ G₂ → Prop} {Q' : δ → β → Verifier G₁ G₂ → Prop}
  {s : Verifier G₁ G₂}

theorem bind {x : Except Fault γ} {act : Action G₁ G₂ α} {f : γ → Except Fault δ}
    {next : α → Action G₁ G₂ β} (h : v.Follows Q x (act s))
    (hnext : ∀ c a s', Q c a s' → v.Follows Q' (f c) (next a s')) :
    v.Follows Q' (x >>= f) ((act >>= next) s) := by
  generalize hact : act s = r at h
  cases h with
  | ok hQ =>
    rw [bind_ok hact]
    exact hnext _ _ _ hQ
  | failed e hv' =>
    rw [bind_error hact]
    exact .failed e hv'
  | waiting s' =>
    rw [bind_error hact]
    exact .waiting s'
  | refused x hbatch hv' =>
    rw [bind_error hact]
    exact .refused _ hbatch hv'

theorem eq_ok {c : γ} {r : EStateM.Result Fault (Verifier G₁ G₂) α} (h : v.Follows Q (.ok c) r)
    (hbatch : v.batch.finalized = false) : ∃ a s, r = .ok a s ∧ Q c a s := by
  cases h with
  | ok hQ => exact ⟨_, _, rfl, hQ⟩
  | refused _ hclosed _ =>
    rw [hbatch] at hclosed
    cases hclosed

/-- The computation may go on alone. -/
theorem map {x : Except Fault γ} {r : EStateM.Result Fault (Verifier G₁ G₂) β} {g : γ → δ}
    {P : γ → β → Verifier G₁ G₂ → Prop} (h : v.Follows P x r)
    (hg : ∀ c b s', P c b s' → Q' (g c) b s') : v.Follows Q' (x >>= fun c => .ok (g c)) r := by
  cases h with
  | ok hP => exact .ok (hg _ _ _ hP)
  | failed e hv' => exact .failed e hv'
  | waiting s' => exact .waiting s'
  | refused x hbatch hv' => exact .refused _ hbatch hv'

/-- The call may go on alone. -/
theorem bind_left {x : Except Fault γ} {act : Action G₁ G₂ α} {P : γ → β → Verifier G₁ G₂ → Prop}
    {next : α → Action G₁ G₂ β} (h : v.Follows Q x (act s))
    (hnext : ∀ c a s', Q c a s' → v.Follows P (.ok c) (next a s')) :
    v.Follows P x ((act >>= next) s) := by
  rw [← bind_pure x]
  exact h.bind hnext

/-- What comes before all claims may fail in any way. -/
theorem of_withEnd (hv' : v.Evaluated v') (x : Except Fault γ) :
    v.Follows (fun c a s => a = c ∧ v.Evaluated s) x (withEnd v' x) := by
  cases x with
  | ok c => exact .ok ⟨rfl, hv'⟩
  | error e => exact .failed e hv'

theorem constraintValue (v : Verifier G₁ G₂) (y x : Fr) :
    v.Follows (fun c a s => a = c ∧ v.Evaluated s) (v.evaluate y x)
      (Verifier.constraintValue y x v) := by
  have hpass : v.Evaluated (endState (Verifier.constraintValue y x v)) := .inr ⟨y, x, rfl⟩
  have hvalue := of_withEnd hpass (v.evaluate y x)
  rwa [evaluate, withEnd_outcome] at hvalue

theorem draw {oracle : Oracle} {x : Except Fault γ} {P : γ → Prop} (hx : Delivers oracle x P)
    {f : γ → Except Fault δ} {next : γ → Action G₁ G₂ β}
    (hnext : ∀ c, v.Follows Q' (f c) (next c s)) :
    v.Follows Q' (x >>= f) ((ofExcept x >>= next) s) := by
  rcases hx with ⟨c, rfl, -⟩ | ⟨rfl, -⟩
  · exact hnext c
  · exact .waiting s

/-- The first claim shows whether the batch is open. -/
theorem send_first (hs : v.Evaluated s) {entries : List (Entry G₁)} (hentries : entries ≠ [])
    {x : Except Fault δ} {next : Unit → Action G₁ G₂ β}
    (hnext : v.batch.finalized = false → v.Follows Q' x (next () (s.push entries))) :
    v.Follows Q' x ((send entries >>= next) s) := by
  cases hbatch : v.batch.finalized with
  | true =>
    rw [← hs.batch_eq] at hbatch
    rw [bind_error (send_finalized hbatch hentries)]
    exact .refused x (hs.batch_eq ▸ hbatch) hs
  | false =>
    have hopen : s.batch.finalized = false := hs.batch_eq ▸ hbatch
    rw [bind_ok (send_eq hopen entries)]
    exact hnext hbatch

theorem send_bind (hs : s.batch.finalized = false) {entries : List (Entry G₁)} {x : Except Fault δ}
    {next : Unit → Action G₁ G₂ β} (hnext : v.Follows Q' x (next () (s.push entries))) :
    v.Follows Q' x ((send entries >>= next) s) := by
  rw [bind_ok (send_eq hs entries)]
  exact hnext

theorem send {P : γ → Unit → Verifier G₁ G₂ → Prop} (hs : s.batch.finalized = false)
    {entries : List (Entry G₁)} {c : γ} (hP : P c () (s.push entries)) :
    v.Follows P (.ok c) (send entries s) := by
  rw [send_eq hs entries]
  exact .ok hP

theorem forM {items : List β} {f : β → Except Fault (List (Entry G₁))}
    {step : β → Action G₁ G₂ Unit}
    (hstep : ∀ b s, s.batch.finalized = false →
      v.Follows (fun entries _ s' => s' = s.push entries) (f b) (step b s))
    (hs : s.batch.finalized = false) :
    v.Follows (fun each _ s' => s' = s.push each.flatten) (items.mapM f) (items.forM step s) := by
  induction items generalizing s with
  | nil => exact .ok rfl
  | cons b items ih =>
    rw [List.mapM_cons]
    refine (hstep b s hs).bind fun entries _ s' hs' => ?_
    subst hs'
    refine (ih (push_open hs entries)).map fun each _ s' hs' => ?_
    rw [hs', List.flatten_cons, push_append]

end Follows

/-! ## The claims of a proof and of an aggregate -/

variable (oracle : Oracle) {s : Verifier G₁ G₂}

theorem claimProof_follows (hs : v.Evaluated s) (p : Proof G₁) (pts : Proof.Points) (tzy : Fr) :
    v.Follows (fun ch _ s' => v.batch.finalized = false ∧ ch.z = pts.z ∧
        s' = s.push (p.entries ch tzy))
      (pts.challenges oracle) (claimProof oracle p pts tzy s) := by
  refine .draw (.challenge oracle _) fun first => ?_
  refine .send_first hs (List.cons_ne_nil _ _) fun hbatch => ?_
  have hopen : s.batch.finalized = false := hs.batch_eq ▸ hbatch
  exact .draw (.challenge oracle _) fun second =>
    .send (push_open hopen _) ⟨hbatch, rfl, (push_append s _ _).symm⟩

theorem claimOpenings_follows (hs : s.batch.finalized = false) (agg : Aggregate G₁)
    (pts : Aggregate.Points) :
    v.Follows (fun openings _ s' => s' = s.push openings) (agg.openingEntries oracle pts)
      (claimOpenings oracle agg pts s) := by
  have heach : v.Follows (fun each _ s' => s' = s.push each.flatten)
      ((agg.cOpenings.zip pts.ys).mapM fun oy => do
        return agg.pointEntries oy.1.1 (← pts.transcript.forkChallenge oracle) oy.2 oy.1.2)
      (claimOpenings oracle agg pts s) := by
    exact .forM (fun oy s hs => .draw (.forkChallenge oracle _) fun _ => .send hs rfl) hs
  exact heach.map fun _ _ _ hs' => hs'

theorem claimCombination_follows (coefficient : Fr) (hs : s.batch.finalized = false)
    (advised : List (Advice G₁ × Fr)) (expected : Fr) (t : Transcript) :
    v.Follows (fun combined sum s' => sum = expected + combined.1 ∧ s' = s.push combined.2)
      (Aggregate.combine oracle coefficient advised t)
      (claimCombination oracle coefficient advised expected t s) := by
  induction advised generalizing expected t s with
  | nil => exact .ok ⟨(add_zero expected).symm, rfl⟩
  | cons av rest ih =>
    refine .draw (.challenge oracle t) fun drawn => .send_bind hs ?_
    refine (ih (push_open hs _) _ _).map ?_
    rintro combined _ _ ⟨rfl, rfl⟩
    exact ⟨add_assoc _ _ _, rfl⟩

theorem claimAggregate_follows (hs : v.Evaluated s) (proofs : List (Proof G₁ × Advice G₁))
    (agg : Aggregate G₁) (pts : Aggregate.Points) (szw : Fr) :
    v.Follows (fun entries _ s' => v.batch.finalized = false ∧ s' = s.push entries)
      (agg.entries oracle proofs pts szw) (claimAggregate oracle proofs agg pts szw s) := by
  refine .draw (.forkChallenge oracle _) fun shared => ?_
  -- Only this first claim can be refused: from here on the batch is known to be open.
  refine .send_first hs (List.cons_ne_nil _ _) fun hbatch => ?_
  have hopen : s.batch.finalized = false := hs.batch_eq ▸ hbatch
  refine (claimOpenings_follows oracle (push_open hopen _) agg pts).bind ?_
  rintro openings _ _ rfl
  refine .draw (.forkChallenge oracle _) fun coefficient => ?_
  have hopen' := push_open (push_open hopen (agg.pointEntries agg.opening shared pts.w szw)) openings
  refine (claimCombination_follows oracle coefficient hopen' _ 0 pts.transcript).bind ?_
  rintro ⟨expected, combined⟩ _ _ ⟨rfl, rfl⟩
  refine .send (push_open hopen' combined) ⟨hbatch, ?_⟩
  rw [push_append, push_append, push_append, zero_add]

/-! ## Calls that wait -/

section

variable {α : Type} {call : Action G₁ G₂ α}

theorem awaited_ok {a : α} (h : call v = .ok a v') : awaited call v = .ok a v' := by
  unfold awaited
  rw [h]

theorem awaited_error {e : Fault} (h : call v = .error e v') (he : e ≠ .noChallenge) :
    awaited call v = .error e v' := by
  unfold awaited
  rw [h]
  split
  · rename_i hr
    cases hr
    exact absurd rfl he
  · rfl

theorem awaited_noChallenge (h : call v = .error .noChallenge v') :
    awaited call v = .error .noChallenge v := by
  unfold awaited
  rw [h]

end

end SnarkBatch.Verifier
