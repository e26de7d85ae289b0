import SnarkBatch.Proofs.Additivity

/-!
# Circuits that change between passes

A verifier takes the size of its circuit from the first pass. A call that evaluates the constraint
polynomial runs another pass, which may do something else. `Call.inconsistent_iff` says which
changes the call notices: another number of constraints, and a term on a wire that no gate of the
first pass has. Then it fails and leaves the batch alone. It does not count the gates: more or fewer
of them go unnoticed as long as no constraint names one that the first pass does not have. The
claims are added then, for the constraint polynomial with the number of gates that the first pass
had (`Call.run_gateDrift`).
-/

namespace SnarkBatch

namespace Outline

/-- Every term is on a wire of some kind that gates have, with a coefficient that has a value. -/
def WellFormed (o : Outline) : Prop :=
  ∀ lc ∈ o.constraints, ∀ term ∈ lc.terms,
    (term.1.kind = .a ∨ term.1.kind = .b ∨ term.1.kind = .c) ∧ term.2 ≠ .full none

instance (o : Outline) : Decidable o.WellFormed :=
  inferInstanceAs (Decidable (∀ lc ∈ o.constraints, ∀ term ∈ lc.terms, _ ∧ _))

/-- The outline does not fit the shape: its constraints are more or fewer, or one of them is on
a gate that the shape does not count. -/
def Drifts (o : Outline) (shape : Shape) : Prop :=
  o.constraints.length ≠ shape.constraints ∨
    ∃ lc ∈ o.constraints, ∃ term ∈ lc.terms,
      ¬ (1 ≤ term.1.index ∧ term.1.index ≤ shape.gates)

instance (o : Outline) (shape : Shape) : Decidable (o.Drifts shape) :=
  inferInstanceAs (Decidable (_ ∨ ∃ lc ∈ o.constraints, ∃ term ∈ lc.terms, _))

variable {o : Outline} (ho : o.WellFormed)
include ho

theorem WellFormed.inGates_iff {n : Nat} :
    o.InGates n ↔ ∀ lc ∈ o.constraints, ∀ term ∈ lc.terms,
      1 ≤ term.1.index ∧ term.1.index ≤ n := by
  refine forall₂_congr fun lc hlc => forall₂_congr fun term hterm => ?_
  obtain ⟨hkind, hcoeff⟩ := ho lc hlc term hterm
  exact ⟨fun h => ⟨h.1.one_le, h.1.le⟩, fun h => ⟨⟨hkind, h.1, h.2⟩, hcoeff⟩⟩

/-- What an accumulator refuses in a well-formed outline is an inconsistency. -/
theorem WellFormed.category_fault {free : Axis} {n : Nat} {e : Fault}
    (he : o.fault free n = some e) : e.category = .inconsistency := by
  obtain ⟨lc, hlc, he⟩ := List.exists_of_findSome?_eq_some he
  obtain ⟨term, hterm, he⟩ := List.exists_of_findSome?_eq_some he
  obtain ⟨hkind, hcoeff⟩ := ho lc hlc term hterm
  unfold termFault at he
  split at he
  · rcases hkind with hkind | hkind | hkind <;> rw [hkind] at he <;> cases he
  · cases he
    rfl

/-- A synthesis fails with an inconsistency where the outline drifts, and has a value elsewhere. -/
theorem WellFormed.evaluateFor_eq {shape : Shape} {x y : Fr} (hy : y ≠ 0) (hx : x ≠ 0) :
    (o.Drifts shape ∧ ∃ e, o.evaluateFor shape y x = .error e ∧ e.category = .inconsistency) ∨
      (¬ o.Drifts shape ∧
        o.evaluateFor shape y x = .ok (o.constraintValue shape.gates x y)) := by
  unfold evaluateFor
  rw [if_neg hy]
  cases hfault : o.fault .x shape.gates with
  | some e =>
    refine .inl ⟨?_, e, rfl, ho.category_fault hfault⟩
    by_contra hdrift
    have hgates := ho.inGates_iff.2 fun lc hlc term hterm => by
      by_contra hindex
      exact hdrift (.inr ⟨lc, hlc, term, hterm, hindex⟩)
    rw [fault_eq_none_iff.2 hgates] at hfault
    cases hfault
  | none =>
    have hgates := ho.inGates_iff.1 (fault_eq_none_iff.1 hfault)
    dsimp only
    by_cases hcount : o.constraints.length = shape.constraints
    · rw [if_neg (not_not.2 hcount), if_neg hx]
      refine .inr ⟨?_, rfl⟩
      rintro (hdrift | ⟨lc, hlc, term, hterm, hindex⟩)
      · exact hdrift hcount
      · exact hindex (hgates lc hlc term hterm)
    · rw [if_pos hcount]
      exact .inl ⟨.inl hcount, _, rfl, rfl⟩

end Outline

namespace Verifier

open SourceGroup (zero)

variable {G₁ G₂ F₂ : Type} [SourceGroup G₁ Fp] [SourceGroup G₂ F₂]

/-! ## Verifiers that take claims -/

/-- An open verifier for a circuit of the given shape. -/
structure TakesClaims (shape : Shape) (v : Verifier G₁ G₂) : Prop where
  shape_eq : v.shape = shape
  finalized_eq : v.finalized = false
  batch_finalized_eq : v.batch.finalized = false

omit [SourceGroup G₁ Fp] in
theorem takesClaims_of_start {srs : ReferenceString G₁ G₂} {c : Circuit} {log log' : List LogEntry}
    {v : Verifier G₁ G₂} (hstart : start srs c log = .ok v log') :
    v.TakesClaims c.outline.shape := by
  obtain ⟨hmeasure, hbatch, -, hfinalized⟩ := start_ok hstart
  obtain ⟨_, _, _, _, _, hfresh⟩ := Batch.start_fresh hbatch
  exact ⟨(Shape.ending_of_measure hmeasure).2.symm, hfinalized, by rw [hfresh]⟩

variable {shape : Shape} {v : Verifier G₁ G₂} (oracle : Oracle)

omit [SourceGroup G₂ F₂] in
theorem TakesClaims.attempt (hv : v.TakesClaims shape) (call : Call G₁) :
    ∃ v', call.attempt oracle v = .ok () v' ∧ v'.TakesClaims shape := by
  obtain ⟨hshape, hopen, hbatch⟩ := hv
  refine ⟨_, call.attempt_eq oracle v, ?_⟩
  have hadds := Call.run_adds oracle hopen hbatch call
  generalize call.claims oracle v.shape v.evaluate = claims, call.run oracle v = result at hadds
  cases hadds with
  | added entries log hv' =>
    obtain ⟨c, rfl⟩ := hv'.exists_circuit
    exact ⟨hshape, hopen, (Batch.finalized_foldl_push entries _).trans hbatch⟩
  | failed e hv' =>
    obtain ⟨c, rfl⟩ := hv'.exists_circuit
    exact ⟨hshape, hopen, hbatch⟩

omit [SourceGroup G₂ F₂] in
theorem TakesClaims.forM_attempt (hv : v.TakesClaims shape) {calls : List (Call G₁)}
    {v' : Verifier G₁ G₂} (hrun : calls.forM (Call.attempt oracle) v = .ok () v') :
    v'.TakesClaims shape := by
  induction calls generalizing v with
  | nil =>
    cases hrun
    exact hv
  | cons call calls ih =>
    obtain ⟨v₁, hfirst, hv₁⟩ := hv.attempt oracle call
    exact ih hv₁ ((bind_ok hfirst).symm.trans hrun)

/-! ## Calls that synthesise the circuit -/

/-- A call that has to evaluate `s(x, y)` itself, with arguments of the right lengths. -/
inductive Call.Synthesises {G : Type} [SourceGroup G Fp] (oracle : Oracle) (shape : Shape) :
    Call G → Fr → Fr → Prop
  | proof {p : Proof G} {inputs : List Fr} {pts : Proof.Points} :
    inputs.length = shape.inputs.length - 1 → p.points oracle = .ok pts →
    Synthesises oracle shape (.proof p inputs none) pts.y pts.z
  | aggregate {proofs : List (Proof G × Advice G)} {agg : Aggregate G} {pts : Aggregate.Points} :
    agg.cOpenings.length = proofs.length → agg.points oracle proofs = .ok pts →
    Synthesises oracle shape (.aggregate proofs agg) pts.w pts.z

namespace Call.Synthesises

variable {oracle} {call : Call G₁} {x y : Fr} (h : call.Synthesises oracle shape y x)
include h

omit [SourceGroup G₂ F₂]

/-- No other value of the constraint polynomial enters the claims. -/
theorem claims_congr {s t : Fr → Fr → Except Fault Fr} (hst : s y x = t y x) :
    call.claims oracle shape s = call.claims oracle shape t := by
  cases h with
  | proof hinputs hpts =>
    simp only [claims, proofClaims, preparation_none hinputs hpts, hst]
  | aggregate hcount hpts =>
    simp only [claims, aggregateClaims, if_pos hcount, hpts]
    show s _ _ >>= _ = t _ _ >>= _
    rw [hst]

theorem claims_error {s : Fr → Fr → Except Fault Fr} {e : Fault} (hs : s y x = .error e) :
    call.claims oracle shape s = .error e := by
  rw [h.claims_congr (t := fun _ _ => .error e) hs]
  cases h with
  | proof hinputs hpts =>
    rw [claims, proofClaims, preparation_none hinputs hpts]
    rfl
  | aggregate hcount hpts =>
    simp only [claims, aggregateClaims, if_pos hcount, hpts]
    rfl

/-- With the value at hand, only a further challenge may fail to come. -/
theorem claims_delivers (s : Fr) :
    Delivers oracle (call.claims oracle shape fun _ _ => .ok s) fun _ => True := by
  have hcombine : ∀ (coefficient : Fr) (advised : List (Advice G₁ × Fr)) (t : Transcript),
      Delivers oracle (Aggregate.combine oracle coefficient advised t) fun _ => True := by
    intro coefficient advised
    induction advised with
    | nil => exact fun t => .pure trivial
    | cons av rest ih =>
      exact fun t => .bind (.challenge oracle t) fun drawn _ => .bind (ih drawn.2) fun _ _ =>
        .pure trivial
  cases h with
  | @proof p inputs pts hinputs hpts =>
    have hproof : Delivers oracle (proofClaims oracle shape (fun _ _ => .ok s) p inputs none)
        fun _ => True := by
      rw [proofClaims, preparation_none hinputs hpts]
      exact (Proof.Points.challenges_delivers oracle _).bind fun _ _ => .pure trivial
    exact hproof.bind fun _ _ => .pure trivial
  | @aggregate proofs agg pts hcount hpts =>
    have hopenings : Delivers oracle (agg.openingEntries oracle pts) fun _ => True :=
      .bind (.mapM (R := fun _ _ => True) fun _ _ => .bind (.forkChallenge oracle _) fun _ _ =>
        .pure trivial) fun _ _ => .pure trivial
    simp only [claims, aggregateClaims, if_pos hcount, hpts]
    show Delivers oracle (agg.entries oracle proofs pts s) _
    exact .bind (.forkChallenge oracle _) fun _ _ => .bind hopenings fun _ _ =>
      .bind (.forkChallenge oracle _) fun _ _ => .bind (hcombine _ _ _) fun _ _ => .pure trivial

end Call.Synthesises

omit [SourceGroup G₂ F₂] in
/-- The call adds its claims for the value that the outline of the next pass gives, or it fails
because there is none. -/
theorem Call.run_synthesises (hv : v.TakesClaims shape) {call : Call G₁} {x y : Fr}
    (hcall : call.Synthesises oracle shape y x) (hend : v.circuit.ending = .ok ()) :
    v.Adds (v.circuit.outline.evaluateFor shape y x >>= fun s =>
      call.claims oracle shape fun _ _ => .ok s) (call.run oracle v) := by
  have hadds := Call.run_adds oracle hv.finalized_eq hv.batch_finalized_eq call
  obtain ⟨pass, hvalue⟩ := constraintValue_eq_evaluateFor hend y x
  have hevaluate : v.evaluate y x = v.circuit.outline.evaluateFor v.shape y x := by
    rw [evaluate, hvalue, outcome_withEnd]
  rw [hv.shape_eq] at hadds hevaluate
  cases houtline : v.circuit.outline.evaluateFor shape y x with
  | ok s =>
    rw [hcall.claims_congr (hevaluate.trans houtline : _ = (fun _ _ => .ok s) y x)] at hadds
    exact hadds
  | error e =>
    rw [hcall.claims_error (hevaluate.trans houtline)] at hadds
    exact hadds

/-- Which changes of the circuit a call notices. After any calls on a verifier, let the pass that
the next call synthesises come to its end, with terms on wires such as gates have. The call fails
with an inconsistency and leaves the batch alone if and only if the constraints of the pass are more
or fewer than those of the first pass, or one of them is on a gate that the first pass does not
have. Otherwise the claims are added, however many gates the pass has. -/
theorem Call.inconsistent_iff {srs : ReferenceString G₁ G₂} {c : Circuit} {log log' : List LogEntry}
    {v₀ : Verifier G₁ G₂} (hstart : start srs c log = .ok v₀ log') {earlier : List (Call G₁)}
    (hrun : earlier.forM (Call.attempt oracle) v₀ = .ok () v) {call : Call G₁} {x y : Fr}
    (hcall : call.Synthesises oracle c.outline.shape y x) (hy : y ≠ 0) (hx : x ≠ 0)
    (hend : v.circuit.ending = .ok ()) (hterms : v.circuit.outline.WellFormed) :
    ((∃ e v', call.run oracle v = .error e v' ∧ e.category = .inconsistency ∧
        v'.batch = v.batch) ↔ v.circuit.outline.Drifts c.outline.shape) ∧
      (¬ v.circuit.outline.Drifts c.outline.shape →
        v.Adds (call.claims oracle c.outline.shape fun _ _ =>
          .ok (v.circuit.outline.constraintValue c.outline.gates x y)) (call.run oracle v)) := by
  have hv := (takesClaims_of_start hstart).forM_attempt oracle hrun
  have hadds := Call.run_synthesises oracle hv hcall hend
  rcases hterms.evaluateFor_eq hy hx with ⟨hdrift, e, he, hcategory⟩ | ⟨hdrift, hvalue⟩
  · rw [he] at hadds
    obtain ⟨v', hv', hfails⟩ := hadds.eq_error
    exact ⟨⟨fun _ => hdrift, fun _ => ⟨e, v', hfails, hcategory, hv'.batch_eq⟩⟩, (absurd hdrift ·)⟩
  · rw [hvalue] at hadds
    refine ⟨⟨?_, (absurd · hdrift)⟩, fun _ => hadds⟩
    rintro ⟨e, v', hfails, hcategory, -⟩
    have hadds : v.Adds (call.claims oracle c.outline.shape _) (call.run oracle v) := hadds
    -- Nothing but a further challenge can still stop the call, and that is another fault.
    rcases hcall.claims_delivers (v.circuit.outline.constraintValue c.outline.gates x y) with
      ⟨entries, hclaims, -⟩ | ⟨hclaims, -⟩
    · obtain ⟨v'', log, -, hadded⟩ := (hclaims ▸ hadds).eq_ok
      rw [hadded] at hfails
      cases hfails
    · obtain ⟨v'', -, hfailed⟩ := (hclaims ▸ hadds).eq_error
      rw [hfailed] at hfails
      cases hfails
      cases hcategory

/-! ## Two passes -/

def emptyProof : Proof (Point Fp) := ⟨zero, zero, 0, 0, zero, zero⟩

/-- A circuit that has the constant 1 only on its first pass, and then something else. -/
def twoPasses (next : Script) : Circuit := ⟨[.done, next], 0⟩

theorem exists_start_twoPasses (next : Script) :
    ∃ (srs : ReferenceString (Point Fp) (Point Fp2)) (v : Verifier (Point Fp) (Point Fp2))
      (log : List LogEntry),
      ReferenceString.ofSecrets 2 2 3 = .ok srs ∧ start srs (twoPasses next) [] = .ok v log ∧
      v.circuit = ⟨[.done, next], 1⟩ ∧ (twoPasses next).outline.shape = ⟨[1], 1, 1⟩ ∧
      (Call.proof emptyProof [] none).Synthesises (.constant 5) ⟨[1], 1, 1⟩ 5 5 := by
  obtain ⟨srs, hsrs⟩ : ∃ srs : ReferenceString (Point Fp) (Point Fp2),
      ReferenceString.ofSecrets 2 2 3 = .ok srs :=
    ReferenceString.exists_ofSecrets (by decide) (by decide +kernel) 3
  have hmeasure : Shape.measure (twoPasses next) = .ok ⟨[1], 1, 1⟩ ⟨[.done, next], 1⟩ := rfl
  obtain ⟨b, hb, -⟩ : ∃ b : Batch (Point Fp) (Point Fp2),
      Batch.start srs 1 = .ok b ∧ b.HasKeys 2 1 2 3 ∧ b.Collects [] :=
    Batch.start_eq (ReferenceString.tables_of_ofSecrets hsrs) (by decide) (by decide)
  have hstart := start_eq hmeasure hb []
  obtain ⟨t, hpts⟩ := emptyProof.points_constant 5
  have hcall : (Call.proof emptyProof [] none).Synthesises (.constant 5) ⟨[1], 1, 1⟩
    (⟨5, 5, 5, t⟩ : Proof.Points).y (⟨5, 5, 5, t⟩ : Proof.Points).z := .proof rfl hpts
  exact ⟨srs, _, _, hsrs, hstart, rfl, (takesClaims_of_start hstart).shape_eq.symm, hcall⟩

/-- A second pass with one more constraint. -/
theorem Call.inconsistent_iff_constraint :
    ∃ (srs : ReferenceString (Point Fp) (Point Fp2)) (v : Verifier (Point Fp) (Point Fp2))
      (log : List LogEntry),
      ReferenceString.ofSecrets 2 2 3 = .ok srs ∧
      start srs (twoPasses (.step (.enforce []) .done)) [] = .ok v log ∧
      ∃ e v', (Call.proof emptyProof [] none).run (.constant 5) v =
        .error e v' ∧ e.category = .inconsistency ∧ v'.batch = v.batch := by
  obtain ⟨srs, v, log, hsrs, hstart, hcircuit, hshape, hcall⟩ :=
    exists_start_twoPasses (.step (.enforce []) .done)
  rw [← hshape] at hcall
  have hend : v.circuit.ending = .ok () := by
    rw [hcircuit]
    decide +kernel
  have hterms : v.circuit.outline.WellFormed := by
    rw [hcircuit]
    decide +kernel
  have hdrift : v.circuit.outline.Drifts (twoPasses (.step (.enforce []) .done)).outline.shape := by
    rw [hcircuit]
    decide +kernel
  have hrun : ([] : List (Call (Point Fp))).forM (Call.attempt (.constant 5)) v = .ok () v := rfl
  have hfive : (5 : Fr) ≠ 0 := by decide +kernel
  exact ⟨srs, v, log, hsrs, hstart,
    (inconsistent_iff (.constant 5) hstart hrun hcall hfive hfive hend hterms).1.2 hdrift⟩

/-- A second pass with one more gate, which no constraint is on: the call adds its claims. -/
theorem Call.run_gateDrift :
    ∃ (srs : ReferenceString (Point Fp) (Point Fp2)) (v v' : Verifier (Point Fp) (Point Fp2))
      (log : List LogEntry),
      ReferenceString.ofSecrets 2 2 3 = .ok srs ∧
      start srs (twoPasses (.step (.multiply (.each [])) .done)) [] = .ok v log ∧
      v.circuit.ending = .ok () ∧ v.shape.gates = 1 ∧ v.circuit.outline.gates = 2 ∧
      (Call.proof emptyProof [] none).run (.constant 5) v = .ok () v' := by
  obtain ⟨srs, v, log, hsrs, hstart, hcircuit, hshape, hcall⟩ :=
    exists_start_twoPasses (.step (.multiply (.each [])) .done)
  have hend : v.circuit.ending = .ok () := by
    rw [hcircuit]
    decide +kernel
  have hgates : v.circuit.outline.gates = 2 := by
    rw [hcircuit]
    decide +kernel
  have hterms : v.circuit.outline.WellFormed := by
    rw [hcircuit]
    decide +kernel
  have hfits : ¬ v.circuit.outline.Drifts ⟨[1], 1, 1⟩ := by
    rw [hcircuit]
    decide +kernel
  have hv := takesClaims_of_start hstart
  rw [hshape] at hv
  have hadds := Call.run_synthesises (.constant 5) hv hcall hend
  have hfive : (5 : Fr) ≠ 0 := by decide +kernel
  obtain ⟨s, hs⟩ : ∃ s, v.circuit.outline.evaluateFor ⟨[1], 1, 1⟩ 5 5 = .ok s := by
    rcases hterms.evaluateFor_eq hfive hfive with ⟨hdrift, -⟩ | ⟨-, hvalue⟩
    · exact absurd hdrift hfits
    · exact ⟨_, hvalue⟩
  rw [hs] at hadds
  have hadds : v.Adds ((Call.proof emptyProof [] none).claims (.constant 5) ⟨[1], 1, 1⟩ fun _ _ =>
    .ok s) _ := hadds
  rw [Call.claims_proof rfl (emptyProof.challenges_constant 5) rfl] at hadds
  obtain ⟨v', log', -, hrun⟩ := hadds.eq_ok
  exact ⟨srs, v, _, log, hsrs, hstart, hend, hv.shape_eq ▸ rfl, hgates, hrun⟩

end Verifier

end SnarkBatch
