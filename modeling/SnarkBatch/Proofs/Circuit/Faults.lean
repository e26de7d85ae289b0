import SnarkBatch.Circuit.Synthesis
import SnarkBatch.Proofs.Result

/-!
# What stops a synthesis

The driver gives up on a circuit for few reasons of its own (`Synthesis.DriverFaults`), and the
backend may refuse a constraint or a term. Nothing else stops a synthesis: whatever holds of those
faults holds of the fault that a circuit comes to, on every backend (`Synthesis.build_failsOnly`).
-/

namespace SnarkBatch.Synthesis

/-- `P` holds of all that the driver itself may find wrong with a circuit. -/
structure DriverFaults (P : Fault → Prop) : Prop where
  synthesis : ∀ cause, P (.synthesis cause)
  position : P .position
  missingOperand : P .missingOperand
  unlistedValues : P .unlistedValues

variable {β ι α : Type} {k : Backend β ι} {P : Fault → Prop}

theorem onBackend_failsOnly {act : EStateM Fault β α} (h : FailsOnly P act) :
    FailsOnly P (onBackend act) := by
  intro s e he
  refine h s.backend e ?_
  unfold onBackend at he
  cases hact : act s.backend with
  | ok a b =>
    rw [hact] at he
    cases he
  | error e' b =>
    rw [hact] at he
    exact he

theorem getValue_failsOnly (w : Wire) : FailsOnly P (getValue k w) :=
  onBackend_failsOnly fun _ _ h => by cases h

theorem newGate_failsOnly : FailsOnly P (newGate k) :=
  .bind (.modify _) fun _ => .get_bind fun _ => .pure _

theorem assign_failsOnly (w : Wire) {value : Build β Fr} (hvalue : FailsOnly P value) :
    FailsOnly P (assign k w value) := by
  unfold assign
  split
  · exact .bind hvalue fun v => .bind (.modify _) fun _ => .pure _
  · exact .bind (.modify _) fun _ => .pure _

section

variable (hP : DriverFaults P)
include hP

theorem fail_failsOnly (cause : SynthesisFault) : FailsOnly P (fail cause : Build β α) :=
  .throw (hP.synthesis cause)

/-! ## Expressions -/

theorem resolve_failsOnly (ref : WireRef) : FailsOnly P (resolve ref : Build β Wire) := by
  cases ref with
  | one => exact .pure _
  | wire w => exact .pure w
  | slot i =>
    refine .get_bind fun s => ?_
    dsimp only
    cases (position? s.wires.size i).bind (s.wires[·]?) with
    | some w => exact .pure w
    | none => exact .throw hP.position

theorem valueOf_failsOnly (w : Wire) : FailsOnly P (valueOf k w) := by
  refine .bind (getValue_failsOnly w) fun v => ?_
  cases v with
  | some v => exact .pure v
  | none => exact fail_failsOnly hP _

theorem eval_failsOnly (e : Expr) : FailsOnly P (eval k e) := by
  induction e with
  | const v => exact .pure v
  | unassigned | fail => exact fail_failsOnly hP _
  | read ref => exact .bind (resolve_failsOnly hP ref) fun w => valueOf_failsOnly hP w
  | add l r ihl ihr | mul l r ihl ihr => exact .bind ihl fun _ => .bind ihr fun _ => .pure _

theorem evalGate_failsOnly (values : GateValues) : FailsOnly P (evalGate k values) := by
  cases values with
  | each values => exact .mapM (eval_failsOnly hP) values
  | single value => exact .bind (eval_failsOnly hP value) fun _ => .throw hP.unlistedValues

theorem addTerm_failsOnly (lc : LinearCombination) (term : SignedTerm) :
    FailsOnly P (addTerm lc term : Build β LinearCombination) := by
  refine .bind (resolve_failsOnly hP term.ref) fun w => .ofExcept fun e he => ?_
  unfold LinearCombination.addTerm at he
  split at he
  · unfold Coeff.filled at he
    split at he
    · cases he
      exact hP.missingOperand
    · cases he
  · cases he

/-! ## The constraint system -/

theorem component_failsOnly (w : Wire) (values : Option (List Fr)) (i : Nat) :
    FailsOnly P (component w values i : Build β Fr) := by
  unfold component
  split
  · exact fail_failsOnly hP _
  · split
    · exact .pure _
    · exact .throw hP.position

theorem alloc_failsOnly {value : Build β Fr} (hvalue : FailsOnly P value) :
    FailsOnly P (alloc k value) := by
  refine .get_bind fun s => ?_
  cases s.pending with
  | none =>
    exact .bind newGate_failsOnly fun gate => .bind (assign_failsOnly _ hvalue) fun _ =>
      .bind (.modify _) fun _ => .pure _
  | some gate =>
    refine .bind (getValue_failsOnly _) fun left => ?_
    refine .bind (assign_failsOnly _ (.bind hvalue fun v => ?_)) fun right => ?_
    · dsimp only
      split
      · exact .bind (fail_failsOnly hP _) fun _ => .pure v
      · exact .pure v
    · refine .bind (assign_failsOnly _ ?_) fun _ => .bind (.modify _) fun _ => .pure _
      split
      · exact .pure _
      · exact fail_failsOnly hP _

theorem multiply_failsOnly {values : Build β (List Fr)} (hvalues : FailsOnly P values) :
    FailsOnly P (multiply k values) := by
  refine .bind newGate_failsOnly fun gate => ?_
  have hrest : ∀ vs : Option (List Fr), FailsOnly P (do
      let _ ← assign k ⟨.b, gate⟩ (component ⟨.b, gate⟩ vs 1)
      let _ ← assign k ⟨.c, gate⟩ (component ⟨.c, gate⟩ vs 2)
      modify fun s => { s with pending := none }
      return ((⟨.a, gate⟩ : Wire), (⟨.b, gate⟩ : Wire), (⟨.c, gate⟩ : Wire))) := fun vs =>
    .bind (assign_failsOnly _ (component_failsOnly hP _ vs _)) fun _ =>
      .bind (assign_failsOnly _ (component_failsOnly hP _ vs _)) fun _ =>
        .bind (.modify _) fun _ => .pure _
  dsimp only
  split
  · exact .bind hvalues fun vs => .bind (component_failsOnly hP _ _ _) fun v =>
      .bind (.modify _) fun _ => .bind (.pure _) hrest
  · exact .bind (.modify _) fun _ => .bind (.pure _) hrest

variable (hnew : FailsOnly P k.newConstraint)
  (hinsert : ∀ w c index, FailsOnly P (k.insertTerm w c index))
include hnew hinsert

omit hP in
theorem enforce_failsOnly (lc : LinearCombination) : FailsOnly P (enforce k lc) :=
  .bind (.modify _) fun _ => .bind (onBackend_failsOnly hnew) fun index =>
    .forM (fun term => onBackend_failsOnly (hinsert term.1 term.2 index)) lc.terms

theorem allocInput_failsOnly {value : Build β Fr} (hvalue : FailsOnly P value) :
    FailsOnly P (allocInput k value) :=
  .bind (alloc_failsOnly hP hvalue) fun w => .bind (enforce_failsOnly hnew hinsert _) fun _ =>
    .bind (.modify _) fun _ => .pure w

/-! ## Running a circuit -/

theorem step_failsOnly (op : Op) : FailsOnly P (step k op) := by
  cases op with
  | alloc value =>
    exact .bind (alloc_failsOnly hP (eval_failsOnly hP value)) fun w => .modify _
  | input value =>
    exact .bind (allocInput_failsOnly hP hnew hinsert (eval_failsOnly hP value)) fun w => .modify _
  | multiply values =>
    exact .bind (multiply_failsOnly hP (evalGate_failsOnly hP values)) fun wires => .modify _
  | enforce terms =>
    exact .bind (.foldlM (addTerm_failsOnly hP) terms _) fun lc => enforce_failsOnly hnew hinsert lc
  | read ref =>
    exact .bind (resolve_failsOnly hP ref) fun w => .bind (valueOf_failsOnly hP w) fun v => .modify _
  | fail kind message => exact fail_failsOnly hP _

/-- A circuit comes to a fault of the driver or to one of the backend. -/
theorem build_failsOnly : FailsOnly P (build k) := by
  refine .bind (allocInput_failsOnly hP hnew hinsert (.pure 1)) fun w => .bind ?_ fun script => ?_
  · intro s e he
    unfold takePass at he
    split at he
    · cases he
    · cases he
      exact hP.position
  · rw [Script.forM_eq_unroll_forM]
    exact .forM (step_failsOnly hP hnew hinsert) script.unroll

end

end SnarkBatch.Synthesis
