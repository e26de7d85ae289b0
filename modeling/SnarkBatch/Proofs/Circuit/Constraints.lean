import SnarkBatch.Proofs.Circuit.Origins

/-!
# The constraints of an outline

The constraints of a circuit can be read off its script. An enforcement adds the list of its terms,
each on the wire that its reference means among the wires returned so far, and an input adds a
constraint on its own wire; no other operation adds any. `Synthesis.step_enforce` says that this
combination is what a backend is told, and `Circuit.outline_constraints` that an outline has just
these constraints in the order of the operations, up to the operation at which the pass fails.
-/

namespace SnarkBatch

/-- The term that is meant, given the wires returned so far. -/
def SignedTerm.termIn (wires : List Wire) (term : SignedTerm) : Except Fault (Wire × Coeff) :=
  match term.ref.wireIn wires with
  | none => .error .position
  | some w =>
    if term.subtracted then do return (w, (← term.coeff.filled).negate) else .ok (w, term.coeff)

/-- The combination of an enforcement, given the wires returned so far. -/
def LinearCombination.ofTerms (wires : List Wire) (terms : List SignedTerm) :
    Except Fault LinearCombination := do
  return ⟨← terms.mapM (SignedTerm.termIn wires)⟩

namespace Progress

/-- The wire that the next allocation returns. -/
def nextWire (p : Progress) : Wire :=
  match p.pending with
  | some gate => ⟨.b, gate⟩
  | none => ⟨.a, p.gates + 1⟩

/-- The constraints that an operation adds, or why it fails where no values are kept. -/
def constraintsOf (p : Progress) : Op → Except Fault (List LinearCombination)
  | .alloc _ | .multiply _ => .ok []
  | .input _ => .ok [⟨[(p.nextWire, .one none)]⟩]
  | .enforce terms => do return [← LinearCombination.ofTerms p.wires terms]
  | .read ref =>
    match ref.wireIn p.wires with
    | none => .error .position
    | some w => .error (.synthesis (.valueUnset w))
  | .fail kind message => .error (.synthesis (.reported kind message))

/-- The constraints that operations add one after the other, and how they end. -/
def constraintsFrom (p : Progress) : List Op → List LinearCombination × Except Fault Unit
  | [] => ([], .ok ())
  | op :: ops =>
    match p.constraintsOf op with
    | .error e => ([], .error e)
    | .ok lcs =>
      let rest := (p.after op).constraintsFrom ops
      (lcs ++ rest.1, rest.2)

end Progress

namespace Synthesis

/-! ## What is enforced -/

section

variable {β ι : Type}

theorem addTerm_eq (lc : LinearCombination) (term : SignedTerm) (s : Synthesis β) :
    addTerm lc term s =
      withEnd s ((term.termIn s.wires.toList).map fun t => ⟨lc.terms ++ [t]⟩) := by
  have hresolve := resolve_eq term.ref s
  unfold addTerm SignedTerm.termIn
  cases hw : term.ref.wireIn s.wires.toList with
  | none =>
    rw [hw] at hresolve
    exact bind_error hresolve
  | some w =>
    rw [hw] at hresolve
    refine (bind_ok hresolve).trans ?_
    unfold LinearCombination.addTerm
    cases term.subtracted with
    | false => rfl
    | true =>
      cases hc : term.coeff.filled <;> rfl

theorem foldlM_addTerm (terms : List SignedTerm) (lc : LinearCombination) (s : Synthesis β) :
    terms.foldlM addTerm lc s =
      withEnd s ((terms.mapM (SignedTerm.termIn s.wires.toList)).map fun ts => ⟨lc.terms ++ ts⟩) := by
  induction terms generalizing lc with
  | nil =>
    rw [List.mapM_nil]
    exact congrArg (EStateM.Result.ok · s) (congrArg LinearCombination.mk (List.append_nil _).symm)
  | cons term terms ih =>
    have hterm := addTerm_eq lc term s
    rw [List.foldlM_cons, List.mapM_cons]
    cases ht : term.termIn s.wires.toList with
    | error e =>
      rw [ht] at hterm
      exact bind_error hterm
    | ok t =>
      rw [ht] at hterm
      refine (bind_ok hterm).trans ((ih _).trans ?_)
      cases terms.mapM (SignedTerm.termIn s.wires.toList) with
      | error e => rfl
      | ok ts => exact congrArg (withEnd s) (congrArg Except.ok (congrArg _ (List.append_assoc ..)))

/-- Every backend is told the combination of the terms, or nothing if there is none. -/
theorem step_enforce (k : Backend β ι) (terms : List SignedTerm) (s : Synthesis β) :
    step k (.enforce terms) s =
      match LinearCombination.ofTerms s.wires.toList terms with
      | .ok lc => enforce k lc s
      | .error e => .error e s := by
  have hterms := foldlM_addTerm terms .empty s
  unfold LinearCombination.ofTerms
  cases hts : terms.mapM (SignedTerm.termIn s.wires.toList) with
  | error e =>
    rw [hts] at hterms
    exact bind_error hterms
  | ok ts =>
    rw [hts] at hterms
    exact bind_ok hterms

end

/-! ## What is collected -/

/-- An allocation cannot fail where no values are kept, and adds no constraint. -/
theorem alloc_nextWire (v : Build Outline Fr) (t : Synthesis Outline) :
    ∃ t', alloc Outline.collector v t = .ok t.progress.nextWire t' ∧
      t'.backend.constraints = t.backend.constraints := by
  obtain ⟨circuit, o, pending, gates, constraints, wires, values⟩ := t
  cases pending <;> exact ⟨_, rfl, rfl⟩

/-- An operation adds its constraints, or it fails and adds none. -/
theorem step_constraints (op : Op) (t : Synthesis Outline) :
    outcome (step Outline.collector op t) = (t.progress.constraintsOf op).map (fun _ => ()) ∧
      (endState (step Outline.collector op t)).backend.constraints =
        t.backend.constraints ++ ((t.progress.constraintsOf op).toOption.getD []) := by
  cases op with
  | alloc value =>
    obtain ⟨t', halloc, hconstraints⟩ := alloc_nextWire (eval Outline.collector value) t
    have hstep : step Outline.collector (.alloc value) t = .ok () _ := bind_ok halloc
    rw [hstep]
    exact ⟨rfl, hconstraints.trans (List.append_nil _).symm⟩
  | input value =>
    obtain ⟨t', halloc, hconstraints⟩ := alloc_nextWire (eval Outline.collector value) t
    have hinput : allocInput Outline.collector (eval Outline.collector value) t = .ok _ _ :=
      (bind_ok halloc).trans (bind_ok (enforce_collector _ t'))
    have hstep : step Outline.collector (.input value) t = .ok () _ := bind_ok hinput
    rw [hstep]
    exact ⟨rfl, congrArg (· ++ _) hconstraints⟩
  | multiply values => exact ⟨rfl, (List.append_nil _).symm⟩
  | enforce terms =>
    rw [step_enforce, Progress.constraintsOf]
    dsimp only [progress]
    cases LinearCombination.ofTerms t.wires.toList terms with
    | error e => exact ⟨rfl, (List.append_nil _).symm⟩
    | ok lc =>
      dsimp only
      rw [enforce_collector]
      exact ⟨rfl, rfl⟩
  | read ref =>
    have hresolve := resolve_eq ref t
    rw [Progress.constraintsOf]
    dsimp only [progress]
    cases hw : ref.wireIn t.wires.toList with
    | none =>
      rw [hw] at hresolve
      have hstep : step Outline.collector (.read ref) t = .error .position t := bind_error hresolve
      rw [hstep]
      exact ⟨rfl, (List.append_nil _).symm⟩
    | some w =>
      rw [hw] at hresolve
      have hstep : step Outline.collector (.read ref) t = .error (.synthesis (.valueUnset w)) t :=
        (bind_ok hresolve).trans (bind_error rfl)
      rw [hstep]
      exact ⟨rfl, (List.append_nil _).symm⟩
  | fail kind message => exact ⟨rfl, (List.append_nil _).symm⟩

theorem forM_constraints (ops : List Op) (t : Synthesis Outline) :
    outcome (ops.forM (step Outline.collector) t) = (t.progress.constraintsFrom ops).2 ∧
      (endState (ops.forM (step Outline.collector) t)).backend.constraints =
        t.backend.constraints ++ (t.progress.constraintsFrom ops).1 := by
  induction ops generalizing t with
  | nil => exact ⟨rfl, (List.append_nil _).symm⟩
  | cons op ops ih =>
    obtain ⟨hstep, hconstraints⟩ := step_constraints op t
    rw [Progress.constraintsFrom]
    cases hrun : step Outline.collector op t with
    | error e t' =>
      have hfirst : (op :: ops).forM (step Outline.collector) t = .error e t' := bind_error hrun
      rw [hrun] at hstep hconstraints
      rw [hfirst]
      cases hop : t.progress.constraintsOf op with
      | ok lcs =>
        rw [hop] at hstep
        cases hstep
      | error e' =>
        rw [hop] at hstep hconstraints
        cases hstep
        exact ⟨rfl, hconstraints⟩
    | ok _ t' =>
      have hfirst : (op :: ops).forM (step Outline.collector) t =
          ops.forM (step Outline.collector) t' := bind_ok hrun
      rw [hrun] at hstep hconstraints
      cases hop : t.progress.constraintsOf op with
      | error e =>
        rw [hop] at hstep
        cases hstep
      | ok lcs =>
        rw [hop] at hconstraints
        obtain ⟨hend, hrest⟩ := ih t'
        rw [step_progress hrun] at hend hrest
        rw [hfirst]
        refine ⟨hend, hrest.trans ?_⟩
        exact (congrArg (· ++ _) hconstraints).trans (List.append_assoc ..)

end Synthesis

/-- Every constraint of an outline is accounted for. The first is that of the constant 1, and each
operation of the pass adds its own: an input that of its wire, an enforcement the combination of its
terms. The pass ends with the first operation that fails. -/
theorem Circuit.outline_constraints (c : Circuit) {script : Script} (hc : c.current = some script) :
    c.outline.constraints =
        ⟨[(.one, .one none)]⟩ :: (Progress.start.constraintsFrom script.unroll).1 ∧
      c.ending = (Progress.start.constraintsFrom script.unroll).2 := by
  obtain ⟨hend, hconstraints⟩ :=
    Synthesis.forM_constraints script.unroll (Synthesis.beforeScript c.advance)
  rw [outline, ending, Synthesis.run_collector_some hc, Script.forM_eq_unroll_forM]
  exact ⟨hconstraints, hend⟩

/-- The second input shares a gate with the allocation; the enforcement names that wire from the
end. -/
example : (Progress.start.constraintsFrom [.input (.const 1), .alloc .unassigned,
    .enforce [⟨false, .one none, .slot (-1)⟩, ⟨true, .full (some 3), .one⟩], .input (.const 1)]).1 =
    [⟨[(⟨.b, 1⟩, .one none)]⟩, ⟨[(⟨.a, 2⟩, .one none), (.one, .full (some (-3)))]⟩,
      ⟨[(⟨.b, 2⟩, .one none)]⟩] := by decide +kernel

end SnarkBatch
