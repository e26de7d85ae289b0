import SnarkBatch.Proofs.Circuit.Allocation
import SnarkBatch.Proofs.Circuit.Refusal
import SnarkBatch.Proofs.ConstraintPolynomial.AtX
import SnarkBatch.Proofs.Verifier

/-!
# The accumulators refuse together

The accumulators at a fixed `Y` and at a fixed `X` check the wires of a constraint each on its own.
For a circuit that does the same on every pass they come to the same conclusion: what one refuses,
the other refuses as well, at the same term and for the same reason (`TermRefused`). Where every
constraint keeps to wires that the circuit has been given before (`Circuit.MentionsReturned`) there
is nothing to refuse: these wires belong to gates of the circuit (`Circuit.outline_onGates`).
-/

namespace SnarkBatch

/-! ## What is refused -/

/-- The faults with which the accumulators at a fixed `Y` and at a fixed `X`, both made for the
gates `1, …, n`, refuse a term. -/
inductive TermRefused (n : Nat) : Wire × Coeff → Fault → Fault → Prop
  /-- There is no gate with this number, whatever the kind of the wire. -/
  | outOfRange {w : Wire} {c : Coeff} : ¬ (1 ≤ w.index ∧ w.index ≤ n) →
    TermRefused n (w, c) (.gateRange .x w.index n) (.gateRange .y w.index n)
  | unknownKind {w : Wire} {c : Coeff} {name : String} : 1 ≤ w.index → w.index ≤ n →
    w.kind = .other name → TermRefused n (w, c) .wireKind .wireKind
  | noScalar {w : Wire} : w.InGates n → TermRefused n (w, .full none) .missingOperand .missingOperand

namespace TermRefused

variable {n : Nat} {term : Wire × Coeff} {e e' : Fault}

theorem of_termFault (h : Outline.termFault .x n term = some e)
    (h' : Outline.termFault .y n term = some e') : TermRefused n term e e' := by
  obtain ⟨w, c⟩ := term
  unfold Outline.termFault at h h'
  dsimp only at h h'
  by_cases hrange : 1 ≤ w.index ∧ w.index ≤ (n : Int)
  · rw [if_pos hrange] at h h'
    cases hkind : w.kind with
    | other name =>
      rw [hkind] at h h'
      cases h
      cases h'
      exact .unknownKind hrange.1 hrange.2 hkind
    | _ =>
      rw [hkind] at h h'
      obtain ⟨rfl, h⟩ := Option.ite_none_right_eq_some.1 h
      rw [if_pos rfl] at h'
      cases h
      cases h'
      exact .noScalar ⟨by simp [hkind], hrange.1, hrange.2⟩
  · rw [if_neg hrange] at h h'
    cases h
    cases h'
    exact .outOfRange hrange

theorem category_eq (h : TermRefused n term e e') : e.category = e'.category := by
  cases h <;> rfl

end TermRefused

/-! ## Constraints on wires returned before -/

/-- A constraint is on the constant 1 and on wires returned so far. -/
def Op.Mentions (wires : List Wire) : Op → Prop
  | .enforce terms => ∀ term ∈ terms, ∀ w, term.ref = .wire w → w ∈ Wire.one :: wires
  | _ => True

/-- Every constraint of the next pass is on the constant 1 and on wires that the circuit has been
given before. -/
def Circuit.MentionsReturned (c : Circuit) : Prop :=
  ∀ script, c.current = some script → ∀ count t op,
    Synthesis.upTo Outline.collector count (Synthesis.start c .empty) = .ok () t →
    script.unroll[count]? = some op → op.Mentions t.wires.toList

namespace Outline

/-- All constraints are on wires of the gates `1, …, n`. -/
def OnGates (n : Nat) (o : Outline) : Prop :=
  ∀ lc ∈ o.constraints, ∀ term ∈ lc.terms, term.1.InGates n

/-- All coefficients are scalars: none is `full` and has its scalar left out. -/
def Valued (o : Outline) : Prop := ∀ lc ∈ o.constraints, ∀ term ∈ lc.terms, term.2 ≠ .full none

instance (o : Outline) : Decidable o.Valued :=
  inferInstanceAs (Decidable (∀ lc ∈ o.constraints, ∀ term ∈ lc.terms, _))

theorem OnGates.inGates {o : Outline} {n : Nat} (h : o.OnGates n) (hvalued : o.Valued) :
    o.InGates n := fun lc hlc term hterm => ⟨h lc hlc term hterm, hvalued lc hlc term hterm⟩

theorem OnGates.mono {o o' : Outline} {n m : Nat} (h : o.OnGates n) (hnm : n ≤ m)
    (ho : o'.constraints = o.constraints) : o'.OnGates m :=
  fun lc hlc term hterm => (h lc (ho ▸ hlc) term hterm).mono hnm

theorem OnGates.addConstraint {o : Outline} {n : Nat} (h : o.OnGates n) {lc : LinearCombination}
    (hlc : ∀ term ∈ lc.terms, term.1.InGates n) : (o.addConstraint lc).OnGates n :=
  List.forall_mem_append.2 ⟨h, List.forall_mem_singleton.2 hlc⟩

end Outline

theorem Progress.gates_le_after (p : Progress) (op : Op) : p.gates ≤ (p.after op).gates := by
  obtain ⟨pending, gates, constraints, wires⟩ := p
  cases op <;> cases pending <;> simp [after, Progress.alloc]

theorem LinearCombination.exists_of_addTerm {lc lc' : LinearCombination} {subtracted : Bool}
    {c : Coeff} {w : Wire} (h : lc.addTerm subtracted c w = .ok lc') :
    ∃ c', lc'.terms = lc.terms ++ [(w, c')] := by
  cases subtracted with
  | false =>
    cases h
    exact ⟨c, rfl⟩
  | true =>
    obtain ⟨c', -, hc'⟩ := exists_of_bind_ok h
    cases hc'
    exact ⟨c'.negate, rfl⟩

namespace Synthesis

theorem resolve_mem {β : Type} {ref : WireRef} {s s' : Synthesis β} {w : Wire}
    (h : resolve ref s = .ok w s') (href : ∀ w, ref = .wire w → w ∈ Wire.one :: s.wires.toList) :
    w ∈ Wire.one :: s.wires.toList := by
  cases ref with
  | one =>
    cases h
    exact .head _
  | wire w' =>
    cases h
    exact href _ rfl
  | slot i =>
    unfold resolve at h
    dsimp only at h
    rw [get_bind] at h
    cases hslot : (position? s.wires.size i).bind (s.wires[·]?) with
    | none =>
      rw [hslot] at h
      cases h
    | some w' =>
      rw [hslot] at h
      cases h
      obtain ⟨j, -, hj⟩ := Option.bind_eq_some_iff.1 hslot
      exact .tail _ (Array.mem_toList_iff.2 (Array.mem_of_getElem? hj))

theorem foldlM_addTerm_mem {β : Type} {terms : List SignedTerm} {s s' : Synthesis β}
    {lc lc' : LinearCombination} (h : terms.foldlM addTerm lc s = .ok lc' s')
    (hterms : (Op.enforce terms).Mentions s.wires.toList)
    (hlc : ∀ term ∈ lc.terms, term.1 ∈ Wire.one :: s.wires.toList) :
    ∀ term ∈ lc'.terms, term.1 ∈ Wire.one :: s.wires.toList := by
  induction terms generalizing lc with
  | nil =>
    cases h
    exact hlc
  | cons term terms ih =>
    obtain ⟨hterm, hterms⟩ := List.forall_mem_cons.1 hterms
    rw [List.foldlM_cons] at h
    obtain ⟨lc₁, s₁, hadd, hrest⟩ := exists_of_run_ok h
    have hread := Reads.parametric.addTerm lc term s
    rw [hadd] at hread
    obtain rfl : s₁ = s := hread
    refine ih hrest hterms ?_
    obtain ⟨w, s₂, hresolve, hplus⟩ := exists_of_run_ok hadd
    have hw := resolve_mem hresolve hterm
    cases hput : lc.addTerm term.subtracted term.coeff w with
    | error e =>
      rw [hput] at hplus
      cases hplus
    | ok lc₂ =>
      rw [hput] at hplus
      cases hplus
      obtain ⟨c, hlc₁⟩ := LinearCombination.exists_of_addTerm hput
      rw [hlc₁, List.forall_mem_append, List.forall_mem_singleton]
      exact ⟨hlc, hw⟩

/-- Wires that have been returned belong to gates, which are there to stay. -/
theorem step_onGates {op : Op} {t t' : Synthesis Outline}
    (h : step Outline.collector op t = .ok () t') (hsound : t.progress.Sound)
    (hgates : t.backend.OnGates t.gates) (hop : op.Mentions t.wires.toList) :
    t'.backend.OnGates t'.gates := by
  have hprogress := step_progress h
  have hle : t.gates ≤ t'.gates :=
    (Progress.gates_le_after _ op).trans_eq (congrArg Progress.gates hprogress).symm
  have hwires : Wire.Allocated t'.gates t'.wires.toList :=
    (hprogress ▸ hsound.after op : t'.progress.Sound).toAllocated
  cases op with
  | alloc value =>
    obtain ⟨w, t₁, halloc, rfl⟩ := exists_of_step_alloc h
    have hkept : t₁.backend.OnGates t₁.gates := hgates.mono hle (alloc_constraints halloc)
    exact hkept
  | input value =>
    obtain ⟨w, t₁, halloc, rfl⟩ := exists_of_step_input h
    refine (hgates.mono hle (alloc_constraints halloc)).addConstraint ?_
    refine List.forall_mem_singleton.2 (hwires.inGates w (List.mem_cons_of_mem _ ?_))
    simp
  | multiply values =>
    obtain rfl : _ = t' := (EStateM.Result.ok.inj h).2
    exact hgates.mono hle rfl
  | enforce terms =>
    obtain ⟨lc, hterms, henforce⟩ := exists_of_step_enforce h
    rw [enforce_collector] at henforce
    cases henforce
    refine hgates.addConstraint fun term hterm => hsound.inGates _ ?_
    exact foldlM_addTerm_mem hterms hop (fun _ h => absurd h List.not_mem_nil) term hterm
  | read ref => exact absurd h (step_read_collector ref t t')
  | fail kind message => cases h

theorem forM_onGates {ops : List Op} {t t' : Synthesis Outline}
    (h : ops.forM (step Outline.collector) t = .ok () t') (hsound : t.progress.Sound)
    (hgates : t.backend.OnGates t.gates)
    (hops : ∀ count s op, (ops.take count).forM (step Outline.collector) t = .ok () s →
      ops[count]? = some op → op.Mentions s.wires.toList) :
    t'.backend.OnGates t'.gates := by
  induction ops generalizing t with
  | nil =>
    cases h
    exact hgates
  | cons op ops ih =>
    obtain ⟨_, t₁, hstep, hrest⟩ := exists_of_run_ok h
    refine ih hrest (step_progress hstep ▸ hsound.after op) ?_ fun count s op' hrun hop' => ?_
    · exact step_onGates hstep hsound hgates (hops 0 t op rfl rfl)
    · exact hops (count + 1) s op' ((bind_ok hstep).trans hrun) hop'

end Synthesis

namespace Circuit

open Synthesis

/-- Constraints on wires returned before are on wires of the circuit's own gates. -/
theorem outline_onGates {c : Circuit} (hend : c.ending = .ok ()) (hc : c.MentionsReturned) :
    c.outline.OnGates c.outline.gates := by
  obtain ⟨script, t, hcurrent, hrun, hscript, houtline⟩ := exists_of_ending hend
  obtain ⟨-, -, hcollected⟩ := run_collected hcurrent hrun
  rw [houtline, hcollected.gates_eq]
  refine forM_onGates hscript Progress.start_sound ?_ fun count s op hcount hop => ?_
  · have hone := Progress.start_sound.inGates .one (.head _)
    exact List.forall_mem_singleton.2 (List.forall_mem_singleton.2 hone)
  · refine hc script hcurrent count s op ?_ hop
    exact (bind_ok (allocInput_start c)).trans ((bind_ok (takePass_some hcurrent)).trans hcount)

section

variable {c : Circuit} (hc : c.Uniform) (hend : c.ending = .ok ()) {x y : Fr} {atY : AtY} {atX : AtX}
  (hY : atY.Holds y c.outline.gates .empty)
  (hX : atX.Holds x c.outline.gates c.outline.constraints.length .empty) (i j : Nat)
include hc hend hY hX

theorem accumulators_accept (hgates : c.outline.InGates c.outline.gates) :
    ∃ s t, run AtY.backend (c.atPass i) atY = .ok () s ∧
      run AtX.backend (c.atPass j) atX = .ok () t ∧
      s.backend.constraints = c.outline.constraints.length ∧
      t.backend.constraints = c.outline.constraints.length := by
  obtain ⟨hoi, hei⟩ := hc i
  obtain ⟨hoj, hej⟩ := hc j
  have hfaultY : (c.atPass i).outline.fault .x c.outline.gates = none := by
    rw [hoi]
    exact Outline.fault_eq_none_iff.2 hgates
  have hfaultX :
      AtX.fault c.outline.gates c.outline.constraints.length (c.atPass j).outline = none := by
    rw [hoj]
    exact AtX.fault_eq_none_iff.2 ⟨hgates, le_rfl⟩
  obtain ⟨hrunY, hholdsY⟩ := run_ends (AtY.tracks y c.outline.gates) hY rfl hfaultY
  obtain ⟨hrunX, hholdsX⟩ := run_ends (AtX.tracks x _ _) hX rfl hfaultX
  refine ⟨_, _, eq_ok_of_outcome (hrunY.trans (hei.trans hend)),
    eq_ok_of_outcome (hrunX.trans (hej.trans hend)), ?_, ?_⟩
  · rw [hholdsY.constraints_eq, hoi]
  · rw [hholdsX.constraints_eq, hoj]

theorem accumulators_refuse (hgates : ¬ c.outline.InGates c.outline.gates) :
    ∃ w coeff e e', TermRefused c.outline.gates (w, coeff) e e' ∧
      outcome (run AtY.backend (c.atPass i) atY) = .error e ∧
      outcome (run AtX.backend (c.atPass j) atX) = .error e' ∧
      ((c.atPass i).trace AtY.backend atY).getLast? = some (.term w coeff) ∧
      ((c.atPass j).trace AtX.backend atX).getLast? = some (.term w coeff) ∧
      ((c.atPass i).trace AtY.backend atY).filter StructuralEvent.isLinear =
        ((c.atPass j).trace AtX.backend atX).filter StructuralEvent.isLinear := by
  obtain ⟨hoi, hei⟩ := hc i
  obtain ⟨hoj, hej⟩ := hc j
  have hfault : ∀ free, ∃ e, c.outline.fault free c.outline.gates = some e := fun free =>
    Option.ne_none_iff_exists'.1 fun h => hgates (Outline.fault_eq_none_iff.1 h)
  obtain ⟨e, he⟩ := hfault .x
  obtain ⟨e', he'⟩ := hfault .y
  obtain ⟨hrunY, told, term, hrefused⟩ := run_stops (AtY.tracks y c.outline.gates)
    (fun _ _ => rfl) (hei.trans hend) hY c.outline_gates_pos le_rfl (by rw [hoi]; exact he)
  obtain ⟨hrunX, told', term', hrefused'⟩ := run_stops (AtX.tracks x _ _)
    (fun _ => AtX.fault_eq_of_length_le) (hej.trans hend) hX c.outline_gates_pos
    (congrArg (·.constraints.length) hoj).le (by rw [hoj]; exact he')
  rw [hoi] at hrefused
  rw [hoj] at hrefused'
  obtain ⟨rfl, rfl⟩ := hrefused.unique hrefused'
  exact ⟨term.1, term.2, e, e', .of_termFault hrefused.fault_eq hrefused'.fault_eq, hrunY, hrunX,
    hrefused.last_eq, hrefused'.last_eq, hrefused.trace_eq.trans hrefused'.trace_eq.symm⟩

end

/-- The accumulators at a fixed `Y` and at a fixed `X` are made for the shape of a circuit that does
the same on every pass, and each follows a pass of it. If all constraints are on wires returned
before, with scalars for coefficients, then neither accumulator refuses any, both have counted those
of the shape in the end, and a verifier computes a value of the constraint polynomial. Whatever the
constraints are on, either both accumulators come to the end of the circuit, or both refuse it: then
the last that each has been told is the same term, with the same constraints before it, and the
faults are of one category. -/
theorem accumulators_agree (c : Circuit) (hc : c.Uniform) (shape : Shape)
    (hshape : outcome (Shape.measure c) = .ok shape) (x y : Fr) (hx : x ≠ 0) (hy : y ≠ 0)
    (i j : Nat) :
    ∃ atY atX, AtY.start y shape.gates = .ok atY ∧
      AtX.start x shape.gates shape.constraints = .ok atX ∧
      (c.MentionsReturned → c.outline.Valued →
        (∃ s t, run AtY.backend (c.atPass i) atY = .ok () s ∧
          run AtX.backend (c.atPass j) atX = .ok () t ∧
          s.backend.constraints = shape.constraints ∧ t.backend.constraints = shape.constraints) ∧
        ∀ {G₁ G₂ : Type} (v : Verifier G₁ G₂), (∃ pass, v.circuit = c.atPass pass) →
          v.shape = shape → ∃ value, outcome (Verifier.constraintValue y x v) = .ok value) ∧
      ((∃ s t, run AtY.backend (c.atPass i) atY = .ok () s ∧
          run AtX.backend (c.atPass j) atX = .ok () t) ∨
        ∃ w coeff e e', TermRefused shape.gates (w, coeff) e e' ∧ e.category = e'.category ∧
          outcome (run AtY.backend (c.atPass i) atY) = .error e ∧
          outcome (run AtX.backend (c.atPass j) atX) = .error e' ∧
          ((c.atPass i).trace AtY.backend atY).getLast? = some (.term w coeff) ∧
          ((c.atPass j).trace AtX.backend atX).getLast? = some (.term w coeff) ∧
          ((c.atPass i).trace AtY.backend atY).filter StructuralEvent.isLinear =
            ((c.atPass j).trace AtX.backend atX).filter StructuralEvent.isLinear) := by
  rw [Shape.measure_eq] at hshape
  cases hend : c.ending with
  | error e =>
    rw [hend] at hshape
    cases hshape
  | ok _ =>
    rw [hend] at hshape
    cases hshape
    obtain ⟨atY, hstartY, hY⟩ := AtY.start_holds hy c.outline.gates
    obtain ⟨atX, hstartX, hX⟩ := AtX.start_holds hx c.outline.gates c.outline.constraints.length
    refine ⟨atY, atX, hstartY, hstartX, fun hreturned hvalued => ?_, ?_⟩
    · have hgates := (outline_onGates hend hreturned).inGates hvalued
      refine ⟨accumulators_accept hc hend hY hX i j hgates, ?_⟩
      rintro G₁ G₂ v ⟨pass, hcircuit⟩ hv
      obtain ⟨houtline, hending⟩ := hc pass
      rw [← hcircuit] at houtline hending
      obtain ⟨next, hvalue⟩ := Verifier.constraintValue_eq_evaluateFor (hending.trans hend) y x
      rw [hvalue, outcome_withEnd, hv, houtline, Outline.evaluateFor_shape]
      exact ⟨_, Outline.evaluate_eq hgates hy hx⟩
    · by_cases hgates : c.outline.InGates c.outline.gates
      · obtain ⟨s, t, hs, ht, -⟩ := accumulators_accept hc hend hY hX i j hgates
        exact .inl ⟨s, t, hs, ht⟩
      · obtain ⟨w, coeff, e, e', hrefused, hrest⟩ :=
          accumulators_refuse hc hend hY hX i j hgates
        exact .inr ⟨w, coeff, e, e', hrefused, hrefused.category_eq, hrest⟩

end Circuit

/-- A circuit with a constraint on a gate that it does not have. -/
def strayCircuit : Circuit :=
  .ofScript <| .step (.input (.const 1)) <|
    .step (.enforce [⟨false, .one none, .slot 0⟩, ⟨false, .one none, .wire ⟨.c, 7⟩⟩]) .done

theorem productCircuit_mentionsReturned : productCircuit.MentionsReturned := by
  rintro script hscript count t op - hop
  cases hscript
  have hop := List.mem_of_getElem? hop
  simp only [Script.unroll, List.mem_cons, List.not_mem_nil, or_false] at hop
  rcases hop with rfl | rfl | rfl <;> simp [Op.Mentions]

/-- The product is accepted by both accumulators and evaluated, the stray wire is refused by both. -/
theorem accumulators_agree_product_stray :
    (∃ atY atX s t, AtY.start 3 2 = .ok atY ∧ AtX.start 2 2 3 = .ok atX ∧
      Synthesis.run AtY.backend (productCircuit.atPass 1) atY = .ok () s ∧
      Synthesis.run AtX.backend (productCircuit.atPass 2) atX = .ok () t ∧
      s.backend.constraints = 3 ∧ t.backend.constraints = 3) ∧
    ∃ atY atX e e', AtY.start 3 1 = .ok atY ∧ AtX.start 2 1 3 = .ok atX ∧
      outcome (Synthesis.run AtY.backend (strayCircuit.atPass 1) atY) = .error e ∧
      outcome (Synthesis.run AtX.backend (strayCircuit.atPass 2) atX) = .error e' ∧
      e.category = e'.category := by
  constructor
  · have hshape : outcome (Shape.measure productCircuit) = .ok ⟨[1, 2], 2, 3⟩ := by decide +kernel
    obtain ⟨atY, atX, hY, hX, haccept, -⟩ := Circuit.accumulators_agree productCircuit
      productCircuit_uniform _ hshape 2 3 (by decide +kernel) (by decide +kernel) 1 2
    obtain ⟨⟨s, t, hs, ht, hcountY, hcountX⟩, -⟩ :=
      haccept productCircuit_mentionsReturned (by rw [productCircuit_outline]; decide)
    exact ⟨atY, atX, s, t, hY, hX, hs, ht, hcountY, hcountX⟩
  · have hshape : outcome (Shape.measure strayCircuit) = .ok ⟨[1, 2], 1, 3⟩ := by decide +kernel
    obtain ⟨atY, atX, hY, hX, -, hboth⟩ := Circuit.accumulators_agree strayCircuit
      (Circuit.ofScript_uniform _) _ hshape 2 3 (by decide +kernel) (by decide +kernel) 1 2
    rcases hboth with ⟨s, -, hs, -⟩ | ⟨w, coeff, e, e', -, hcategory, hrunY, hrunX, -⟩
    · cases hY
      exact absurd (show outcome _ = .ok () from congrArg outcome hs) (by decide +kernel)
    · exact ⟨atY, atX, e, e', hY, hX, hrunY, hrunX, hcategory⟩

end SnarkBatch
