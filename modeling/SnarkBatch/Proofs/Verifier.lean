import SnarkBatch.Proofs.Batch
import SnarkBatch.Proofs.Circuit.Inputs
import SnarkBatch.Proofs.ConstraintPolynomial.AtY
import SnarkBatch.Verifier.Basic

/-!
# What a verifier collects

An open verifier of a circuit that does the same on every pass is known by the entries that its
batch has collected (`Verifier.Collects`). A new verifier has none, and the check accepts exactly
when they balance (`Verifier.check_eq`). Synthesising the circuit again gives what its outline says:
a value of the constraint polynomial, or the fault of a point or of a constraint
(`Verifier.constraintValue_eq`).
-/

namespace SnarkBatch

/-- `s(x, y)` as a synthesis gives it. -/
def Outline.evaluate (o : Outline) (y x : Fr) : Except Fault Fr :=
  if y = 0 then .error (.zeroPoint .x .y)
  else
    match o.fault .x o.gates with
    | some e => .error e
    | none => if x = 0 then .error (.zeroPoint .x .x) else .ok (o.constraintValue o.gates x y)

/-- `s(x, y)` as a synthesis with this outline gives it to a verifier that measured the shape. -/
def Outline.evaluateFor (o : Outline) (shape : Shape) (y x : Fr) : Except Fault Fr :=
  if y = 0 then .error (.zeroPoint .x .y)
  else
    match o.fault .x shape.gates with
    | some e => .error e
    | none =>
      if o.constraints.length ≠ shape.constraints then
        .error (.constraintCount o.constraints.length shape.constraints)
      else if x = 0 then .error (.zeroPoint .x .x)
      else .ok (o.constraintValue shape.gates x y)

theorem Outline.evaluateFor_shape (o : Outline) : o.evaluateFor o.shape = o.evaluate := by
  funext y x
  have hgates : o.shape.gates = o.gates := rfl
  have hconstraints : o.shape.constraints = o.constraints.length := rfl
  unfold evaluateFor evaluate
  rw [hgates, hconstraints]
  simp only [ne_eq, not_true, if_false]

theorem Outline.eq_of_evaluateFor {o : Outline} {shape : Shape} {y x s : Fr}
    (h : o.evaluateFor shape y x = .ok s) : s = o.constraintValue shape.gates x y := by
  unfold evaluateFor at h
  split at h
  · cases h
  · split at h
    · cases h
    · split at h
      · cases h
      · split at h
        · cases h
        · exact (Except.ok.inj h).symm

/-- A constraint that is refused is not mistaken for one that the circuit reports. -/
theorem Outline.whenRepeated_fault {o : Outline} {free : Axis} {n : Nat} {e : Fault}
    (h : o.fault free n = some e) : Verifier.whenRepeated e = e := by
  obtain ⟨lc, -, hlc⟩ := List.exists_of_findSome?_eq_some h
  obtain ⟨term, -, hterm⟩ := List.exists_of_findSome?_eq_some hlc
  unfold termFault at hterm
  split at hterm
  · split at hterm
    · cases hterm
      rfl
    · obtain ⟨-, he⟩ := Option.ite_none_right_eq_some.1 hterm
      cases he
      rfl
  · cases hterm
    rfl

theorem Outline.evaluate_eq {o : Outline} (hwires : o.InGates o.gates) {x y : Fr} (hy : y ≠ 0)
    (hx : x ≠ 0) : o.evaluate y x = .ok (o.constraintValue o.gates x y) := by
  unfold evaluate
  rw [if_neg hy, fault_eq_none_iff.2 hwires]
  exact if_neg hx

namespace Verifier

open SourceGroup

section

variable {G₁ G₂ α : Type} {v : Verifier G₁ G₂} {act : EStateM Fault Circuit α} {circuit : Circuit}

theorem onCircuit_ok {a : α} (h : act v.circuit = .ok a circuit) :
    onCircuit act v = .ok a { v with circuit } := by
  unfold onCircuit
  rw [h]

theorem onCircuit_error {e : Fault} (h : act v.circuit = .error e circuit) :
    onCircuit act v = .error e { v with circuit } := by
  unfold onCircuit
  rw [h]

theorem exists_of_onCircuit_ok {a : α} {v' : Verifier G₁ G₂} (h : onCircuit act v = .ok a v') :
    ∃ circuit, act v.circuit = .ok a circuit := by
  unfold onCircuit at h
  cases hact : act v.circuit with
  | ok a' circuit =>
    rw [hact] at h
    cases h
    exact ⟨circuit, rfl⟩
  | error e circuit =>
    rw [hact] at h
    cases h

end

theorem ensureOpen_eq {G₁ G₂ : Type} {v : Verifier G₁ G₂} (hopen : v.finalized = false) :
    ensureOpen v = .ok () v := by
  unfold ensureOpen
  rw [get_bind, hopen]
  rfl

variable {G₁ G₂ F₂ : Type} [SourceGroup G₁ Fp] [SourceGroup G₂ F₂]

/-- An open verifier for a circuit, before any of its passes, with the entries in its batch. -/
structure Collects (c : Circuit) (d : Int) (x alpha : Fr) (entries : List (Entry Fr))
    (v : Verifier G₁ G₂) : Prop where
  circuit_eq : ∃ pass, v.circuit = c.atPass pass
  shape_eq : v.shape = c.outline.shape
  finalized_eq : v.finalized = false
  keys : v.batch.HasKeys d c.outline.gates x alpha
  batch : v.batch.Collects entries

variable {c : Circuit} {d : Int} {x alpha : Fr} {entries : List (Entry Fr)} {v : Verifier G₁ G₂}

omit [SourceGroup G₁ Fp] in
theorem start_eq {srs : ReferenceString G₁ G₂} {circuit next : Circuit} {shape : Shape}
    {batch : Batch G₁ G₂} (hmeasure : Shape.measure circuit = .ok shape next)
    (hbatch : Batch.start srs shape.gates = .ok batch) (log : List LogEntry) :
    start srs circuit log =
      .ok ⟨next, shape, batch, false, log ++ [.preprocessed shape]⟩
        (log ++ [.preprocessed shape]) := by
  unfold start
  rw [hmeasure]
  dsimp only
  rw [hbatch]

section

variable [LawfulGroup G₁] [LawfulGroup G₂]

theorem exists_start {srs : ReferenceString G₁ G₂} (hsrs : srs.Tables d x alpha) (hc : c.Uniform)
    (hend : c.ending = .ok ()) (hgates : c.outline.gates ≤ d) (pass : Nat) (log : List LogEntry) :
    ∃ v log', start srs (c.atPass pass) log = .ok v log' ∧ v.Collects c d x alpha [] := by
  obtain ⟨houtline, hending⟩ := hc pass
  obtain ⟨next, hmeasure⟩ := Shape.measure_ok (hending.trans hend)
  rw [houtline] at hmeasure
  obtain ⟨b, hb, hkeys, hcollects⟩ := Batch.start_eq hsrs (Int.natCast_nonneg _) hgates
  exact ⟨_, _, start_eq hmeasure hb log, ⟨⟨next, rfl⟩, rfl, rfl, hkeys, hcollects⟩⟩

end

omit [SourceGroup G₁ Fp] in
theorem start_ok {srs : ReferenceString G₁ G₂} {circuit : Circuit} {log log' : List LogEntry}
    {v : Verifier G₁ G₂} (h : start srs circuit log = .ok v log') :
    outcome (Shape.measure circuit) = .ok v.shape ∧
      Batch.start srs v.shape.gates = .ok v.batch ∧ v.shape.gates ≤ srs.degree ∧
      v.finalized = false := by
  unfold start at h
  split at h
  · cases h
  · rename_i shape circuit' hmeasure
    dsimp only at h
    split at h
    · cases h
    · rename_i batch hbatch
      cases h
      refine ⟨by rw [hmeasure]; rfl, hbatch, ?_, rfl⟩
      by_contra hgates
      rw [Batch.start, if_pos (not_le.1 hgates)] at hbatch
      cases hbatch

/-- A circuit that a verifier was made for can be synthesised, with no more gates than the degree.
-/
theorem ending_of_start {srs : ReferenceString G₁ G₂} (hsrs : srs.Tables d x alpha) (hc : c.Uniform)
    {pass : Nat} {log log' : List LogEntry} {v : Verifier G₁ G₂}
    (hstart : start srs (c.atPass pass) log = .ok v log') :
    c.ending = .ok () ∧ c.outline.gates ≤ d := by
  obtain ⟨houtline, hending⟩ := hc pass
  obtain ⟨hmeasure, -, hgates, -⟩ := start_ok hstart
  obtain ⟨hend, hshape⟩ := Shape.ending_of_measure hmeasure
  rw [← hshape, houtline, hsrs.degree_eq] at hgates
  exact ⟨hending.symm.trans hend, hgates⟩

omit [SourceGroup G₁ Fp] [SourceGroup G₂ F₂] in
/-- Another pass of the circuit that comes to its end gives what its outline says and changes
nothing else. -/
theorem constraintValue_eq_evaluateFor (hend : v.circuit.ending = .ok ()) (y z : Fr) :
    ∃ pass, constraintValue y z v =
      withEnd { v with circuit := v.circuit.atPass pass }
        (v.circuit.outline.evaluateFor v.shape y z) := by
  unfold constraintValue Outline.evaluateFor
  rw [get_bind]
  dsimp only
  by_cases hy : y = 0
  · refine ⟨v.circuit.runs, ?_⟩
    rw [AtY.start, if_pos hy, if_pos hy]
    rfl
  obtain ⟨s₀, hstart, hs₀⟩ := AtY.start_holds hy v.shape.gates
  rw [if_neg hy, ofExcept_bind hstart]
  cases hfault : v.circuit.outline.fault .x v.shape.gates with
  | some e =>
    obtain ⟨next, hrefused⟩ :=
      Synthesis.complete_refused (AtY.tracks y v.shape.gates) hs₀ rfl hfault
    refine ⟨next, bind_error (onCircuit_error ?_)⟩
    rw [hrefused]
    exact congrArg (EStateM.Result.error · _) (Outline.whenRepeated_fault hfault)
  | none =>
    obtain ⟨next, done, hcomplete, hs⟩ :=
      Synthesis.complete_eq (AtY.tracks y v.shape.gates) hs₀ hfault hend
    refine ⟨next, (bind_ok (onCircuit_ok
      (?_ : _ = EStateM.Result.ok done (v.circuit.atPass next)))).trans ?_⟩
    · rw [hcomplete]
    rw [hs.constraints_eq]
    by_cases hcount : v.circuit.outline.constraints.length = v.shape.constraints
    · rw [if_neg (not_not.2 hcount), if_neg (not_not.2 hcount)]
      by_cases hz : z = 0
      · rw [if_pos hz, AtY.eval, if_pos hz]
        rfl
      · rw [if_neg hz, hs.eval_eq hz]
        rfl
    · rw [if_pos hcount, if_pos hcount]
      rfl

theorem constraintValue_eq (hv : v.Collects c d x alpha entries) (hc : c.Uniform)
    (hend : c.ending = .ok ()) (y z : Fr) :
    ∃ pass, constraintValue y z v =
      withEnd { v with circuit := c.atPass pass } (c.outline.evaluate y z) := by
  obtain ⟨pass, hcircuit⟩ := hv.circuit_eq
  obtain ⟨houtline, hending⟩ := hc pass
  rw [← hcircuit] at houtline hending
  obtain ⟨next, hvalue⟩ := constraintValue_eq_evaluateFor (hending.trans hend) y z
  refine ⟨next, ?_⟩
  rw [hvalue, houtline, hv.shape_eq, Outline.evaluateFor_shape, hcircuit, ← hv.shape_eq]
  rfl

/-! ## The verdict -/

section

variable {T : Type} [Pairing G₁ G₂ T]

def closed (v : Verifier G₁ G₂) : Verifier G₁ G₂ where
  circuit := v.circuit
  shape := v.shape
  batch := v.batch.closed
  finalized := true
  log :=
    v.log ++ [.batchChecked v.batch.closed.alphaX.length v.batch.closed.full.length
      v.batch.closed.bounded.length] ++
    match v.batch.closed.verdict with
    | .ok accepted => [.decided accepted]
    | .error _ => []

theorem checkBatch_open (hbatch : v.batch.finalized = false) :
    checkBatch v =
      withEnd { v with
        batch := v.batch.closed
        log := v.log ++ [.batchChecked v.batch.closed.alphaX.length v.batch.closed.full.length
          v.batch.closed.bounded.length] } v.batch.closed.verdict := by
  have hfinalize : onBatch Batch.finalize v = .ok () { v with batch := v.batch.closed } := by
    unfold onBatch
    rw [Batch.finalize_eq hbatch]
  unfold checkBatch note
  rw [bind_ok hfinalize, get_bind, modify_bind]
  dsimp only
  cases v.batch.closed.verdict <;> rfl

/-- The check of an open verifier gives the verdict of its batch. -/
theorem check_open (hopen : v.finalized = false) (hbatch : v.batch.finalized = false) :
    check v = withEnd v.closed v.batch.closed.verdict := by
  have hchecked := checkBatch_open (v := { v with finalized := true }) hbatch
  unfold check closed note
  rw [bind_ok (ensureOpen_eq hopen), modify_bind]
  cases hverdict : v.batch.closed.verdict with
  | ok accepted =>
    rw [hverdict] at hchecked
    rw [bind_ok hchecked, modify_bind]
    rfl
  | error e =>
    rw [hverdict] at hchecked
    rw [bind_error hchecked, List.append_nil]
    rfl

theorem outcome_check (hopen : v.finalized = false) (hbatch : v.batch.finalized = false) :
    outcome (check v) = v.batch.closed.verdict := by
  rw [check_open hopen hbatch, outcome_withEnd]

variable {E : Type} [LawfulGroup G₁] [LawfulGroup G₂] [CommGroupWithZero E]
  (e : BilinearPairing G₁ G₂ E)
include e

theorem check_eq (hv : v.Collects c d x alpha entries) :
    ∃ v', check v =
      .ok (decide (Entry.balance d c.outline.gates x alpha entries = 0)) v' :=
  ⟨_, eq_ok_of_outcome <| (outcome_check hv.finalized_eq hv.batch.finalized).trans
    (Batch.verdict_closed e hv.keys hv.batch)⟩

end

end Verifier

end SnarkBatch
