import SnarkBatch.Circuit.Shape
import SnarkBatch.Proofs.Circuit.Outline
import SnarkBatch.Verifier.Claims

/-!
# The public inputs of an outline

`Circuit.outline_induction` is the induction over a synthesis: what the outline of the constant 1
has, and gates, constraints and public inputs keep, every outline has. By it the constraints of the
public inputs are strictly increasing and within the constraints of the outline
(`Circuit.outline_inputs_ordered`).

Measuring a circuit gives the shape of its outline (`Shape.measure_eq`), and `k(y)` gathers for each
constraint the public input that belongs to it (`Circuit.publicValue_eq`).
-/

namespace SnarkBatch

namespace Synthesis

/-- Gates, constraints and inputs keep `I`. The number of an input is that of its constraint,
counted from 1. -/
structure Stable (I : Nat → Outline → Prop) : Prop where
  gate : ∀ {q o}, I q o → I q o.addGate
  constraint : ∀ {q o} lc, I q o → I (q + 1) (o.addConstraint lc)
  input : ∀ {q o} lc, I q o → I (q + 1) ((o.addConstraint lc).addInput (q + 1))

/-- `I` holds of the number of constraints counted and of the outline collected. -/
def Counts (I : Nat → Outline → Prop) (t : Synthesis Outline) : Prop := I t.constraints t.backend

/-- A computation that keeps `I`, also where it fails. -/
def Keeps {α : Type} (I : Nat → Outline → Prop) (x : Build Outline α) : Prop :=
  ∀ t, Counts I t → Counts I (endState (x t))

namespace Keeps

variable {α α' : Type} {I : Nat → Outline → Prop}

theorem pure (a : α) : Keeps I (Pure.pure a) := fun _ h => h

theorem throw (e : Fault) : Keeps I (MonadExcept.throw e : Build Outline α) := fun _ h => h

theorem bind {x : Build Outline α} {f : α → Build Outline α'} (hx : Keeps I x)
    (hf : ∀ a, Keeps I (f a)) : Keeps I (x >>= f) := by
  intro t h
  have hx := hx t h
  cases hr : x t with
  | ok a t' =>
    rw [hr] at hx
    rw [bind_ok hr]
    exact hf a t' hx
  | error e t' =>
    rw [hr] at hx
    rw [bind_error hr]
    exact hx

theorem modify {f : Synthesis Outline → Synthesis Outline}
    (hf : ∀ t, Counts I t → Counts I (f t)) : Keeps I (modify f) := hf

theorem get_bind {f : Synthesis Outline → Build Outline α} (hf : ∀ t, Keeps I (f t)) :
    Keeps I (get >>= f) := fun t => hf t t

theorem parametric : Parametric fun {α} (x _ : Build Outline α) => Keeps I x :=
  ⟨pure, throw, bind, .get_bind fun _ => .pure _⟩

end Keeps

section

variable {I : Nat → Outline → Prop}

theorem keeps_keep (wires : List Wire) : Keeps I (keep wires) := .modify fun _ h => h

/-- An allocation opens a gate or does nothing but close one. -/
theorem alloc_collector {v : Build Outline Fr} {t t' : Synthesis Outline} {w : Wire}
    (h : alloc Outline.collector v t = .ok w t') :
    (t'.backend = t.backend ∧ t'.gates = t.gates ∨
      t'.backend = t.backend.addGate ∧ t'.gates = t.gates + 1) ∧
    t'.constraints = t.constraints ∧ t'.wires = t.wires := by
  obtain ⟨circuit, o, pending, gates, constraints, wires, values⟩ := t
  cases pending <;> obtain rfl : _ = t' := (EStateM.Result.ok.inj h).2
  · exact ⟨.inr ⟨rfl, rfl⟩, rfl, rfl⟩
  · exact ⟨.inl ⟨rfl, rfl⟩, rfl, rfl⟩

theorem enforce_collector (lc : LinearCombination) (t : Synthesis Outline) :
    enforce Outline.collector lc t =
      .ok () { t with constraints := t.constraints + 1, backend := t.backend.addConstraint lc } := by
  rw [enforce_eq]
  refine (bind_ok rfl).trans ?_
  simp only [onBackend, Outline.collector_openWith]

theorem alloc_constraints {v : Build Outline Fr} {t t' : Synthesis Outline} {w : Wire}
    (h : alloc Outline.collector v t = .ok w t') :
    t'.backend.constraints = t.backend.constraints := by
  obtain ⟨⟨hbackend, -⟩ | ⟨hbackend, -⟩, -, -⟩ := alloc_collector h <;> rw [hbackend]
  rfl

/-! What an operation that succeeds has done. -/

theorem exists_of_step_alloc {value : Expr} {t t' : Synthesis Outline}
    (h : step Outline.collector (.alloc value) t = .ok () t') :
    ∃ w t₁, alloc Outline.collector (eval Outline.collector value) t = .ok w t₁ ∧
      t' = { t₁ with wires := t₁.wires ++ [w] } := by
  obtain ⟨w, t₁, halloc, hkeep⟩ := exists_of_run_ok h
  cases hkeep
  exact ⟨w, t₁, halloc, rfl⟩

theorem exists_of_step_input {value : Expr} {t t' : Synthesis Outline}
    (h : step Outline.collector (.input value) t = .ok () t') :
    ∃ w t₁, alloc Outline.collector (eval Outline.collector value) t = .ok w t₁ ∧
      t' = { t₁ with
        constraints := t₁.constraints + 1
        backend := (t₁.backend.addConstraint ⟨[(w, .one none)]⟩).addInput (t₁.constraints + 1)
        wires := t₁.wires ++ [w] } := by
  obtain ⟨w, t₂, hinput, hkeep⟩ := exists_of_run_ok h
  obtain ⟨w', t₁, halloc, hrest⟩ := exists_of_run_ok hinput
  rw [bind_ok (enforce_collector _ t₁)] at hrest
  cases hrest
  cases hkeep
  exact ⟨w, t₁, halloc, rfl⟩

theorem step_read_collector (ref : WireRef) (t t' : Synthesis Outline) :
    step Outline.collector (.read ref) t ≠ .ok () t' := by
  intro h
  obtain ⟨w, t₁, -, hvalue⟩ := exists_of_run_ok h
  rw [valueOf_eq Outline.collector_silent] at hvalue
  cases hvalue

variable (hI : Stable I)
include hI

theorem keeps_alloc (v : Build Outline Fr) : Keeps I (alloc Outline.collector v) := by
  have hnew : Keeps I (newGate Outline.collector) := fun t h => hI.gate h
  refine .get_bind fun t => ?_
  cases t.pending with
  | some gate =>
    simp only [closeHalf_eq Outline.collector_silent]
    exact .bind (.modify fun _ h => h) fun _ => .pure _
  | none =>
    simp only [openHalf_eq Outline.collector_silent]
    exact .bind hnew fun _ => .bind (.modify fun _ h => h) fun _ => .pure _

/-- The constraint of an input and its number are collected together. -/
theorem keeps_allocInput (v : Build Outline Fr) : Keeps I (allocInput Outline.collector v) := by
  refine .bind (keeps_alloc hI v) fun w => ?_
  intro t h
  refine (congrArg (Counts I ∘ endState) (bind_ok (enforce_collector _ t))).mpr ?_
  exact hI.input _ h

theorem keeps_step (op : Op) : Keeps I (step Outline.collector op) := by
  have hR := Keeps.parametric (I := I)
  cases op with
  | alloc value => exact .bind (keeps_alloc hI _) fun w => keeps_keep _
  | input value => exact .bind (keeps_allocInput hI _) fun w => keeps_keep _
  | multiply values =>
    have hnew : Keeps I (newGate Outline.collector) := fun t h => hI.gate h
    simp only [step, multiply_eq Outline.collector_silent]
    exact .bind (.bind hnew fun _ => .bind (.modify fun _ h => h) fun _ => .pure _)
      fun _ => keeps_keep _
  | enforce terms =>
    refine .bind (hR.foldlM (g := addTerm) hR.addTerm terms _) fun lc t h => ?_
    rw [enforce_collector]
    exact hI.constraint lc h
  | read ref =>
    simp only [step, valueOf_eq Outline.collector_silent]
    exact .bind (hR.resolve ref) fun _ => .bind (.throw _) fun _ => .modify fun _ h => h
  | fail kind message => exact .throw _

end

end Synthesis

namespace Circuit

/-- Whatever the first outline of a synthesis has, that of the constant 1, and gates, constraints
and inputs keep, every outline has. -/
theorem outline_induction {I : Nat → Outline → Prop} (hI : Synthesis.Stable I)
    (hfirst : I 1 ⟨1, [⟨[(.one, .one none)]⟩], [1]⟩) (c : Circuit) : ∃ q, I q c.outline := by
  have hstart : ∀ d, Synthesis.Counts I (Synthesis.beforeScript d) := fun _ => hfirst
  cases hc : c.current with
  | none =>
    rw [outline, Synthesis.run_collector_none hc]
    exact ⟨1, hstart c⟩
  | some script =>
    rw [outline, Synthesis.run_collector_some hc]
    have hscript := Synthesis.Keeps.parametric.forM (g := Synthesis.step Outline.collector)
      (Synthesis.keeps_step hI) script
    exact ⟨_, hscript _ (hstart _)⟩

theorem outline_gates_pos (c : Circuit) : 1 ≤ c.outline.gates := by
  have hstable : Synthesis.Stable fun _ o => 1 ≤ o.gates :=
    ⟨fun h => Nat.le_succ_of_le h, fun _ h => h, fun _ h => h⟩
  obtain ⟨q, h⟩ := outline_induction hstable le_rfl c
  exact h

/-- The inputs of an outline are strictly increasing numbers of its constraints. -/
theorem outline_inputs_ordered (c : Circuit) :
    c.outline.inputs.Pairwise (· < ·) ∧
      ∀ i ∈ c.outline.inputs, 1 ≤ i ∧ i ≤ c.outline.constraints.length := by
  have hstable : Synthesis.Stable fun q o => q = o.constraints.length ∧
      o.inputs.Pairwise (· < ·) ∧ ∀ i ∈ o.inputs, 1 ≤ i ∧ i ≤ o.constraints.length := by
    constructor
    · exact fun h => h
    · rintro q o lc ⟨rfl, hsorted, hrange⟩
      have hlength := o.length_addConstraint lc
      refine ⟨hlength.symm, hsorted, fun i hi => ?_⟩
      have := hrange i hi
      omega
    · rintro q o lc ⟨rfl, hsorted, hrange⟩
      have hlength := o.length_addConstraint lc
      refine ⟨hlength.symm, ?_, fun i hi => ?_⟩
      · refine List.pairwise_append.2 ⟨hsorted, List.pairwise_singleton _ _, fun i hi j hj => ?_⟩
        have := hrange i hi
        rw [List.mem_singleton.1 hj]
        omega
      · show 1 ≤ i ∧ i ≤ (o.addConstraint lc).constraints.length
        rcases List.mem_append.1 hi with hi | hi
        · have := hrange i hi
          omega
        · have := List.mem_singleton.1 hi
          omega
  obtain ⟨q, -, h⟩ := outline_induction hstable ⟨rfl, List.pairwise_singleton _ _, by simp⟩ c
  exact h

end Circuit

/-! ## The shape -/

/-- What a verifier has to know about an outline. -/
def Outline.shape (o : Outline) : Shape := ⟨o.inputs, o.gates, o.constraints.length⟩

namespace Shape

theorem counter_tracks : counter.Tracks (fun o s => s = o.shape) fun _ => none where
  wants_eq _ := rfl
  setValue_eq _ _ _ := rfl
  getValue_eq _ _ := rfl
  newGate h := by rw [h]; rfl
  newInput i h := by rw [h]; rfl
  openWith {o s} lc h _ := by
    have hterms : ∀ (terms : List (Wire × Coeff)) (index : Nat) (s : Shape),
        (terms.forM fun term => counter.insertTerm term.1 term.2 index) s = .ok () s := by
      intro terms index s
      induction terms with
      | nil => rfl
      | cons term terms ih => exact (bind_ok rfl).trans ih
    have hopen : counter.newConstraint s =
        .ok (s.constraints + 1) { s with constraints := s.constraints + 1 } := rfl
    refine ⟨_, (bind_ok hopen).trans (hterms lc.terms _ _), ?_⟩
    rw [h, Outline.shape, Outline.shape, o.length_addConstraint]
    rfl
  refuses _ _ _ h := by cases h
  fault_addGate _ := rfl
  fault_addInput _ _ := rfl
  fault_addConstraint _ h := h

theorem measure_eq (c : Circuit) :
    outcome (measure c) = c.ending.map fun _ => c.outline.shape := by
  obtain ⟨hending, hshape⟩ := Synthesis.run_ends counter_tracks
    (rfl : empty = Outline.empty.shape) (rfl : c.current = _) rfl
  have hmeasure : outcome (measure c) =
      (outcome (Synthesis.run counter c empty)).map fun _ =>
        (endState (Synthesis.run counter c empty)).backend := by
    unfold measure
    cases hr : Synthesis.run counter c empty with
    | ok a t =>
      have hcomplete : Synthesis.complete counter empty c = .ok t t.circuit := by
        rw [Synthesis.complete, hr]
      rw [bind_ok hcomplete]
      rfl
    | error e t =>
      have hcomplete : Synthesis.complete counter empty c = .error e t.circuit := by
        rw [Synthesis.complete, hr]
      rw [bind_error hcomplete]
      rfl
  rw [hmeasure, hending, hshape]

/-- A circuit that can be measured can be synthesised, and its shape is that of its outline. -/
theorem ending_of_measure {c : Circuit} {shape : Shape} (h : outcome (measure c) = .ok shape) :
    c.ending = .ok () ∧ c.outline.shape = shape := by
  rw [measure_eq] at h
  cases hend : c.ending with
  | error e =>
    rw [hend] at h
    cases h
  | ok _ =>
    rw [hend] at h
    exact ⟨rfl, Except.ok.inj h⟩

theorem measure_ok {c : Circuit} (hend : c.ending = .ok ()) :
    ∃ pass, measure c = .ok c.outline.shape (c.atPass pass) := by
  obtain ⟨pass, t, hcomplete, hshape⟩ := Synthesis.complete_eq counter_tracks
    (rfl : empty = Outline.empty.shape) rfl hend
  refine ⟨pass, ?_⟩
  unfold measure
  rw [bind_ok hcomplete, ← hshape]
  rfl

/-- The public input that belongs to a constraint, with the constant 1 for the first, and 0 for a
constraint that belongs to none. -/
def publicInput (s : Shape) (inputs : List Fr) (q : Nat) : Fr :=
  ((s.inputs.zip (1 :: inputs)).lookup q).getD 0

end Shape

/-- A sum over pairs with different keys is one over the keys in any range around them. -/
theorem sum_zip_lookup {keys : List Nat} (hkeys : keys.Nodup) {positions : Finset Nat}
    (hsub : ∀ k ∈ keys, k ∈ positions) (values : List Fr) (f : Nat → Fr) :
    ((keys.zip values).map fun kv => f kv.1 * kv.2).sum =
      ∑ q ∈ positions, f q * ((keys.zip values).lookup q).getD 0 := by
  induction keys generalizing values with
  | nil => simp
  | cons key keys ih =>
    cases values with
    | nil => simp
    | cons value values =>
      obtain ⟨hkey, hkeys⟩ := List.nodup_cons.1 hkeys
      obtain ⟨hmem, hsub⟩ := List.forall_mem_cons.1 hsub
      have hrest : (keys.zip values).lookup key = none := by
        rw [List.lookup_eq_none_iff]
        intro kv hkv
        have := (List.of_mem_zip hkv).1
        simp only [bne_iff_ne, ne_eq]
        rintro rfl
        exact hkey this
      have hsplit : ∀ q, f q * (((key, value) :: keys.zip values).lookup q).getD 0 =
          (if key = q then f q * value else 0) + f q * ((keys.zip values).lookup q).getD 0 := by
        intro q
        rw [List.lookup_cons]
        by_cases hq : key = q
        · subst hq
          simp [hrest]
        · rw [if_neg hq, zero_add]
          rw [beq_false_of_ne (Ne.symm hq)]
      rw [List.zip_cons_cons, List.map_cons, List.sum_cons, ih hkeys hsub values]
      simp only [hsplit, Finset.sum_add_distrib, Finset.sum_ite_eq, hmem, if_true]

/-- `k(y)` is the sum over all constraints of the public inputs that belong to them. -/
theorem Circuit.publicValue_eq (c : Circuit) (y : Fr) (inputs : List Fr) :
    c.outline.shape.publicValue y inputs =
      ∑ q ∈ Finset.Icc 1 c.outline.constraints.length,
        y ^ (q + c.outline.gates) * c.outline.shape.publicInput inputs q := by
  obtain ⟨hsorted, hrange⟩ := c.outline_inputs_ordered
  exact sum_zip_lookup (hsorted.imp fun h => Nat.ne_of_lt h)
    (fun q hq => Finset.mem_Icc.2 (hrange q hq)) (1 :: inputs) fun q => y ^ (q + c.outline.gates)

end SnarkBatch
