import SnarkBatch.Circuit.Recorder
import SnarkBatch.Circuit.Shape
import SnarkBatch.ConstraintPolynomial.AtX
import SnarkBatch.ConstraintPolynomial.AtY
import SnarkBatch.Proofs.Circuit.Mapping

/-!
# The structure of a circuit

Prover and verifier run the same circuit on different backends and never tell each other what came
of it. They agree because the structure of a circuit, its gates, constraints and public inputs, does
not depend on the backend, nor on the values that the prover computes
(`Circuit.structure_independent`).

`Backend.traced` notes what a backend is told about the structure. Every traced synthesis follows
one and the same (`Synthesis.follows_build`): that of a ledger, which keeps these notes only and
never fails of its own. What a backend or a value can do is to stop a synthesis early. A backend
that asks for no values does not even that: where two circuits differ in values only, it cannot tell
them apart (`Synthesis.run_blind`).
-/

namespace SnarkBatch

/-! ## Circuits that differ in values only -/

/-- The operation without its values. -/
def Op.withoutValues : Op → Op
  | alloc _ => alloc .unassigned
  | input _ => input .unassigned
  | multiply _ => multiply (.each [])
  | op => op

def Script.withoutValues : Script → Script
  | done => done
  | step op rest => step op.withoutValues rest.withoutValues
  | loop count body rest => loop count body.withoutValues rest.withoutValues

def Circuit.withoutValues (c : Circuit) : Circuit :=
  { c with passes := c.passes.map Script.withoutValues }

theorem Circuit.current_withoutValues (c : Circuit) :
    c.withoutValues.current = c.current.map Script.withoutValues := by
  simp [current, withoutValues]

/-! ## Traces -/

/-- What a backend is told about the structure of a circuit. -/
inductive StructuralEvent
  | gate
  | constraint
  | term (wire : Wire) (coeff : Coeff)
  /-- The constraint with this number belongs to a public input. -/
  | input (constraint : Nat)
  deriving DecidableEq, Repr

/-- The backend, with notes of all structural events, those it refuses included. -/
def Backend.traced {β ι : Type} (k : Backend β ι) : Backend (β × List StructuralEvent) ι where
  newGate := fun (b, trace) => (k.newGate b, trace ++ [.gate])
  newConstraint := fun (b, trace) => mapEnd (·, trace ++ [.constraint]) (k.newConstraint b)
  insertTerm w c index := fun (b, trace) =>
    mapEnd (·, trace ++ [.term w c]) (k.insertTerm w c index b)
  newInput i := fun (b, trace) => (k.newInput i b, trace ++ [.input i])
  wants := k.wants
  setValue w v := fun (b, trace) => (k.setValue w v b, trace)
  getValue w := fun (b, trace) => ((k.getValue w b).1, (k.getValue w b).2, trace)

/-- The structural events of the next synthesis, as far as it comes. -/
def Circuit.trace {β ι : Type} (c : Circuit) (k : Backend β ι) (b : β) : List StructuralEvent :=
  (endState (Synthesis.run k.traced c (b, []))).backend.2

theorem Backend.traced_maps {β ι : Type} (k : Backend β ι) : k.traced.Maps k Prod.fst where
  newGate _ := rfl
  newConstraint b := by
    show k.newConstraint b.1 = mapEnd _ (mapEnd _ (k.newConstraint b.1))
    cases k.newConstraint b.1 <;> rfl
  insertTerm w c index b := by
    show k.insertTerm w c index b.1 = mapEnd _ (mapEnd _ (k.insertTerm w c index b.1))
    cases k.insertTerm w c index b.1 <;> rfl
  newInput _ _ := rfl
  wants _ := rfl
  setValue _ _ _ := rfl
  getValue _ _ := rfl

/-- The structural events among those that a recorder keeps. -/
def Event.structural : Event → Option StructuralEvent
  | .gate => some .gate
  | .constraint _ => some .constraint
  | .term w c _ => some (.term w c)
  | .input i => some (.input i)
  | .set _ _ | .get _ _ => none

def Recording.structural (r : Recording) : List StructuralEvent :=
  r.events.filterMap Event.structural

theorem Recording.structural_log (r : Recording) (e : Event) :
    (r.log e).structural = r.structural ++ e.structural.toList := by
  rw [structural, log, List.filterMap_append]
  cases h : e.structural <;> simp [h, structural]

/-- Noting the structure beside a recorder is what the recorder does anyway. -/
theorem Recorder.maps_traced (cfg : Recorder) :
    cfg.backend.Maps cfg.backend.traced fun r => (r, r.structural) where
  newGate r := congrArg (Prod.mk _) (r.structural_log .gate).symm
  newConstraint r := by
    show mapEnd (·, r.structural ++ [.constraint]) (cfg.backend.newConstraint r) = _
    refine mapEnd_congr (congrArg (Prod.mk _) ?_)
    exact (Recording.structural_log _ (.constraint _)).symm
  insertTerm w c index r := by
    show mapEnd (·, r.structural ++ [.term w c]) (cfg.backend.insertTerm w c index r) = _
    exact mapEnd_congr (congrArg (Prod.mk _) (r.structural_log (.term w c index)).symm)
  newInput i r := congrArg (Prod.mk _) (r.structural_log (.input i)).symm
  wants _ := rfl
  setValue w v r := by
    cases v <;>
      exact congrArg (Prod.mk _) ((Recording.structural_log _ _).trans (List.append_nil _)).symm
  getValue w r := congrArg (fun t => ((_, _, t) : Option Fr × Recording × _))
    ((r.structural_log (.get w _)).trans (List.append_nil _)).symm

namespace Synthesis

theorem run_traced {β ι : Type} (k : Backend β ι) (c : Circuit) (b : β) :
    run k c b = mapEnd (into c Prod.fst) (run k.traced c (b, [])) :=
  run_map k.traced_maps rfl rfl (b, [])

theorem trace_recorder (cfg : Recorder) (c : Circuit) :
    c.trace cfg.backend .empty = (endState (run cfg.backend c .empty)).backend.structural := by
  have hrun : run cfg.backend.traced c (.empty, []) = _ :=
    run_map cfg.maps_traced rfl rfl (c := c) .empty
  rw [Circuit.trace, hrun, endState_mapEnd]
  rfl

theorem exists_traced {β ι : Type} {k : Backend β ι} {c : Circuit} {b : β} {s : Synthesis β}
    (h : run k c b = .ok () s) :
    ∃ t, run k.traced c (b, []) = .ok () t ∧ c.trace k b = t.backend.2 ∧ s = t.into c Prod.fst := by
  rw [run_traced] at h
  cases ht : run k.traced c (b, []) with
  | ok _ t =>
    rw [ht] at h
    cases h
    exact ⟨t, rfl, by rw [Circuit.trace, ht]; rfl, rfl⟩
  | error e t =>
    rw [ht] at h
    cases h

/-! ## Blind backends -/

section Blind

variable {β ι : Type} {k : Backend β ι} (hk : ∀ kind, k.wants kind = false)
include hk

theorem assign_blind (w : Wire) (value value' : Build β Fr) :
    assign k w value = assign k w value' := by
  simp only [assign, hk, Bool.false_eq_true, if_false]

theorem alloc_blind (value value' : Build β Fr) : alloc k value = alloc k value' := by
  have hopen : openHalf k value = openHalf k value' := by
    simp only [openHalf, assign_blind hk _ value value']
  have hclose : ∀ gate, closeHalf k gate value = closeHalf k gate value' := by
    intro gate
    refine bind_congr fun left => ?_
    rw [assign_blind hk]
  simp only [alloc, hopen, hclose]

theorem multiply_blind (values values' : Build β (List Fr)) :
    multiply k values = multiply k values' := by
  simp only [multiply, hk, Bool.false_eq_true, if_false]

theorem step_withoutValues (op : Op) : step k op.withoutValues = step k op := by
  cases op with
  | alloc value => exact congrArg (· >>= _) (alloc_blind hk _ _)
  | input value =>
    have hinput : ∀ value', allocInput k (eval k value') = allocInput k (eval k value) := by
      intro value'
      simp only [allocInput, alloc_blind hk (eval k value') (eval k value)]
    exact congrArg (· >>= _) (hinput _)
  | multiply values => exact congrArg (· >>= _) (multiply_blind hk _ _)
  | enforce | read | fail => rfl

theorem forM_withoutValues (s : Script) : s.withoutValues.forM (step k) = s.forM (step k) := by
  induction s with
  | done => rfl
  | step op rest ih => simp only [Script.withoutValues, Script.forM, step_withoutValues hk, ih]
  | loop count body rest ihb ihr => simp only [Script.withoutValues, Script.forM, ihb, ihr]

/-- A backend that asks for no values does the same with circuits that differ in nothing else. -/
theorem run_blind {c d : Circuit} (hcd : c.withoutValues = d.withoutValues) (b : β) :
    run k d b = mapEnd (into d id) (run k c b) := by
  have hrefl := Backend.Maps.refl k
  have hruns : d.runs = c.runs := (congrArg Circuit.runs hcd).symm
  refine run_commutes (commutes_allocInput hrefl (.pure 1)) hruns ?_ b
  have hcurrent := congrArg Circuit.current hcd
  rw [Circuit.current_withoutValues, Circuit.current_withoutValues] at hcurrent
  generalize c.current = old, d.current = new at hcurrent
  cases old with
  | none =>
    cases new with
    | none => exact .none
    | some _ => cases hcurrent
  | some script =>
    cases new with
    | none => cases hcurrent
    | some script' =>
      have hscript := congrArg (Script.forM (step k)) (Option.some.inj hcurrent)
      rw [forM_withoutValues hk, forM_withoutValues hk] at hscript
      refine .some ?_
      rw [← hscript]
      exact Commutes.parametric.forM (commutes_step hrefl) script

end Blind

end Synthesis

/-! ## The ledger -/

/-- Keeps the structural events and nothing else. Every wire has a value, so that no operation stops
because a value is missing. -/
def StructuralEvent.ledger : Backend (List StructuralEvent) Unit where
  newGate trace := trace ++ [.gate]
  newConstraint := modify (· ++ [.constraint])
  insertTerm w c _ := modify (· ++ [.term w c])
  newInput i trace := trace ++ [.input i]
  wants _ := false
  setValue _ _ := id
  getValue _ trace := (some 0, trace)

def LinearCombination.events (lc : LinearCombination) : List StructuralEvent :=
  .constraint :: lc.terms.map fun term => .term term.1 term.2

namespace StructuralEvent

theorem ledger_openWith (lc : LinearCombination) (trace : List StructuralEvent) :
    ledger.openWith lc trace = .ok () (trace ++ lc.events) := by
  have hterms : ∀ (terms : List (Wire × Coeff)) (trace : List StructuralEvent),
      (terms.forM fun term => ledger.insertTerm term.1 term.2 ()) trace =
        .ok () (trace ++ terms.map fun term => .term term.1 term.2) := by
    intro terms
    induction terms with
    | nil => intro trace; rw [List.map_nil, List.append_nil]; rfl
    | cons term terms ih =>
      intro trace
      refine (bind_ok rfl).trans ((ih _).trans ?_)
      rw [List.append_assoc, List.map_cons, List.singleton_append]
  refine (bind_ok rfl).trans ((hterms lc.terms _).trans ?_)
  rw [List.append_assoc, LinearCombination.events, List.singleton_append]

end StructuralEvent

/-! ## What a constraint tells a traced backend -/

/-- The computation notes these events, or only the first of them if it fails. -/
structure Tells {β α : Type} (told : List StructuralEvent)
    (x : EStateM Fault (β × List StructuralEvent) α) : Prop where
  ok : ∀ {s a s'}, x s = .ok a s' → s'.2 = s.2 ++ told
  error : ∀ {s e s'}, x s = .error e s' → s'.2 <+: s.2 ++ told

namespace Tells

variable {β ι α α' : Type} {told told' : List StructuralEvent}

theorem bind {x : EStateM Fault (β × List StructuralEvent) α}
    {f : α → EStateM Fault (β × List StructuralEvent) α'} (hx : Tells told x)
    (hf : ∀ a, Tells told' (f a)) : Tells (told ++ told') (x >>= f) := by
  constructor
  · intro s a s' h
    obtain ⟨_, s₁, hrun, h⟩ := exists_of_run_ok h
    rw [(hf _).ok h, hx.ok hrun, List.append_assoc]
  · intro s e s' h
    rw [← List.append_assoc]
    cases hrun : x s with
    | ok a s₁ =>
      rw [bind_ok hrun] at h
      exact hx.ok hrun ▸ (hf a).error h
    | error e' s₁ =>
      rw [bind_error hrun] at h
      cases h
      exact (hx.error hrun).trans (List.prefix_append _ _)

/-- An operation of the backend is noted whether or not it is refused. -/
theorem of_mapEnd {x : EStateM Fault β α} (e : StructuralEvent) :
    Tells [e] fun s => mapEnd (·, s.2 ++ [e]) (x s.1) := by
  constructor
  · intro s a s' h
    cases hx : x s.1 <;> rw [hx] at h <;> cases h
    rfl
  · intro s e' s' h
    cases hx : x s.1 <;> rw [hx] at h <;> cases h
    exact List.prefix_rfl

theorem terms (k : Backend β ι) (index : ι) (terms : List (Wire × Coeff)) :
    Tells (terms.map fun term => .term term.1 term.2)
      (terms.forM fun term => k.traced.insertTerm term.1 term.2 index) := by
  induction terms with
  | nil =>
    constructor
    · intro s a s' h
      cases h
      exact (List.append_nil _).symm
    · intro s e s' h
      cases h
  | cons term terms ih => exact .bind (.of_mapEnd _) fun _ => ih

theorem openWith (k : Backend β ι) (lc : LinearCombination) :
    Tells lc.events (k.traced.openWith lc) :=
  .bind (.of_mapEnd _) fun index => .terms k index lc.terms

end Tells

namespace Synthesis

/-! ## Following the ledger -/

/-- The ledger's synthesis at the same place. -/
def shadow {β : Type} (values : List Fr) (s : Synthesis (β × List StructuralEvent)) :
    Synthesis (List StructuralEvent) :=
  ⟨s.circuit, s.backend.2, s.pending, s.gates, s.constraints, s.wires, values⟩

/-- The computation leaves everything but the backend and the values alone, and tells the backend
nothing about the structure. -/
def Quiet {β α : Type} (x : Build (β × List StructuralEvent) α) : Prop :=
  ∀ s values, (endState (x s)).shadow values = s.shadow values

/-- `x` does what `y` does on the ledger, or stops before its end. -/
structure Follows {β α : Type} (x : Build (β × List StructuralEvent) α)
    (y : Build (List StructuralEvent) α) : Prop where
  grows : ∀ (s : Synthesis (β × List StructuralEvent)) values,
    s.backend.2 <+: (endState (y (s.shadow values))).backend
  ok : ∀ {s a s'} values, x s = .ok a s' →
    ∃ values', y (s.shadow values) = .ok a (s'.shadow values')
  error : ∀ {s e s'} values, x s = .error e s' →
    s'.backend.2 <+: (endState (y (s.shadow values))).backend

namespace Quiet

variable {β α α' : Type}

theorem pure (a : α) : Quiet (Pure.pure a : Build (β × List StructuralEvent) α) := fun _ _ => rfl

theorem throw (e : Fault) : Quiet (MonadExcept.throw e : Build (β × List StructuralEvent) α) :=
  fun _ _ => rfl

theorem bind {x : Build (β × List StructuralEvent) α}
    {f : α → Build (β × List StructuralEvent) α'} (hx : Quiet x) (hf : ∀ a, Quiet (f a)) :
    Quiet (x >>= f) := by
  intro s values
  have hrun := hx s values
  cases h : x s with
  | ok a s' =>
    rw [h] at hrun
    rw [bind_ok h, hf a s' values]
    exact hrun
  | error e s' =>
    rw [h] at hrun
    rw [bind_error h]
    exact hrun

theorem get_bind {f : Synthesis (β × List StructuralEvent) → Build (β × List StructuralEvent) α}
    (hf : ∀ s, Quiet (f s)) : Quiet (get >>= f) := fun s => hf s s

theorem parametric : Parametric fun {α} (x _ : Build (β × List StructuralEvent) α) => Quiet x :=
  ⟨pure, throw, bind, .get_bind fun _ => .pure _⟩

end Quiet

namespace Follows

variable {β α α' : Type}

theorem pure (a : α) :
    Follows (Pure.pure a : Build (β × List StructuralEvent) α) (Pure.pure a) where
  grows _ _ := List.prefix_rfl
  ok values h := by cases h; exact ⟨values, rfl⟩
  error _ h := by cases h

theorem throw (e : Fault) :
    Follows (MonadExcept.throw e : Build (β × List StructuralEvent) α) (MonadExcept.throw e) where
  grows _ _ := List.prefix_rfl
  ok _ h := by cases h
  error _ h := by cases h; exact List.prefix_rfl

theorem bind {x : Build (β × List StructuralEvent) α} {y : Build (List StructuralEvent) α}
    {f : α → Build (β × List StructuralEvent) α'} {g : α → Build (List StructuralEvent) α'}
    (hxy : Follows x y) (hfg : ∀ a, Follows (f a) (g a)) : Follows (x >>= f) (y >>= g) := by
  have hgrows : ∀ (s : Synthesis (β × List StructuralEvent)) values,
      (endState (y (s.shadow values))).backend <+:
      (endState ((y >>= g) (s.shadow values))).backend := by
    intro s values
    cases hy : y (s.shadow values) with
    | ok a t =>
      rw [bind_ok hy]
      -- Every state of the ledger is the shadow of one that `x` could be in.
      exact (hfg a).grows
        ⟨t.circuit, (s.backend.1, t.backend), t.pending, t.gates, t.constraints, t.wires, []⟩
        t.values
    | error e t =>
      rw [bind_error hy]
      exact List.prefix_rfl
  constructor
  · exact fun s values => (hxy.grows s values).trans (hgrows s values)
  · intro s b s' values h
    obtain ⟨a, s₁, hx, h⟩ := exists_of_run_ok h
    obtain ⟨values₁, hy⟩ := hxy.ok values hx
    rw [bind_ok hy]
    exact (hfg a).ok values₁ h
  · intro s e s' values h
    cases hx : x s with
    | ok a s₁ =>
      rw [bind_ok hx] at h
      obtain ⟨values₁, hy⟩ := hxy.ok values hx
      rw [bind_ok hy]
      exact (hfg a).error values₁ h
    | error e' s₁ =>
      rw [bind_error hx] at h
      cases h
      exact (hxy.error values hx).trans (hgrows s values)

theorem modify {f : Synthesis (β × List StructuralEvent) → Synthesis (β × List StructuralEvent)}
    {g : Synthesis (List StructuralEvent) → Synthesis (List StructuralEvent)}
    (hg : ∀ t, t.backend <+: (g t).backend)
    (hfg : ∀ s values, ∃ values', g (s.shadow values) = (f s).shadow values') :
    Follows (modify f) (modify g) where
  grows s values := hg (s.shadow values)
  ok values h := by
    cases h
    obtain ⟨values', hvalues⟩ := hfg _ values
    exact ⟨values', congrArg (EStateM.Result.ok ()) hvalues⟩
  error _ h := by cases h

theorem get_bind {f : Synthesis (β × List StructuralEvent) → Build (β × List StructuralEvent) α}
    {g : Synthesis (List StructuralEvent) → Build (List StructuralEvent) α}
    (hfg : ∀ s values, Follows (f s) (g (s.shadow values))) :
    Follows (get >>= f) (get >>= g) where
  grows s values := (hfg s values).grows s values
  ok {s} _ _ values h := (hfg s values).ok values h
  error {s} _ _ values h := (hfg s values).error values h

/-- What is computed beside the structure may stop a synthesis, and does nothing else. -/
theorem quiet_bind [Inhabited α] {x : Build (β × List StructuralEvent) α}
    {f : α → Build (β × List StructuralEvent) α'} {y : Build (List StructuralEvent) α'}
    (hx : Quiet x) (hf : ∀ a, Follows (f a) y) : Follows (x >>= f) y where
  grows := (hf default).grows
  ok {s b s'} values h := by
    obtain ⟨a, s₁, hrun, h⟩ := exists_of_run_ok h
    have hshadow := hx s values
    rw [hrun] at hshadow
    rw [← hshadow]
    exact (hf a).ok values h
  error {s e s'} values h := by
    have hshadow := hx s values
    cases hrun : x s with
    | ok a s₁ =>
      rw [bind_ok hrun] at h
      rw [hrun] at hshadow
      rw [← hshadow]
      exact (hf a).error values h
    | error e' s₁ =>
      rw [bind_error hrun] at h
      cases h
      rw [hrun] at hshadow
      have htrace : s'.backend.2 = s.backend.2 := congrArg Synthesis.backend hshadow
      rw [htrace]
      exact (hf default).grows s values

theorem parametric : Parametric fun {α} (x : Build (β × List StructuralEvent) α) y =>
    Follows x y :=
  ⟨pure, throw, bind, .get_bind fun _ _ => .pure _⟩

end Follows

/-! ## The driver -/

section Driver

variable {β ι : Type} {k : Backend β ι}

theorem quiet_getValue (w : Wire) : Quiet (getValue k.traced w) := fun _ _ => rfl

theorem quiet_setValue (w : Wire) (v : Option Fr) : Quiet (setValue k.traced w v) :=
  fun _ _ => rfl

theorem quiet_assign (w : Wire) {value : Build (β × List StructuralEvent) Fr}
    (hvalue : Quiet value) : Quiet (assign k.traced w value) := by
  unfold assign
  split
  · exact .bind hvalue fun v => .bind (quiet_setValue w _) fun _ => .pure _
  · exact .bind (quiet_setValue w _) fun _ => .pure _

open StructuralEvent (ledger)

theorem follows_keep (wires : List Wire) :
    Follows (keep wires : Build (β × List StructuralEvent) Unit) (keep wires) :=
  .modify (fun _ => List.prefix_rfl) fun _ values => ⟨values, rfl⟩

theorem follows_pending (pending : Option Nat) :
    Follows (modify fun s : Synthesis (β × List StructuralEvent) => { s with pending })
      (modify fun t => { t with pending }) :=
  .modify (fun _ => List.prefix_rfl) fun _ values => ⟨values, rfl⟩

theorem follows_newGate : Follows (newGate k.traced) (newGate ledger) :=
  .bind (.modify (fun _ => List.prefix_append _ _) fun _ values => ⟨values, rfl⟩) fun _ =>
    .get_bind fun _ _ => .pure _

theorem follows_newInput :
    Follows (modify fun s => { s with backend := k.traced.newInput s.constraints s.backend })
      (modify fun t => { t with backend := ledger.newInput t.constraints t.backend }) :=
  .modify (fun _ => List.prefix_append _ _) fun _ values => ⟨values, rfl⟩

theorem follows_enforce (lc : LinearCombination) :
    Follows (enforce k.traced lc) (enforce ledger lc) := by
  have hledger : ∀ t, onBackend (ledger.openWith lc) t =
      .ok () { t with backend := t.backend ++ lc.events } := by
    intro t
    simp only [onBackend, StructuralEvent.ledger_openWith]
  rw [enforce_eq, enforce_eq]
  refine .bind (.modify (fun _ => List.prefix_rfl) fun _ values => ⟨values, rfl⟩) fun _ => ?_
  constructor
  · intro s values
    rw [hledger]
    exact List.prefix_append _ _
  · intro s _ s' values h
    rw [hledger]
    unfold onBackend at h
    split at h
    · rename_i hopen
      cases h
      refine ⟨values, congrArg (EStateM.Result.ok ()) ?_⟩
      simp only [shadow, (Tells.openWith k lc).ok hopen]
    · cases h
  · intro s e s' values h
    rw [hledger]
    unfold onBackend at h
    split at h
    · cases h
    · rename_i hopen
      cases h
      exact (Tells.openWith k lc).error hopen

/-! The values of wires are quiet, and the ledger does not ask for them. -/

theorem follows_openHalf {value : Build (β × List StructuralEvent) Fr} (hvalue : Quiet value)
    (value' : Build (List StructuralEvent) Fr) :
    Follows (openHalf k.traced value) (openHalf ledger value') := by
  have hledger : openHalf ledger value' = do
      let gate ← newGate ledger
      modify fun t => { t with pending := some gate }
      return ⟨.a, gate⟩ := rfl
  rw [hledger]
  exact .bind follows_newGate fun _ => .quiet_bind (quiet_assign _ hvalue) fun _ =>
    .bind (follows_pending _) fun _ => .pure _

theorem follows_closeHalf (gate : Nat) {value : Build (β × List StructuralEvent) Fr}
    (hvalue : Quiet value) (value' : Build (List StructuralEvent) Fr) :
    Follows (closeHalf k.traced gate value) (closeHalf ledger gate value') := by
  have hledger : closeHalf ledger gate value' = do
      modify fun t => { t with pending := none }
      return ⟨.b, gate⟩ := rfl
  rw [hledger]
  refine .quiet_bind (quiet_getValue _) fun left => .quiet_bind (quiet_assign _ ?_) fun right =>
    .quiet_bind (quiet_assign _ ?_) fun _ => .bind (follows_pending _) fun _ => .pure _
  · refine .bind hvalue fun v => ?_
    cases left with
    | none => exact .bind (.throw _) fun _ => .pure v
    | some _ => exact .pure v
  · split
    · exact .pure _
    · exact .throw _

theorem follows_alloc {value : Build (β × List StructuralEvent) Fr} (hvalue : Quiet value)
    (value' : Build (List StructuralEvent) Fr) :
    Follows (alloc k.traced value) (alloc ledger value') := by
  refine .get_bind fun s values => ?_
  dsimp only [shadow]
  cases s.pending with
  | some gate => exact follows_closeHalf gate hvalue value'
  | none => exact follows_openHalf hvalue value'

theorem follows_allocInput {value : Build (β × List StructuralEvent) Fr} (hvalue : Quiet value)
    (value' : Build (List StructuralEvent) Fr) :
    Follows (allocInput k.traced value) (allocInput ledger value') :=
  .bind (follows_alloc hvalue value') fun w => .bind (follows_enforce _) fun _ =>
    .bind follows_newInput fun _ => .pure w

theorem follows_multiply {values : Build (β × List StructuralEvent) (List Fr)}
    (hvalues : Quiet values) (values' : Build (List StructuralEvent) (List Fr)) :
    Follows (multiply k.traced values) (multiply ledger values') := by
  have hledger : multiply ledger values' = do
      let gate ← newGate ledger
      modify fun t => { t with pending := none }
      return (⟨.a, gate⟩, ⟨.b, gate⟩, ⟨.c, gate⟩) := rfl
  rw [hledger]
  refine .bind follows_newGate fun gate => ?_
  have hrest : ∀ vs : Option (List Fr), Follows
      (do
        let _ ← assign k.traced ⟨.b, gate⟩ (component ⟨.b, gate⟩ vs 1)
        let _ ← assign k.traced ⟨.c, gate⟩ (component ⟨.c, gate⟩ vs 2)
        modify fun s => { s with pending := none }
        return ((⟨.a, gate⟩, ⟨.b, gate⟩, ⟨.c, gate⟩) : Wire × Wire × Wire))
      (do
        modify fun t => { t with pending := none }
        return (⟨.a, gate⟩, ⟨.b, gate⟩, ⟨.c, gate⟩)) := by
    intro vs
    exact .quiet_bind (quiet_assign _ (Quiet.parametric.component _ _ _)) fun _ =>
      .quiet_bind (quiet_assign _ (Quiet.parametric.component _ _ _)) fun _ =>
      .bind (follows_pending _) fun _ => .pure _
  dsimp only
  split
  · exact .quiet_bind hvalues fun vs => .quiet_bind (Quiet.parametric.component _ _ _) fun v =>
      .quiet_bind (quiet_setValue _ _) fun _ => .quiet_bind (.pure (some vs)) hrest
  · exact .quiet_bind (quiet_setValue _ _) fun _ => .quiet_bind (.pure none) hrest

theorem follows_step (op : Op) : Follows (step k.traced op) (step ledger op) := by
  have hR := Follows.parametric (β := β)
  have heval : ∀ value, Quiet (eval k.traced value) :=
    Quiet.parametric.eval (l := k.traced) quiet_getValue
  cases op with
  | alloc value => exact .bind (follows_alloc (heval value) _) fun _ => follows_keep _
  | input value => exact .bind (follows_allocInput (heval value) _) fun _ => follows_keep _
  | multiply values =>
    have hvalues := Quiet.parametric.evalGate (k := k.traced) (l := k.traced) quiet_getValue values
    exact .bind (follows_multiply hvalues _) fun _ => follows_keep _
  | enforce terms => exact .bind (hR.foldlM hR.addTerm terms _) fun lc => follows_enforce lc
  | read ref =>
    have hvalue := Quiet.parametric.valueOf (k := k.traced) (l := k.traced) quiet_getValue
    refine .bind (hR.resolve ref) fun w => .quiet_bind (hvalue w) fun v => ?_
    exact .modify (fun _ => List.prefix_rfl) fun _ values => ⟨values ++ [0], rfl⟩
  | fail kind message => exact .throw _

theorem follows_takePass :
    Follows (takePass : Build (β × List StructuralEvent) Script) takePass where
  grows s values := by
    unfold takePass
    split <;> exact List.prefix_rfl
  ok {s script s'} values h := by
    unfold takePass at h ⊢
    dsimp only [shadow]
    split at h
    · cases h
      exact ⟨values, rfl⟩
    · cases h
  error {s e s'} values h := by
    unfold takePass at h ⊢
    dsimp only [shadow]
    split at h
    · cases h
    · cases h
      exact List.prefix_rfl

theorem follows_build : Follows (build k.traced) (build ledger) :=
  .bind (follows_allocInput (.pure 1) _) fun _ => .bind follows_takePass
    (Follows.parametric.forM follows_step)

/-- Every synthesis is one of the ledger's that has stopped early or come to its end. -/
theorem trace_prefix (c : Circuit) (b : β) :
    c.trace k b <+: (endState (run ledger c [])).backend ∧
      ∀ s, run k.traced c (b, []) = .ok () s →
        ∃ values, run ledger c [] = .ok () (s.shadow values) := by
  have hledger : run ledger c [] = build ledger ((start c (b, [])).shadow []) := rfl
  rw [hledger]
  refine ⟨?_, fun s h => follows_build.ok [] h⟩
  cases h : run k.traced c (b, []) with
  | ok _ s =>
    obtain ⟨values, hs⟩ := follows_build.ok [] h
    rw [Circuit.trace, h, hs]
    exact List.prefix_rfl
  | error e s =>
    rw [Circuit.trace, h]
    exact follows_build.error [] h

end Driver

end Synthesis

namespace Circuit

open Synthesis

/-- The structure of a circuit depends neither on the backend nor on values. Of two circuits that
differ in values only, whatever the backends, one synthesis tells its backend what the other does
and perhaps goes on, and where both come to their end they have told the same and left the driver in
the same state. On the backends that compute the shape of a circuit and its constraint polynomial,
at a fixed `Y` or a fixed `X`, the syntheses are the same in everything, errors included. -/
theorem structure_independent {c d : Circuit} (hcd : c.withoutValues = d.withoutValues) :
    (∀ {β γ ι ι' : Type} (k : Backend β ι) (l : Backend γ ι') (b : β) (b' : γ),
      (c.trace k b <+: d.trace l b' ∨ d.trace l b' <+: c.trace k b) ∧
      ∀ s s', run k c b = .ok () s → run l d b' = .ok () s' →
        c.trace k b = d.trace l b' ∧ s.wires = s'.wires ∧ s.gates = s'.gates ∧
          s.constraints = s'.constraints ∧ s.pending = s'.pending) ∧
    (∀ b, run Shape.counter d b = mapEnd (into d id) (run Shape.counter c b)) ∧
    (∀ b, run AtY.backend d b = mapEnd (into d id) (run AtY.backend c b)) ∧
    (∀ b, run AtX.backend d b = mapEnd (into d id) (run AtX.backend c b)) := by
  refine ⟨fun k l b b' => ?_, fun b => run_blind (fun _ => rfl) hcd b,
    fun b => run_blind (fun _ => rfl) hcd b, fun b => run_blind (fun _ => rfl) hcd b⟩
  have hledger := run_blind (k := StructuralEvent.ledger) (fun _ => rfl) hcd []
  obtain ⟨hnoted, hend⟩ := trace_prefix (k := k) c b
  obtain ⟨hnoted', hend'⟩ := trace_prefix (k := l) d b'
  rw [hledger, endState_mapEnd] at hnoted'
  refine ⟨List.prefix_or_prefix_of_prefix hnoted hnoted', fun s s' hs hs' => ?_⟩
  obtain ⟨t, ht, htrace, rfl⟩ := exists_traced hs
  obtain ⟨t', ht', htrace', rfl⟩ := exists_traced hs'
  obtain ⟨values, hrun⟩ := hend t ht
  obtain ⟨values', hrun'⟩ := hend' t' ht'
  rw [hledger, hrun] at hrun'
  obtain ⟨-, hshadow⟩ := EStateM.Result.ok.inj hrun'
  obtain ⟨-, htraces, hpending, hgates, hconstraints, hwires, -⟩ := Synthesis.mk.inj hshadow
  rw [htrace, htrace']
  exact ⟨htraces, hwires, hgates, hconstraints, hpending⟩

/-- The product with values that cannot be computed. A recorder that asks for them does not come to
the end of the circuit, and the shape is the same. -/
theorem structure_independent_failing : ∃ (d : Circuit) (cfg : Recorder) (s : Synthesis Shape),
    productCircuit.withoutValues = d.withoutValues ∧
    outcome (run cfg.backend productCircuit .empty) = .ok () ∧
    outcome (run cfg.backend d .empty) = .error (.synthesis (.reported "ValueError" none)) ∧
    (d.trace cfg.backend .empty <+: productCircuit.trace cfg.backend .empty ∨
      productCircuit.trace cfg.backend .empty <+: d.trace cfg.backend .empty) ∧
    run Shape.counter d .empty = .ok () s ∧
    d.trace Shape.counter .empty = productCircuit.trace cfg.backend .empty := by
  let failing : Expr := .fail "ValueError" none
  let d : Circuit := .ofScript <| .step (.input failing) <|
    .step (.multiply (.each [failing, failing, failing])) <|
    .step (.enforce [⟨false, .one none, .slot 3⟩, ⟨true, .one none, .slot 0⟩]) .done
  let cfg : Recorder := ⟨[.a, .b, .c], [], none⟩
  have hcd : productCircuit.withoutValues = d.withoutValues := rfl
  have hproduct : outcome (run cfg.backend productCircuit .empty) = .ok () := by decide +kernel
  have hfailing : outcome (run cfg.backend d .empty) =
      .error (.synthesis (.reported "ValueError" none)) := by decide +kernel
  have hshape : outcome (run Shape.counter d .empty) = .ok () := by decide +kernel
  obtain ⟨htraces, -, -, -⟩ := structure_independent hcd
  have hend := (htraces cfg.backend Shape.counter .empty .empty).2 _ _
    (eq_ok_of_outcome hproduct) (eq_ok_of_outcome hshape)
  exact ⟨d, cfg, _, hcd, hproduct, hfailing, (htraces cfg.backend cfg.backend .empty .empty).1.symm,
    eq_ok_of_outcome hshape, hend.1.symm⟩

end Circuit

end SnarkBatch
