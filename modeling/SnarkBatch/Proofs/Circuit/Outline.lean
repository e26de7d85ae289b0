import SnarkBatch.Proofs.Circuit.Parametric
import SnarkBatch.Proofs.Result

/-!
# The outline of a circuit

What a synthesis tells its backend, apart from values: the gates, the linear combinations of the
constraints and the constraints that belong to public inputs. `Circuit.outline` collects them with a
backend of its own. A backend that asks for no values cannot influence the circuit, so every such
backend is told the outline: `Synthesis.run_eq` says that its synthesis ends as the collecting one
does, provided that it finds no fault with the outline, and that its state is the one that belongs
to the outline. Where it finds a fault, its synthesis fails with that (`Synthesis.run_refused`).

A circuit is `Uniform` when its outline does not depend on the pass.
-/

namespace SnarkBatch

structure Outline where
  gates : Nat
  constraints : List LinearCombination
  /-- The constraints of the public inputs. -/
  inputs : List Nat
  deriving DecidableEq, Repr

namespace Outline

def empty : Outline := ⟨0, [], []⟩

def addGate (o : Outline) : Outline := { o with gates := o.gates + 1 }

def addInput (i : Nat) (o : Outline) : Outline := { o with inputs := o.inputs ++ [i] }

def addConstraint (lc : LinearCombination) (o : Outline) : Outline :=
  { o with constraints := o.constraints ++ [lc] }

theorem length_addConstraint (o : Outline) (lc : LinearCombination) :
    (o.addConstraint lc).constraints.length = o.constraints.length + 1 :=
  List.length_append

def addTerm (w : Wire) (c : Coeff) (o : Outline) : Outline :=
  { o with constraints := o.constraints.modify (o.constraints.length - 1) (·.plus c w) }

def collector : Backend Outline Unit where
  newGate := addGate
  newConstraint := modify (addConstraint .empty)
  insertTerm w c _ := modify (addTerm w c)
  newInput := addInput
  wants _ := false
  setValue _ _ := id
  getValue _ o := (none, o)

end Outline

namespace Circuit

/-- The circuit before the pass with the given number. -/
def atPass (c : Circuit) (k : Nat) : Circuit := { c with runs := k }

/-- The outline collected by the next pass, whether or not the pass succeeds. -/
def outline (c : Circuit) : Outline := (endState (Synthesis.run Outline.collector c .empty)).backend

/-- How the next pass ends where no values are asked for. -/
def ending (c : Circuit) : Except Fault Unit :=
  outcome (Synthesis.run Outline.collector c .empty)

/-- Every pass does the same as far as gates, constraints and inputs go. -/
def Uniform (c : Circuit) : Prop :=
  ∀ k, (c.atPass k).outline = c.outline ∧ (c.atPass k).ending = c.ending

end Circuit

/-! ## Backends that ask for no values -/

/-- A backend that neither asks for values nor keeps or gives any. -/
structure Backend.Silent {β ι : Type} (k : Backend β ι) : Prop where
  wants_eq : ∀ kind, k.wants kind = false
  setValue_eq : ∀ w v b, k.setValue w v b = b
  getValue_eq : ∀ w b, k.getValue w b = (none, b)

theorem Outline.collector_silent : Outline.collector.Silent :=
  ⟨fun _ => rfl, fun _ _ _ => rfl, fun _ _ => rfl⟩

namespace Synthesis

section Silent

variable {β ι : Type} {k : Backend β ι} (hk : k.Silent)
include hk

theorem setValue_eq (w : Wire) (v : Option Fr) : setValue k w v = pure () := by
  funext s
  show EStateM.Result.ok () { s with backend := k.setValue w v s.backend } = _
  rw [hk.setValue_eq]
  rfl

theorem getValue_eq (w : Wire) : getValue k w = pure none := by
  funext s
  simp only [getValue, onBackend, hk.getValue_eq]
  rfl

theorem assign_eq (w : Wire) (value : Build β Fr) : assign k w value = pure none := by
  rw [assign, hk.wants_eq, setValue_eq hk]
  rfl

theorem openHalf_eq (value : Build β Fr) :
    openHalf k value = do
      let gate ← newGate k
      modify fun s => { s with pending := some gate }
      return ⟨.a, gate⟩ := by
  simp only [openHalf, assign_eq hk, pure_bind]

theorem closeHalf_eq (gate : Nat) (value : Build β Fr) :
    closeHalf k gate value = do
      modify fun s => { s with pending := none }
      return ⟨.b, gate⟩ := by
  simp only [closeHalf, getValue_eq hk, assign_eq hk, pure_bind]

theorem multiply_eq (values : Build β (List Fr)) :
    multiply k values = do
      let gate ← newGate k
      modify fun s => { s with pending := none }
      return (⟨.a, gate⟩, ⟨.b, gate⟩, ⟨.c, gate⟩) := by
  simp only [multiply, assign_eq hk, setValue_eq hk, hk.wants_eq, Bool.false_eq_true, if_false,
    pure_bind]

theorem valueOf_eq (w : Wire) : valueOf k w = fail (.valueUnset w) := by
  simp only [valueOf, getValue_eq hk, pure_bind]

end Silent

end Synthesis

/-! ## Following the collector -/

/-- Opens a constraint and inserts its terms. -/
def Backend.openWith {β ι : Type} (k : Backend β ι) (lc : LinearCombination) :
    EStateM Fault β Unit := do
  let index ← k.newConstraint
  lc.terms.forM fun term => k.insertTerm term.1 term.2 index

/-- `R` relates an outline to the states of the backend that belong to it, and is kept as both
grow, as long as the backend finds no fault with the outline: it refuses the constraint that brings
the first one. -/
structure Backend.Tracks {β ι : Type} (k : Backend β ι) (R : Outline → β → Prop)
    (fault : Outline → Option Fault) : Prop extends k.Silent where
  newGate : ∀ {o b}, R o b → R o.addGate (k.newGate b)
  newInput : ∀ {o b} i, R o b → R (o.addInput i) (k.newInput i b)
  openWith : ∀ {o b} lc, R o b → fault (o.addConstraint lc) = none →
    ∃ b', k.openWith lc b = .ok () b' ∧ R (o.addConstraint lc) b'
  refuses : ∀ {o b e} lc, R o b → fault o = none → fault (o.addConstraint lc) = some e →
    ∃ b', k.openWith lc b = .error e b'
  fault_addGate : ∀ o, fault o.addGate = fault o
  fault_addInput : ∀ i o, fault (o.addInput i) = fault o
  fault_addConstraint : ∀ {o e} lc, fault o = some e → fault (o.addConstraint lc) = some e

namespace Outline

theorem addTerm_addConstraint (o : Outline) (lc : LinearCombination) (w : Wire) (c : Coeff) :
    addTerm w c (addConstraint lc o) = addConstraint (lc.plus c w) o := by
  have hlast : ∀ l : List LinearCombination,
      (l ++ [lc]).modify l.length (·.plus c w) = l ++ [lc.plus c w] := by
    intro l
    induction l with
    | nil => rfl
    | cons _ _ ih => rw [List.cons_append, List.length_cons, List.modify_succ_cons, ih]; rfl
  simp only [addTerm, addConstraint, List.length_append, List.length_singleton,
    Nat.add_sub_cancel, hlast]

theorem collector_openWith (lc : LinearCombination) (o : Outline) :
    collector.openWith lc o = .ok () (o.addConstraint lc) := by
  have hterms : ∀ (terms : List (Wire × Coeff)) (done : LinearCombination),
      (terms.forM fun term => collector.insertTerm term.1 term.2 ()) (o.addConstraint done) =
        .ok () (o.addConstraint ⟨done.terms ++ terms⟩) := by
    intro terms
    induction terms with
    | nil => intro done; rw [List.append_nil]; rfl
    | cons term terms ih =>
      intro done
      have hstep : collector.insertTerm term.1 term.2 () (o.addConstraint done) =
          .ok () (o.addConstraint (done.plus term.2 term.1)) := by
        rw [← addTerm_addConstraint]
        rfl
      refine (bind_ok hstep).trans ?_
      rw [ih, LinearCombination.plus, List.append_assoc, List.singleton_append]
  exact hterms lc.terms .empty

end Outline

namespace Synthesis

/-- The same synthesis of another circuit, with another backend's state. -/
def on {α β : Type} (t : Synthesis α) (c : Circuit) (b : β) : Synthesis β :=
  ⟨c, b, t.pending, t.gates, t.constraints, t.wires, t.values⟩

theorem onBackend_openWith {β ι : Type} (k : Backend β ι) (lc : LinearCombination) :
    onBackend (k.openWith lc) = (do
      let index ← onBackend k.newConstraint
      lc.terms.forM fun term => onBackend (k.insertTerm term.1 term.2 index)) := by
  have hbind : ∀ {α α' : Type} (x : EStateM Fault β α) (f : α → EStateM Fault β α'),
      onBackend (x >>= f) = (onBackend x >>= fun a => onBackend (f a) : Build β α') := by
    intro α α' x f
    funext s
    simp only [onBackend, bind, EStateM.bind]
    cases x s.backend <;> rfl
  have hforM : ∀ (terms : List (Wire × Coeff)) (index : ι),
      onBackend (terms.forM fun term => k.insertTerm term.1 term.2 index) =
        terms.forM fun term => onBackend (k.insertTerm term.1 term.2 index) := by
    intro terms index
    induction terms with
    | nil => rfl
    | cons term terms ih => exact (hbind _ _).trans (bind_congr fun _ => ih)
  rw [Backend.openWith, hbind]
  exact bind_congr fun index => hforM lc.terms index

theorem enforce_eq {β ι : Type} (k : Backend β ι) (lc : LinearCombination) :
    enforce k lc = (do
      modify fun s => { s with constraints := s.constraints + 1 }
      onBackend (k.openWith lc)) := by
  rw [onBackend_openWith]
  rfl

/-- `x` does to a synthesis on a tracking backend what `y` does on the collector, neither looking
at the circuit; where `y` brings the first fault of the outline, `x` fails with it. -/
structure Simulates {β α : Type} (R : Outline → β → Prop) (fault : Outline → Option Fault)
    (x : Build β α) (y : Build Outline α) : Prop where
  keeps_fault : ∀ t (_ : β) {e}, fault t.backend = some e → fault (endState (y t)).backend = some e
  run : ∀ t c b, R t.backend b → fault (endState (y t)).backend = none →
    ∃ b', x (t.on c b) = mapEnd (·.on c b') (y t) ∧ R (endState (y t)).backend b'
  refuses : ∀ t c b {e}, R t.backend b → fault t.backend = none →
    fault (endState (y t)).backend = some e → ∃ s, x (t.on c b) = .error e s ∧ s.circuit = c

namespace Simulates

variable {β α α' : Type} {R : Outline → β → Prop} {fault : Outline → Option Fault}

theorem faultless {x : Build β α} {y : Build Outline α} (h : Simulates R fault x y)
    {t : Synthesis Outline} (b : β) (hend : fault (endState (y t)).backend = none) :
    fault t.backend = none := by
  cases hstart : fault t.backend with
  | none => rfl
  | some e =>
    rw [h.keeps_fault t b hstart] at hend
    cases hend

theorem of_backend_eq {x : Build β α} {y : Build Outline α}
    (hy : ∀ t, fault (endState (y t)).backend = fault t.backend)
    (run : ∀ t c b, R t.backend b →
      ∃ b', x (t.on c b) = mapEnd (·.on c b') (y t) ∧ R (endState (y t)).backend b') :
    Simulates R fault x y where
  keeps_fault t _ _ h := (hy t).trans h
  run t c b hR _ := run t c b hR
  refuses t _ _ _ _ hnone hsome := by
    rw [hy, hnone] at hsome
    cases hsome

theorem pure (a : α) : Simulates R fault (Pure.pure a) (Pure.pure a) :=
  of_backend_eq (fun _ => rfl) fun _ _ b hR => ⟨b, rfl, hR⟩

theorem throw (e : Fault) :
    Simulates R fault (MonadExcept.throw e : Build β α) (MonadExcept.throw e) :=
  of_backend_eq (fun _ => rfl) fun _ _ b hR => ⟨b, rfl, hR⟩

theorem bind {x : Build β α} {y : Build Outline α} {f : α → Build β α'}
    {g : α → Build Outline α'} (hxy : Simulates R fault x y)
    (hfg : ∀ a, Simulates R fault (f a) (g a)) : Simulates R fault (x >>= f) (y >>= g) := by
  constructor
  · intro t b e h
    have hfirst := hxy.keeps_fault t b h
    cases hy : y t with
    | ok a t' =>
      rw [bind_ok hy]
      rw [hy] at hfirst
      exact (hfg a).keeps_fault t' b hfirst
    | error e' t' =>
      rw [bind_error hy]
      rw [hy] at hfirst
      exact hfirst
  · intro t c b hR h
    have hrun := hxy.run t c b hR
    cases hy : y t with
    | ok a t' =>
      rw [bind_ok hy] at h ⊢
      rw [hy] at hrun
      obtain ⟨b', hx, hR'⟩ := hrun ((hfg a).faultless b h)
      rw [bind_ok hx]
      exact (hfg a).run t' c b' hR' h
    | error e t' =>
      rw [bind_error hy] at h ⊢
      rw [hy] at hrun
      obtain ⟨b', hx, hR'⟩ := hrun h
      exact ⟨b', bind_error hx, hR'⟩
  · intro t c b e hR h hend
    -- The fault is there after the first part already, or it comes with the second.
    cases hfirst : fault (endState (y t)).backend with
    | some e' =>
      obtain ⟨s, hx, hs⟩ := hxy.refuses t c b hR h hfirst
      obtain rfl : e' = e := by
        cases hy : y t with
        | ok a t' =>
          rw [bind_ok hy] at hend
          rw [hy] at hfirst
          exact Option.some.inj (((hfg a).keeps_fault t' b hfirst).symm.trans hend)
        | error _ t' =>
          rw [bind_error hy] at hend
          rw [hy] at hfirst
          exact Option.some.inj (hfirst.symm.trans hend)
      exact ⟨s, bind_error hx, hs⟩
    | none =>
      obtain ⟨b', hx, hR'⟩ := hxy.run t c b hR hfirst
      cases hy : y t with
      | ok a t' =>
        rw [bind_ok hy] at hend
        rw [hy] at hx hR' hfirst
        rw [bind_ok hx]
        exact (hfg a).refuses t' c b' hR' hfirst hend
      | error _ t' =>
        rw [bind_error hy] at hend
        rw [hy] at hfirst
        exact absurd (hfirst.symm.trans hend) (Option.some_ne_none e).symm

theorem modify {f : Synthesis β → Synthesis β} {g : Synthesis Outline → Synthesis Outline}
    (hfg : ∀ t c b, f (t.on c b) = (g t).on c b) (hg : ∀ t, (g t).backend = t.backend) :
    Simulates R fault (modify f) (modify g) := by
  refine of_backend_eq (fun t => congrArg fault (hg t)) fun t c b hR => ?_
  refine ⟨b, congrArg (EStateM.Result.ok ()) (hfg t c b), ?_⟩
  show R (g t).backend b
  rwa [hg t]

theorem get_bind {f : Synthesis β → Build β α} {g : Synthesis Outline → Build Outline α}
    (hfg : ∀ t c b, Simulates R fault (f (t.on c b)) (g t)) :
    Simulates R fault (get >>= f) (get >>= g) where
  keeps_fault t b _ h := (hfg t t.circuit b).keeps_fault t b h
  run t c b hR h := (hfg t c b).run t c b hR h
  refuses t c b _ hR h hend := (hfg t c b).refuses t c b hR h hend

theorem parametric : Parametric fun {α} (x : Build β α) y => Simulates R fault x y :=
  ⟨pure, throw, bind, .get_bind fun _ _ _ => .pure _⟩

end Simulates

/-! ## The driver -/

section Driver

variable {β ι : Type} {k : Backend β ι} {R : Outline → β → Prop} {fault : Outline → Option Fault}

theorem simulates_keep (wires : List Wire) :
    Simulates R fault (keep wires : Build β Unit) (keep wires) :=
  .modify (fun _ _ _ => rfl) fun _ => rfl

theorem takePass_some {γ : Type} {t : Synthesis γ} {script : Script}
    (h : t.circuit.current = some script) :
    takePass t = .ok script { t with circuit := t.circuit.advance } := by
  unfold takePass
  rw [h]

theorem takePass_none {γ : Type} {t : Synthesis γ} (h : t.circuit.current = none) :
    takePass t = .error .position t := by
  unfold takePass
  rw [h]

/-- What the collector has been told before the script of a pass begins. -/
def beforeScript (c : Circuit) : Synthesis Outline :=
  ⟨c, ⟨1, [⟨[(.one, .one none)]⟩], [1]⟩, some 1, 1, 1, #[], []⟩

theorem allocInput_start (c : Circuit) :
    allocInput Outline.collector (Pure.pure 1) (start c .empty) = .ok .one (beforeScript c) := rfl

theorem run_collector_none {c : Circuit} (hc : c.current = none) :
    run Outline.collector c .empty = .error .position (beforeScript c) :=
  (bind_ok (allocInput_start c)).trans (bind_error (takePass_none hc))

theorem run_collector_some {c : Circuit} {script : Script} (hc : c.current = some script) :
    run Outline.collector c .empty =
      script.forM (step Outline.collector) (beforeScript c.advance) :=
  (bind_ok (allocInput_start c)).trans (bind_ok (takePass_some hc))

/-- A pass that comes to its end runs the operations of a script, and its outline is what they tell
the collector. -/
theorem exists_of_ending {c : Circuit} (hend : c.ending = .ok ()) :
    ∃ script t, c.current = some script ∧ run Outline.collector c .empty = .ok () t ∧
      script.unroll.forM (step Outline.collector) (beforeScript c.advance) = .ok () t ∧
      c.outline = t.backend := by
  have hrun := eq_ok_of_outcome hend
  cases hcurrent : c.current with
  | none =>
    rw [run_collector_none hcurrent] at hrun
    cases hrun
  | some script =>
    refine ⟨script, _, rfl, hrun, ?_, rfl⟩
    rw [← Script.forM_eq_unroll_forM, ← run_collector_some hcurrent, hrun]
    rfl

variable (hk : k.Tracks R fault)
include hk

theorem simulates_newGate : Simulates R fault (newGate k) (newGate Outline.collector) :=
  .of_backend_eq (fun t => hk.fault_addGate t.backend) fun _ _ b hR =>
    ⟨k.newGate b, rfl, hk.newGate hR⟩

theorem simulates_onBackend (lc : LinearCombination) :
    Simulates R fault (onBackend (k.openWith lc)) (onBackend (Outline.collector.openWith lc)) := by
  have hend : ∀ t, onBackend (Outline.collector.openWith lc) t =
      .ok () { t with backend := t.backend.addConstraint lc } := by
    intro t
    simp only [onBackend, Outline.collector_openWith]
  constructor
  · intro t _ e h
    rw [hend]
    exact hk.fault_addConstraint lc h
  · intro t c b hR h
    rw [hend] at h ⊢
    obtain ⟨b', hb, hR'⟩ := hk.openWith lc hR h
    refine ⟨b', ?_, hR'⟩
    show onBackend (k.openWith lc) (t.on c b) = _
    simp only [onBackend, on, hb, mapEnd]
  · intro t c b e hR h hfault
    rw [hend] at hfault
    obtain ⟨b', hb⟩ := hk.refuses lc hR h hfault
    refine ⟨t.on c b', ?_, rfl⟩
    simp only [onBackend, on, hb]

theorem simulates_enforce (lc : LinearCombination) :
    Simulates R fault (enforce k lc) (enforce Outline.collector lc) := by
  rw [enforce_eq, enforce_eq]
  exact .bind (.modify (fun _ _ _ => rfl) fun _ => rfl) fun _ => simulates_onBackend hk lc

theorem simulates_alloc (v : Build β Fr) (v' : Build Outline Fr) :
    Simulates R fault (alloc k v) (alloc Outline.collector v') := by
  refine .get_bind fun t c b => ?_
  dsimp only [on]
  cases t.pending with
  | some gate =>
    simp only [closeHalf_eq hk.toSilent, closeHalf_eq Outline.collector_silent]
    exact .bind (.modify (fun _ _ _ => rfl) fun _ => rfl) fun _ => .pure _
  | none =>
    simp only [openHalf_eq hk.toSilent, openHalf_eq Outline.collector_silent]
    exact .bind (simulates_newGate hk) fun _ =>
      .bind (.modify (fun _ _ _ => rfl) fun _ => rfl) fun _ => .pure _

theorem simulates_newInput :
    Simulates R fault
      (modify fun s => { s with backend := k.newInput s.constraints s.backend })
      (modify fun t => { t with backend := Outline.collector.newInput t.constraints t.backend }) :=
  .of_backend_eq (fun t => hk.fault_addInput t.constraints t.backend) fun t _ b hR =>
    ⟨k.newInput t.constraints b, rfl, hk.newInput _ hR⟩

theorem simulates_allocInput (v : Build β Fr) (v' : Build Outline Fr) :
    Simulates R fault (allocInput k v) (allocInput Outline.collector v') :=
  .bind (simulates_alloc hk v v') fun w =>
    .bind (simulates_enforce hk _) fun _ => .bind (simulates_newInput hk) fun _ => .pure w

theorem simulates_step (op : Op) :
    Simulates R fault (step k op) (step Outline.collector op) := by
  have hR : Parametric fun {α} (x : Build β α) y => Simulates R fault x y := Simulates.parametric
  cases op with
  | alloc value => exact .bind (simulates_alloc hk _ _) fun w => simulates_keep _
  | input value => exact .bind (simulates_allocInput hk _ _) fun w => simulates_keep _
  | multiply values =>
    simp only [step, multiply_eq hk.toSilent, multiply_eq Outline.collector_silent]
    refine .bind (.bind (simulates_newGate hk) fun _ => .bind (.modify (fun _ _ _ => rfl)
      fun _ => rfl) fun _ => .pure _) fun _ => simulates_keep _
  | enforce terms =>
    exact .bind (hR.foldlM hR.addTerm terms _) fun lc => simulates_enforce hk lc
  | read ref =>
    simp only [step, valueOf_eq hk.toSilent, valueOf_eq Outline.collector_silent]
    exact .bind (hR.resolve ref) fun _ =>
      .bind (.throw _) fun _ => .modify (fun _ _ _ => rfl) fun _ => rfl
  | fail kind message => exact .throw _

/-- A silent backend's synthesis of a circuit ends as the collector's synthesis does of any circuit
that is about to run the same script, in the state that belongs to the outline. -/
theorem run_eq {b : β} (hR : R .empty b) {c d : Circuit} (hcd : d.current = c.current)
    (hfault : fault c.outline = none) :
    ∃ pass b', run k d b = mapEnd (·.on (d.atPass pass) b') (run Outline.collector c .empty) ∧
      R c.outline b' := by
  have hinput := simulates_allocInput hk (Pure.pure 1) (Pure.pure 1)
  have hscript := fun script : Script => Simulates.parametric.forM (simulates_step hk) script
  have hrun := hinput.run (start c .empty) d b hR
  rw [allocInput_start] at hrun
  cases hc : c.current with
  | none =>
    rw [Circuit.outline, run_collector_none hc] at hfault ⊢
    obtain ⟨b₁, hb₁, hR₁⟩ := hrun hfault
    refine ⟨d.runs, b₁, ?_, hR₁⟩
    exact (bind_ok hb₁).trans (bind_error (takePass_none (hcd.trans hc)))
  | some script =>
    rw [Circuit.outline, run_collector_some hc] at hfault ⊢
    have hfirst : fault (beforeScript c.advance).backend = none := (hscript script).faultless b hfault
    obtain ⟨b₁, hb₁, hR₁⟩ := hrun hfirst
    obtain ⟨b₂, hb₂, hR₂⟩ := (hscript script).run (beforeScript c.advance) d.advance b₁ hR₁ hfault
    refine ⟨d.runs + 1, b₂, ?_, hR₂⟩
    exact (bind_ok hb₁).trans ((bind_ok (takePass_some (hcd.trans hc))).trans hb₂)

/-- The end of a silent backend's synthesis is that of the circuit. -/
theorem run_ends {b : β} (hR : R .empty b) {c d : Circuit} (hcd : d.current = c.current)
    (hfault : fault c.outline = none) :
    outcome (run k d b) = c.ending ∧ R c.outline (endState (run k d b)).backend := by
  obtain ⟨pass, b', hrun, hR'⟩ := run_eq hk hR hcd hfault
  rw [hrun, outcome_mapEnd, endState_mapEnd]
  exact ⟨rfl, hR'⟩

/-- A pass that the collector finishes, a silent backend finishes too. -/
theorem complete_eq {b : β} (hR : R .empty b) {c : Circuit} (hfault : fault c.outline = none)
    (hend : c.ending = .ok ()) :
    ∃ pass t, complete k b c = .ok t (c.atPass pass) ∧ R c.outline t.backend := by
  obtain ⟨pass, b', hrun, hR'⟩ := run_eq hk hR rfl hfault
  rw [eq_ok_of_outcome hend] at hrun
  refine ⟨pass, (endState (run Outline.collector c .empty)).on (c.atPass pass) b', ?_, hR'⟩
  unfold complete
  rw [hrun]
  rfl

/-- A pass whose outline has a fault fails with the first. -/
theorem run_refused {b : β} (hR : R .empty b) {c : Circuit} {e : Fault}
    (hempty : fault .empty = none) (hfault : fault c.outline = some e) :
    ∃ s, run k c b = .error e s ∧ ∃ pass, s.circuit = c.atPass pass := by
  have hinput := simulates_allocInput hk (Pure.pure 1) (Pure.pure 1)
  have hscript := fun script : Script => Simulates.parametric.forM (simulates_step hk) script
  have hrefused : ∀ {e}, fault (beforeScript c).backend = some e → _ :=
    hinput.refuses (start c .empty) c b hR hempty
  have hstarted : fault (beforeScript c).backend = none → _ := hinput.run (start c .empty) c b hR
  rw [allocInput_start] at hstarted
  cases hc : c.current with
  | none =>
    rw [Circuit.outline, run_collector_none hc] at hfault
    obtain ⟨s, hs, hcircuit⟩ := hrefused hfault
    exact ⟨s, bind_error hs, c.runs, hcircuit⟩
  | some script =>
    rw [Circuit.outline, run_collector_some hc] at hfault
    cases hfirst : fault (beforeScript c).backend with
    | some e' =>
      obtain ⟨s, hs, hcircuit⟩ := hrefused hfirst
      have hkept := (hscript script).keeps_fault (beforeScript c.advance) b hfirst
      obtain rfl : e' = e := Option.some.inj (hkept.symm.trans hfault)
      exact ⟨s, bind_error hs, c.runs, hcircuit⟩
    | none =>
      obtain ⟨b₁, hb₁, hR₁⟩ := hstarted hfirst
      obtain ⟨s, hs, hcircuit⟩ :=
        (hscript script).refuses (beforeScript c.advance) c.advance b₁ hR₁ hfirst hfault
      refine ⟨s, ?_, c.runs + 1, hcircuit⟩
      exact (bind_ok hb₁).trans ((bind_ok (takePass_some hc)).trans hs)

theorem complete_refused {b : β} (hR : R .empty b) {c : Circuit} {e : Fault}
    (hempty : fault .empty = none) (hfault : fault c.outline = some e) :
    ∃ pass, complete k b c = .error e (c.atPass pass) := by
  obtain ⟨s, hrun, pass, hpass⟩ := run_refused hk hR hempty hfault
  refine ⟨pass, ?_⟩
  unfold complete
  rw [hrun]
  exact congrArg (EStateM.Result.error e) hpass

theorem ending_of_complete {b : β} (hR : R .empty b) {c c' : Circuit} {t : Synthesis β}
    (hempty : fault .empty = none) (h : complete k b c = .ok t c') : c.ending = .ok () := by
  cases hfault : fault c.outline with
  | some e =>
    obtain ⟨pass, hrefused⟩ := complete_refused hk hR hempty hfault
    cases hrefused.symm.trans h
  | none =>
    rw [← (run_ends hk hR rfl hfault).1]
    unfold complete at h
    cases hrun : run k c b with
    | ok _ s => rfl
    | error e s =>
      rw [hrun] at h
      cases h

end Driver

end Synthesis

/-! ## Circuits that do the same on every pass -/

namespace Circuit

theorem collector_tracks : Outline.collector.Tracks Eq fun _ => none where
  toSilent := Outline.collector_silent
  newGate h := congrArg Outline.addGate h
  newInput i h := congrArg (Outline.addInput i) h
  openWith lc h _ := ⟨_, h ▸ Outline.collector_openWith lc _, rfl⟩
  refuses _ _ _ h := by cases h
  fault_addGate _ := rfl
  fault_addInput _ _ := rfl
  fault_addConstraint _ h := h

theorem ofScript_uniform (script : Script) : (ofScript script).Uniform := by
  intro k
  have hcurrent : ((ofScript script).atPass k).current = (ofScript script).current := by
    simp only [current, atPass, ofScript, List.length_singleton, Nat.sub_self, Nat.min_zero]
  obtain ⟨hending, houtline⟩ := Synthesis.run_ends collector_tracks rfl hcurrent rfl
  exact ⟨houtline.symm, hending⟩

end Circuit

/-- A circuit whose public input is the product of two secrets. -/
def productCircuit : Circuit :=
  .ofScript <| .step (.input (.const (.ofNat 6))) <|
    .step (.multiply (.each [.const (.ofNat 2), .const (.ofNat 3), .const (.ofNat 6)])) <|
    .step (.enforce [⟨false, .one none, .slot 3⟩, ⟨true, .one none, .slot 0⟩]) .done

theorem productCircuit_uniform : productCircuit.Uniform := Circuit.ofScript_uniform _

theorem productCircuit_outline : productCircuit.outline =
    ⟨2, [⟨[(.one, .one none)]⟩, ⟨[(⟨.b, 1⟩, .one none)]⟩,
      ⟨[(⟨.c, 2⟩, .one none), (⟨.b, 1⟩, .negOne none)]⟩], [1, 2]⟩ := by
  decide +kernel

end SnarkBatch
