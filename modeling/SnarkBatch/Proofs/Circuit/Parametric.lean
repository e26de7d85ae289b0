import SnarkBatch.Circuit.Synthesis

/-!
# Relations between syntheses

The driver does the same on every backend. So a relation between computations on two backends that
goes through `pure`, `throw` and `bind` (`Parametric`) goes through the loops of the driver as well,
and through all that the driver does without asking the backend. A property of computations on one
backend is a relation that does not look at the other side.
-/

namespace SnarkBatch.Synthesis

/-- The relation goes through sequences of computations and through reading the wires returned. -/
structure Parametric {β γ : Type} (R : ∀ {α : Type}, Build β α → Build γ α → Prop) : Prop where
  pure : ∀ {α : Type} (a : α), R (Pure.pure a) (Pure.pure a)
  throw : ∀ {α : Type} (e : Fault), R (MonadExcept.throw e : Build β α) (MonadExcept.throw e)
  bind : ∀ {α α' : Type} {x : Build β α} {y : Build γ α} {f : α → Build β α'} {g : α → Build γ α'},
    R x y → (∀ a, R (f a) (g a)) → R (x >>= f) (y >>= g)
  wires : R (get >>= fun s => Pure.pure s.wires) (get >>= fun s => Pure.pure s.wires)

namespace Parametric

variable {β γ : Type} {R : ∀ {α : Type}, Build β α → Build γ α → Prop} (hR : Parametric R)
include hR

/-! ## Loops -/

theorem foldlM {δ ε : Type} {f : δ → ε → Build β δ} {g : δ → ε → Build γ δ}
    (hfg : ∀ d e, R (f d e) (g d e)) (es : List ε) (d : δ) : R (es.foldlM f d) (es.foldlM g d) := by
  induction es generalizing d with
  | nil => exact hR.pure d
  | cons e es ih =>
    rw [List.foldlM_cons, List.foldlM_cons]
    exact hR.bind (hfg d e) ih

theorem mapM {δ ε : Type} {f : δ → Build β ε} {g : δ → Build γ ε} (hfg : ∀ d, R (f d) (g d))
    (ds : List δ) : R (ds.mapM f) (ds.mapM g) := by
  induction ds with
  | nil => exact hR.pure []
  | cons d ds ih =>
    rw [List.mapM_cons, List.mapM_cons]
    exact hR.bind (hfg d) fun e => hR.bind ih fun es => hR.pure (e :: es)

theorem listForM {δ : Type} {f : δ → Build β Unit} {g : δ → Build γ Unit}
    (hfg : ∀ d, R (f d) (g d)) (ds : List δ) : R (ds.forM f) (ds.forM g) := by
  induction ds with
  | nil => exact hR.pure ()
  | cons d ds ih => exact hR.bind (hfg d) fun _ => ih

theorem iterate {x : Build β Unit} {y : Build γ Unit} (hxy : R x y) (count : Nat) :
    R (Script.iterate x count) (Script.iterate y count) := by
  induction count with
  | zero => exact hR.pure ()
  | succ count ih => exact hR.bind hxy fun _ => ih

/-- What holds of the operations holds of every script. -/
theorem forM {f : Op → Build β Unit} {g : Op → Build γ Unit} (hfg : ∀ op, R (f op) (g op))
    (s : Script) : R (s.forM f) (s.forM g) := by
  induction s with
  | done => exact hR.pure ()
  | step op rest ih => exact hR.bind (hfg op) fun _ => ih
  | loop count body rest ihb ihr => exact hR.bind (hR.iterate ihb count) fun _ => ihr

/-! ## Without the backend -/

theorem ofExcept {α : Type} (x : Except Fault α) : R (ofExcept x) (ofExcept x) := by
  cases x with
  | ok a => exact hR.pure a
  | error e => exact hR.throw e

theorem resolve (ref : WireRef) : R (resolve ref) (resolve ref) := by
  cases ref with
  | one => exact hR.pure _
  | wire w => exact hR.pure w
  | slot i =>
    have hslot : ∀ {δ : Type}, (Synthesis.resolve (.slot i) : Build δ Wire) =
        (get >>= fun s => Pure.pure s.wires) >>= fun wires =>
          ((position? wires.size i).bind (wires[·]?)).elim (MonadExcept.throw .position)
            Pure.pure := by
      intro δ
      refine bind_congr fun s => ?_
      show _ = ((position? s.wires.size i).bind (s.wires[·]?)).elim _ _
      dsimp only
      cases (position? s.wires.size i).bind (s.wires[·]?) <;> rfl
    rw [hslot, hslot]
    refine hR.bind hR.wires fun wires => ?_
    cases (position? wires.size i).bind (wires[·]?) with
    | some w => exact hR.pure w
    | none => exact hR.throw _

theorem addTerm (lc : LinearCombination) (term : SignedTerm) :
    R (addTerm lc term) (addTerm lc term) :=
  hR.bind (hR.resolve term.ref) fun _ => hR.ofExcept _

theorem component (w : Wire) (values : Option (List Fr)) (i : Nat) :
    R (component w values i) (component w values i) := by
  cases values with
  | none => exact hR.throw _
  | some vs =>
    cases hv : vs[i]? with
    | none =>
      simp only [Synthesis.component, hv]
      exact hR.throw _
    | some v =>
      simp only [Synthesis.component, hv]
      exact hR.pure v

/-! ## Expressions -/

section

variable {ι ι' : Type} {k : Backend β ι} {l : Backend γ ι'}
  (hget : ∀ w, R (getValue k w) (getValue l w))
include hget

theorem valueOf (w : Wire) : R (valueOf k w) (valueOf l w) := by
  refine hR.bind (hget w) fun v => ?_
  cases v with
  | none => exact hR.throw _
  | some v => exact hR.pure v

theorem eval (e : Expr) : R (eval k e) (eval l e) := by
  induction e with
  | const v => exact hR.pure v
  | unassigned | fail => exact hR.throw _
  | read ref => exact hR.bind (hR.resolve ref) fun w => hR.valueOf hget w
  | add e e' ih ih' | mul e e' ih ih' =>
    exact hR.bind ih fun _ => hR.bind ih' fun _ => hR.pure _

theorem evalGate (values : GateValues) : R (evalGate k values) (evalGate l values) := by
  cases values with
  | each values => exact hR.mapM (hR.eval hget) values
  | single value => exact hR.bind (hR.eval hget value) fun _ => hR.throw _

end

end Parametric

end SnarkBatch.Synthesis
