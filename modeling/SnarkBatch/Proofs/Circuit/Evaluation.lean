import SnarkBatch.Proofs.Circuit.Parametric
import SnarkBatch.Proofs.Circuit.Recording
import SnarkBatch.Proofs.Result

/-!
# Evaluation on a recorder

What the driver does between two wires that it sets leaves events of other kinds only
(`Synthesis.SetsNothing`). In particular, expressions are evaluated in this way, and their results are
those that `Expr.valueAt` and `GateValues.valuesAt` read off the wires returned and the values that
the recorder tells (`Synthesis.Computes`).
-/

namespace SnarkBatch.Synthesis

variable {cfg : Recorder} {α α' : Type}

/-! ## Computations that set no wires -/

/-- On the way from `s` to `t`, no wire has been set or returned. -/
def NoneSet (s t : Synthesis Recording) : Prop :=
  ∃ es : List Event, (∀ e ∈ es, e.assigned = none) ∧
    t.backend = es.foldl Recording.add s.backend ∧ t.wires = s.wires

namespace NoneSet

variable {s t u : Synthesis Recording}

theorem of_backend (hbackend : t.backend = s.backend) (hwires : t.wires = s.wires) : NoneSet s t :=
  ⟨[], List.forall_mem_nil _, hbackend, hwires⟩

theorem of_event (e : Event) (he : e.assigned = none) (hbackend : t.backend = s.backend.add e)
    (hwires : t.wires = s.wires) : NoneSet s t :=
  ⟨[e], List.forall_mem_singleton.2 he, hbackend, hwires⟩

theorem trans (hst : NoneSet s t) (htu : NoneSet t u) : NoneSet s u := by
  obtain ⟨es, hes, hbackend, hwires⟩ := hst
  obtain ⟨es', hes', hbackend', hwires'⟩ := htu
  refine ⟨es ++ es', List.forall_mem_append.2 ⟨hes, hes'⟩, ?_, hwires'.trans hwires⟩
  rw [hbackend', hbackend, List.foldl_append]

theorem values_eq (h : NoneSet s t) : t.backend.values = s.backend.values := by
  obtain ⟨es, hes, hbackend, -⟩ := h
  rw [hbackend, Recording.values_foldl_add hes]

theorem wires_eq (h : NoneSet s t) : t.wires = s.wires := by
  obtain ⟨-, -, -, hwires⟩ := h
  exact hwires

theorem recorded {origins : List (Wire × Origin)} (h : NoneSet s t)
    (hs : Recorded cfg origins s.backend) : Recorded cfg origins t.backend := by
  obtain ⟨es, hes, hbackend, -⟩ := h
  exact hbackend ▸ hs.others hes

end NoneSet

/-- The computation sets no wires, also where it fails. -/
def SetsNothing (x : Build Recording α) : Prop := ∀ s, NoneSet s (endState (x s))

namespace SetsNothing

theorem pure (a : α) : SetsNothing (Pure.pure a) := fun _ => .of_backend rfl rfl

theorem throw (e : Fault) : SetsNothing (MonadExcept.throw e : Build Recording α) :=
  fun _ => .of_backend rfl rfl

theorem bind {x : Build Recording α} {f : α → Build Recording α'} (hx : SetsNothing x)
    (hf : ∀ a, SetsNothing (f a)) : SetsNothing (x >>= f) := fun s =>
  endState_bind (P := NoneSet s) (hx s) fun a t hst => hst.trans (hf a t)

theorem get_bind {f : Synthesis Recording → Build Recording α} (hf : ∀ s, SetsNothing (f s)) :
    SetsNothing (get >>= f) := fun s => hf s s

theorem parametric : Parametric fun {α} (x _ : Build Recording α) => SetsNothing x :=
  ⟨pure, throw, bind, get_bind fun _ => pure _⟩

theorem getValue (w : Wire) : SetsNothing (getValue cfg.backend w) := fun s =>
  .of_event (.get w (s.backend.visible cfg w)) rfl rfl rfl

theorem newGate : SetsNothing (newGate cfg.backend) := fun _ => .of_event .gate rfl rfl rfl

theorem enforce (lc : LinearCombination) : SetsNothing (enforce cfg.backend lc) := by
  have hopen : SetsNothing (onBackend cfg.backend.newConstraint) := fun s =>
    .of_event (.constraint (cfg.base.map (· + ((s.backend.constraints + 1 : Nat) : Int)))) rfl rfl rfl
  refine .bind (fun _ => .of_backend rfl rfl) fun _ => .bind hopen fun index => ?_
  exact parametric.listForM (g := fun _ => Pure.pure ())
    (fun term : Wire × Coeff => fun _ => .of_event (.term term.1 term.2 index) rfl rfl rfl) lc.terms

theorem newInput : SetsNothing
    (modify fun s => { s with backend := cfg.backend.newInput s.constraints s.backend }) := fun s =>
  .of_event (.input s.constraints) rfl rfl rfl

end SetsNothing

/-- The computation sets no wires, and its result is what `f` makes of the wires returned and of the
values that the recorder tells. Where `f` makes nothing of them, it fails. -/
structure Computes (cfg : Recorder) (x : Build Recording α)
    (f : List Wire → (Wire → Option Fr) → Option α) : Prop where
  setsNothing : SetsNothing x
  toOption_eq : ∀ s, (outcome (x s)).toOption = f s.wires.toList (s.backend.visible cfg)

namespace Computes

theorem pure (a : α) : Computes cfg (Pure.pure a) fun _ _ => some a := ⟨.pure a, fun _ => rfl⟩

theorem throw (e : Fault) : Computes cfg (MonadExcept.throw e : Build Recording α) fun _ _ => none :=
  ⟨.throw e, fun _ => rfl⟩

theorem bind {x : Build Recording α} {f : List Wire → (Wire → Option Fr) → Option α}
    {y : α → Build Recording α'} {g : α → List Wire → (Wire → Option Fr) → Option α'}
    (hx : Computes cfg x f) (hy : ∀ a, Computes cfg (y a) (g a)) :
    Computes cfg (x >>= y) fun wires read => (f wires read).bind fun a => g a wires read := by
  refine ⟨.bind hx.setsNothing fun a => (hy a).setsNothing, fun s => ?_⟩
  have hstate := hx.setsNothing s
  rw [← hx.toOption_eq s]
  cases h : x s with
  | error e t =>
    rw [bind_error h]
    rfl
  | ok a t =>
    rw [h] at hstate
    have hwires : t.wires = s.wires := hstate.wires_eq
    have hvisible : t.backend.visible cfg = s.backend.visible cfg :=
      Recording.visible_congr hstate.values_eq
    rw [bind_ok h, (hy a).toOption_eq t, hwires, hvisible]
    rfl

theorem valueOf (w : Wire) : Computes cfg (valueOf cfg.backend w) fun _ read => read w := by
  have hget : Computes cfg (getValue cfg.backend w) fun _ read => some (read w) :=
    ⟨.getValue w, fun _ => rfl⟩
  refine hget.bind (g := fun v _ _ => v) fun v => ?_
  cases v with
  | some v => exact .pure v
  | none => exact .throw _

theorem resolve (ref : WireRef) : Computes cfg (resolve ref) fun wires _ => ref.wireIn wires := by
  refine ⟨SetsNothing.parametric.resolve (β := Recording) ref, fun s => ?_⟩
  rw [resolve_eq, outcome_withEnd]
  cases ref.wireIn s.wires.toList <;> rfl

theorem eval (e : Expr) :
    Computes cfg (eval cfg.backend e) fun wires read => e.valueAt wires read := by
  induction e with
  | const v => exact .pure v
  | unassigned | fail => exact .throw _
  | read ref => exact (resolve ref).bind valueOf
  | add l r ihl ihr | mul l r ihl ihr => exact ihl.bind fun v => ihr.bind fun w => .pure _

theorem evalGate (values : GateValues) :
    Computes cfg (evalGate cfg.backend values) fun wires read => values.valuesAt wires read := by
  cases values with
  | single value =>
    refine ⟨.bind (eval value).setsNothing fun _ => .throw _, fun s => ?_⟩
    show (outcome ((Synthesis.eval cfg.backend value >>= fun _ => _) s)).toOption = none
    cases h : Synthesis.eval cfg.backend value s with
    | ok v t => rw [bind_ok h]; rfl
    | error e t => rw [bind_error h]; rfl
  | each values =>
    show Computes cfg (values.mapM (Synthesis.eval cfg.backend)) fun wires read =>
      values.mapM (·.valueAt wires read)
    induction values with
    | nil => exact .pure []
    | cons e values ih =>
      simp only [List.mapM_cons]
      exact (eval e).bind fun v => ih.bind fun vs => .pure (v :: vs)

end Computes

end SnarkBatch.Synthesis
