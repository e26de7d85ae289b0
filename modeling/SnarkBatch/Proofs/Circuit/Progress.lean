import SnarkBatch.Proofs.Circuit.Structure
import SnarkBatch.Proofs.ConstraintPolynomial.Reference

/-!
# The progress of a synthesis

What the driver knows between two operations, the half gate that is still open, the counters and the
wires returned, depends on the operations alone: `Progress.after` says what each of them does to it,
and `Synthesis.step_progress` that the driver does that on every backend. No wire is returned twice,
and every wire belongs to a gate that has been opened (`Progress.Sound.after`).

An operation that fails leaves off anywhere. The wires are then those returned before, and the
counters still agree with what the backend has been told (`Synthesis.settles_step`). So the account
of wires and counters is right wherever a synthesis has come to (`Synthesis.upTo_accounted`).
-/

namespace SnarkBatch

/-- The constant 1 and the wires are pairwise different wires of the gates `1, …, n`. -/
structure Wire.Allocated (n : Nat) (wires : List Wire) : Prop where
  nodup : (Wire.one :: wires).Nodup
  inGates : ∀ w ∈ Wire.one :: wires, w.InGates n

namespace Wire

theorem InGates.mono {n m : Nat} {w : Wire} (h : w.InGates n) (hnm : n ≤ m) : w.InGates m :=
  ⟨h.kind, h.one_le, h.le.trans (Int.ofNat_le.2 hnm)⟩

namespace Allocated

variable {n m : Nat} {wires new : List Wire}

theorem mono (h : Allocated n wires) (hnm : n ≤ m) : Allocated m wires :=
  ⟨h.nodup, fun w hw => (h.inGates w hw).mono hnm⟩

theorem fresh (h : Allocated n wires) {w : Wire} (hw : (n : Int) < w.index) :
    w ∉ Wire.one :: wires :=
  fun hmem => not_lt.2 (h.inGates w hmem).le hw

/-- A wire of the next gate is a new one, and in range as soon as the gate is counted. -/
theorem next (h : Allocated n wires) {kind : WireKind} (hkind : kind = .a ∨ kind = .b ∨ kind = .c) :
    (⟨kind, n + 1⟩ : Wire) ∉ Wire.one :: wires ∧ (⟨kind, n + 1⟩ : Wire).InGates (n + 1) := by
  refine ⟨h.fresh (Int.lt_succ _), hkind, ?_, le_rfl⟩
  dsimp only
  omega

theorem append (h : Allocated n wires) (hnm : n ≤ m) (hnew : new.Nodup)
    (hfresh : ∀ w ∈ new, w ∉ Wire.one :: wires ∧ w.InGates m) : Allocated m (wires ++ new) := by
  constructor
  · rw [← List.cons_append]
    exact List.nodup_append'.2 ⟨h.nodup, hnew, fun w hold hw => (hfresh w hw).1 hold⟩
  · rw [← List.cons_append, List.forall_mem_append]
    exact ⟨(h.mono hnm).inGates, fun w hw => (hfresh w hw).2⟩

end Allocated

end Wire

/-! ## Between two operations -/

/-- What the driver knows between two operations. -/
structure Progress where
  /-- The gate whose second half is still free. -/
  pending : Option Nat
  gates : Nat
  constraints : Nat
  /-- The wires returned to the circuit. -/
  wires : List Wire
  deriving DecidableEq, Repr

namespace Progress

/-- The constant 1 has been allocated. -/
def start : Progress := ⟨some 1, 1, 1, []⟩

def alloc (p : Progress) : Progress :=
  match p.pending with
  | some gate => { p with pending := none, wires := p.wires ++ [⟨.b, gate⟩] }
  | none =>
    { p with
      pending := some (p.gates + 1)
      gates := p.gates + 1
      wires := p.wires ++ [⟨.a, p.gates + 1⟩] }

/-- What an operation does to the progress if it succeeds. -/
def after (p : Progress) : Op → Progress
  | .alloc _ => p.alloc
  | .input _ => { p.alloc with constraints := p.alloc.constraints + 1 }
  | .multiply _ =>
    { p with
      pending := none
      gates := p.gates + 1
      wires := p.wires ++ [⟨.a, p.gates + 1⟩, ⟨.b, p.gates + 1⟩, ⟨.c, p.gates + 1⟩] }
  | .enforce _ => { p with constraints := p.constraints + 1 }
  | .read _ | .fail .. => p

/-- All wires are accounted for, and a half that is open is one of the last gate. -/
structure Sound (p : Progress) : Prop extends Wire.Allocated p.gates p.wires where
  pending_eq : ∀ gate, p.pending = some gate → gate = p.gates ∧ ⟨.b, gate⟩ ∉ p.wires

theorem start_sound : start.Sound where
  nodup := List.nodup_singleton _
  inGates := List.forall_mem_singleton.2 (by decide)
  pending_eq := by
    rintro gate ⟨⟩
    exact ⟨rfl, List.not_mem_nil⟩

namespace Sound

variable {p : Progress}

theorem alloc (h : p.Sound) : p.alloc.Sound := by
  unfold Progress.alloc
  split
  · rename_i gate hpending
    obtain ⟨rfl, hfree⟩ := h.pending_eq gate hpending
    have hone : 1 ≤ (p.gates : Int) := (h.inGates .one (.head _)).le
    have hnew : (⟨.b, p.gates⟩ : Wire) ∉ Wire.one :: p.wires ∧
        (⟨.b, p.gates⟩ : Wire).InGates p.gates :=
      ⟨by simpa [Wire.one] using hfree, .inr (.inl rfl), hone, le_rfl⟩
    exact ⟨h.append le_rfl (List.nodup_singleton _) (List.forall_mem_singleton.2 hnew),
      fun _ hnone => by cases hnone⟩
  · have hnew := h.next (.inl rfl)
    refine ⟨h.append (Nat.le_succ _) (List.nodup_singleton _) (List.forall_mem_singleton.2 hnew), ?_⟩
    rintro gate ⟨⟩
    refine ⟨rfl, fun hmem => ?_⟩
    rcases List.mem_append.1 hmem with hmem | hmem
    · exact (h.next (.inr (.inl rfl))).1 (.tail _ hmem)
    · cases List.mem_singleton.1 hmem

/-- Every operation that succeeds keeps the account. -/
theorem after (h : p.Sound) (op : Op) : (p.after op).Sound := by
  cases op with
  | alloc value => exact h.alloc
  | input value => exact ⟨h.alloc.toAllocated, h.alloc.pending_eq⟩
  | multiply values =>
    have hnodup : [(⟨.a, p.gates + 1⟩ : Wire), ⟨.b, p.gates + 1⟩, ⟨.c, p.gates + 1⟩].Nodup := by simp
    refine ⟨h.append (Nat.le_succ _) hnodup ?_, fun _ hnone => by cases hnone⟩
    simp only [List.forall_mem_cons]
    exact ⟨h.next (.inl rfl), h.next (.inr (.inl rfl)), h.next (.inr (.inr rfl)),
      fun _ hnone => absurd hnone List.not_mem_nil⟩
  | enforce terms => exact ⟨h.toAllocated, h.pending_eq⟩
  | read ref => exact h
  | fail kind message => exact h

end Sound

end Progress

namespace Synthesis

def progress {β : Type} (s : Synthesis β) : Progress :=
  ⟨s.pending, s.gates, s.constraints, s.wires.toList⟩

open StructuralEvent (ledger)

/-- The computation leaves the synthesis as it is. -/
def Reads {β α : Type} (x : Build β α) : Prop := ∀ s, endState (x s) = s

theorem Reads.parametric {β : Type} : Parametric fun {α} (x _ : Build β α) => Reads x where
  pure _ _ := rfl
  throw _ _ := rfl
  bind hx hf s := endState_bind (P := (· = s)) (hx s) fun a s' h => (hf a s').trans h
  wires _ := rfl

/-- The terms of a constraint are put together first. -/
theorem exists_of_step_enforce {β ι : Type} {k : Backend β ι} {terms : List SignedTerm}
    {s s' : Synthesis β} (h : step k (.enforce terms) s = .ok () s') :
    ∃ lc, terms.foldlM addTerm .empty s = .ok lc s ∧ enforce k lc s = .ok () s' := by
  obtain ⟨lc, s₁, hterms, henforce⟩ := exists_of_run_ok h
  have hread := Reads.parametric.foldlM (g := addTerm) Reads.parametric.addTerm terms .empty s
  rw [hterms] at hread
  obtain rfl : s₁ = s := hread
  exact ⟨lc, hterms, henforce⟩

theorem ledger_enforce (lc : LinearCombination) (t : Synthesis (List StructuralEvent)) :
    enforce ledger lc t =
      .ok () { t with constraints := t.constraints + 1, backend := t.backend ++ lc.events } := by
  rw [enforce_eq]
  refine (bind_ok rfl).trans ?_
  simp only [onBackend, StructuralEvent.ledger_openWith]

theorem ledger_progress {op : Op} {t t' : Synthesis (List StructuralEvent)}
    (h : step ledger op t = .ok () t') : t'.progress = t.progress.after op := by
  cases op with
  | alloc value | input value =>
    obtain ⟨circuit, trace, pending, gates, constraints, wires, values⟩ := t
    cases pending <;> obtain rfl : _ = t' := (EStateM.Result.ok.inj h).2 <;>
      simp [progress, Progress.after, Progress.alloc]
  | multiply values =>
    obtain rfl : _ = t' := (EStateM.Result.ok.inj h).2
    simp [progress, Progress.after]
  | enforce terms =>
    obtain ⟨lc, -, henforce⟩ := exists_of_step_enforce h
    rw [ledger_enforce] at henforce
    cases henforce
    rfl
  | read ref =>
    obtain ⟨w, t₁, hresolve, hvalue⟩ := exists_of_run_ok h
    have hread := Reads.parametric.resolve ref t
    rw [hresolve] at hread
    obtain rfl : t₁ = t := hread
    cases hvalue
    rfl
  | fail kind message => cases h

/-- An operation that succeeds has the same effect on every backend. -/
theorem step_progress {β ι : Type} {k : Backend β ι} {op : Op} {s s' : Synthesis β}
    (h : step k op s = .ok () s') : s'.progress = s.progress.after op := by
  have hmap := commutes_step k.traced_maps op (s.on s.circuit (s.backend, [])) s.circuit
  change step k op s = _ at hmap
  rw [h] at hmap
  cases htraced : step k.traced op (s.on s.circuit (s.backend, [])) with
  | ok _ t =>
    rw [htraced] at hmap
    cases hmap
    obtain ⟨values, hledger⟩ := (follows_step op).ok [] htraced
    exact ledger_progress hledger
  | error e t =>
    rw [htraced] at hmap
    cases hmap

theorem forM_progress {β ι : Type} {k : Backend β ι} {ops : List Op} {s s' : Synthesis β}
    (h : ops.forM (step k) s = .ok () s') : s'.progress = ops.foldl Progress.after s.progress := by
  induction ops generalizing s with
  | nil =>
    cases h
    rfl
  | cons op ops ih =>
    obtain ⟨_, s₁, hstep, h⟩ := exists_of_run_ok h
    rw [ih h, step_progress hstep, List.foldl_cons]

/-! ## Wherever a synthesis stops -/

section Traced

variable {β ι : Type} {k : Backend β ι}

/-- The counters of the driver agree with what the backend has been told. -/
structure Tallied (s : Synthesis (β × List StructuralEvent)) : Prop where
  gates_eq : s.gates = s.backend.2.count .gate
  constraints_eq : s.constraints = s.backend.2.count .constraint

/-- No wires have been returned on the way from `s` to `t`. -/
structure Advances (s t : Synthesis (β × List StructuralEvent)) : Prop where
  wires_eq : t.wires = s.wires
  gates_le : s.gates ≤ t.gates
  tallied : s.Tallied → t.Tallied

theorem Advances.trans {s t u : Synthesis (β × List StructuralEvent)} (hst : s.Advances t)
    (htu : t.Advances u) : s.Advances u :=
  ⟨htu.wires_eq.trans hst.wires_eq, hst.gates_le.trans htu.gates_le, htu.tallied ∘ hst.tallied⟩

/-- A computation that returns no wires to the circuit, also where it fails. -/
def Advancing {α : Type} (x : Build (β × List StructuralEvent) α) : Prop :=
  ∀ s, Advances s (endState (x s))

namespace Advancing

variable {α α' : Type}

theorem bind {x : Build (β × List StructuralEvent) α}
    {f : α → Build (β × List StructuralEvent) α'} (hx : Advancing x) (hf : ∀ a, Advancing (f a)) :
    Advancing (x >>= f) := fun s =>
  endState_bind (P := s.Advances) (hx s) fun a t hst => hst.trans (hf a t)

theorem modify {f : Synthesis (β × List StructuralEvent) → Synthesis (β × List StructuralEvent)}
    (hf : ∀ s, Advances s (f s)) : Advancing (modify f) := hf

theorem of_quiet {x : Build (β × List StructuralEvent) α} (hx : Quiet x) : Advancing x := by
  intro s
  obtain ⟨-, htrace, -, hgates, hconstraints, hwires, -⟩ := Synthesis.mk.inj (hx s [])
  refine ⟨hwires, hgates.ge, fun hs => ⟨?_, ?_⟩⟩
  · rw [hgates, htrace, hs.gates_eq]
  · rw [hconstraints, htrace, hs.constraints_eq]

theorem pure (a : α) : Advancing (Pure.pure a : Build (β × List StructuralEvent) α) :=
  of_quiet (.pure a)

theorem parametric : Parametric fun {α} (x _ : Build (β × List StructuralEvent) α) => Advancing x :=
  ⟨pure, fun e => of_quiet (.throw e), bind, of_quiet (.get_bind fun _ => .pure _)⟩

end Advancing

theorem advancing_pending (pending : Option Nat) :
    Advancing (modify fun s : Synthesis (β × List StructuralEvent) => { s with pending }) :=
  .modify fun _ => ⟨rfl, le_rfl, fun hs => ⟨hs.gates_eq, hs.constraints_eq⟩⟩

theorem advancing_newGate : Advancing (newGate k.traced) := by
  refine .bind (.modify fun s => ⟨rfl, Nat.le_succ _, fun hs => ?_⟩) fun _ =>
    .of_quiet (.get_bind fun _ => .pure _)
  show Tallied { s with
    gates := s.gates + 1, backend := (k.newGate s.backend.1, s.backend.2 ++ [.gate]) }
  exact ⟨by simp [hs.gates_eq], by simp [hs.constraints_eq]⟩

theorem advancing_newInput :
    Advancing (modify fun s => { s with backend := k.traced.newInput s.constraints s.backend }) := by
  refine .modify fun s => ⟨rfl, le_rfl, fun hs => ?_⟩
  show Tallied { s with
    backend := (k.newInput s.constraints s.backend.1, s.backend.2 ++ [.input s.constraints]) }
  exact ⟨by simp [hs.gates_eq], by simp [hs.constraints_eq]⟩

/-- A constraint is counted when the backend is asked for it, whether or not it is granted. -/
theorem advancing_enforce (lc : LinearCombination) : Advancing (enforce k.traced lc) := by
  have hsplit : enforce k.traced lc = (do
      modify fun s => { s with constraints := s.constraints + 1 }
      onBackend k.traced.newConstraint) >>= fun index =>
        lc.terms.forM fun term => onBackend (k.traced.insertTerm term.1 term.2 index) := rfl
  rw [hsplit]
  have hopen : Advancing (do
      modify fun s => { s with constraints := s.constraints + 1 }
      onBackend k.traced.newConstraint) := by
    intro s
    have hend : endState ((do
        modify fun s => { s with constraints := s.constraints + 1 }
        onBackend k.traced.newConstraint : Build _ ι) s) =
        { s with
          constraints := s.constraints + 1
          backend := (endState (k.newConstraint s.backend.1), s.backend.2 ++ [.constraint]) } := by
      refine (congrArg endState (modify_bind _ _ s)).trans ?_
      simp only [onBackend, Backend.traced]
      cases k.newConstraint s.backend.1 <;> rfl
    rw [hend]
    exact ⟨rfl, le_rfl, fun hs => ⟨by simp [hs.gates_eq], by simp [hs.constraints_eq]⟩⟩
  have hterm : ∀ index (term : Wire × Coeff),
      Advancing (onBackend (k.traced.insertTerm term.1 term.2 index)) := by
    intro index term s
    have hend : endState (onBackend (k.traced.insertTerm term.1 term.2 index) s) =
        { s with
          backend := (endState (k.insertTerm term.1 term.2 index s.backend.1),
            s.backend.2 ++ [.term term.1 term.2]) } := by
      simp only [onBackend, Backend.traced]
      cases k.insertTerm term.1 term.2 index s.backend.1 <;> rfl
    rw [hend]
    exact ⟨rfl, le_rfl, fun hs => ⟨by simp [hs.gates_eq], by simp [hs.constraints_eq]⟩⟩
  exact .bind hopen fun index =>
    Advancing.parametric.listForM (g := fun _ => Pure.pure ()) (hterm index) lc.terms

theorem advancing_alloc {value : Build (β × List StructuralEvent) Fr} (hvalue : Quiet value) :
    Advancing (alloc k.traced value) := by
  refine .bind (.of_quiet fun _ _ => rfl) fun s => ?_
  cases s.pending with
  | none =>
    exact .bind advancing_newGate fun gate => .bind (.of_quiet (quiet_assign _ hvalue)) fun _ =>
      .bind (advancing_pending _) fun _ => .pure _
  | some gate =>
    refine .bind (.of_quiet (quiet_getValue _)) fun left =>
      .bind (.of_quiet (quiet_assign _ (.bind hvalue fun v => ?_))) fun right =>
      .bind (.of_quiet (quiet_assign _ ?_)) fun _ => .bind (advancing_pending _) fun _ => .pure _
    · cases left with
      | none => exact .bind (.throw _) fun _ => .pure v
      | some _ => exact .pure v
    · split
      · exact .pure _
      · exact .throw _

theorem advancing_allocInput {value : Build (β × List StructuralEvent) Fr} (hvalue : Quiet value) :
    Advancing (allocInput k.traced value) :=
  .bind (advancing_alloc hvalue) fun w => .bind (advancing_enforce _) fun _ =>
    .bind advancing_newInput fun _ => .pure w

theorem advancing_multiply {values : Build (β × List StructuralEvent) (List Fr)}
    (hvalues : Quiet values) : Advancing (multiply k.traced values) := by
  have hassign : ∀ w vs i, Advancing (assign k.traced w (component w vs i)) := fun w vs i =>
    .of_quiet (quiet_assign _ (Quiet.parametric.component w vs i))
  have hend : ∀ wires : Wire × Wire × Wire, Advancing (do
      modify fun s : Synthesis (β × List StructuralEvent) => { s with pending := none }
      return wires) := fun wires => .bind (advancing_pending none) fun _ => .pure wires
  refine .bind advancing_newGate fun gate => ?_
  dsimp only
  split
  · refine .bind (.of_quiet hvalues) fun vs => ?_
    exact .bind (.of_quiet (Quiet.parametric.component _ _ _)) fun v =>
      .bind (.of_quiet (quiet_setValue _ _)) fun _ => .bind (.pure (some vs)) fun vs =>
      .bind (hassign _ vs 1) fun _ => .bind (hassign _ vs 2) fun _ => hend _
  · exact .bind (.of_quiet (quiet_setValue _ _)) fun _ => .bind (.pure none) fun vs =>
      .bind (hassign _ vs 1) fun _ => .bind (hassign _ vs 2) fun _ => hend _

/-- The computation keeps the counters right and, where it fails, has returned no wires. -/
def Settles (x : Build (β × List StructuralEvent) Unit) : Prop :=
  ∀ s, (Tallied s → Tallied (endState (x s))) ∧ ∀ e s', x s = .error e s' → Advances s s'

theorem Advancing.settles {x : Build (β × List StructuralEvent) Unit} (hx : Advancing x) :
    Settles x := by
  refine fun s => ⟨(hx s).tallied, fun e s' h => ?_⟩
  have hend := hx s
  rwa [h] at hend

theorem Advancing.settles_keep {α : Type} {x : Build (β × List StructuralEvent) α}
    (hx : Advancing x) (wires : α → List Wire) : Settles (x >>= fun a => keep (wires a)) := by
  intro s
  have hend := hx s
  cases h : x s with
  | ok a t =>
    rw [h] at hend
    rw [bind_ok h]
    refine ⟨fun hs => ?_, fun e s' herror => by cases herror⟩
    exact ⟨(hend.tallied hs).gates_eq, (hend.tallied hs).constraints_eq⟩
  | error e t =>
    rw [h] at hend
    rw [bind_error h]
    refine ⟨hend.tallied, ?_⟩
    rintro _ _ ⟨⟩
    exact hend

theorem settles_step (op : Op) : Settles (step k.traced op) := by
  have heval : ∀ value, Quiet (eval k.traced value) :=
    Quiet.parametric.eval (l := k.traced) quiet_getValue
  cases op with
  | alloc value => exact (advancing_alloc (heval value)).settles_keep fun w => [w]
  | input value => exact (advancing_allocInput (heval value)).settles_keep fun w => [w]
  | multiply values =>
    have hvalues := Quiet.parametric.evalGate (k := k.traced) (l := k.traced) quiet_getValue values
    exact (advancing_multiply hvalues).settles_keep fun wires => [wires.1, wires.2.1, wires.2.2]
  | enforce terms =>
    have hterms := Advancing.parametric.foldlM (β := β × List StructuralEvent) (g := addTerm)
      Advancing.parametric.addTerm terms .empty
    exact (hterms.bind advancing_enforce).settles
  | read ref =>
    have hresolve := Quiet.parametric.resolve (β := β × List StructuralEvent) ref
    have hvalue := Quiet.parametric.valueOf (k := k.traced) (l := k.traced) quiet_getValue
    refine Advancing.settles (.bind (.of_quiet hresolve) fun w => .bind (.of_quiet (hvalue w))
      fun v => .modify fun s => ⟨rfl, le_rfl, fun hs => ⟨hs.gates_eq, hs.constraints_eq⟩⟩)
  | fail kind message => exact Advancing.settles (.of_quiet (.throw _))

/-- The account of wires and counters at any time from the allocation of the constant 1 on. -/
structure Accounted (s : Synthesis (β × List StructuralEvent)) : Prop
    extends Tallied s, Wire.Allocated s.gates s.wires.toList

theorem Accounted.advances {s t : Synthesis (β × List StructuralEvent)} (hs : s.Accounted)
    (hst : Advances s t) : t.Accounted :=
  ⟨hst.tallied hs.toTallied, hst.wires_eq ▸ hs.toAllocated.mono hst.gates_le⟩

theorem forM_accounted (ops : List Op) {s : Synthesis (β × List StructuralEvent)} (hs : s.Tallied)
    (hprogress : s.progress.Sound) : (endState (ops.forM (step k.traced) s)).Accounted := by
  induction ops generalizing s with
  | nil => exact ⟨hs, hprogress.toAllocated⟩
  | cons op ops ih =>
    obtain ⟨htallied, herror⟩ := settles_step (k := k) op s
    cases h : step k.traced op s with
    | ok _ t =>
      rw [h] at htallied
      refine (congrArg (Accounted ∘ endState) (bind_ok h)).mpr (ih (htallied hs) ?_)
      exact step_progress h ▸ hprogress.after op
    | error e t =>
      refine (congrArg (Accounted ∘ endState) (bind_error h)).mpr ?_
      exact Accounted.advances ⟨hs, hprogress.toAllocated⟩ (herror e t h)

end Traced

/-! ## Part of a synthesis -/

section

variable {β ι : Type} (k : Backend β ι)

/-- The constant 1, and the first operations of the next pass. -/
def upTo (count : Nat) : Build β Unit := do
  let _ ← allocInput k (pure 1)
  ((← takePass).unroll.take count).forM (step k)

theorem run_eq_upTo (c : Circuit) (b : β) : ∃ count, run k c b = upTo k count (start c b) := by
  have hcircuit := (commutes_allocInput (Backend.Maps.refl k) (.pure 1)).circuit_eq (start c b)
  refine ⟨(c.current.elim [] Script.unroll).length, ?_⟩
  cases hinput : allocInput k (Pure.pure 1) (start c b) with
  | error e s => exact (bind_error hinput).trans (bind_error hinput).symm
  | ok w s =>
    rw [hinput] at hcircuit
    obtain rfl : s.circuit = c := hcircuit
    refine (bind_ok hinput).trans (Eq.trans ?_ (bind_ok hinput).symm)
    cases hcurrent : s.circuit.current with
    | none =>
      have htake := takePass_none hcurrent
      exact (bind_error htake).trans (bind_error htake).symm
    | some script =>
      have htake := takePass_some hcurrent
      refine (bind_ok htake).trans (Eq.trans ?_ (bind_ok htake).symm)
      rw [Option.elim_some, List.take_length, Script.forM_eq_unroll_forM]

/-- The first gate is opened for the constant 1, whose value can always be computed. -/
theorem alloc_start (c : Circuit) (b : β) :
    ∃ b', alloc k (pure 1) (start c b) =
      .ok .one { start c b' with pending := some 1, gates := 1 } := by
  cases hwants : k.wants .a with
  | true => exact ⟨k.setValue .one (some 1) (k.newGate b), by
      simp only [alloc, get_bind, start, openHalf, newGate, assign, hwants]; rfl⟩
  | false => exact ⟨k.setValue .one none (k.newGate b), by
      simp only [alloc, get_bind, start, openHalf, newGate, assign, hwants]; rfl⟩

theorem allocInput_progress {c : Circuit} {b : β} {w : Wire}
    {s : Synthesis (β × List StructuralEvent)}
    (h : allocInput k.traced (pure 1) (start c (b, [])) = .ok w s) : s.progress = .start := by
  obtain ⟨values, hledger⟩ := (follows_allocInput (.pure 1) (pure 1)).ok [] h
  have hstart : allocInput ledger (pure 1) ((start c (b, [])).shadow []) = .ok .one
      ⟨c, [.gate, .constraint, .term .one (.one none), .input 1], some 1, 1, 1, #[], []⟩ := rfl
  rw [hstart] at hledger
  obtain ⟨-, hshadow⟩ := EStateM.Result.ok.inj hledger
  exact (congrArg progress hshadow).symm

/-- The account is right from the constant 1 on, even if the backend refuses its constraint. -/
theorem allocInput_accounted (c : Circuit) (b : β) :
    (endState (allocInput k.traced (pure 1) (start c (b, [])))).Accounted := by
  have hstart : Tallied (start c (b, ([] : List StructuralEvent))) := ⟨rfl, rfl⟩
  have halloc := advancing_alloc (k := k) (.pure 1) (start c (b, []))
  obtain ⟨b', hrun⟩ := alloc_start k.traced c (b, [])
  rw [hrun] at halloc
  refine Accounted.advances ⟨halloc.tallied hstart, Progress.start_sound.toAllocated⟩ ?_
  refine (congrArg (Advances _ ∘ endState) (bind_ok hrun)).mpr ?_
  exact Advancing.bind (advancing_enforce _) (fun _ => .bind advancing_newInput fun _ => .pure _) _

/-- Wherever a synthesis has come to, the wires and the counters are accounted for. If the last
operation has succeeded, the progress is that of the operations. -/
theorem upTo_accounted (c : Circuit) (b : β) (count : Nat) :
    (endState (upTo k.traced count (start c (b, [])))).Accounted ∧
      ∀ s, upTo k.traced count (start c (b, [])) = .ok () s → ∃ script, c.current = some script ∧
        s.progress = (script.unroll.take count).foldl Progress.after .start := by
  have haccounted := allocInput_accounted k c b
  have hcircuit :=
    (commutes_allocInput (Backend.Maps.refl k.traced) (.pure 1)).circuit_eq (start c (b, []))
  cases hinput : allocInput k.traced (pure 1) (start c (b, [])) with
  | error e s =>
    rw [hinput] at haccounted
    have hrun : upTo k.traced count (start c (b, [])) = .error e s := bind_error hinput
    rw [hrun]
    exact ⟨haccounted, fun _ h => by cases h⟩
  | ok w s =>
    rw [hinput] at haccounted hcircuit
    obtain rfl : s.circuit = c := hcircuit
    have hprogress := allocInput_progress k hinput
    cases hcurrent : s.circuit.current with
    | none =>
      have hrun : upTo k.traced count (start s.circuit (b, [])) = .error .position s :=
        (bind_ok hinput).trans (bind_error (takePass_none hcurrent))
      rw [hrun]
      exact ⟨haccounted, fun _ h => by cases h⟩
    | some script =>
      have hrun : upTo k.traced count (start s.circuit (b, [])) =
          (script.unroll.take count).forM (step k.traced) { s with circuit := s.circuit.advance } :=
        (bind_ok hinput).trans (bind_ok (takePass_some hcurrent))
      rw [hrun]
      refine ⟨forM_accounted _ ⟨haccounted.gates_eq, haccounted.constraints_eq⟩ ?_, fun t h => ?_⟩
      · exact hprogress ▸ Progress.start_sound
      · exact ⟨script, rfl, (forM_progress h).trans (congrArg (List.foldl _ · _) hprogress)⟩

end

end Synthesis

end SnarkBatch
