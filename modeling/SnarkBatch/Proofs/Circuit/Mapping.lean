import SnarkBatch.Proofs.Circuit.Outline

/-!
# Maps between backends

A map from the states of one backend to those of another that respects all operations
(`Backend.Maps`) respects whole syntheses: with values asked for or not, successful or not
(`Synthesis.run_map`). The circuits of the two may differ, as long as the scripts of their passes do
the same (`Commutes`).
-/

namespace SnarkBatch

/-- `π` takes what the operations of `k` do to what those of `l` do. -/
structure Backend.Maps {β γ ι : Type} (k : Backend β ι) (l : Backend γ ι) (π : β → γ) : Prop where
  newGate : ∀ b, l.newGate (π b) = π (k.newGate b)
  newConstraint : ∀ b, l.newConstraint (π b) = mapEnd π (k.newConstraint b)
  insertTerm : ∀ w c i b, l.insertTerm w c i (π b) = mapEnd π (k.insertTerm w c i b)
  newInput : ∀ i b, l.newInput i (π b) = π (k.newInput i b)
  wants : ∀ kind, l.wants kind = k.wants kind
  setValue : ∀ w v b, l.setValue w v (π b) = π (k.setValue w v b)
  getValue : ∀ w b, l.getValue w (π b) = ((k.getValue w b).1, π (k.getValue w b).2)

theorem Backend.Maps.refl {β ι : Type} (k : Backend β ι) : k.Maps k id where
  newGate _ := rfl
  newConstraint _ := (mapEnd_id _).symm
  insertTerm _ _ _ _ := (mapEnd_id _).symm
  newInput _ _ := rfl
  wants _ := rfl
  setValue _ _ _ := rfl
  getValue _ _ := rfl

namespace Synthesis

/-- `y` does what `x` does, on the mapped state of the backend and whatever the circuit is. -/
def Commutes {β γ α : Type} (π : β → γ) (x : Build β α) (y : Build γ α) : Prop :=
  ∀ s c, y (s.on c (π s.backend)) = mapEnd (fun s' => s'.on c (π s'.backend)) (x s)

namespace Commutes

variable {β γ α α' : Type} {π : β → γ}

theorem pure (a : α) : Commutes π (Pure.pure a) (Pure.pure a) := fun _ _ => rfl

theorem throw (e : Fault) :
    Commutes π (MonadExcept.throw e : Build β α) (MonadExcept.throw e) := fun _ _ => rfl

theorem bind {x : Build β α} {y : Build γ α} {f : α → Build β α'} {g : α → Build γ α'}
    (hxy : Commutes π x y) (hfg : ∀ a, Commutes π (f a) (g a)) :
    Commutes π (x >>= f) (y >>= g) := fun s c =>
  mapEnd_bind (π := fun s => s.on c (π s.backend)) (fun s => hxy s c) (fun a s => hfg a s c) s

theorem modify {f : Synthesis β → Synthesis β} {g : Synthesis γ → Synthesis γ}
    (hfg : ∀ s c, g (s.on c (π s.backend)) = (f s).on c (π (f s).backend)) :
    Commutes π (modify f) (modify g) := fun s c => congrArg (EStateM.Result.ok ()) (hfg s c)

theorem get_bind {f : Synthesis β → Build β α} {g : Synthesis γ → Build γ α}
    (hfg : ∀ s c, Commutes π (f s) (g (s.on c (π s.backend)))) :
    Commutes π (get >>= f) (get >>= g) := fun s c => hfg s c s c

theorem onBackend {x : EStateM Fault β α} {y : EStateM Fault γ α}
    (hxy : ∀ b, y (π b) = mapEnd π (x b)) : Commutes π (onBackend x) (onBackend y) := by
  intro s c
  simp only [Synthesis.onBackend, on, hxy]
  cases x s.backend <;> rfl

theorem parametric : Parametric fun {α} (x : Build β α) y => Commutes π x y :=
  ⟨pure, throw, bind, .get_bind fun _ _ => .pure _⟩

end Commutes

/-! ## The driver -/

section Driver

variable {β γ ι : Type} {k : Backend β ι} {l : Backend γ ι} {π : β → γ}

theorem commutes_keep (wires : List Wire) :
    Commutes π (keep wires : Build β Unit) (keep wires) := .modify fun _ _ => rfl

variable (h : k.Maps l π)
include h

theorem commutes_getValue (w : Wire) : Commutes π (getValue k w) (getValue l w) :=
  .onBackend fun b => by
    rw [h.getValue]
    rfl

theorem commutes_setValue (w : Wire) (v : Option Fr) :
    Commutes π (setValue k w v) (setValue l w v) := by
  refine .modify fun s c => ?_
  simp only [on, h.setValue]

/-- A value is computed in both syntheses or in none. -/
theorem commutes_assign (w : Wire) {value : Build β Fr} {value' : Build γ Fr}
    (hvalue : Commutes π value value') : Commutes π (assign k w value) (assign l w value') := by
  unfold assign
  rw [h.wants]
  cases k.wants w.kind with
  | true => exact .bind hvalue fun v => .bind (commutes_setValue h w _) fun _ => .pure _
  | false => exact .bind (commutes_setValue h w _) fun _ => .pure _

theorem commutes_newGate : Commutes π (newGate k) (newGate l) := by
  refine .bind (.modify fun s c => ?_) fun _ => .get_bind fun _ _ => .pure _
  simp only [on, h.newGate]

theorem commutes_openHalf {value : Build β Fr} {value' : Build γ Fr}
    (hvalue : Commutes π value value') : Commutes π (openHalf k value) (openHalf l value') :=
  .bind (commutes_newGate h) fun _ => .bind (commutes_assign h _ hvalue) fun _ =>
    .bind (.modify fun _ _ => rfl) fun _ => .pure _

theorem commutes_closeHalf (gate : Nat) {value : Build β Fr} {value' : Build γ Fr}
    (hvalue : Commutes π value value') :
    Commutes π (closeHalf k gate value) (closeHalf l gate value') := by
  refine .bind (commutes_getValue h _) fun left => ?_
  refine .bind (commutes_assign h _ (.bind hvalue fun v => ?_)) fun right => ?_
  · cases left with
    | none => exact .bind (.throw _) fun _ => .pure v
    | some _ => exact .pure v
  · refine .bind (commutes_assign h _ ?_) fun _ => .bind (.modify fun _ _ => rfl) fun _ => .pure _
    cases left with
    | none => exact .throw _
    | some _ =>
      cases right with
      | none => exact .throw _
      | some _ => exact .pure _

theorem commutes_alloc {value : Build β Fr} {value' : Build γ Fr}
    (hvalue : Commutes π value value') : Commutes π (alloc k value) (alloc l value') := by
  refine .get_bind fun s c => ?_
  dsimp only [on]
  cases s.pending with
  | some gate => exact commutes_closeHalf h gate hvalue
  | none => exact commutes_openHalf h hvalue

theorem commutes_enforce (lc : LinearCombination) : Commutes π (enforce k lc) (enforce l lc) := by
  have hterm : ∀ index (term : Wire × Coeff),
      Commutes π (onBackend (k.insertTerm term.1 term.2 index))
        (onBackend (l.insertTerm term.1 term.2 index)) :=
    fun index term => .onBackend (h.insertTerm term.1 term.2 index)
  exact .bind (.modify fun _ _ => rfl) fun _ => .bind (.onBackend h.newConstraint) fun index =>
    Commutes.parametric.listForM (hterm index) lc.terms

theorem commutes_allocInput {value : Build β Fr} {value' : Build γ Fr}
    (hvalue : Commutes π value value') :
    Commutes π (allocInput k value) (allocInput l value') := by
  refine .bind (commutes_alloc h hvalue) fun w => .bind (commutes_enforce h _) fun _ =>
    .bind (.modify fun s c => ?_) fun _ => .pure w
  simp only [on, h.newInput]

theorem commutes_multiply {values : Build β (List Fr)} {values' : Build γ (List Fr)}
    (hvalues : Commutes π values values') :
    Commutes π (multiply k values) (multiply l values') := by
  have hassign : ∀ w vs i, Commutes π (assign k w (component w vs i))
      (assign l w (component w vs i)) :=
    fun w vs i => commutes_assign h w (Commutes.parametric.component w vs i)
  have hend : ∀ wires : Wire × Wire × Wire,
      Commutes π (do modify fun s => { s with pending := none }; return wires)
        (do modify fun s => { s with pending := none }; return wires) :=
    fun wires => .bind (.modify fun _ _ => rfl) fun _ => .pure wires
  refine .bind (commutes_newGate h) fun gate => ?_
  dsimp only
  rw [h.wants]
  cases k.wants .a with
  | true =>
    exact .bind hvalues fun vs => .bind (Commutes.parametric.component _ _ _) fun v =>
      .bind (commutes_setValue h _ _) fun _ => .bind (.pure (some vs)) fun vs =>
      .bind (hassign _ vs 1) fun _ => .bind (hassign _ vs 2) fun _ => hend _
  | false =>
    exact .bind (commutes_setValue h _ _) fun _ => .bind (.pure none) fun vs =>
      .bind (hassign _ vs 1) fun _ => .bind (hassign _ vs 2) fun _ => hend _

theorem commutes_step (op : Op) : Commutes π (step k op) (step l op) := by
  have hget := commutes_getValue h
  have hR := Commutes.parametric (π := π)
  cases op with
  | alloc value => exact .bind (commutes_alloc h (hR.eval hget value)) fun _ => commutes_keep _
  | input value =>
    exact .bind (commutes_allocInput h (hR.eval hget value)) fun _ => commutes_keep _
  | multiply values =>
    exact .bind (commutes_multiply h (hR.evalGate hget values)) fun _ => commutes_keep _
  | enforce terms =>
    exact .bind (hR.foldlM hR.addTerm terms _) fun lc => commutes_enforce h lc
  | read ref =>
    exact .bind (hR.resolve ref) fun w => .bind (hR.valueOf hget w) fun v => .modify fun _ _ => rfl
  | fail kind message => exact .throw _

end Driver

section Run

variable {β γ α ι ι' : Type} {k : Backend β ι} {l : Backend γ ι'} {π : β → γ}

theorem Commutes.circuit_eq {x : Build β α} (hx : Commutes id x x) (s : Synthesis β) :
    (endState (x s)).circuit = s.circuit := by
  have h := congrArg (fun r => (endState r).circuit) (hx s s.circuit)
  rwa [endState_mapEnd] at h

/-- The synthesis with another circuit at the same pass, and the mapped state of the backend. -/
def into (d : Circuit) (π : β → γ) (s : Synthesis β) : Synthesis γ :=
  s.on (d.atPass s.circuit.runs) (π s.backend)

theorem Commutes.into_eq {x : Build β α} {y : Build γ α} (hxy : Commutes π x y)
    (hx : Commutes id x x) (d : Circuit) (s : Synthesis β) :
    y (s.into d π) = mapEnd (into d π) (x s) := by
  have hcircuit := hx.circuit_eq s
  rw [into, hxy]
  cases hr : x s <;> rw [hr] at hcircuit <;> simp only [mapEnd, into] <;> rw [← hcircuit] <;> rfl

/-- The synthesis of another circuit on another backend, whose next script does the same. -/
theorem run_commutes
    (hinput : Commutes π (allocInput k (Pure.pure 1)) (allocInput l (Pure.pure 1)))
    {c d : Circuit} (hruns : d.runs = c.runs)
    (hscript : Option.Rel (fun σ τ => Commutes π (σ.forM (step k)) (τ.forM (step l)))
      c.current d.current) (b : β) :
    run l d (π b) = mapEnd (into d π) (run k c b) := by
  have hk := Backend.Maps.refl k
  have hd : d.atPass c.runs = d := hruns ▸ rfl
  have hfirst := hinput.into_eq (commutes_allocInput hk (.pure 1)) d (start c b)
  have hstart : (start c b).into d π = start d (π b) := by
    rw [into, start, hd]
    rfl
  rw [hstart] at hfirst
  have hcircuit := (commutes_allocInput hk (.pure 1)).circuit_eq (start c b)
  cases hx : allocInput k (Pure.pure 1) (start c b) with
  | error e s =>
    have hrun : run k c b = .error e s := bind_error hx
    rw [hx] at hfirst
    rw [hrun]
    exact bind_error hfirst
  | ok w s =>
    rw [hx] at hfirst hcircuit
    obtain rfl : s.circuit = c := hcircuit
    have hrun : run k s.circuit b = (takePass >>= fun script => script.forM (step k)) s :=
      bind_ok hx
    refine (bind_ok hfirst).trans ?_
    rw [hrun]
    have hcurrent : (s.into d π).circuit.current = d.current := congrArg Circuit.current hd
    generalize hold : s.circuit.current = old, hnew : d.current = new at hscript
    cases hscript with
    | none =>
      rw [bind_error (takePass_none hold)]
      exact bind_error (takePass_none (hcurrent.trans hnew))
    | @some script script' hscript =>
      rw [bind_ok (takePass_some hold)]
      refine (bind_ok (takePass_some (hcurrent.trans hnew))).trans ?_
      exact hscript.into_eq (Commutes.parametric.forM (commutes_step hk) script) d
        { s with circuit := s.circuit.advance }

theorem run_map {l : Backend γ ι} (h : k.Maps l π) {c d : Circuit} (hruns : d.runs = c.runs)
    (hcurrent : d.current = c.current) (b : β) :
    run l d (π b) = mapEnd (into d π) (run k c b) := by
  refine run_commutes (commutes_allocInput h (.pure 1)) hruns ?_ b
  rw [hcurrent]
  cases c.current with
  | none => exact .none
  | some script => exact .some (Commutes.parametric.forM (commutes_step h) script)

end Run

end Synthesis

end SnarkBatch
