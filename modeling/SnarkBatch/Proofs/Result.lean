import SnarkBatch.Proofs.Field.Prime

/-!
# Results of stateful computations

A computation keeps its state when it fails. `endState` is the state that a result carries either
way, `outcome` is the rest; `mapEnd` changes the state only. `bind_ok` and `bind_error` run the
first part of a sequence, and `exists_of_run_ok` takes a sequence that has succeeded apart.
`forM_adds` runs a loop whose every step adds to a quantity, `forM_error` one that comes to a step
that fails, `exists_mapM` and `mapM_error` a map over a list. `Gives` says what the results of a computation have
in common, `FailsOnly` what its faults have.
-/

namespace SnarkBatch

variable {ε σ τ α β : Type}

def endState : EStateM.Result ε σ α → σ
  | .ok _ s => s
  | .error _ s => s

/-- A result without its state. -/
def outcome : EStateM.Result ε σ α → Except ε α
  | .ok a _ => .ok a
  | .error e _ => .error e

def mapEnd (f : σ → τ) : EStateM.Result ε σ α → EStateM.Result ε τ α
  | .ok a s => .ok a (f s)
  | .error e s => .error e (f s)

/-- The result with a given end state. -/
def withEnd (s : σ) : Except ε α → EStateM.Result ε σ α
  | .ok a => .ok a s
  | .error e => .error e s

@[simp] theorem endState_withEnd (s : σ) (r : Except ε α) : endState (withEnd s r) = s := by
  cases r <;> rfl

@[simp] theorem outcome_withEnd (s : σ) (r : Except ε α) : outcome (withEnd s r) = r := by
  cases r <;> rfl

theorem withEnd_outcome (r : EStateM.Result ε σ α) : withEnd (endState r) (outcome r) = r := by
  cases r <;> rfl

@[simp] theorem endState_mapEnd (f : σ → τ) (r : EStateM.Result ε σ α) :
    endState (mapEnd f r) = f (endState r) := by cases r <;> rfl

@[simp] theorem outcome_mapEnd (f : σ → τ) (r : EStateM.Result ε σ α) :
    outcome (mapEnd f r) = outcome r := by cases r <;> rfl

theorem mapEnd_id (r : EStateM.Result ε σ α) : mapEnd id r = r := by cases r <;> rfl

theorem mapEnd_congr {f g : σ → τ} {r : EStateM.Result ε σ α}
    (h : f (endState r) = g (endState r)) :
    mapEnd f r = mapEnd g r := by
  cases r <;> exact congrArg _ h

theorem eq_ok_of_outcome {r : EStateM.Result ε σ α} {a : α} (h : outcome r = .ok a) :
    r = .ok a (endState r) := by
  cases r with
  | ok _ _ => cases h; rfl
  | error _ _ => cases h

theorem bind_ok {x : EStateM ε σ α} {f : α → EStateM ε σ β} {s s' : σ} {a : α}
    (h : x s = .ok a s') : (x >>= f) s = f a s' := by
  show EStateM.bind x f s = f a s'
  rw [EStateM.bind, h]

theorem bind_error {x : EStateM ε σ α} {f : α → EStateM ε σ β} {s s' : σ} {e : ε}
    (h : x s = .error e s') : (x >>= f) s = .error e s' := by
  show EStateM.bind x f s = .error e s'
  rw [EStateM.bind, h]

theorem exists_of_run_ok {x : EStateM ε σ α} {f : α → EStateM ε σ β} {s s' : σ} {b : β}
    (h : (x >>= f) s = .ok b s') : ∃ a s₁, x s = .ok a s₁ ∧ f a s₁ = .ok b s' := by
  cases hx : x s with
  | ok a s₁ => exact ⟨a, s₁, rfl, (bind_ok hx).symm.trans h⟩
  | error e s₁ =>
    rw [bind_error hx] at h
    cases h

theorem mapEnd_bind {π : σ → τ} {x : EStateM ε σ α} {y : EStateM ε τ α} {f : α → EStateM ε σ β}
    {g : α → EStateM ε τ β} (hxy : ∀ s, y (π s) = mapEnd π (x s))
    (hfg : ∀ a s, g a (π s) = mapEnd π (f a s)) (s : σ) :
    (y >>= g) (π s) = mapEnd π ((x >>= f) s) := by
  have hy := hxy s
  cases hx : x s with
  | ok a s' =>
    rw [hx] at hy
    rw [bind_ok hx, bind_ok hy]
    exact hfg a s'
  | error e s' =>
    rw [hx] at hy
    rw [bind_error hx, bind_error hy]
    rfl

theorem bind_pure_eq (x : EStateM ε σ α) (f : α → β) (s : σ) :
    (x >>= fun a => pure (f a)) s = withEnd (endState (x s)) (outcome (x s) >>= fun a => .ok (f a)) := by
  cases h : x s with
  | ok a s' => exact bind_ok h
  | error e s' => exact bind_error h

theorem endState_bind {x : EStateM ε σ α} {f : α → EStateM ε σ β} {s : σ} {P : σ → Prop}
    (hx : P (endState (x s))) (hf : ∀ a s', P s' → P (endState (f a s'))) :
    P (endState ((x >>= f) s)) := by
  cases hr : x s with
  | ok a s' =>
    rw [bind_ok hr]
    rw [hr] at hx
    exact hf a s' hx
  | error e s' =>
    rw [bind_error hr]
    rw [hr] at hx
    exact hx

theorem get_bind (f : σ → EStateM ε σ β) (s : σ) : (get >>= f) s = f s s := rfl

theorem modify_bind (g : σ → σ) (f : Unit → EStateM ε σ β) (s : σ) :
    (modify g >>= f) s = f () (g s) := rfl

theorem ofExcept_bind {x : Except ε α} {a : α} (h : x = .ok a) (f : α → EStateM ε σ β) (s : σ) :
    (ofExcept x >>= f) s = f a s := by
  rw [h]
  rfl

theorem except_bind_ok {x : Except ε α} {a : α} (h : x = .ok a) (f : α → Except ε β) :
    x >>= f = f a := by
  rw [h]
  rfl

theorem exists_of_bind_ok {x : Except ε α} {f : α → Except ε β} {b : β} (h : x >>= f = .ok b) :
    ∃ a, x = .ok a ∧ f a = .ok b := by
  cases x with
  | ok a => exact ⟨a, rfl, h⟩
  | error e => cases h

/-! ## Results that have a property -/

/-- The computation fails, or its result has `Q`. -/
def Gives (Q : α → Prop) (x : Except ε α) : Prop := ∀ a, x = .ok a → Q a

namespace Gives

variable {Q : β → Prop}

theorem pure {b : β} (h : Q b) : Gives Q (.ok b : Except ε β) := by
  rintro _ ⟨⟩
  exact h

theorem error (e : ε) : Gives Q (.error e) := fun _ h => by cases h

theorem bind {x : Except ε α} {f : α → Except ε β} {P : α → Prop} (hx : Gives P x)
    (hf : ∀ a, P a → Gives Q (f a)) : Gives Q (x >>= f) := by
  cases x with
  | ok a => exact hf a (hx a rfl)
  | error e => exact error e

theorem of_forall {x : Except ε α} {f : α → Except ε β} (hf : ∀ a, Gives Q (f a)) :
    Gives Q (x >>= f) :=
  bind (P := fun _ => True) (fun _ _ => trivial) fun a _ => hf a

theorem mapM {f : α → Except ε β} {R : α → β → Prop} {items : List α}
    (hf : ∀ a ∈ items, Gives (R a) (f a)) : Gives (List.Forall₂ R items) (items.mapM f) := by
  induction items with
  | nil => exact pure .nil
  | cons a items ih =>
    obtain ⟨hhead, htail⟩ := List.forall_mem_cons.1 hf
    rw [List.mapM_cons]
    exact bind hhead fun b hb => bind (ih htail) fun bs hbs => pure (.cons hb hbs)

end Gives

theorem exists_mapM {γ : Type} {f : α → Except ε β} {R : β → γ → Prop} {items : List α} {cs : List γ}
    (h : List.Forall₂ (fun a c => ∃ b, f a = .ok b ∧ R b c) items cs) :
    ∃ bs, items.mapM f = .ok bs ∧ List.Forall₂ R bs cs := by
  induction h with
  | nil => exact ⟨[], rfl, .nil⟩
  | cons hhead _ ih =>
    obtain ⟨b, hb, hR⟩ := hhead
    obtain ⟨bs, hbs, hRs⟩ := ih
    refine ⟨b :: bs, ?_, .cons hR hRs⟩
    rw [List.mapM_cons, hb, hbs]
    rfl

/-- A map over a list fails with the fault of the first item that has one. -/
theorem mapM_error {f : α → Except ε β} {before after : List α} {a : α} {e : ε}
    (hbefore : ∀ b ∈ before, ∃ r, f b = .ok r) (ha : f a = .error e) :
    (before ++ a :: after).mapM f = .error e := by
  induction before with
  | nil =>
    rw [List.nil_append, List.mapM_cons, ha]
    rfl
  | cons b before ih =>
    obtain ⟨⟨r, hb⟩, hbefore⟩ := List.forall_mem_cons.1 hbefore
    rw [List.cons_append, List.mapM_cons, hb, ih hbefore]
    rfl

/-! ## Faults that have a property -/

/-- Every fault of the computation has `P`. -/
def FailsOnly (P : ε → Prop) (x : EStateM ε σ α) : Prop := ∀ s e, outcome (x s) = .error e → P e

namespace FailsOnly

variable {P : ε → Prop}

theorem pure (a : α) : FailsOnly P (Pure.pure a : EStateM ε σ α) := fun _ _ h => by cases h

theorem throw {e : ε} (h : P e) : FailsOnly P (MonadExcept.throw e : EStateM ε σ α) := by
  rintro s _ ⟨⟩
  exact h

/-- What would follow a fault does not matter. -/
theorem throw_bind {e : ε} (h : P e) {f : α → EStateM ε σ β} :
    FailsOnly P (MonadExcept.throw e >>= f) := by
  rintro s _ ⟨⟩
  exact h

theorem modify (f : σ → σ) : FailsOnly P (modify f : EStateM ε σ Unit) := fun _ _ h => by cases h

theorem set (s : σ) : FailsOnly P (set s : EStateM ε σ PUnit) := fun _ _ h => by cases h

theorem get_bind {f : σ → EStateM ε σ β} (hf : ∀ s, FailsOnly P (f s)) : FailsOnly P (get >>= f) :=
  fun s => hf s s

theorem bind {x : EStateM ε σ α} {f : α → EStateM ε σ β} (hx : FailsOnly P x)
    (hf : ∀ a, FailsOnly P (f a)) : FailsOnly P (x >>= f) := by
  intro s e h
  cases hr : x s with
  | ok a s' =>
    rw [bind_ok hr] at h
    exact hf a s' e h
  | error e' s' =>
    rw [bind_error hr] at h
    cases h
    exact hx s e (congrArg outcome hr)

theorem ofExcept {x : Except ε α} (hx : ∀ e, x = .error e → P e) :
    FailsOnly P (ofExcept x : EStateM ε σ α) := by
  cases x with
  | ok a => exact pure a
  | error e => exact throw (hx e rfl)

theorem mapM {f : β → EStateM ε σ α} (hf : ∀ b, FailsOnly P (f b)) (bs : List β) :
    FailsOnly P (bs.mapM f) := by
  induction bs with
  | nil => exact pure []
  | cons b bs ih =>
    rw [List.mapM_cons]
    exact bind (hf b) fun a => bind ih fun as => pure (a :: as)

theorem foldlM {f : α → β → EStateM ε σ α} (hf : ∀ a b, FailsOnly P (f a b)) (bs : List β) (a : α) :
    FailsOnly P (bs.foldlM f a) := by
  induction bs generalizing a with
  | nil => exact pure a
  | cons b bs ih =>
    rw [List.foldlM_cons]
    exact bind (hf a b) ih

theorem forM {f : β → EStateM ε σ Unit} (hf : ∀ b, FailsOnly P (f b)) (bs : List β) :
    FailsOnly P (bs.forM f) := by
  induction bs with
  | nil => exact pure ()
  | cons b bs ih => exact bind (hf b) fun _ => ih

end FailsOnly

/-! ## Loops -/

/-- A loop adds up what its steps add to the measure `L`, and keeps the invariant `P` of each. -/
theorem forM_adds {M : Type} [AddCommMonoid M] {step : α → EStateM ε σ Unit} {P : σ → Prop}
    {L : σ → M} {f : α → M} {items : List α}
    (h : ∀ a ∈ items, ∀ s, P s → ∃ s', step a s = .ok () s' ∧ P s' ∧ L s' = L s + f a) {s : σ}
    (hs : P s) : ∃ s', items.forM step s = .ok () s' ∧ P s' ∧ L s' = L s + (items.map f).sum := by
  induction items generalizing s with
  | nil => exact ⟨s, rfl, hs, (add_zero _).symm⟩
  | cons a items ih =>
    obtain ⟨hhead, htail⟩ := List.forall_mem_cons.1 h
    obtain ⟨s₁, hrun₁, hs₁, hL₁⟩ := hhead s hs
    obtain ⟨s₂, hrun₂, hs₂, hL₂⟩ := ih htail hs₁
    refine ⟨s₂, (bind_ok hrun₁).trans hrun₂, hs₂, ?_⟩
    rw [hL₂, hL₁, List.map_cons, List.sum_cons, add_assoc]

/-- A loop fails with the first fault of its items, where the other items keep the invariant `P`. -/
theorem forM_error {step : α → EStateM ε σ Unit} {P : σ → Prop} {fault : α → Option ε}
    (hgood : ∀ a, fault a = none → ∀ s, P s → ∃ s', step a s = .ok () s' ∧ P s')
    (hbad : ∀ a e, fault a = some e → ∀ s, P s → ∃ s', step a s = .error e s') {items : List α}
    {e : ε} (h : items.findSome? fault = some e) {s : σ} (hs : P s) :
    ∃ s', items.forM step s = .error e s' := by
  induction items generalizing s with
  | nil => cases h
  | cons a items ih =>
    rw [List.findSome?_cons] at h
    cases ha : fault a with
    | some e' =>
      rw [ha] at h
      obtain ⟨s₁, hrun₁⟩ := hbad a e (ha.trans h) s hs
      exact ⟨s₁, bind_error hrun₁⟩
    | none =>
      rw [ha] at h
      obtain ⟨s₁, hrun₁, hs₁⟩ := hgood a ha s hs
      obtain ⟨s₂, hrun₂⟩ := ih h hs₁
      exact ⟨s₂, (bind_ok hrun₁).trans hrun₂⟩

end SnarkBatch
