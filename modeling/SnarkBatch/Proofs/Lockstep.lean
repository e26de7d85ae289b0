import SnarkBatch.Proofs.Result

/-!
# Computations side by side

Two computations run in lockstep if from related states both come to results, related again, or
both fail, with faults and states that are related in some way of their own (`Lockstep`). Often the
faults are the same and the states are related as before (`Matches`). Both go through sequences of
computations and through loops.
-/

namespace SnarkBatch

variable {ε ε' σ τ α β α' β' : Type}

/-- Results related by `Q` in states related by `S`, or faults with states related by `E`. -/
inductive Alike (S : σ → τ → Prop) (E : ε → σ → ε' → τ → Prop) (Q : α → β → Prop) :
    EStateM.Result ε σ α → EStateM.Result ε' τ β → Prop
  | ok {a : α} {b : β} {s : σ} {t : τ} : Q a b → S s t → Alike S E Q (.ok a s) (.ok b t)
  | error {e : ε} {e' : ε'} {s : σ} {t : τ} : E e s e' t → Alike S E Q (.error e s) (.error e' t)

/-- From related states the computations end alike. -/
def Lockstep (S : σ → τ → Prop) (E : ε → σ → ε' → τ → Prop) (Q : α → β → Prop)
    (x : EStateM ε σ α) (y : EStateM ε' τ β) : Prop :=
  ∀ s t, S s t → Alike S E Q (x s) (y t)

namespace Lockstep

variable {S : σ → τ → Prop} {E : ε → σ → ε' → τ → Prop} {Q : α → β → Prop} {Q' : α' → β' → Prop}

theorem pure {a : α} {b : β} (h : Q a b) :
    Lockstep S E Q (Pure.pure a) (Pure.pure b) := fun _ _ hst => .ok h hst

theorem throw {e : ε} {e' : ε'} (h : ∀ s t, S s t → E e s e' t) :
    Lockstep S E Q (MonadExcept.throw e) (MonadExcept.throw e') :=
  fun s t hst => .error (h s t hst)

theorem bind {x : EStateM ε σ α} {y : EStateM ε' τ β} {f : α → EStateM ε σ α'}
    {g : β → EStateM ε' τ β'} (hxy : Lockstep S E Q x y)
    (hfg : ∀ a b, Q a b → Lockstep S E Q' (f a) (g b)) : Lockstep S E Q' (x >>= f) (y >>= g) := by
  intro s t hst
  have h := hxy s t hst
  generalize hx : x s = r, hy : y t = r' at h
  cases h with
  | ok hab hst' =>
    rw [bind_ok hx, bind_ok hy]
    exact hfg _ _ hab _ _ hst'
  | error he =>
    rw [bind_error hx, bind_error hy]
    exact .error he

theorem modify {f : σ → σ} {g : τ → τ} (hfg : ∀ s t, S s t → S (f s) (g t)) :
    Lockstep S E Eq (modify f) (modify g) :=
  fun s t hst => .ok rfl (hfg s t hst)

theorem get_bind {f : σ → EStateM ε σ α} {g : τ → EStateM ε' τ β}
    (hfg : ∀ s t, S s t → Lockstep S E Q (f s) (g t)) :
    Lockstep S E Q (get >>= f) (get >>= g) := fun s t hst => hfg s t hst s t hst

theorem forM {R : α → β → Prop} {step : α → EStateM ε σ Unit} {step' : β → EStateM ε' τ Unit}
    {as : List α} {bs : List β} (h : List.Forall₂ R as bs)
    (hstep : ∀ a b, R a b → Lockstep S E Eq (step a) (step' b)) :
    Lockstep S E Eq (as.forM step) (bs.forM step') := by
  induction h with
  | nil => exact pure rfl
  | cons hhead _ ih => exact bind (hstep _ _ hhead) fun _ _ _ => ih

end Lockstep

/-- In lockstep, with the same fault and related states where both fail. -/
abbrev Matches (S : σ → τ → Prop) (Q : α → β → Prop) (x : EStateM ε σ α) (y : EStateM ε τ β) :
    Prop :=
  Lockstep S (fun e s e' t => e = e' ∧ S s t) Q x y

namespace Matches

variable {γ : Type} {S : σ → τ → Prop} {Q : α → β → Prop}

theorem throw (e : ε) :
    Matches S Q (MonadExcept.throw e : EStateM ε σ α) (MonadExcept.throw e : EStateM ε τ β) :=
  Lockstep.throw fun _ _ hst => ⟨rfl, hst⟩

theorem ofExcept (x : Except ε α) :
    Matches S Eq (ofExcept x : EStateM ε σ α) (ofExcept x : EStateM ε τ α) := by
  cases x with
  | ok a => exact Lockstep.pure rfl
  | error e => exact throw e

/-- What both compute first without a state need not be looked at. -/
theorem bind_same (x : Except ε γ) {f : γ → EStateM ε σ α} {g : γ → EStateM ε τ β}
    (hfg : ∀ c, Matches S Q (f c) (g c)) :
    Matches S Q (MonadExcept.ofExcept x >>= f) (MonadExcept.ofExcept x >>= g) := by
  refine Lockstep.bind (ofExcept x) ?_
  rintro c _ rfl
  exact hfg c

theorem outcome_eq {x : EStateM ε σ α} {y : EStateM ε τ α} (hxy : Matches S Eq x y) {s : σ} {t : τ}
    (hst : S s t) : outcome (x s) = outcome (y t) ∧ S (endState (x s)) (endState (y t)) := by
  have h := hxy s t hst
  generalize x s = r, y t = r' at h
  cases h with
  | ok hab hst' => exact ⟨congrArg Except.ok hab, hst'⟩
  | error he => exact ⟨congrArg Except.error he.1, he.2⟩

end Matches

end SnarkBatch
