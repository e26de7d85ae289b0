import SnarkBatch.Circuit.Synthesis
import SnarkBatch.Proofs.Result

/-!
# How often callbacks run

The values of wires reach the driver as callbacks: computations that it may run or not, now or later.
`Synthesis.RunsOnce` says of a call that it runs its callback at most once. So do the three calls of
the constraint system that take one, on every backend.
-/

namespace SnarkBatch.Synthesis

variable {β ι α α' γ : Type}

/-- The call runs its callback at most once, and in a state that does not depend on it: what comes of
the call is made of what comes of the callback there. -/
def RunsOnce (call : Build β γ → Build β α) : Prop :=
  ∀ s, ∃ s₁, ∃ use : EStateM.Result Fault (Synthesis β) γ → EStateM.Result Fault (Synthesis β) α,
    ∀ callback, call callback s = use (callback s₁)

namespace RunsOnce

theorem self : RunsOnce fun callback : Build β γ => callback := fun s => ⟨s, id, fun _ => rfl⟩

theorem const (x : Build β α) : RunsOnce fun _ : Build β γ => x := fun s =>
  ⟨s, fun _ => x s, fun _ => rfl⟩

/-- What follows the call does not run the callback. -/
theorem bind {call : Build β γ → Build β α} (h : RunsOnce call) (f : α → Build β α') :
    RunsOnce fun callback => call callback >>= f := by
  intro s
  obtain ⟨s₁, use, huse⟩ := h s
  refine ⟨s₁, fun r => match use r with
    | .ok a t => f a t
    | .error e t => .error e t, fun callback => ?_⟩
  show EStateM.bind (call callback) f s = _
  rw [EStateM.bind, huse]
  dsimp only
  cases use (callback s₁) <;> rfl

/-- What precedes the call does not run the callback. -/
theorem after (x : Build β α) {call : α → Build β γ → Build β α'} (h : ∀ a, RunsOnce (call a)) :
    RunsOnce fun callback => x >>= fun a => call a callback := by
  intro s
  cases hx : x s with
  | ok a t =>
    obtain ⟨s₁, use, huse⟩ := h a t
    exact ⟨s₁, use, fun callback => (bind_ok hx).trans (huse callback)⟩
  | error e t => exact ⟨s, fun _ => .error e t, fun _ => bind_error hx⟩

end RunsOnce

variable (k : Backend β ι)

theorem assign_runsOnce {call : Build β γ → Build β Fr} (h : RunsOnce call) (w : Wire) :
    RunsOnce fun callback => assign k w (call callback) := by
  unfold assign
  split
  · exact h.bind _
  · exact .const _

/-! ## The calls of the constraint system -/

theorem alloc_runsOnce : RunsOnce (alloc k) := by
  refine .after get fun s => ?_
  cases s.pending with
  | none => exact .after (newGate k) fun gate => (assign_runsOnce k .self _).bind _
  | some gate =>
    exact .after (getValue k _) fun left =>
      (assign_runsOnce k (RunsOnce.self.bind _) _).bind _

theorem allocInput_runsOnce : RunsOnce (allocInput k) := (alloc_runsOnce k).bind _

theorem multiply_runsOnce : RunsOnce (multiply k) := by
  refine .after (newGate k) fun gate => ?_
  dsimp only
  split
  · exact RunsOnce.self.bind _
  · exact .const _

end SnarkBatch.Synthesis
