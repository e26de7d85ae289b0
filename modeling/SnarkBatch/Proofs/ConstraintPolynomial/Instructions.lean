import SnarkBatch.Proofs.ConstraintPolynomial.AtX

/-!
# Accumulators that are told anything

A synthesis tells an accumulator its constraints in order, and stops at the first term that is
refused. Someone else may tell it anything and go on after a refusal: terms without a constraint, on
any wire, at any place. `AtY.reached` and `AtX.reached` are the states that come of it. In all of
them the rows have the lengths they were made with, and evaluation agrees with the list of
coefficients that a prover commits to (`eval_eq_eval_row`).
-/

namespace SnarkBatch

/-- What an accumulator can be told. A term comes with the place of its constraint, if it has one. -/
inductive Instruction (ι : Type)
  | constraint
  | term (wire : Wire) (coeff : Coeff) (place : Option ι)
  deriving DecidableEq, Repr

/-- Evaluation on both sides of the constant term is evaluation of one list of coefficients. -/
theorem Laurent.eval_twoSided {negative positive : List Fr} {n : Nat} (h : negative.length = n)
    {p : Fr} (hp : p ≠ 0) :
    Laurent.eval ⟨negative.reverse ++ 0 :: positive, -n⟩ p =
      evalPowers negative p⁻¹ p⁻¹ + evalPowers positive p p := by
  subst h
  have heval := Laurent.eval_eq ⟨negative.reverse ++ 0 :: positive, -negative.length⟩ (.mk0 p hp)
  rw [Laurent.series, series_reverse_append, evalAt_twoSided] at heval
  exact heval

/-! ## The accumulator at a fixed `Y` -/

namespace AtY

def follow : Instruction Fr → EStateM Fault AtY Unit
  | .constraint => do
    let _ ← newConstraint
  | .term w c power => insertTerm w c power

/-- The state after a list of instructions, each followed as far as it can be. -/
def reached (s : AtY) (told : List (Instruction Fr)) : AtY :=
  told.foldl (fun s i => endState (follow i s)) s

theorem insertTerm_cases (w : Wire) (c : Coeff) (power : Option Fr) (s : AtY) :
    (∃ e, insertTerm w c power s = .error e s) ∨
      ∃ u v w', insertTerm w c power s = .ok () { s with u := u, v := v, w := w' } ∧
        u.length = s.u.length ∧ v.length = s.v.length ∧ w'.length = s.w.length := by
  unfold insertTerm
  rw [get_bind]
  split
  · exact .inl ⟨_, rfl⟩
  · cases hterm : c.times power with
    | error e =>
      refine .inl ?_
      cases w.kind <;> exact ⟨_, rfl⟩
    | ok term =>
      cases w.kind with
      | a => exact .inr ⟨_, s.v, s.w, rfl, List.length_modify .., rfl, rfl⟩
      | b => exact .inr ⟨s.u, _, s.w, rfl, rfl, List.length_modify .., rfl⟩
      | c => exact .inr ⟨s.u, s.v, _, rfl, rfl, rfl, List.length_modify ..⟩
      | other name => exact .inl ⟨_, rfl⟩

/-- An accumulator that has been told of some constraints, and of any terms. -/
structure Told (y : Fr) (n opened : Nat) (s : AtY) : Prop extends Sized y n (y ^ (n + opened)) s where
  constraints_eq : s.constraints = opened

theorem Told.term {y : Fr} {n opened : Nat} {s : AtY} (hs : s.Told y n opened) (w : Wire)
    (c : Coeff) (power : Option Fr) : (endState (insertTerm w c power s)).Told y n opened := by
  rcases insertTerm_cases w c power s with ⟨e, h⟩ | ⟨u, v, w', h, hu, hv, hw⟩
  · rw [h]
    exact hs
  · rw [h]
    exact ⟨⟨hs.y_eq, hs.gates_eq, hs.power_eq, hu.trans hs.length_u, hv.trans hs.length_v,
      hw.trans hs.length_w⟩, hs.constraints_eq⟩

theorem Told.constraint {y : Fr} {n opened : Nat} {s : AtY} (hs : s.Told y n opened) :
    s.opened.Told y n (opened + 1) := by
  refine ⟨⟨hs.y_eq, hs.gates_eq, ?_, hs.length_u, hs.length_v, hs.length_w⟩, ?_⟩
  · show s.power * s.y = _
    rw [hs.power_eq, hs.y_eq, ← pow_succ, add_assoc]
  · exact congrArg (· + 1) hs.constraints_eq

theorem Told.reached {y : Fr} {n opened : Nat} {s : AtY} (hs : s.Told y n opened)
    (told : List (Instruction Fr)) :
    (s.reached told).Told y n (opened + told.count .constraint) := by
  induction told generalizing s opened with
  | nil => exact hs
  | cons i told ih =>
    cases i with
    | constraint =>
      rw [List.count_cons_self, add_comm (told.count _), ← add_assoc]
      exact ih hs.constraint
    | term w c power =>
      rw [List.count_cons_of_ne (by simp)]
      exact ih (hs.term w c power)

end AtY

/-! ## The accumulator at a fixed `X` -/

namespace AtX

def follow : Instruction Int → EStateM Fault AtX Unit
  | .constraint => do
    let _ ← newConstraint
  | .term w c number => insertTerm w c number

/-- The state after a list of instructions, each followed as far as it can be. -/
def reached (s : AtX) (told : List (Instruction Int)) : AtX :=
  told.foldl (fun s i => endState (follow i s)) s

variable {x : Fr} {n q opened : Nat} {s : AtX}

/-- A term is refused and changes nothing, or it is on a wire of a gate and its number says which
coefficient it is added to. -/
theorem Sized.term_cases (hs : s.Sized x n q opened) (w : Wire) (c : Coeff)
    (number : Option Int) :
    (∃ e, insertTerm w c number s = .error e s) ∨
      ∃ j i, number = some j ∧ position? (n + q) (n + j - 1) = some i ∧
        insertTerm w c number s =
          .ok () { s with positive := s.positive.modify i (· + c.value * x ^ w.exponent n) } := by
  by_cases hrange : 1 ≤ w.index ∧ w.index ≤ s.gates
  · by_cases hkind : w.kind = .a ∨ w.kind = .b ∨ w.kind = .c
    · cases number with
      | none => exact .inl (insertTerm_refused (.inr rfl) c)
      | some j =>
        have hw : w.InGates n := ⟨hkind, hrange.1, hs.gates_eq ▸ hrange.2⟩
        rw [insertTerm_on_gate hkind hrange, row_getD hs hw, hs.length_positive, hs.gates_eq]
        cases hposition : position? (n + q) (n + j - 1) with
        | none => exact .inl ⟨_, rfl⟩
        | some i =>
          by_cases hc : c = .full none
          · subst hc
            exact .inl ⟨_, rfl⟩
          · rw [Coeff.times_some hc]
            exact .inr ⟨j, i, rfl, hposition, rfl⟩
    · refine .inl (insertTerm_refused (.inl ?_) c)
      cases hname : w.kind with
      | other name => exact ⟨name, rfl⟩
      | _ => simp [hname] at hkind
  · exact .inl ⟨_, insertTerm_off_gate hrange c number⟩

theorem Sized.term (hs : s.Sized x n q opened) (w : Wire) (c : Coeff) (number : Option Int) :
    (endState (insertTerm w c number s)).Sized x n q opened := by
  rcases hs.term_cases w c number with ⟨e, h⟩ | ⟨j, i, -, -, h⟩
  · rw [h]
    exact hs
  · rw [h]
    exact hs.modify _ _

/-- A constraint is counted whether or not there is room for it. -/
theorem endState_follow_constraint (s : AtX) : endState (follow .constraint s) = s.opened := by
  rw [follow, bind_pure_eq, endState_withEnd]
  rcases le_or_gt ((s.constraints + 1 : Nat) : Int) s.limit with h | h
  · rw [newConstraint_eq h]
    rfl
  · rw [newConstraint_error h]
    rfl

theorem Sized.constraint (hs : s.Sized x n q opened) : s.opened.Sized x n q (opened + 1) :=
  ⟨hs.gates_eq, hs.limit_eq, congrArg (· + 1) hs.constraints_eq, hs.left_eq, hs.right_eq,
    hs.output_eq, hs.length_positive, hs.length_negative⟩

theorem Sized.reached (hs : s.Sized x n q opened) (told : List (Instruction Int)) :
    (s.reached told).Sized x n q (opened + told.count .constraint) := by
  induction told generalizing s opened with
  | nil => exact hs
  | cons i told ih =>
    cases i with
    | constraint =>
      rw [List.count_cons_self, add_comm (told.count _), ← add_assoc]
      rw [AtX.reached, List.foldl_cons, endState_follow_constraint]
      exact ih hs.constraint
    | term w c number =>
      rw [List.count_cons_of_ne (by simp)]
      exact ih (hs.term w c number)

end AtX

/-! ## Evaluation and coefficients -/

/-- Whatever an accumulator has been told, and whatever it has refused: its coefficients are as many
as it was made for, and it evaluates to the Laurent polynomial that they make up, with the constant
term left out. The accumulator at a fixed `Y` stands at the power of the last constraint opened. -/
theorem eval_eq_eval_row (n q : Nat) :
    (∀ y : Fr, y ≠ 0 → ∀ told : List (Instruction Fr), ∃ s t, AtY.start y n = .ok s ∧
      t = s.reached told ∧ t.negative.length = n ∧ t.positive.length = 2 * n ∧
      t.constraints = told.count .constraint ∧ t.power = y ^ (n + told.count .constraint) ∧
      ∀ x : Fr, x ≠ 0 →
        t.eval x = .ok (Laurent.eval ⟨t.negative.reverse ++ 0 :: t.positive, -n⟩ x)) ∧
    (∀ x : Fr, x ≠ 0 → ∀ told : List (Instruction Int), ∃ s t, AtX.start x n q = .ok s ∧
      t = s.reached told ∧ t.negative.length = n ∧ t.positive.length = n + q ∧
      ∀ y : Fr, y ≠ 0 →
        t.eval y = .ok (Laurent.eval ⟨t.negative.reverse ++ 0 :: t.positive, -n⟩ y)) := by
  constructor
  · intro y hy told
    obtain ⟨s, hstart, hs⟩ := AtY.start_holds hy n
    have hfresh : s.Told y n 0 := ⟨hs.toSized, hs.constraints_eq⟩
    have ht := hfresh.reached told
    rw [Nat.zero_add] at ht
    have hnegative : (s.reached told).negative.length = n := ht.length_u
    refine ⟨s, s.reached told, hstart, rfl, hnegative, ?_, ht.constraints_eq, ht.power_eq,
      fun x hx => ?_⟩
    · rw [AtY.positive, List.length_append, ht.length_v, ht.length_w, two_mul]
    · rw [AtY.eval, if_neg hx, Laurent.eval_twoSided hnegative hx]
  · intro x hx told
    obtain ⟨s, hstart, hs⟩ := AtX.start_holds hx n q
    have ht := hs.toSized.reached told
    refine ⟨s, s.reached told, hstart, rfl, ht.length_negative, ht.length_positive, fun y hy => ?_⟩
    rw [AtX.eval, if_neg hy, Laurent.eval_twoSided ht.length_negative hy, add_comm]

/-- With terms that are refused, and with more constraints than there is room for. -/
theorem eval_eq_eval_row_refusals :
    (∃ s t, AtY.start 2 1 = .ok s ∧
      t = s.reached [.term ⟨.a, 1⟩ (.one none) none, .constraint, .term ⟨.c, 1⟩ (.full (some 5)) (some 7),
        .term ⟨.b, 9⟩ (.one none) (some 4)] ∧
      t.power = 4 ∧ t.eval 3 = .ok (Laurent.eval ⟨t.negative.reverse ++ 0 :: t.positive, -1⟩ 3)) ∧
    ∃ s t, AtX.start 2 1 0 = .ok s ∧
      t = s.reached [.constraint, .term ⟨.b, 1⟩ (.negOne none) (some 0), .term ⟨.a, 1⟩ (.one none) (some 1)] ∧
      t.positive.length = 1 ∧
      t.eval 3 = .ok (Laurent.eval ⟨t.negative.reverse ++ 0 :: t.positive, -1⟩ 3) := by
  constructor
  · obtain ⟨s, t, hstart, ht, -, -, -, hpower, heval⟩ :=
      (eval_eq_eval_row 1 0).1 2 (by decide +kernel) [.term ⟨.a, 1⟩ (.one none) none, .constraint,
        .term ⟨.c, 1⟩ (.full (some 5)) (some 7), .term ⟨.b, 9⟩ (.one none) (some 4)]
    exact ⟨s, t, hstart, ht, hpower.trans (by decide +kernel), heval 3 (by decide +kernel)⟩
  · obtain ⟨s, t, hstart, ht, -, hlength, heval⟩ :=
      (eval_eq_eval_row 1 0).2 2 (by decide +kernel) [.constraint,
        .term ⟨.b, 1⟩ (.negOne none) (some 0), .term ⟨.a, 1⟩ (.one none) (some 1)]
    exact ⟨s, t, hstart, ht, hlength, heval 3 (by decide +kernel)⟩

end SnarkBatch
