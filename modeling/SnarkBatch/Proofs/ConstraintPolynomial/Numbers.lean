import SnarkBatch.Proofs.ConstraintPolynomial.Instructions

/-!
# Constraint numbers

The coefficients of the powers of `Y` that belong to the fixed part of `s(x, Y)`, and those that
belong to the constraints, stand in one list, and the number of a constraint says where in it a term
goes. The accumulator checks the gate of a term but not its number. Numbers that no constraint has
are places all the same: 0 and those below it reach the fixed part, and those further below the
constraints again, from the end of the list (`AtX.coefficient_of_number`). With the numbers that
`AtX.newConstraint` gives out, every term stays with its constraint.
-/

namespace SnarkBatch

/-- The term with its number, if it was taken. -/
def Instruction.taken : Instruction Int → Except Fault Unit → List (Wire × Coeff × Int)
  | .term w c (some j), .ok () => [(w, c, j)]
  | _, _ => []

@[simp] theorem Instruction.taken_constraint (r : Except Fault Unit) :
    (constraint : Instruction Int).taken r = [] := rfl

@[simp] theorem Instruction.taken_error (i : Instruction Int) (e : Fault) :
    i.taken (.error e) = [] := by
  cases i with
  | constraint => rfl
  | term w c number => cases number <;> rfl

namespace AtX

/-- The terms that were taken, with their numbers, oldest first. -/
def accepted (s : AtX) : List (Instruction Int) → List (Wire × Coeff × Int)
  | [] => []
  | i :: told => i.taken (outcome (follow i s)) ++ accepted (endState (follow i s)) told

/-- What terms with certain numbers add up to: each is worth its coefficient times its wire at `x`.
-/
def worth (n : Nat) (x : Fr) (terms : List (Wire × Coeff × Int)) (p : Int → Prop)
    [DecidablePred p] : Fr :=
  ((terms.filter fun term => p term.2.2).map fun term => term.2.1.value * x ^ term.1.exponent n).sum

theorem worth_append (n : Nat) (x : Fr) (terms terms' : List (Wire × Coeff × Int)) (p : Int → Prop)
    [DecidablePred p] : worth n x (terms ++ terms') p = worth n x terms p + worth n x terms' p := by
  rw [worth, List.filter_append, List.map_append, List.sum_append]
  rfl

theorem worth_congr {n : Nat} {x : Fr} {terms : List (Wire × Coeff × Int)} {p p' : Int → Prop}
    [DecidablePred p] [DecidablePred p'] (h : ∀ term ∈ terms, p term.2.2 ↔ p' term.2.2) :
    worth n x terms p = worth n x terms p' := by
  unfold worth
  rw [List.filter_congr fun term hterm => decide_eq_decide.2 (h term hterm)]

theorem worth_eq_zero {n : Nat} {x : Fr} {terms : List (Wire × Coeff × Int)} {p : Int → Prop}
    [DecidablePred p] (h : ∀ term ∈ terms, ¬ p term.2.2) : worth n x terms p = 0 := by
  have hnone : (terms.filter fun term => p term.2.2) = [] :=
    List.filter_eq_nil_iff.2 fun term hterm => by simpa using h term hterm
  rw [worth, hnone]
  rfl

variable {x : Fr} {n q opened : Nat} {s : AtX}

/-- The coefficient that a number reaches: that of `Y^(n + j)`, or one from the end of the list. -/
theorem position?_number {j : Int} {i : Nat} :
    position? (n + q) (n + j - 1) = some i ↔
      i < n + q ∧ (n + j = i + 1 ∨ 2 * n + q + j = i + 1) := by
  rw [position?_eq_some_iff]
  push_cast
  omega

/-- One instruction adds what it is worth, if it is taken. -/
theorem Sized.follow_positive (hs : s.Sized x n q opened) (i : Instruction Int) {k : Nat}
    (hk : k < n + q) :
    (endState (follow i s)).positive.getD k 0 = s.positive.getD k 0 +
      worth n x (i.taken (outcome (follow i s))) fun j => n + j = k + 1 ∨ 2 * n + q + j = k + 1 := by
  have hnothing : ∀ p : Int → Prop, [DecidablePred p] →
      s.positive.getD k 0 = s.positive.getD k 0 + worth n x [] p := fun p _ => (add_zero _).symm
  cases i with
  | constraint =>
    rw [endState_follow_constraint, Instruction.taken_constraint]
    exact hnothing _
  | term w c number =>
    rw [follow]
    rcases hs.term_cases w c number with ⟨e, h⟩ | ⟨j, i, rfl, hposition, h⟩
    · rw [h, outcome, Instruction.taken_error]
      exact hnothing _
    · rw [h]
      obtain ⟨hi, hnumber⟩ := position?_number.1 hposition
      have hlength := hs.length_positive
      simp only [endState, outcome, Instruction.taken, worth, List.filter_singleton]
      by_cases hik : i = k
      · subst hik
        rw [decide_eq_true hnumber]
        simp [List.getD_eq_getElem?_getD, hlength, hk]
      · rw [decide_eq_false (by omega)]
        simp [List.getD_eq_getElem?_getD, hik]

theorem Sized.follow_negative (hs : s.Sized x n q opened) (i : Instruction Int) :
    (endState (follow i s)).negative = s.negative := by
  cases i with
  | constraint =>
    rw [endState_follow_constraint]
    rfl
  | term w c number =>
    rw [follow]
    rcases hs.term_cases w c number with ⟨e, h⟩ | ⟨j, i, -, -, h⟩
    · rw [h]
      rfl
    · rw [h]
      rfl

theorem Sized.follow (hs : s.Sized x n q opened) (i : Instruction Int) :
    ∃ opened', (endState (AtX.follow i s)).Sized x n q opened' := by
  cases i with
  | constraint => exact ⟨opened + 1, endState_follow_constraint s ▸ hs.constraint⟩
  | term w c number => exact ⟨opened, hs.term w c number⟩

/-- A list of instructions adds what the terms that it got taken are worth. -/
theorem Sized.reached_positive (hs : s.Sized x n q opened) (told : List (Instruction Int)) {k : Nat}
    (hk : k < n + q) :
    (s.reached told).positive.getD k 0 = s.positive.getD k 0 +
      worth n x (s.accepted told) fun j => n + j = k + 1 ∨ 2 * n + q + j = k + 1 := by
  induction told generalizing s opened with
  | nil => exact (add_zero _).symm
  | cons i told ih =>
    obtain ⟨opened', hnext⟩ := hs.follow i
    rw [accepted, worth_append, ← add_assoc, ← hs.follow_positive i hk]
    exact ih hnext

theorem Sized.reached_negative (hs : s.Sized x n q opened) (told : List (Instruction Int)) :
    (s.reached told).negative = s.negative := by
  induction told generalizing s opened with
  | nil => rfl
  | cons i told ih =>
    obtain ⟨opened', hnext⟩ := hs.follow i
    exact (ih hnext).trans (hs.follow_negative i)

/-- A term on a wire of a gate, with a coefficient, is taken just if its number has a place. -/
theorem Sized.insertTerm_of_inGates (hs : s.Sized x n q opened) {w : Wire} (hw : w.InGates n)
    {c : Coeff} (hc : c ≠ .full none) (j : Int) :
    ((j < 1 - (2 * n + q) ∨ q < j) → insertTerm w c (some j) s = .error .position s) ∧
      (1 - (2 * n + q) ≤ j ∧ j ≤ q → ∃ s', insertTerm w c (some j) s = .ok () s') := by
  have hrange : 1 ≤ w.index ∧ w.index ≤ s.gates := ⟨hw.one_le, hs.gates_eq ▸ hw.le⟩
  rw [insertTerm_on_gate hw.kind hrange, hs.length_positive, hs.gates_eq, Coeff.times_some hc]
  constructor
  · intro hj
    have hposition : position? (n + q) (n + j - 1) = none := by
      rw [position?_eq_none_iff]
      push_cast
      omega
    rw [hposition]
  · intro hj
    cases hposition : position? (n + q) (n + j - 1) with
    | none =>
      rw [position?_eq_none_iff] at hposition
      push_cast at hposition
      omega
    | some i => exact ⟨_, rfl⟩

theorem getD_of_start (hx : x ≠ 0) (h : start x n q = .ok s) {k : Nat} (hk : n ≤ k) :
    s.positive.getD k 0 = 0 := by
  cases (if_neg hx).symm.trans h
  rw [List.getD_append_right _ _ _ _ (by simpa using hk), List.getD_eq_getElem?_getD,
    List.getElem?_replicate]
  split <;> rfl

/-- What becomes of terms with any numbers, after any instructions. A term on a gate that there is
not is refused. On one that there is it is taken, unless its number is too large or too small for
the list of coefficients. Each of these is what it was at the start, and what the terms taken for
its number are worth; the coefficients of `Y⁻¹, Y⁻², …` do not change. So where no number below 1
was used, the fixed part is as it was, and every other coefficient belongs to one constraint. -/
theorem coefficient_of_number (n q : Nat) {x : Fr} (hx : x ≠ 0) (told : List (Instruction Int)) :
    ∃ s t, start x n q = .ok s ∧ t = s.reached told ∧
      (∀ (w : Wire) (c : Coeff) (j : Int), w.kind = .a ∨ w.kind = .b ∨ w.kind = .c → c ≠ .full none →
        (¬ (1 ≤ w.index ∧ w.index ≤ n) →
          insertTerm w c (some j) t = .error (.gateRange .y w.index n) t) ∧
        (1 ≤ w.index ∧ w.index ≤ n → j < 1 - (2 * n + q) ∨ q < j →
          insertTerm w c (some j) t = .error .position t) ∧
        (1 ≤ w.index ∧ w.index ≤ n → 1 - (2 * n + q) ≤ j ∧ j ≤ q →
          ∃ t', insertTerm w c (some j) t = .ok () t')) ∧
      t.negative = s.negative ∧
      (∀ k : Nat, k < n + q → t.positive.getD k 0 = s.positive.getD k 0 +
        worth n x (s.accepted told) fun j => n + j = k + 1 ∨ 2 * n + q + j = k + 1) ∧
      ((∀ term ∈ s.accepted told, 1 ≤ term.2.2) →
        t.positive.take n = s.positive.take n ∧
        ∀ j : Nat, 1 ≤ j → j ≤ q →
          t.positive.getD (n + j - 1) 0 = worth n x (s.accepted told) (· = j)) := by
  obtain ⟨s, hstart, hs⟩ := start_holds hx n q
  have ht := hs.toSized.reached told
  have hpositive := fun k hk => hs.toSized.reached_positive told (k := k) hk
  refine ⟨s, s.reached told, hstart, rfl, fun w c j hkind hc => ⟨fun hrange => ?_, fun hrange => ?_,
    fun hrange => ?_⟩, hs.toSized.reached_negative told, hpositive, fun hnumbers => ⟨?_, ?_⟩⟩
  · rw [← ht.gates_eq] at hrange
    rw [insertTerm_off_gate hrange, ht.gates_eq]
  · exact (ht.insertTerm_of_inGates ⟨hkind, hrange.1, hrange.2⟩ hc j).1
  · exact (ht.insertTerm_of_inGates ⟨hkind, hrange.1, hrange.2⟩ hc j).2
  · have hlength := ht.length_positive
    refine List.ext_getElem (by simp [hlength, hs.length_positive]) fun i hi _ => ?_
    rw [List.length_take] at hi
    have hzero : worth n x (s.accepted told) (fun j => n + j = i + 1 ∨ 2 * n + q + j = i + 1) = 0 := by
      refine worth_eq_zero fun term hterm => ?_
      have hnumber := hnumbers term hterm
      omega
    have hcoefficient := hpositive i (by omega)
    rw [hzero, add_zero, List.getD_eq_getElem _ _ (by omega), List.getD_eq_getElem] at hcoefficient
    rw [List.getElem_take, List.getElem_take, hcoefficient]
  · intro j hone hj
    rw [hpositive _ (by omega), getD_of_start hx hstart (by omega), zero_add]
    refine worth_congr fun term hterm => ?_
    have hnumber := hnumbers term hterm
    omega

/-- Two terms that are taken, between them one on a gate that there is not, and last one with too
large a number. -/
def twoTerms : List (Instruction Int) :=
  [.constraint, .term ⟨.a, 1⟩ (.full (some (.ofNat 6))) (some 1), .term ⟨.c, 3⟩ (.one none) (some 1),
    .term ⟨.b, 1⟩ (.negOne none) (some 2), .term ⟨.b, 1⟩ (.one none) (some 4)]

theorem coefficient_of_number_twoTerms :
    ∃ s t, start 2 1 2 = .ok s ∧ t = s.reached twoTerms ∧
      t.positive.take 1 = s.positive.take 1 ∧ t.positive.getD 1 0 = 3 ∧ t.positive.getD 2 0 = -2 ∧
      insertTerm ⟨.a, 2⟩ (.one none) (some 1) t = .error (.gateRange .y 2 1) t ∧
      insertTerm ⟨.a, 1⟩ (.one none) (some (-4)) t = .error .position t ∧
      ∃ t', insertTerm ⟨.a, 1⟩ (.one none) (some (-3)) t = .ok () t' := by
  obtain ⟨s, t, hstart, ht, hterm, -, -, hnumbers⟩ :=
    coefficient_of_number 1 2 (x := 2) (by decide +kernel) twoTerms
  have hstart : start 2 1 2 = .ok s := hstart
  have haccepted : (start 2 1 2).map (accepted · twoTerms) =
      .ok [(⟨.a, 1⟩, .full (some (.ofNat 6)), 1), (⟨.b, 1⟩, .negOne none, 2)] := by decide +kernel
  rw [hstart] at haccepted
  replace haccepted : s.accepted twoTerms = _ := Except.ok.inj haccepted
  rw [haccepted] at hnumbers
  obtain ⟨hfixed, hcoefficient⟩ := hnumbers (by simp)
  refine ⟨s, t, hstart, ht, hfixed, ?_, ?_, ?_, ?_, ?_⟩
  · exact (hcoefficient 1 le_rfl (by decide)).trans (by decide +kernel)
  · exact (hcoefficient 2 (by decide) le_rfl).trans (by decide +kernel)
  · exact (hterm ⟨.a, 2⟩ (.one none) 1 (.inl rfl) (by simp)).1 (by decide)
  · exact (hterm ⟨.a, 1⟩ (.one none) (-4) (.inl rfl) (by simp)).2.1 (by decide) (by decide)
  · exact (hterm ⟨.a, 1⟩ (.one none) (-3) (.inl rfl) (by simp)).2.2 (by decide) (by decide)

/-- The numbers next to those of the constraints: 0 reaches the coefficient of `Y` in the fixed part,
and a number too large is not refused as a constraint would be. -/
theorem number_zero_reaches_fixed_part :
    ∃ s t, start 2 1 1 = .ok s ∧ insertTerm ⟨.a, 1⟩ (.one none) (some 0) s = .ok () t ∧
      t.positive.take 1 ≠ s.positive.take 1 ∧
      insertTerm ⟨.a, 1⟩ (.one none) (some 2) s = .error .position s ∧
      Fault.position.category ≠ .inconsistency := by
  refine ⟨_, _, rfl, rfl, ?_, rfl, ?_⟩
  · decide +kernel
  · decide

end AtX

end SnarkBatch
