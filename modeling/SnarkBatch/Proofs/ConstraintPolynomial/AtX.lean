import SnarkBatch.Proofs.ConstraintPolynomial.AtY

/-!
# The accumulator at a fixed `X`, and the agreement of the two

`AtX` follows the outline of a circuit as `AtY` does, with the values of the wires at `x` in place
of their exponents (`AtX.tracks`, `AtX.run_eq`). Both accumulators therefore evaluate to
`Outline.constraintValue` (`eval_atY_eq_eval_atX`). It refuses what `AtY` refuses, and more
constraints than it was made for as well (`AtX.fault`).
-/

namespace SnarkBatch

namespace AtX

open LaurentPolynomial

/-- `s(x, Y)` as accumulated. -/
noncomputable def laurent (s : AtX) : Fr[T;T⁻¹] := twoSided s.negative s.positive

/-- The parameters, the sizes and the wire values of an accumulator. -/
structure Sized (x : Fr) (n q opened : Nat) (s : AtX) : Prop where
  gates_eq : s.gates = n
  limit_eq : s.limit = q
  constraints_eq : s.constraints = opened
  left_eq : s.left = (List.range n).map fun i => x⁻¹ ^ (i + 1)
  right_eq : s.right = (List.range n).map fun i => x ^ (i + 1)
  output_eq : s.output = (List.range n).map fun i => x ^ (n + i + 1)
  length_positive : s.positive.length = n + q
  length_negative : s.negative.length = n

/-- The accumulator that belongs to an outline. -/
structure Holds (x : Fr) (n q : Nat) (o : Outline) (s : AtX) : Prop
    extends Sized x n q o.constraints.length s where
  eval_eq : ∀ y : Frˣ, evalAt y s.laurent = o.constraintValue n x y

/-- The outline is on the wires of the gates `1, …, n` and has at most `q` constraints. -/
def Fits (n q : Nat) (o : Outline) : Prop := o.InGates n ∧ o.constraints.length ≤ q

/-- The first fault of the constraints: there may be too many, which shows when one is opened, or a
term may be refused. -/
def fault (n q : Nat) (o : Outline) : Option Fault :=
  (o.constraints.zipIdx 1).findSome? fun (lc, i) =>
    if q < i then some (.constraintRange i q) else lc.terms.findSome? (Outline.termFault .y n)

theorem fault_addConstraint {n q : Nat} {o : Outline} {lc : LinearCombination} :
    fault n q (o.addConstraint lc) = (fault n q o).or
      (if q < o.constraints.length + 1 then some (.constraintRange (o.constraints.length + 1 : Nat) q)
        else lc.terms.findSome? (Outline.termFault .y n)) := by
  simp only [fault, Outline.addConstraint, List.zipIdx_append, List.findSome?_append,
    List.zipIdx_singleton, List.findSome?_singleton, add_comm 1]

theorem fault_eq_none_iff {n q : Nat} {o : Outline} : fault n q o = none ↔ Fits n q o := by
  obtain ⟨gates, constraints, inputs⟩ := o
  induction constraints using List.reverseRecOn with
  | nil => exact ⟨fun _ => ⟨fun _ h => absurd h List.not_mem_nil, Nat.zero_le q⟩, fun _ => rfl⟩
  | append_singleton constraints lc ih =>
    have hadd : (⟨gates, constraints ++ [lc], inputs⟩ : Outline) =
        Outline.addConstraint lc ⟨gates, constraints, inputs⟩ := rfl
    rw [hadd, fault_addConstraint, Option.or_eq_none_iff, ih, Fits, Fits,
      Outline.inGates_addConstraint, Outline.length_addConstraint]
    dsimp only
    by_cases hq : q < constraints.length + 1
    · rw [if_pos hq]
      exact ⟨fun h => absurd h.2 (Option.some_ne_none _), fun h => absurd h.2 (not_le.2 hq)⟩
    · rw [if_neg hq, List.findSome?_eq_none_iff]
      simp only [Outline.termFault_eq_none_iff]
      exact ⟨fun h => ⟨⟨h.1.1, h.2⟩, not_lt.1 hq⟩,
        fun h => ⟨⟨h.1.1, Nat.le_of_succ_le h.2⟩, h.1.2⟩⟩

theorem fault_eq_of_length_le {n q : Nat} {o : Outline} (h : o.constraints.length ≤ q) :
    fault n q o = o.fault .y n := by
  obtain ⟨gates, constraints, inputs⟩ := o
  induction constraints using List.reverseRecOn with
  | nil => rfl
  | append_singleton constraints lc ih =>
    have hadd : (⟨gates, constraints ++ [lc], inputs⟩ : Outline) =
        Outline.addConstraint lc ⟨gates, constraints, inputs⟩ := rfl
    rw [hadd, Outline.length_addConstraint] at h
    rw [hadd, fault_addConstraint, Outline.fault_addConstraint, ih (Nat.le_of_succ_le h),
      if_neg (not_lt.2 h)]

theorem start_holds {x : Fr} (hx : x ≠ 0) (n q : Nat) :
    ∃ s, start x n q = .ok s ∧ s.Holds x n q .empty := by
  refine ⟨_, if_neg hx, ⟨⟨rfl, rfl, rfl, rfl, rfl, rfl, ?_, ?_⟩, fun y => ?_⟩⟩
  · simp only [List.length_append, List.length_map, List.length_range, List.length_replicate,
      Int.toNat_natCast]
  · simp only [List.length_map, List.length_range, Int.toNat_natCast]
  · simp only [laurent, twoSided, Int.toNat_natCast, series_append, series_replicate_zero, add_zero,
      List.map_map, series_map_range, Function.comp_apply, map_add, map_sum, map_mul, evalAt_invert,
      evalAt_C, evalAt_T, Outline.constraintValue_empty, ← Finset.sum_add_distrib,
      ← Finset.sum_neg_distrib]
    refine Finset.sum_congr rfl fun i _ => ?_
    rw [Units.val_inv_eq_inv_val, show (1 : Int) + i = (i + 1 : Nat) by push_cast; ring, zpow_natCast,
      zpow_natCast]
    ring

/-! ## Inserting terms -/

section

variable {x : Fr} {n q opened : Nat} {s : AtX}

/-- The values of the wires of one kind. -/
def row (s : AtX) : WireKind → List Fr
  | .a => s.left
  | .b => s.right
  | .c => s.output
  | .other _ => []

/-- A term on a gate that there is goes where its number says. -/
theorem insertTerm_on_gate {w : Wire} (hkind : w.kind = .a ∨ w.kind = .b ∨ w.kind = .c)
    (hrange : 1 ≤ w.index ∧ w.index ≤ s.gates) (c : Coeff) (j : Int) :
    insertTerm w c (some j) s =
      match position? s.positive.length (s.gates + j - 1) with
      | none => .error .position s
      | some i =>
        match c.times (some ((s.row w.kind).getD (w.index - 1).toNat 0)) with
        | .error e => .error e s
        | .ok term => .ok () { s with positive := s.positive.modify i (· + term) } := by
  unfold insertTerm
  rw [get_bind, if_neg (not_not.2 hrange)]
  rcases hkind with hkind | hkind | hkind
  all_goals
    rw [hkind]
    simp only [pure_bind, row]
    cases position? s.positive.length (s.gates + j - 1) with
    | none => rfl
    | some i =>
      generalize c.times _ = term
      cases term <;> rfl

/-- A term on a gate that there is not names the gate. -/
theorem insertTerm_off_gate {w : Wire} (hrange : ¬ (1 ≤ w.index ∧ w.index ≤ s.gates))
    (c : Coeff) (number : Option Int) :
    insertTerm w c number s = .error (.gateRange .y w.index s.gates) s := by
  unfold insertTerm
  rw [get_bind, if_pos hrange]
  rfl

theorem insertTerm_refused {w : Wire} {number : Option Int}
    (h : (∃ name, w.kind = .other name) ∨ number = none) (c : Coeff) :
    ∃ e, insertTerm w c number s = .error e s := by
  unfold insertTerm
  rw [get_bind]
  split
  · exact ⟨_, rfl⟩
  · cases hkind : w.kind with
    | other name => exact ⟨_, rfl⟩
    | _ =>
      obtain ⟨name, hother⟩ | rfl := h
      · rw [hkind] at hother
        cases hother
      · exact ⟨_, rfl⟩

theorem row_getD (hs : s.Sized x n q opened) {w : Wire} (hw : w.InGates n) :
    (s.row w.kind).getD (w.index - 1).toNat 0 = x ^ w.exponent n := by
  obtain ⟨kind, index⟩ := w
  obtain ⟨hkind, hone, hle⟩ := hw
  dsimp only at hkind hone hle
  have hindex : (index - 1).toNat < n := by omega
  have hlist : ∀ f : Nat → Fr,
      ((List.range n).map f).getD (index - 1).toNat 0 = f (index - 1).toNat := by
    intro f
    rw [List.getD_eq_getElem?_getD, List.getElem?_map, List.getElem?_range hindex]
    rfl
  rcases hkind with rfl | rfl | rfl
  · rw [row, hs.left_eq, hlist, Wire.exponent, ← zpow_natCast, inv_zpow',
      show -(((index - 1).toNat + 1 : Nat) : Int) = -index by omega]
  · rw [row, hs.right_eq, hlist, Wire.exponent, ← zpow_natCast,
      show (((index - 1).toNat + 1 : Nat) : Int) = index by omega]
  · rw [row, hs.output_eq, hlist, Wire.exponent, ← zpow_natCast,
      show ((n + (index - 1).toNat + 1 : Nat) : Int) = index + n by omega]

theorem Sized.modify (hs : s.Sized x n q opened) (i : Nat) (f : Fr → Fr) :
    Sized x n q opened { s with positive := s.positive.modify i f } :=
  ⟨hs.gates_eq, hs.limit_eq, hs.constraints_eq, hs.left_eq, hs.right_eq, hs.output_eq,
    (List.length_modify ..).trans hs.length_positive, hs.length_negative⟩

theorem Sized.position?_opened (hs : s.Sized x n q opened) (hone : 1 ≤ opened) (hq : opened ≤ q) :
    position? s.positive.length (s.gates + opened - 1) = some (n + opened - 1) := by
  rw [position?_eq_some_iff, hs.gates_eq, hs.length_positive]
  omega

/-- A term adds its coefficient times the value of its wire to the open constraint. -/
theorem insertTerm_eq (hs : s.Sized x n q opened) (hone : 1 ≤ opened) (hq : opened ≤ q) {w : Wire}
    {c : Coeff} (hw : w.InGates n) (hc : c ≠ .full none) :
    ∃ s', insertTerm w c (some opened) s = .ok () s' ∧ s'.Sized x n q opened ∧
      s'.laurent = s.laurent + C (c.value * x ^ w.exponent n) * T (n + opened) := by
  have hlength := hs.length_positive
  have hrange : 1 ≤ w.index ∧ w.index ≤ s.gates := ⟨hw.one_le, hs.gates_eq ▸ hw.le⟩
  refine ⟨_, ?_, hs.modify (n + opened - 1) (· + c.value * x ^ w.exponent n), ?_⟩
  · rw [insertTerm_on_gate hw.kind hrange, hs.position?_opened hone hq, row_getD hs hw,
      Coeff.times_some hc]
  · simp only [laurent, twoSided]
    rw [series_modify_add _ _ (by omega), ← add_assoc,
      show (1 : Int) + (n + opened - 1 : Nat) = n + opened by omega]

theorem insertTerm_error (hs : s.Sized x n q opened) (hone : 1 ≤ opened) (hq : opened ≤ q) {w : Wire}
    {c : Coeff} {e : Fault} (he : Outline.termFault .y n (w, c) = some e) :
    ∃ s', insertTerm w c (some opened) s = .error e s' := by
  unfold Outline.termFault at he
  dsimp only at he
  rw [← hs.gates_eq] at he
  by_cases hrange : 1 ≤ w.index ∧ w.index ≤ s.gates
  · rw [if_pos hrange] at he
    cases hkind : w.kind with
    | other name =>
      rw [hkind] at he
      cases he
      unfold insertTerm
      rw [get_bind, if_neg (not_not.2 hrange), hkind]
      exact ⟨_, rfl⟩
    | _ =>
      rw [hkind] at he
      obtain ⟨rfl, he⟩ := Option.ite_none_right_eq_some.1 he
      cases he
      rw [insertTerm_on_gate (by simp [hkind]) hrange, hs.position?_opened hone hq]
      exact ⟨_, rfl⟩
  · rw [if_neg hrange] at he
    cases he
    exact ⟨_, insertTerm_off_gate hrange c _⟩

theorem insertTerms_eq (hs : s.Sized x n q opened) (hone : 1 ≤ opened) (hq : opened ≤ q)
    {terms : List (Wire × Coeff)}
    (hterms : ∀ term ∈ terms, term.1.InGates n ∧ term.2 ≠ .full none) :
    ∃ s', (terms.forM fun term => insertTerm term.1 term.2 (some opened)) s = .ok () s' ∧
      s'.Sized x n q opened ∧
      s'.laurent = s.laurent +
        (terms.map fun (w, c) => C (c.value * x ^ w.exponent n) * T (n + opened)).sum := by
  refine forM_adds (fun term hmem t ht => ?_) hs
  obtain ⟨hw, hc⟩ := hterms term hmem
  exact insertTerm_eq ht hone hq hw hc

theorem insertTerms_error (hs : s.Sized x n q opened) (hone : 1 ≤ opened) (hq : opened ≤ q)
    {terms : List (Wire × Coeff)} {e : Fault}
    (he : terms.findSome? (Outline.termFault .y n) = some e) :
    ∃ s', (terms.forM fun term => insertTerm term.1 term.2 (some opened)) s = .error e s' := by
  refine forM_error (P := (Sized x n q opened ·)) (fun term h t ht => ?_) (fun term e h t ht => ?_)
    he hs
  · obtain ⟨hw, hc⟩ := Outline.termFault_eq_none_iff.1 h
    obtain ⟨t', hrun, ht', -⟩ := insertTerm_eq ht hone hq hw hc
    exact ⟨t', hrun, ht'⟩
  · exact insertTerm_error ht hone hq h

end

/-! ## Whole circuits -/

def opened (s : AtX) : AtX := { s with constraints := s.constraints + 1 }

theorem newConstraint_eq {s : AtX} (h : (s.constraints + 1 : Nat) ≤ s.limit) :
    newConstraint s = .ok (s.constraints + 1 : Nat) s.opened := by
  have hcount : (modify fun s => { s with constraints := s.constraints + 1 } : EStateM Fault AtX Unit)
      s = .ok () s.opened := rfl
  have hget : (get : EStateM Fault AtX AtX) s.opened = .ok s.opened s.opened := rfl
  unfold newConstraint
  refine (bind_ok hcount).trans ((bind_ok hget).trans ?_)
  exact congrFun (if_neg (not_lt.2 h)) s.opened

theorem newConstraint_error {s : AtX} (h : s.limit < (s.constraints + 1 : Nat)) :
    newConstraint s = .error (.constraintRange (s.constraints + 1 : Nat) s.limit) s.opened := by
  have hcount : (modify fun s => { s with constraints := s.constraints + 1 } : EStateM Fault AtX Unit)
      s = .ok () s.opened := rfl
  have hget : (get : EStateM Fault AtX AtX) s.opened = .ok s.opened s.opened := rfl
  unfold newConstraint
  refine (bind_ok hcount).trans ((bind_ok hget).trans ?_)
  exact congrFun (if_pos h) s.opened

theorem openWith_holds {x : Fr} {n q : Nat} {o : Outline} {s : AtX} {lc : LinearCombination}
    (hs : s.Holds x n q o) (hlc : Fits n q (o.addConstraint lc)) :
    ∃ s', backend.openWith lc s = .ok () s' ∧ s'.Holds x n q (o.addConstraint lc) := by
  have hlength := o.length_addConstraint lc
  have hcount : s.constraints + 1 = (o.addConstraint lc).constraints.length := by
    rw [hs.constraints_eq, hlength]
  have hopened : s.opened.Sized x n q (o.addConstraint lc).constraints.length :=
    ⟨hs.gates_eq, hs.limit_eq, hcount, hs.left_eq, hs.right_eq, hs.output_eq,
      hs.length_positive, hs.length_negative⟩
  have hopen := newConstraint_eq (s := s) (by rw [hcount, hs.limit_eq]; exact_mod_cast hlc.2)
  rw [hcount] at hopen
  obtain ⟨s', hrun, hs', hlaurent⟩ :=
    insertTerms_eq hopened (by omega) hlc.2 (Outline.inGates_addConstraint.1 hlc.1).2
  refine ⟨s', (bind_ok hopen).trans hrun, ⟨hs', fun y => ?_⟩⟩
  rw [hlaurent, map_add, show s.opened.laurent = s.laurent from rfl, hs.eval_eq,
    Outline.constraintValue, Outline.constraintValue, Outline.sumTerms_addConstraint, ← add_assoc,
    map_list_sum, List.map_map, hlength]
  refine congrArg _ (congrArg List.sum (List.map_congr_left fun term _ => ?_))
  simp only [Function.comp_apply, map_mul, evalAt_C, evalAt_T]
  rw [← Nat.cast_add, zpow_natCast, mul_right_comm]

theorem openWith_error {x : Fr} {n q : Nat} {o : Outline} {s : AtX} {lc : LinearCombination}
    {e : Fault} (hs : s.Holds x n q o) (ho : fault n q o = none)
    (hlc : fault n q (o.addConstraint lc) = some e) :
    ∃ s', backend.openWith lc s = .error e s' := by
  have hcount : s.constraints + 1 = o.constraints.length + 1 := by rw [hs.constraints_eq]
  rw [fault_addConstraint, ho, Option.none_or] at hlc
  by_cases hq : q < o.constraints.length + 1
  · have hopen := newConstraint_error (s := s) (by rw [hcount, hs.limit_eq]; exact_mod_cast hq)
    rw [if_pos hq] at hlc
    cases hlc
    rw [hcount, hs.limit_eq] at hopen
    exact ⟨_, bind_error hopen⟩
  · have hopened : s.opened.Sized x n q (o.constraints.length + 1) :=
      ⟨hs.gates_eq, hs.limit_eq, hcount, hs.left_eq, hs.right_eq, hs.output_eq,
        hs.length_positive, hs.length_negative⟩
    have hopen := newConstraint_eq (s := s) (by
      rw [hcount, hs.limit_eq]
      exact_mod_cast not_lt.1 hq)
    rw [if_neg hq] at hlc
    rw [hcount] at hopen
    obtain ⟨s', hrun⟩ := insertTerms_error hopened (by omega) (not_lt.1 hq) hlc
    exact ⟨s', (bind_ok hopen).trans hrun⟩

theorem tracks (x : Fr) (n q : Nat) : backend.Tracks (fun o s => s.Holds x n q o) (fault n q) where
  wants_eq _ := rfl
  setValue_eq _ _ _ := rfl
  getValue_eq _ _ := rfl
  newGate hs := ⟨hs.toSized, hs.eval_eq⟩
  newInput _ hs := ⟨hs.toSized, hs.eval_eq⟩
  openWith _ hs hlc := openWith_holds hs (fault_eq_none_iff.1 hlc)
  refuses _ hs ho hlc := openWith_error hs ho hlc
  fault_addGate _ := rfl
  fault_addInput _ _ := rfl
  fault_addConstraint _ h := by rw [fault_addConstraint, h, Option.some_or]

/-- A synthesis accumulates the constraint polynomial of its outline. -/
theorem run_eq {c : Circuit} {n q : Nat} (hc : Fits n q c.outline) {x : Fr} (hx : x ≠ 0) :
    ∃ s, start x n q = .ok s ∧ outcome (Synthesis.run backend c s) = c.ending ∧
      (endState (Synthesis.run backend c s)).backend.Holds x n q c.outline := by
  obtain ⟨s, hstart, hs⟩ := start_holds hx n q
  exact ⟨s, hstart, Synthesis.run_ends (tracks x n q) hs rfl (fault_eq_none_iff.2 hc)⟩

theorem Holds.eval_ok {x : Fr} {n q : Nat} {o : Outline} {s : AtX} (hs : s.Holds x n q o) {y : Fr}
    (hy : y ≠ 0) : s.eval y = .ok (o.constraintValue n x y) := by
  have hvalue := hs.eval_eq (.mk0 y hy)
  rw [laurent, evalAt_twoSided, add_comm] at hvalue
  rw [eval, if_neg hy]
  exact congrArg Except.ok hvalue

end AtX

/-- For a circuit that does the same on every pass, both accumulators hold `s`: synthesised with
the one at `y` and with the one at `x`, on any two passes, it ends in the same way, and either
accumulator evaluates to `s(x, y)`. -/
theorem eval_atY_eq_eval_atX (c : Circuit) (hc : c.Uniform) (n q : Nat) (hn : c.outline.InGates n)
    (hq : c.outline.constraints.length ≤ q) (x y : Fr) (hx : x ≠ 0) (hy : y ≠ 0) (i j : Nat) :
    ∃ atY atX, AtY.start y n = .ok atY ∧ AtX.start x n q = .ok atX ∧
      outcome (Synthesis.run AtY.backend (c.atPass i) atY) = c.ending ∧
      outcome (Synthesis.run AtX.backend (c.atPass j) atX) = c.ending ∧
      (endState (Synthesis.run AtY.backend (c.atPass i) atY)).backend.eval x =
        .ok (c.outline.constraintValue n x y) ∧
      (endState (Synthesis.run AtX.backend (c.atPass j) atX)).backend.eval y =
        .ok (c.outline.constraintValue n x y) := by
  obtain ⟨hoi, hei⟩ := hc i
  obtain ⟨hoj, hej⟩ := hc j
  have hfits : AtX.Fits n q c.outline := ⟨hn, hq⟩
  obtain ⟨atY, hY, hendY, hs⟩ := AtY.run_eq (c := c.atPass i) (hoi ▸ hn) hy
  obtain ⟨atX, hX, hendX, ht⟩ := AtX.run_eq (c := c.atPass j) (hoj.symm ▸ hfits) hx
  refine ⟨atY, atX, hY, hX, hendY.trans hei, hendX.trans hej, ?_, ?_⟩
  · rw [hs.eval_eq hx, hoi]
  · rw [ht.eval_ok hy, hoj]

theorem eval_productCircuit :
    ∃ atY atX, AtY.start 3 4 = .ok atY ∧ AtX.start 2 4 5 = .ok atX ∧
      outcome (Synthesis.run AtY.backend (productCircuit.atPass 0) atY) = .ok () ∧
      outcome (Synthesis.run AtX.backend (productCircuit.atPass 1) atX) = .ok () ∧
      (endState (Synthesis.run AtY.backend (productCircuit.atPass 0) atY)).backend.eval 2 =
        .ok (18189979 / 162) ∧
      (endState (Synthesis.run AtX.backend (productCircuit.atPass 1) atX)).backend.eval 3 =
        .ok (18189979 / 162) := by
  have hending : productCircuit.ending = .ok () := by decide +kernel
  have hvalue : productCircuit.outline.constraintValue 4 2 3 = 18189979 / 162 := by decide +kernel
  rw [← hending, ← hvalue]
  exact eval_atY_eq_eval_atX productCircuit productCircuit_uniform 4 5
    (by rw [productCircuit_outline]; decide) (by rw [productCircuit_outline]; decide) 2 3
    (by decide +kernel) (by decide +kernel) 0 1

end SnarkBatch
