import SnarkBatch.Proofs.ConstraintPolynomial.Reference
import SnarkBatch.Proofs.Result

/-!
# Coefficients and calculations with linear combinations

A coefficient acts as the scalar that it is worth, however it is written, and `Coeff.normalize` is
the one normal form (`Coeff.IsNormal`) among all coefficients worth the same. In a calculation each
combination lists the terms of the steps on the path to it (`LinearCombination.Path`), the first one
first, so that its value is the signed sum over that path; combinations made before a step are the
same after it (`LinearCombination.combinations_stand_for_sums`).
-/

namespace SnarkBatch

/-! ## Coefficients -/

namespace Coeff

@[simp] theorem value_zero (ignored : Option Fr) : (zero ignored).value = 0 := rfl

@[simp] theorem value_one (ignored : Option Fr) : (one ignored).value = 1 := rfl

@[simp] theorem value_negOne (ignored : Option Fr) : (negOne ignored).value = -1 := rfl

@[simp] theorem value_full (v : Option Fr) : (full v).value = v.getD 0 := one_mul (v.getD 0)

theorem value_negate (c : Coeff) : c.negate.value = -c.value := by
  cases c with
  | zero _ => rw [negate, value_zero, neg_zero]
  | one _ => rw [negate, value_negOne, value_one]
  | negOne _ => rw [negate, value_one, value_negOne, neg_neg]
  | full v =>
    rw [negate, value_full, value_full]
    cases v with
    | none => exact neg_zero.symm
    | some v => rfl

theorem filled_eq {c : Coeff} (hc : c ≠ .full none) : c.filled = .ok c := by
  unfold filled
  split
  · exact absurd rfl hc
  · rfl

theorem negate_ne {c : Coeff} (hc : c ≠ .full none) : c.negate ≠ .full none := by
  cases c with
  | full v =>
    cases v with
    | none => exact absurd rfl hc
    | some v => nofun
  | _ => nofun

/-- Written with the tag of its value, and with nothing beside the tag. -/
inductive IsNormal : Coeff → Prop
  | zero : IsNormal (.zero none)
  | one : IsNormal (.one none)
  | negOne : IsNormal (.negOne none)
  | full {v : Fr} (hzero : v ≠ 0) (hone : v ≠ 1) (hnegOne : v ≠ -1) : IsNormal (.full (some v))

theorem value_normalize (v : Fr) : (normalize v).value = v := by
  unfold normalize
  split
  · rename_i hzero
    rw [value_zero, hzero]
  · split
    · rename_i hone
      rw [value_one, hone]
    · split
      · rename_i hnegOne
        rw [value_negOne, hnegOne]
      · exact value_full (some v)

theorem isNormal_normalize (v : Fr) : (normalize v).IsNormal := by
  unfold normalize
  split
  · exact .zero
  · rename_i hzero
    split
    · exact .one
    · rename_i hone
      split
      · exact .negOne
      · rename_i hnegOne
        exact .full hzero hone hnegOne

theorem IsNormal.eq_normalize {c : Coeff} (h : c.IsNormal) : c = normalize c.value := by
  cases h with
  | zero => rfl
  | one => decide +kernel
  | negOne => decide +kernel
  | full hzero hone hnegOne =>
    rw [value_full, Option.getD_some, normalize, if_neg hzero, if_neg hone, if_neg hnegOne]

/-- Among the coefficients worth the same, only one is normal. -/
theorem isNormal_and_equiv_iff {c d : Coeff} :
    d.IsNormal ∧ d.Equiv c ↔ d = normalize c.value := by
  constructor
  · rintro ⟨hnormal, hequiv⟩
    rw [← show d.value = c.value from hequiv]
    exact hnormal.eq_normalize
  · rintro rfl
    exact ⟨isNormal_normalize _, value_normalize _⟩

theorem equiv_iff_normalize_eq {c d : Coeff} :
    c.Equiv d ↔ normalize c.value = normalize d.value := by
  constructor
  · exact fun h => congrArg normalize h
  · intro h
    rw [Equiv, ← value_normalize c.value, h, value_normalize]

theorem val_value_normalize (v : Int) :
    ((normalize (.ofInt v)).value.val : Int) = v % scalarOrder := by
  rw [value_normalize]
  exact Residue.val_ofInt v

end Coeff

/-! ## Calculations -/

namespace LinearCombination

/-- The sum of the coefficients times the values of their wires. -/
def evaluate (lc : LinearCombination) (values : Wire → Fr) : Except Fault Fr := do
  return (← lc.terms.mapM fun term => term.2.times (some (values term.1))).sum

/-- What a summand stands for. -/
def Summand.amount (values : Wire → Fr) : Summand → Fr
  | plain w => values w
  | scaled c w => c.value * values w
  | number v w => v * values w

theorem Summand.value_coeff_mul (s : Summand) (values : Wire → Fr) :
    s.coeff.value * values s.wire = s.amount values := by
  cases s with
  | plain w => exact one_mul (values w)
  | scaled c w => rfl
  | number v w => exact congrArg (· * values w) (Coeff.value_normalize _)

theorem addTerm_eq (lc : LinearCombination) (subtracted : Bool) {c : Coeff} (hc : c ≠ .full none)
    (w : Wire) :
    lc.addTerm subtracted c w = .ok (lc.plus (if subtracted then c.negate else c) w) := by
  cases subtracted with
  | false => rfl
  | true => exact except_bind_ok (Coeff.filled_eq hc) _

namespace Step

def amount (values : Wire → Fr) (s : Step) : Fr :=
  if s.subtracted then -s.summand.amount values else s.summand.amount values

/-- The term that it puts into a combination. -/
def term (s : Step) : Wire × Coeff :=
  (s.summand.wire, if s.subtracted then s.summand.coeff.negate else s.summand.coeff)

theorem times_term {s : Step} (hs : s.summand.coeff ≠ .full none) (values : Wire → Fr) :
    s.term.2.times (some (values s.term.1)) = .ok (s.amount values) := by
  unfold term amount
  split
  · rw [Coeff.times_some (Coeff.negate_ne hs), Coeff.value_negate, neg_mul,
      Summand.value_coeff_mul]
  · rw [Coeff.times_some hs, Summand.value_coeff_mul]

theorem run_eq {sums : List LinearCombination} {s : Step} {lc : LinearCombination}
    (hbase : sums[s.base]? = some lc) (hs : s.summand.coeff ≠ .full none) :
    s.run sums = .ok (sums ++ [⟨lc.terms ++ [s.term]⟩]) := by
  unfold run
  rw [hbase]
  exact except_bind_ok (addTerm_eq lc s.subtracted hs s.summand.wire) _

theorem exists_of_run {sums sums' : List LinearCombination} {s : Step}
    (h : s.run sums = .ok sums') : ∃ lc, sums' = sums ++ [lc] := by
  unfold run at h
  split at h
  · cases h
  · obtain ⟨lc, -, hlc⟩ := exists_of_bind_ok h
    exact ⟨lc, (Except.ok.inj hlc).symm⟩

end Step

/-- Every step starts from a combination that is there by then, and its coefficient has a value. -/
def Valid (steps : List Step) : Prop :=
  ∀ (i : Nat) (h : i < steps.length),
    steps[i].base ≤ i ∧ steps[i].summand.coeff ≠ .full none

instance (steps : List Step) : Decidable (Valid steps) :=
  inferInstanceAs (Decidable (∀ (i : Nat) (_ : i < steps.length), _ ∧ _))

theorem valid_concat {steps : List Step} {s : Step} :
    Valid (steps ++ [s]) ↔
      Valid steps ∧ s.base ≤ steps.length ∧ s.summand.coeff ≠ .full none := by
  constructor
  · intro h
    refine ⟨fun i hi => ?_, ?_⟩
    · have hstep := h i (by rw [List.length_append]; omega)
      rwa [List.getElem_append_left hi] at hstep
    · have hlast := h steps.length (by simp)
      rwa [List.getElem_concat_length rfl] at hlast
  · rintro ⟨hsteps, hlast⟩ i hi
    rcases Nat.lt_or_ge i steps.length with hlt | hge
    · rw [List.getElem_append_left hlt]
      exact hsteps i hlt
    · obtain rfl : steps.length = i := by
        rw [List.length_append, List.length_singleton] at hi
        omega
      rwa [List.getElem_concat_length rfl]

/-- The steps that led to the combination with a number, from the empty one on. -/
inductive Path (steps : List Step) : Nat → List Step → Prop
  | start : Path steps 0 []
  | step {i : Nat} {s : Step} {path : List Step} (h : steps[i]? = some s)
    (hbase : Path steps s.base path) : Path steps (i + 1) (path ++ [s])

namespace Path

variable {steps : List Step} {i : Nat} {path : List Step}

theorem unique {path' : List Step} (h : Path steps i path) (h' : Path steps i path') :
    path' = path := by
  induction h generalizing path' with
  | start =>
    cases h'
    rfl
  | step hs _ ih =>
    cases h' with
    | step hs' hbase' =>
      obtain rfl := Option.some.inj (hs.symm.trans hs')
      rw [ih hbase']

theorem append (h : Path steps i path) (later : List Step) : Path (steps ++ later) i path := by
  induction h with
  | start => exact .start
  | step hs _ ih =>
    exact .step ((List.getElem?_append_left (List.getElem?_eq_some_iff.1 hs).1).trans hs) ih

theorem le_length (h : Path steps i path) : i ≤ steps.length := by
  cases h with
  | start => exact Nat.zero_le _
  | step hs _ => exact (List.getElem?_eq_some_iff.1 hs).1

theorem mem (h : Path steps i path) : ∀ s ∈ path, s ∈ steps := by
  induction h with
  | start => nofun
  | step hs _ ih =>
    exact List.forall_mem_append.2 ⟨ih, List.forall_mem_singleton.2 (List.mem_of_getElem? hs)⟩

end Path

/-- The combination lists the terms of a path. -/
def Follows (steps : List Step) (i : Nat) (lc : LinearCombination) : Prop :=
  ∃ path, Path steps i path ∧ lc.terms = path.map Step.term

theorem Follows.append {steps : List Step} {i : Nat} {lc : LinearCombination}
    (h : Follows steps i lc) (later : List Step) : Follows (steps ++ later) i lc := by
  obtain ⟨path, hpath, hterms⟩ := h
  exact ⟨path, hpath.append later, hterms⟩

theorem Follows.concat {steps : List Step} {s : Step} {lc : LinearCombination}
    (h : Follows steps s.base lc) :
    Follows (steps ++ [s]) (steps.length + 1) ⟨lc.terms ++ [s.term]⟩ := by
  obtain ⟨path, hpath, hterms⟩ := h
  refine ⟨path ++ [s], .step List.getElem?_concat_length (hpath.append [s]), ?_⟩
  rw [List.map_append, ← hterms]
  rfl

theorem calculate_concat (steps : List Step) (s : Step) :
    calculate (steps ++ [s]) = calculate steps >>= s.run := by
  rw [calculate, List.foldlM_append]
  simp only [List.foldlM_cons, List.foldlM_nil, bind_pure]
  rfl

theorem exists_calculate {steps : List Step} (hvalid : Valid steps) :
    ∃ sums, calculate steps = .ok sums ∧ sums.length = steps.length + 1 ∧
      ∀ i lc, sums[i]? = some lc → Follows steps i lc := by
  -- From the last step on: the combinations before it keep their paths, which later steps do not
  -- reach, and the new one has the path of its base and the step.
  induction steps using List.reverseRecOn with
  | nil =>
    refine ⟨[empty], rfl, rfl, fun i lc h => ?_⟩
    rw [List.getElem?_singleton] at h
    split at h
    · rename_i hi
      obtain rfl := hi
      obtain rfl := Option.some.inj h
      exact ⟨[], .start, rfl⟩
    · cases h
  | append_singleton steps s ih =>
    obtain ⟨hsteps, hbase, hcoeff⟩ := valid_concat.1 hvalid
    obtain ⟨sums, hsums, hlength, hfollows⟩ := ih hsteps
    obtain ⟨base, hthere⟩ : ∃ base, sums[s.base]? = some base :=
      ⟨_, List.getElem?_eq_getElem (by omega)⟩
    refine ⟨sums ++ [⟨base.terms ++ [s.term]⟩], ?_, ?_, fun i lc h => ?_⟩
    · rw [calculate_concat, except_bind_ok hsums, Step.run_eq hthere hcoeff]
    · rw [List.length_append, List.length_append, hlength]
      rfl
    · rcases Nat.lt_trichotomy i sums.length with hlt | rfl | hgt
      · rw [List.getElem?_append_left hlt] at h
        exact (hfollows i lc h).append [s]
      · rw [List.getElem?_concat_length] at h
        obtain rfl := Option.some.inj h
        rw [hlength]
        exact (hfollows _ _ hthere).concat
      · rw [List.getElem?_eq_none (by rw [List.length_append]; exact hgt)] at h
        cases h

/-- Later steps put one combination each behind those that are there. -/
theorem exists_of_foldlM_run {later : List Step} {sums sums' : List LinearCombination}
    (h : later.foldlM Step.run sums = .ok sums') :
    ∃ made, sums' = sums ++ made ∧ made.length = later.length := by
  induction later generalizing sums with
  | nil => exact ⟨[], (Except.ok.inj h).symm.trans (List.append_nil sums).symm, rfl⟩
  | cons s later ih =>
    rw [List.foldlM_cons] at h
    obtain ⟨next, hnext, hlater⟩ := exists_of_bind_ok h
    obtain ⟨lc, rfl⟩ := Step.exists_of_run hnext
    obtain ⟨made, rfl, hlength⟩ := ih hlater
    exact ⟨lc :: made, List.append_assoc .., congrArg (· + 1) hlength⟩

theorem calculate_take {steps : List Step} {sums : List LinearCombination}
    (h : calculate steps = .ok sums) {k : Nat} (hk : k ≤ steps.length) :
    calculate (steps.take k) = .ok (sums.take (k + 1)) := by
  rw [calculate, ← List.take_append_drop k steps, List.foldlM_append] at h
  obtain ⟨early, hearly, hlater⟩ := exists_of_bind_ok h
  obtain ⟨made, hmade, hlength⟩ := exists_of_foldlM_run hearly
  obtain ⟨later, rfl, -⟩ := exists_of_foldlM_run hlater
  have htake : early.length = k + 1 := by
    rw [hmade, List.length_append, hlength, List.length_take_of_le hk]
    exact Nat.add_comm 1 k
  rw [calculate, hearly, List.take_left' htake]

theorem evaluate_eq {steps path : List Step} (hvalid : Valid steps) {i : Nat}
    {lc : LinearCombination} (hpath : Path steps i path) (hterms : lc.terms = path.map Step.term)
    (values : Wire → Fr) :
    lc.evaluate values = .ok (path.map (Step.amount values)).sum := by
  have hamounts : List.Forall₂
      (fun term v => ∃ w, term.2.times (some (values term.1)) = .ok w ∧ w = v)
      lc.terms (path.map (Step.amount values)) := by
    rw [hterms, List.forall₂_map_left_iff, List.forall₂_map_right_iff, List.forall₂_same]
    intro s hs
    obtain ⟨j, hj, rfl⟩ := List.getElem_of_mem (hpath.mem s hs)
    exact ⟨_, Step.times_term (hvalid j hj).2 values, rfl⟩
  obtain ⟨amounts, hmap, hsame⟩ := exists_mapM hamounts
  rw [List.forall₂_eq_eq_eq] at hsame
  rw [evaluate, except_bind_ok hmap, hsame]
  rfl

/-- A coefficient acts as the scalar that it is worth, and has one normal form. A calculation whose
steps start from combinations that are there gives each combination the terms of its path in the
order of the steps, hence the signed sum over the path as its value, and leaves what was made before
a step as it is. -/
theorem combinations_stand_for_sums :
    (∀ c d : Coeff, c ≠ .full none → d ≠ .full none →
      (∀ w, c.times (some w) = .ok (c.multiply w) ∧ c.multiply w = c.value * w) ∧
      c.negate.value = -c.value ∧
      (c.Equiv d ↔ c.value = d.value) ∧
      (c.Equiv d ↔ Coeff.normalize c.value = Coeff.normalize d.value) ∧
      (d.IsNormal ∧ d.Equiv c ↔ d = .normalize c.value)) ∧
    (∀ v : Int, ((Coeff.normalize (.ofInt v)).value.val : Int) = v % scalarOrder) ∧
    ∀ steps, Valid steps → ∃ sums, calculate steps = .ok sums ∧ sums.length = steps.length + 1 ∧
      (∀ i ≤ steps.length, ∃! path, Path steps i path) ∧
      (∀ i path, Path steps i path → ∃ lc, sums[i]? = some lc ∧ lc.terms = path.map Step.term ∧
        ∀ values, lc.evaluate values = .ok (path.map (Step.amount values)).sum) ∧
      ∀ k ≤ steps.length, calculate (steps.take k) = .ok (sums.take (k + 1)) := by
  refine ⟨fun c d hc _ => ⟨fun w => ⟨?_, c.multiply_eq w⟩, c.value_negate, Iff.rfl,
    Coeff.equiv_iff_normalize_eq, Coeff.isNormal_and_equiv_iff⟩, Coeff.val_value_normalize,
    fun steps hvalid => ?_⟩
  · rw [Coeff.times_some hc, Coeff.multiply_eq]
  · obtain ⟨sums, hsums, hlength, hfollows⟩ := exists_calculate hvalid
    refine ⟨sums, hsums, hlength, fun i hi => ?_, fun i path hpath => ?_,
      fun k => calculate_take hsums⟩
    · obtain ⟨path, hpath, -⟩ := hfollows i sums[i] (List.getElem?_eq_getElem (by omega))
      exact ⟨path, hpath, fun path' => hpath.unique⟩
    · have hi : i < sums.length := hlength ▸ Nat.lt_succ_of_le hpath.le_length
      obtain ⟨path', hpath', hterms⟩ := hfollows i sums[i] (List.getElem?_eq_getElem hi)
      obtain rfl := hpath.unique hpath'
      exact ⟨sums[i], List.getElem?_eq_getElem hi, hterms, evaluate_eq hvalid hpath hterms⟩

/-- A calculation that goes on twice from its second combination. -/
def branching : List Step :=
  [⟨0, false, .plain .one⟩, ⟨1, true, .scaled (.full (some 1)) ⟨.b, 1⟩⟩,
    ⟨1, true, .number (-2) ⟨.c, 1⟩⟩, ⟨2, true, .scaled (.negOne (some 5)) .one⟩]

theorem combinations_stand_for_sums_branching :
    Coeff.normalize (Coeff.full (some 1)).value = Coeff.normalize (Coeff.one (some 7)).value ∧
    ∃ sums, calculate branching = .ok sums ∧
      calculate (branching.take 2) = .ok (sums.take 3) ∧
      ∃ lc, sums[4]? = some lc ∧
        lc.terms = [(.one, .one none), (⟨.b, 1⟩, .full (some (-1))), (.one, .one none)] ∧
        ∀ values, lc.evaluate values = .ok (values .one - values ⟨.b, 1⟩ + values .one) := by
  obtain ⟨hcoeff, -, hcalculate⟩ := combinations_stand_for_sums
  obtain ⟨-, -, -, hequiv, -⟩ := hcoeff (.full (some 1)) (.one (some 7)) (by decide) (by decide)
  obtain ⟨sums, hsums, -, -, hpaths, htake⟩ := hcalculate branching (by decide +kernel)
  refine ⟨hequiv.1 (by decide +kernel), sums, hsums, htake 2 (by decide), ?_⟩
  obtain ⟨lc, hlc, hterms, hvalue⟩ := hpaths 4 _ (.step rfl (.step rfl (.step rfl .start)))
  refine ⟨lc, hlc, hterms.trans (by decide +kernel), fun values => (hvalue values).trans ?_⟩
  refine congrArg Except.ok ?_
  simp only [List.nil_append, List.cons_append, List.map_cons, List.map_nil, List.sum_cons,
    List.sum_nil, Step.amount, Summand.amount, if_true, Bool.false_eq_true, if_false,
    Coeff.value_full, Coeff.value_negOne, Option.getD_some]
  ring

end LinearCombination

end SnarkBatch
