import SnarkBatch.Proofs.Additivity
import SnarkBatch.Proofs.Group.WeightedSum

/-!
# Points that are on no curve

Nothing looks at the points of a proof one by one. They go through sums and multiples that are
defined on all triples, and only the four sums of the batch meet the pairing. For any pairing that
refuses just the elements that do not belong to its group (`GuardedPairing`), the check of a
verifier answers, or it fails with `Fault.offCurve` and for no other reason
(`Verifier.check_guarded`). The pairing on the curve is one: its first group is the whole curve
(`AtePairing.guarded`, `Verifier.check_answers`). A proof that is malformed may be answered as well,
if its bad points cancel.
-/

namespace SnarkBatch

open SourceGroup

/-! ## Pairings that look at the first element -/

def SourceGroup.Belongs {G F : Type} [SourceGroup G F] (P : G) : Prop := ∃ k, IsMultiple P k

section

variable {G₁ G₂ F₁ F₂ T : Type} [SourceGroup G₁ F₁] [SourceGroup G₂ F₂]

/-- With a second element that belongs to its group, the pairing has a value for the first elements
that belong to theirs, and refuses the others. It is asked about elements that are not neutral. -/
structure GuardedPairing (G₁ G₂ : Type) {F₁ F₂ T : Type} [SourceGroup G₁ F₁] [SourceGroup G₂ F₂]
    [Pairing G₁ G₂ T] : Prop where
  value_ok : ∀ {P : G₁} {Q : G₂}, Belongs P → Belongs Q → affine P ≠ none → affine Q ≠ none →
    ∃ t : T, Pairing.value P Q = .ok t
  value_error : ∀ {P : G₁} {Q : G₂}, ¬ Belongs P → Belongs Q → affine P ≠ none → affine Q ≠ none →
    Pairing.value P Q = .error .offCurve

namespace GuardedPairing

/-- A first element that does not belong to its group, where the second is not neutral. -/
def Refuses (pair : G₁ × G₂) : Prop := ¬ Belongs pair.1 ∧ affine pair.2 ≠ none

/-- A computation over some pairs that has a result unless one of them is refused. -/
def Answers {α : Type} (pairs : List (G₁ × G₂)) (x : Except Fault α) : Prop :=
  (∃ a, x = .ok a ∧ ∀ pair ∈ pairs, ¬ Refuses pair) ∨
    (x = .error .offCurve ∧ ∃ pair ∈ pairs, Refuses pair)

theorem Answers.pure {α : Type} (a : α) : Answers ([] : List (G₁ × G₂)) (.ok a) :=
  .inl ⟨a, rfl, nofun⟩

theorem Answers.bind {α β : Type} {pairs pairs' : List (G₁ × G₂)} {x : Except Fault α}
    {f : α → Except Fault β} (hx : Answers pairs x) (hf : ∀ a, Answers pairs' (f a)) :
    Answers (pairs ++ pairs') (x >>= f) := by
  rcases hx with ⟨a, rfl, hpairs⟩ | ⟨rfl, pair, hmem, hrefuses⟩
  · rcases hf a with ⟨b, hb, hpairs'⟩ | ⟨hb, pair, hmem, hrefuses⟩
    · exact .inl ⟨b, hb, List.forall_mem_append.2 ⟨hpairs, hpairs'⟩⟩
    · exact .inr ⟨hb, pair, List.mem_append_right _ hmem, hrefuses⟩
  · exact .inr ⟨rfl, pair, List.mem_append_left _ hmem, hrefuses⟩

theorem belongs_of_neutral [LawfulGroup G₁] {P : G₁} (hP : affine P = none) : Belongs P :=
  ⟨0, LawfulGroup.isMultiple_zero.of_affine_eq (hP.trans LawfulGroup.affine_zero.symm)⟩

variable [Pairing G₁ G₂ T] [LawfulGroup G₁] (hpairing : GuardedPairing G₁ G₂)
include hpairing

/-- One factor of a product. Its second element being in its group, it is the first that decides. -/
theorem factor_answers {pair : G₁ × G₂} (hpair : Belongs pair.2) (product : T) :
    Answers [pair]
      (if (affine pair.1).isNone || (affine pair.2).isNone then Except.ok product
      else do return Pairing.mul G₁ G₂ product (← Pairing.value pair.1 pair.2)) := by
  obtain ⟨P, Q⟩ := pair
  by_cases hP : affine P = none
  · have hbelongs := belongs_of_neutral hP
    rw [show affine P = none from hP]
    exact .inl ⟨product, rfl, List.forall_mem_singleton.2 fun h => h.1 hbelongs⟩
  by_cases hQ : affine Q = none
  · rw [show affine Q = none from hQ, Option.isNone_none, Bool.or_true]
    exact .inl ⟨product, rfl, List.forall_mem_singleton.2 fun h => h.2 hQ⟩
  rw [if_neg (by simp [hP, hQ])]
  by_cases hbelongs : Belongs P
  · obtain ⟨t, ht⟩ := hpairing.value_ok hbelongs hpair hP hQ
    rw [ht]
    exact .inl ⟨_, rfl, List.forall_mem_singleton.2 fun h => h.1 hbelongs⟩
  · rw [hpairing.value_error hbelongs hpair hP hQ]
    exact .inr ⟨rfl, _, List.mem_singleton_self _, hbelongs, hQ⟩

theorem productIsOne_answers {pairs : List (G₁ × G₂)} (hpairs : ∀ pair ∈ pairs, Belongs pair.2) :
    Answers pairs (Pairing.productIsOne pairs) := by
  have hproduct : ∀ product : T, Answers pairs (pairs.foldlM (fun product pair =>
      if (affine pair.1).isNone || (affine pair.2).isNone then pure product
      else do return Pairing.mul G₁ G₂ product (← Pairing.value pair.1 pair.2)) product) := by
    induction pairs with
    | nil => exact fun product => .pure product
    | cons pair pairs ih =>
      obtain ⟨hhead, htail⟩ := List.forall_mem_cons.1 hpairs
      exact fun product => (hpairing.factor_answers hhead product).bind (ih htail)
  have hanswers := (hproduct (Pairing.one G₁ G₂)).bind
    fun product => .pure (Pairing.isOne G₁ G₂ product)
  rwa [List.append_nil] at hanswers

end GuardedPairing

end

/-! ## The pairing on the curve -/

/-- Powers of one, by halving the exponent as `Fp12.pow` does. -/
theorem Fp12.one_pow (n : Nat) : (1 : Fp12).pow n = 1 := by
  have hone : (1 : Fp12) * 1 = 1 := by decide +kernel
  induction n using Nat.strong_induction_on with
  | _ n ih =>
    unfold Fp12.pow
    split
    · rfl
    · dsimp only
      rw [hone, ih (n / 2) (by omega), hone, ite_self]

namespace AtePairing

/-- A first point off its curve, where the second is not at infinity. -/
def Refuses (pair : Point Fp × Point Fp2) : Prop :=
  ¬ pair.1.OnCurve curveConstant ∧ ¬ pair.2.IsInfinity

theorem belongs_iff_onCurve {P : Point Fp} : Belongs P ↔ P.OnCurve curveConstant :=
  ⟨fun ⟨_, hP⟩ => onCurve_of_isMultiple hP, exists_isMultiple_of_onCurve⟩

theorem refuses_iff {pair : Point Fp × Point Fp2} : GuardedPairing.Refuses pair ↔ Refuses pair :=
  and_congr (not_congr belongs_iff_onCurve) (not_congr Point.affine_eq_none_iff)

theorem guarded : GuardedPairing (Point Fp) (Point Fp2) := by
  have hvalue : ∀ {P : Point Fp} {Q : Point Fp2}, Belongs Q → affine P ≠ none → affine Q ≠ none →
      ∃ t : Fp12, (Pairing.value P Q : Except Fault Fp12) =
        if ¬ P.OnCurve curveConstant then .error .offCurve else .ok t := by
    rintro P Q ⟨k, hQ⟩ hfinite hfinite'
    obtain ⟨p, hp⟩ := Option.ne_none_iff_exists'.1 hfinite
    obtain ⟨q, hq⟩ := Option.ne_none_iff_exists'.1 hfinite'
    refine ⟨millerLoop q p, ?_⟩
    show millerFactor P Q = _
    unfold millerFactor
    rw [show P.affine = some p from hp, show Q.affine = some q from hq]
    exact if_neg (not_not.2 (onTwist_of_isMultiple hQ))
  constructor
  · intro P Q hP hQ hfinite hfinite'
    obtain ⟨t, ht⟩ := hvalue hQ hfinite hfinite'
    exact ⟨t, ht.trans (if_neg (not_not.2 (belongs_iff_onCurve.1 hP)))⟩
  · intro P Q hP hQ hfinite hfinite'
    obtain ⟨t, ht⟩ := hvalue hQ hfinite hfinite'
    exact ht.trans (if_pos (mt belongs_iff_onCurve.2 hP))

theorem productIsOne_of_infinity {pairs : List (Point Fp × Point Fp2)}
    (h : ∀ pair ∈ pairs, pair.1.IsInfinity) : Pairing.productIsOne pairs = .ok true := by
  have hproduct : Pairing.product pairs = .ok (1 : Fp12) := by
    unfold Pairing.product
    induction pairs with
    | nil => rfl
    | cons pair pairs ih =>
      obtain ⟨hhead, htail⟩ := List.forall_mem_cons.1 h
      have hnone : (affine pair.1).isNone = true :=
        Option.isNone_iff_eq_none.2 (Point.affine_eq_none_iff.2 hhead)
      rw [List.foldlM_cons, hnone]
      exact ih htail
  have hone : Pairing.isOne (Point Fp) (Point Fp2) 1 = true := by
    refine decide_eq_true ?_
    rw [IsOneInTarget, Fp12.one_pow]
    rfl
  unfold Pairing.productIsOne
  rw [hproduct]
  exact congrArg Except.ok hone

end AtePairing

/-! ## The sums of a batch -/

theorem weightedSum_concat_zero (terms : List (Point Fp × Fr)) (P : Point Fp) :
    weightedSum (terms ++ [(P, 0)]) = weightedSum terms := by
  rw [weightedSum, List.foldl_append, List.foldl_cons, List.foldl_nil, if_pos rfl]
  rfl

namespace Batch

def elements {G₁ G₂ : Type} (b : Batch G₁ G₂) : List G₁ :=
  (b.alphaX ++ b.alpha ++ b.full ++ b.bounded).map (·.1)

theorem start_empty {G₁ G₂ F₂ : Type} [SourceGroup G₂ F₂] {srs : ReferenceString G₁ G₂} {n : Int}
    {b : Batch G₁ G₂} (h : start srs n = .ok b) :
    b.alphaX = [] ∧ b.alpha = [] ∧ b.full = [] ∧ b.bounded = [] ∧ b.value = 0 := by
  obtain ⟨_, _, _, _, _, rfl⟩ := start_fresh h
  exact ⟨rfl, rfl, rfl, rfl, rfl⟩

theorem elements_foldl_push {G₁ G₂ : Type} {els : List G₁} {entries : List (Entry G₁)}
    (hentries : ∀ entry ∈ entries, ∀ P, entry.element = some P → P ∈ els) {b : Batch G₁ G₂}
    (hb : b.elements ⊆ els) : (entries.foldl push b).elements ⊆ els := by
  induction entries generalizing b with
  | nil => exact hb
  | cons entry entries ih =>
    obtain ⟨hhead, htail⟩ := List.forall_mem_cons.1 hentries
    refine ih htail ?_
    cases entry with
    | value v r => exact hb
    | opening evidence r z =>
      have hmem := hhead evidence rfl
      simp_all [elements, push]
    | commitment c r =>
      have hmem := hhead c rfl
      simp_all [elements, push]
    | bounded c r =>
      have hmem := hhead c rfl
      simp_all [elements, push]

variable {G₁ G₂ F₁ F₂ T : Type} [SourceGroup G₁ F₁] [SourceGroup G₂ F₂] {b : Batch G₁ G₂}
  {d n : Int} {x alpha : Fr}

theorem verdict_answers [Pairing G₁ G₂ T] [LawfulGroup G₁] (hpairing : GuardedPairing G₁ G₂)
    (hkeys : b.HasKeys d n x alpha) :
    GuardedPairing.Answers b.closed.pairs b.closed.verdict := by
  refine hpairing.productIsOne_answers ?_
  simp only [pairs, closed, List.forall_mem_cons, List.not_mem_nil, false_implies, implies_true,
    and_true]
  exact ⟨⟨_, hkeys.alphaXKey⟩, ⟨_, hkeys.alphaKey⟩, ⟨_, hkeys.fullKey⟩, ⟨_, hkeys.boundedKey⟩⟩

/-- The key of the bounded commitments is not neutral, so that their sum has to be in its group. -/
theorem refuses_bounded [LawfulGroup G₂] (hkeys : b.HasKeys d n x alpha) (hx : x ≠ 0)
    (hsum : ¬ Belongs (weightedSum b.bounded)) :
    ∃ pair ∈ b.closed.pairs, GuardedPairing.Refuses pair := by
  refine ⟨(weightedSum b.bounded, b.boundedKey), by simp [pairs, closed], hsum, fun hnone => ?_⟩
  exact neg_ne_zero.2 (zpow_ne_zero _ hx) ((affine_eq_none_iff hkeys.boundedKey).1 hnone)

theorem belongs_pairs [LawfulGroup G₁] (hkeys : b.HasKeys d n x alpha)
    (h : ∀ P ∈ b.elements, Belongs P) : ∀ pair ∈ b.closed.pairs, Belongs pair.1 := by
  simp only [elements, List.map_append, List.forall_mem_append, List.forall_mem_map] at h
  obtain ⟨⟨⟨halphaX, halpha⟩, hfull⟩, hbounded⟩ := h
  have hsum : ∀ {terms : List (G₁ × Fr)}, (∀ term ∈ terms, Belongs term.1) →
      Belongs (weightedSum terms) := fun h => ⟨_, isMultiple_totalScalar h⟩
  simp only [pairs, closed, List.forall_mem_cons, List.not_mem_nil, false_implies, implies_true,
    and_true]
  refine ⟨hsum halphaX, hsum ?_, hsum hfull, hsum hbounded⟩
  exact List.forall_mem_append.2 ⟨halpha, List.forall_mem_singleton.2 ⟨_, hkeys.g⟩⟩

end Batch

/-! ## The check of a verifier -/

namespace Verifier

/-- An open verifier over a reference string, with claims about some elements. -/
structure IsOpen {G₁ G₂ F₂ : Type} [SourceGroup G₁ Fp] [SourceGroup G₂ F₂] (d : Int) (x alpha : Fr)
    (els : List G₁) (v : Verifier G₁ G₂) : Prop where
  finalized_eq : v.finalized = false
  batch_finalized_eq : v.batch.finalized = false
  keys : v.batch.HasKeys d v.shape.gates x alpha
  elements_subset : v.batch.elements ⊆ els

section

variable {G₁ G₂ F₂ : Type} [SourceGroup G₁ Fp] [SourceGroup G₂ F₂] {d : Int} {x alpha : Fr}
  {v v' : Verifier G₁ G₂} {els : List G₁}

theorem isOpen_of_start [LawfulGroup G₁] [LawfulGroup G₂] {srs : ReferenceString G₁ G₂}
    (hsrs : srs.Tables d x alpha) {circuit : Circuit} {log log' : List LogEntry}
    (hstart : start srs circuit log = .ok v log') : v.IsOpen d x alpha [] := by
  obtain ⟨-, hbatch, hgates, hfinalized⟩ := start_ok hstart
  rw [hsrs.degree_eq] at hgates
  obtain ⟨b, hb, hkeys, hcollects⟩ := Batch.start_eq hsrs (Int.natCast_nonneg _) hgates
  cases hbatch.symm.trans hb
  obtain ⟨halphaX, halpha, hfull, hbounded, -⟩ := Batch.start_empty hbatch
  refine ⟨hfinalized, hcollects.finalized, hkeys, ?_⟩
  rw [Batch.elements, halphaX, halpha, hfull, hbounded]
  exact nofun

variable {oracle : Oracle}

/-- A call that succeeds leaves the verifier open and adds claims about its own elements. -/
theorem IsOpen.run (hv : v.IsOpen d x alpha els) {call : Call G₁}
    (hrun : call.run oracle v = .ok () v') : v'.IsOpen d x alpha (els ++ call.elements) := by
  have hadds := Call.run_adds oracle hv.finalized_eq hv.batch_finalized_eq call
  rw [hrun] at hadds
  cases hclaims : call.claims oracle v.shape v.evaluate with
  | error e =>
    rw [hclaims] at hadds
    obtain ⟨_, -, h⟩ := hadds.eq_error
    cases h
  | ok entries =>
    rw [hclaims] at hadds
    obtain ⟨v'', log, hevaluated, h⟩ := hadds.eq_ok
    obtain ⟨c, rfl⟩ := hevaluated.exists_circuit
    cases h
    refine ⟨hv.finalized_eq, ?_, hv.keys.foldl_push entries, Batch.elements_foldl_push ?_ ?_⟩
    · exact (Batch.finalized_foldl_push entries v.batch).trans hv.batch_finalized_eq
    · exact fun entry hentry P hP =>
        List.mem_append_right _ (call.claims_within entries hclaims entry hentry P hP)
    · exact fun P hP => List.mem_append_left _ (hv.elements_subset hP)

theorem IsOpen.forM_run (hv : v.IsOpen d x alpha els) {calls : List (Call G₁)}
    (hrun : calls.forM (Call.run oracle) v = .ok () v') :
    v'.IsOpen d x alpha (els ++ calls.flatMap Call.elements) := by
  induction calls generalizing v els with
  | nil =>
    cases hrun
    rwa [List.flatMap_nil, List.append_nil]
  | cons call calls ih =>
    obtain ⟨_, v₁, hfirst, hrest⟩ := exists_of_run_ok hrun
    have hv' := ih (hv.run hfirst) hrest
    rwa [List.append_assoc, ← List.flatMap_cons] at hv'

end

/-- The check of a verifier, after any calls that have succeeded, with any elements, for a pairing
that refuses just those that do not belong to its group. It answers as long as none of the four sums
is refused. Else it fails because of a point off the curve, and one of the elements that the calls
were given does not belong. -/
theorem check_guarded {G₁ G₂ F₂ T : Type} [SourceGroup G₁ Fp] [SourceGroup G₂ F₂] [LawfulGroup G₁]
    [LawfulGroup G₂] [Pairing G₁ G₂ T] (hpairing : GuardedPairing G₁ G₂) (oracle : Oracle) {d : Int}
    {x alpha : Fr} {srs : ReferenceString G₁ G₂} (hsrs : srs.Tables d x alpha) {circuit : Circuit}
    {log log' : List LogEntry} {v v' : Verifier G₁ G₂} (hstart : start srs circuit log = .ok v log')
    {calls : List (Call G₁)} (hcalls : calls.forM (Call.run oracle) v = .ok () v') :
    ((∃ answer, outcome (check v') = .ok answer) ∧
        ∀ pair ∈ v'.batch.closed.pairs, ¬ GuardedPairing.Refuses pair) ∨
      (outcome (check v') = .error .offCurve ∧
        (∃ pair ∈ v'.batch.closed.pairs, GuardedPairing.Refuses pair) ∧
        ∃ call ∈ calls, ¬ ∀ P ∈ call.elements, Belongs P) := by
  have hv := (isOpen_of_start hsrs hstart).forM_run hcalls
  rw [List.nil_append] at hv
  have hanswers := Batch.verdict_answers hpairing hv.keys
  rw [← outcome_check hv.finalized_eq hv.batch_finalized_eq] at hanswers
  rcases hanswers with ⟨answer, hanswer, hpairs⟩ | ⟨herror, pair, hpair, hrefuses⟩
  · exact .inl ⟨⟨answer, hanswer⟩, hpairs⟩
  · refine .inr ⟨herror, ⟨pair, hpair, hrefuses⟩, ?_⟩
    by_contra hall
    refine hrefuses.1 (Batch.belongs_pairs hv.keys (fun P hP => ?_) pair hpair)
    obtain ⟨call, hcall, hmem⟩ := List.mem_flatMap.1 (hv.elements_subset hP)
    by_contra hP
    exact hall ⟨call, hcall, fun hbelongs => hP (hbelongs P hmem)⟩

/-- The check of a verifier, after any calls that have succeeded, with any triples as points. It
answers as long as the pairing refuses none of the four sums. Else it fails because of a point off
the curve, and one of the points that the calls were given is off the curve. -/
theorem check_answers (oracle : Oracle) {d : Int} {x alpha : Fr}
    {srs : ReferenceString (Point Fp) (Point Fp2)}
    (hsrs : ReferenceString.ofSecrets d x alpha = .ok srs) {circuit : Circuit}
    {log log' : List LogEntry} {v v' : Verifier (Point Fp) (Point Fp2)}
    (hstart : start srs circuit log = .ok v log') {calls : List (Call (Point Fp))}
    (hcalls : calls.forM (Call.run oracle) v = .ok () v') :
    ((∃ answer, outcome (check v') = .ok answer) ∧
        ∀ pair ∈ v'.batch.closed.pairs, ¬ AtePairing.Refuses pair) ∨
      (outcome (check v') = .error .offCurve ∧
        (∃ pair ∈ v'.batch.closed.pairs, AtePairing.Refuses pair) ∧
        ∃ call ∈ calls, ¬ call.OnCurve) := by
  have hcheck := check_guarded AtePairing.guarded oracle (ReferenceString.tables_of_ofSecrets hsrs)
    hstart hcalls
  simpa only [AtePairing.refuses_iff, AtePairing.belongs_iff_onCurve, Call.OnCurve] using hcheck

/-- A proof with one bad point. -/
theorem check_answers_productCircuit :
    ∃ (srs : ReferenceString (Point Fp) (Point Fp2)) (v v' : Verifier (Point Fp) (Point Fp2))
      (log : List LogEntry),
      ReferenceString.ofSecrets 2 2 3 = .ok srs ∧
      start srs (productCircuit.atPass 0) [] = .ok v log ∧
      ([.proof ⟨⟨1, 1, 1⟩, zero, 0, 0, zero, zero⟩ [6] (some 0)] : List (Call (Point Fp))).forM
        (Call.run (.constant 5)) v = .ok () v' ∧
      outcome (check v') = .error .offCurve := by
  let p : Proof (Point Fp) := ⟨⟨1, 1, 1⟩, zero, 0, 0, zero, zero⟩
  obtain ⟨srs, v, log, hsrs, hstart, hv, htakes⟩ := productCircuit_takes_proofs
  obtain ⟨v', hrun, hbatch⟩ := htakes (p.challenges_constant 5) 6 0
  have hcalls : [Call.proof p [6] (some 0)].forM (Call.run (.constant 5)) v = .ok () v' :=
    (bind_ok hrun).trans rfl
  refine ⟨srs, v, v', log, hsrs, hstart, hcalls, ?_⟩
  have hkeys : v'.batch.HasKeys 2 productCircuit.outline.gates 2 3 := by
    rw [hbatch]
    exact hv.keys.foldl_push _
  obtain ⟨-, -, -, hempty, -⟩ := Batch.start_empty (start_ok hstart).2.1
  -- The bad point enters this sum only, with the coefficients of both claims.
  have hbounded : v'.batch.bounded = [(⟨1, 1, 1⟩, 5), (⟨1, 1, 1⟩, 5 * 5)] := by
    rw [hbatch, foldl_push_entries]
    dsimp only
    rw [hempty]
    rfl
  have hoff : ¬ (weightedSum [((⟨1, 1, 1⟩ : Point Fp), 5), (⟨1, 1, 1⟩, 5 * 5)]).OnCurve
      AtePairing.curveConstant := by decide +kernel
  rcases check_answers (.constant 5) hsrs hstart hcalls with ⟨-, hpairs⟩ | ⟨herror, -⟩
  · obtain ⟨pair, hpair, hrefuses⟩ := Batch.refuses_bounded hkeys (by decide +kernel)
      (by rwa [hbounded, AtePairing.belongs_iff_onCurve])
    exact absurd (AtePairing.refuses_iff.1 hrefuses) (hpairs pair hpair)
  · exact herror

/-- Another proof with one bad point, which is accepted: the point is its own negative, so that the
sum takes an even multiple of it for the neutral element. -/
theorem check_accepts_malformed :
    ∃ (srs : ReferenceString (Point Fp) (Point Fp2)) (v v' : Verifier (Point Fp) (Point Fp2))
      (log : List LogEntry),
      ReferenceString.ofSecrets 2 2 3 = .ok srs ∧
      start srs (productCircuit.atPass 0) [] = .ok v log ∧
      (Call.proof ⟨zero, ⟨1, 0, 1⟩, 0, 0, zero, zero⟩ [-6⁻¹] (some 0)).run (.constant 6) v =
        .ok () v' ∧
      outcome (check v') = .ok true ∧
      ¬ (⟨1, 0, 1⟩ : Point Fp).OnCurve AtePairing.curveConstant := by
  let p : Proof (Point Fp) := ⟨zero, ⟨1, 0, 1⟩, 0, 0, zero, zero⟩
  obtain ⟨srs, v, log, hsrs, hstart, -, htakes⟩ := productCircuit_takes_proofs
  obtain ⟨v', hrun, hbatch⟩ := htakes (p.challenges_constant 6) (-6⁻¹) 0
  refine ⟨srs, v, v', log, hsrs, hstart, hrun, ?_, by decide +kernel⟩
  have hv' := (isOpen_of_start (ReferenceString.tables_of_ofSecrets hsrs) hstart).run hrun
  rw [outcome_check hv'.finalized_eq hv'.batch_finalized_eq, Batch.verdict]
  refine AtePairing.productIsOne_of_infinity ?_
  obtain ⟨halphaX, halpha, hfull, hbounded, hvalue⟩ := Batch.start_empty (start_ok hstart).2.1
  rw [foldl_push_entries, halphaX, halpha, hfull, hbounded, hvalue] at hbatch
  -- The input is chosen to make `k(y)` zero at `y = 6`, so that nothing is left to balance.
  have hzero : v'.batch.value = 0 := by
    rw [hbatch]
    dsimp only
    decide +kernel
  rw [Batch.pairs, Batch.closed, hzero, weightedSum_concat_zero, hbatch]
  simp only [List.forall_mem_cons, List.not_mem_nil, false_implies, implies_true, and_true]
  decide +kernel

end Verifier

end SnarkBatch
