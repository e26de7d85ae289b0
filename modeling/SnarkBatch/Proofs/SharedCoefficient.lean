import SnarkBatch.Proofs.AggregateCompleteness
import SnarkBatch.Proofs.VerificationEquation

/-!
# The coefficient that the claims of an aggregate share

The claims of an aggregate are to be kept apart by coefficients of their own, but these are drawn
from forks of one transcript that stands still, so they are all the same, and the first of the
challenges that combine the commitments to `s` is that one too. What an aggregate adds to a batch is
therefore explicit (`Aggregate.addTo`), and of the claimed values `v` it depends on

    Σ v_i · (1 + r_i)

only, where neither the coefficient nor any `r_i` depends on them. Values that are changed without
changing this sum go unnoticed, whatever happens afterwards
(`Verifier.addAggregate_shares_coefficient`).
-/

namespace SnarkBatch

/-! ## What entries add to a batch -/

namespace Entry

variable {G : Type}

def alphaXTerms : Entry G → List (G × Fr)
  | opening evidence r _ => [(evidence, r)]
  | _ => []

def alphaTerms : Entry G → List (G × Fr)
  | opening evidence r z => [(evidence, -(z * r))]
  | _ => []

def fullTerms : Entry G → List (G × Fr)
  | commitment c r => [(c, r)]
  | _ => []

def boundedTerms : Entry G → List (G × Fr)
  | bounded c r => [(c, r)]
  | _ => []

def valueTerms : Entry G → List Fr
  | value v r => [v * r]
  | _ => []

end Entry

theorem Batch.push_eq {G₁ G₂ : Type} (b : Batch G₁ G₂) (entry : Entry G₁) :
    b.push entry = { b with
      alphaX := b.alphaX ++ entry.alphaXTerms
      alpha := b.alpha ++ entry.alphaTerms
      full := b.full ++ entry.fullTerms
      bounded := b.bounded ++ entry.boundedTerms
      value := b.value + entry.valueTerms.sum } := by
  cases entry <;>
    simp only [push, Entry.alphaXTerms, Entry.alphaTerms, Entry.fullTerms, Entry.boundedTerms,
      Entry.valueTerms, List.append_nil, List.sum_nil, List.sum_singleton, add_zero]

theorem Batch.foldl_push_eq {G₁ G₂ : Type} (entries : List (Entry G₁)) (b : Batch G₁ G₂) :
    entries.foldl push b = { b with
      alphaX := b.alphaX ++ entries.flatMap Entry.alphaXTerms
      alpha := b.alpha ++ entries.flatMap Entry.alphaTerms
      full := b.full ++ entries.flatMap Entry.fullTerms
      bounded := b.bounded ++ entries.flatMap Entry.boundedTerms
      value := b.value + (entries.flatMap Entry.valueTerms).sum } := by
  induction entries generalizing b with
  | nil =>
    simp only [List.foldl_nil, List.flatMap_nil, List.sum_nil, List.append_nil, add_zero]
  | cons entry entries ih =>
    rw [List.foldl_cons, ih, push_eq]
    simp only [List.flatMap_cons, List.sum_append, List.append_assoc, add_assoc]

/-! ## The challenges of an aggregate -/

namespace Aggregate

structure Challenges where
  /-- The `y` of each proof. -/
  ys : List Fr
  z : Fr
  w : Fr
  /-- What every fork of the transcript draws. -/
  shared : Fr
  /-- What the transcript itself draws afterwards, one for each proof. -/
  rs : List Fr
  deriving DecidableEq, Repr

variable {G : Type}

/-- The challenges depend on the proofs and on `c`, but on no opening and on no value of the
aggregate. -/
def challenges [SourceGroup G Fp] (oracle : Oracle) (proofs : List (Proof G × Advice G)) (c : G) :
    Except Fault Challenges := do
  let ys ← proofPoints oracle proofs
  let t := proofs.foldl (fun t p => t.absorbElement p.2.s) (Transcript.start [])
  let (z, t) ← t.challenge oracle
  let (w, t) ← (t.absorbElement c).challenge oracle
  let shared ← t.forkChallenge oracle
  let rs ← Helper.coefficients oracle proofs.length t
  return { ys, z, w, shared, rs }

variable {oracle : Oracle}

theorem openingEntries_eq {pts : Points} {rho : Fr}
    (hrho : pts.transcript.forkChallenge oracle = .ok rho) (agg : Aggregate G) :
    agg.openingEntries oracle pts =
      .ok ((agg.cOpenings.zip pts.ys).flatMap fun oy => agg.pointEntries oy.1.1 rho oy.2 oy.1.2) := by
  unfold openingEntries
  rw [hrho]
  show (List.mapM (fun oy : (G × Fr) × Fr => pure (agg.pointEntries oy.1.1 rho oy.2 oy.1.2)) _ >>= _) = _
  rw [List.mapM_pure]
  rfl

/-- The combination draws as many challenges as it has parts. -/
theorem combine_eq (rho : Fr) (advised : List (Advice G × Fr)) (t : Transcript) :
    combine oracle rho advised t = (Helper.coefficients oracle advised.length t).map fun rs =>
      (((advised.zip rs).map fun ar => ar.1.2 * ar.2).sum,
        (advised.zip rs).map fun ar => .commitment ar.1.1.s (ar.2 * rho)) := by
  induction advised generalizing t with
  | nil => rfl
  | cons av advised ih =>
    obtain ⟨advice, value⟩ := av
    rw [combine, List.length_cons, Helper.coefficients]
    cases t.challenge oracle with
    | error e => rfl
    | ok drawn =>
      obtain ⟨r, t'⟩ := drawn
      show (combine oracle rho advised t' >>= _) = Except.map _ (Helper.coefficients _ _ _ >>= _)
      rw [ih]
      cases Helper.coefficients oracle advised.length t' <;> rfl

/-! ## The claims of an aggregate -/

/-- The elements that open something, in the order of their claims. -/
def evidence (agg : Aggregate G) : List G := agg.opening :: (agg.cOpenings.map (·.1) ++ [agg.sOpening])

def values (agg : Aggregate G) : List Fr := agg.cOpenings.map (·.2)

/-- All claims with the one coefficient. -/
def sharedEntries (agg : Aggregate G) (proofs : List (Proof G × Advice G)) (ch : Challenges)
    (szw : Fr) : List (Entry G) :=
  agg.pointEntries agg.opening ch.shared ch.w szw ++
    ((agg.cOpenings.zip ch.ys).flatMap fun oy => agg.pointEntries oy.1.1 ch.shared oy.2 oy.1.2) ++
    ((proofs.zip ch.rs).map fun pr => .commitment pr.1.2.s (pr.2 * ch.shared)) ++
    [.value ((agg.values.zip ch.rs).map fun vr => vr.1 * vr.2).sum ch.shared,
      .opening agg.sOpening ch.shared ch.z]

theorem zip_zip_map_fst {A B C D : Type} {as : List A} {bs : List B} (h : as.length ≤ bs.length)
    (cs : List C) (f : A → C → D) :
    ((as.zip bs).zip cs).map (fun abc => f abc.1.1 abc.2) =
      (as.zip cs).map fun ac => f ac.1 ac.2 := by
  conv_rhs => rw [← List.map_fst_zip h, List.zip_map_left, List.map_map]
  rfl

theorem zip_zip_map_snd {A B C D : Type} {as : List A} {bs : List B} (h : bs.length ≤ as.length)
    (cs : List C) (f : B → C → D) :
    ((as.zip bs).zip cs).map (fun abc => f abc.1.2 abc.2) =
      (bs.zip cs).map fun bc => f bc.1 bc.2 := by
  conv_rhs => rw [← List.map_snd_zip h, List.zip_map_left, List.map_map]
  rfl

theorem entries_eq {agg : Aggregate G} {proofs : List (Proof G × Advice G)} {pts : Points}
    (hcount : agg.cOpenings.length = proofs.length) {rho : Fr}
    (hrho : pts.transcript.forkChallenge oracle = .ok rho) (szw : Fr) :
    agg.entries oracle proofs pts szw =
      (Helper.coefficients oracle proofs.length pts.transcript).map fun rs =>
        agg.sharedEntries proofs ⟨pts.ys, pts.z, pts.w, rho, rs⟩ szw := by
  have hvalues : (proofs.map (·.2)).length = agg.values.length := by
    rw [values, List.length_map, List.length_map, hcount]
  have hlength : ((proofs.map (·.2)).zip agg.values).length = proofs.length := by
    rw [List.length_zip, hvalues, min_self, ← hvalues, List.length_map]
  have hcombined : ∀ rs : List Fr, (((proofs.map (·.2)).zip agg.values).zip rs).map
      (fun ar => Entry.commitment ar.1.1.s (ar.2 * rho)) =
        (proofs.zip rs).map fun pr => .commitment pr.1.2.s (pr.2 * rho) := by
    intro rs
    rw [zip_zip_map_fst hvalues.le rs fun a r => Entry.commitment a.s (r * rho), List.zip_map_left,
      List.map_map]
    rfl
  unfold entries
  rw [hrho, openingEntries_eq hrho]
  show (combine oracle rho ((proofs.map (·.2)).zip agg.values) pts.transcript >>= _) = _
  rw [combine_eq, hlength]
  cases Helper.coefficients oracle proofs.length pts.transcript with
  | error e => rfl
  | ok rs =>
    show Except.ok _ = Except.ok _
    rw [hcombined, zip_zip_map_snd hvalues.ge rs fun v r => v * r]
    rfl

section

variable {agg : Aggregate G} {proofs : List (Proof G × Advice G)} {ch : Challenges} {szw : Fr}

theorem flatMap_sharedEntries {A : Type} (f : Entry G → List A) :
    (agg.sharedEntries proofs ch szw).flatMap f =
      (agg.pointEntries agg.opening ch.shared ch.w szw).flatMap f ++
        ((agg.cOpenings.zip ch.ys).flatMap fun oy =>
          (agg.pointEntries oy.1.1 ch.shared oy.2 oy.1.2).flatMap f) ++
        ((proofs.zip ch.rs).flatMap fun pr => f (.commitment pr.1.2.s (pr.2 * ch.shared))) ++
        (f (.value ((agg.values.zip ch.rs).map fun vr => vr.1 * vr.2).sum ch.shared) ++
          f (.opening agg.sOpening ch.shared ch.z)) := by
  simp only [sharedEntries, List.flatMap_append, List.flatMap_assoc, List.flatMap_map,
    List.flatMap_cons, List.flatMap_nil, List.append_nil]

theorem flatMap_zip_fst {A B C : Type} {as : List A} {bs : List B} (h : as.length ≤ bs.length)
    (f : A → C) : ((as.zip bs).flatMap fun ab => [f ab.1]) = as.map f := by
  rw [← List.map_eq_flatMap]
  conv_rhs => rw [← List.map_fst_zip h, List.map_map]
  rfl

theorem flatMap_fun_nil {A B : Type} (as : List A) : (as.flatMap fun _ => ([] : List B)) = [] :=
  List.flatMap_eq_nil_iff.2 fun _ _ => rfl

theorem alphaXTerms_sharedEntries (hys : agg.cOpenings.length = ch.ys.length) :
    (agg.sharedEntries proofs ch szw).flatMap Entry.alphaXTerms =
      agg.evidence.map fun W => (W, ch.shared) := by
  rw [flatMap_sharedEntries]
  simp only [pointEntries, Entry.alphaXTerms, List.flatMap_cons, List.flatMap_nil, List.append_nil]
  rw [flatMap_zip_fst hys.le fun o : G × Fr => (o.1, ch.shared), flatMap_fun_nil]
  simp [evidence]

theorem alphaTerms_sharedEntries (hys : agg.cOpenings.length = ch.ys.length) :
    (agg.sharedEntries proofs ch szw).flatMap Entry.alphaTerms =
      (agg.evidence.zip (ch.w :: (ch.ys ++ [ch.z]))).map fun Wz => (Wz.1, -(Wz.2 * ch.shared)) := by
  have hlength : (agg.cOpenings.map (·.1)).length = ch.ys.length := by rw [List.length_map, hys]
  rw [flatMap_sharedEntries, evidence, List.zip_cons_cons, List.zip_append hlength, List.zip_map_left]
  simp only [pointEntries, Entry.alphaTerms, List.flatMap_cons, List.flatMap_nil, List.append_nil]
  rw [← List.map_eq_flatMap, flatMap_fun_nil]
  simp

theorem fullTerms_sharedEntries (hys : agg.cOpenings.length = ch.ys.length) :
    (agg.sharedEntries proofs ch szw).flatMap Entry.fullTerms =
      List.replicate (agg.cOpenings.length + 1) (agg.c, ch.shared) ++
        (proofs.zip ch.rs).map fun pr => (pr.1.2.s, pr.2 * ch.shared) := by
  rw [flatMap_sharedEntries]
  simp only [pointEntries, Entry.fullTerms, List.flatMap_cons, List.flatMap_nil, List.append_nil,
    List.nil_append]
  rw [flatMap_zip_fst hys.le fun _ : G × Fr => (agg.c, ch.shared), List.map_const',
    ← List.map_eq_flatMap, List.singleton_append, ← List.replicate_succ]

theorem boundedTerms_sharedEntries :
    (agg.sharedEntries proofs ch szw).flatMap Entry.boundedTerms = [] := by
  rw [flatMap_sharedEntries]
  simp [pointEntries, Entry.boundedTerms, flatMap_fun_nil]

theorem sum_valueTerms_sharedEntries (hys : agg.cOpenings.length = ch.ys.length)
    (hrs : agg.cOpenings.length = ch.rs.length) :
    ((agg.sharedEntries proofs ch szw).flatMap Entry.valueTerms).sum =
      ch.shared * (szw + ∑ i ∈ Finset.range agg.cOpenings.length,
        agg.values.getD i 0 * (1 + ch.rs.getD i 0)) := by
  have hlength : agg.values.length = agg.cOpenings.length := List.length_map _
  have hvalues : agg.values.sum = ((agg.values.zip ch.rs).map fun vr => vr.1).sum := by
    rw [List.map_fst_zip (hlength.trans hrs).le]
  have hsum : agg.values.sum + ((agg.values.zip ch.rs).map fun vr => vr.1 * vr.2).sum =
      ∑ i ∈ Finset.range agg.cOpenings.length, agg.values.getD i 0 * (1 + ch.rs.getD i 0) := by
    rw [hvalues, ← List.sum_map_add, ← hlength,
      ← sum_zip_eq_sum_range (fun v r => v * (1 + r)) (hlength.trans hrs).le]
    simp only [mul_add, mul_one]
  have hscaled : (agg.cOpenings.map fun o => o.2 * ch.shared).sum = agg.values.sum * ch.shared := by
    rw [values, ← List.sum_map_mul_right]
  rw [flatMap_sharedEntries, ← hsum]
  simp only [pointEntries, Entry.valueTerms, List.flatMap_cons, List.flatMap_nil, List.append_nil,
    List.nil_append]
  rw [flatMap_zip_fst hys.le fun o : G × Fr => o.2 * ch.shared, flatMap_fun_nil]
  simp only [List.sum_append, List.sum_singleton, List.sum_nil, hscaled]
  ring

end

theorem foldl_push_sharedEntries {G₂ : Type} {agg : Aggregate G} {proofs : List (Proof G × Advice G)}
    {ch : Challenges} (hcount : agg.cOpenings.length = proofs.length)
    (hys : ch.ys.length = proofs.length) (hrs : ch.rs.length = proofs.length) (szw : Fr)
    (b : Batch G G₂) :
    (agg.sharedEntries proofs ch szw).foldl Batch.push b = { b with
      alphaX := b.alphaX ++ agg.evidence.map fun W => (W, ch.shared)
      alpha := b.alpha ++
        (agg.evidence.zip (ch.w :: (ch.ys ++ [ch.z]))).map fun Wz => (Wz.1, -(Wz.2 * ch.shared))
      full := b.full ++ (List.replicate (proofs.length + 1) (agg.c, ch.shared) ++
        (proofs.zip ch.rs).map fun pr => (pr.1.2.s, pr.2 * ch.shared))
      value := b.value + ch.shared * (szw + ∑ i ∈ Finset.range proofs.length,
        agg.values.getD i 0 * (1 + ch.rs.getD i 0)) } := by
  have hopenings := hcount.trans hys.symm
  rw [Batch.foldl_push_eq, alphaXTerms_sharedEntries hopenings, alphaTerms_sharedEntries hopenings,
    fullTerms_sharedEntries hopenings, boundedTerms_sharedEntries,
    sum_valueTerms_sharedEntries hopenings (hcount.trans hrs.symm), hcount, List.append_nil]

/-- Aggregates that differ in their claimed values only. -/
structure EqUpToValues (agg agg' : Aggregate G) : Prop where
  c : agg.c = agg'.c
  sOpening : agg.sOpening = agg'.sOpening
  opening : agg.opening = agg'.opening
  cOpenings : agg.cOpenings.map (·.1) = agg'.cOpenings.map (·.1)

theorem EqUpToValues.length {agg agg' : Aggregate G} (h : agg.EqUpToValues agg') :
    agg.cOpenings.length = agg'.cOpenings.length := by
  have hlength := congrArg List.length h.cOpenings
  rwa [List.length_map, List.length_map] at hlength

theorem EqUpToValues.evidence_eq {agg agg' : Aggregate G} (h : agg.EqUpToValues agg') :
    agg.evidence = agg'.evidence := by
  rw [evidence, evidence, h.sOpening, h.opening, h.cOpenings]

/-- Whatever is drawn from a transcript next, its forks draw it too. -/
theorem eq_of_mem_head {t : Transcript} {rho : Fr} (hrho : t.forkChallenge oracle = .ok rho) {k : Nat}
    {rs : List Fr} (hrs : Helper.coefficients oracle k t = .ok rs) : ∀ r ∈ rs.head?, r = rho := by
  cases k with
  | zero =>
    cases hrs
    exact fun r hr => by cases hr
  | succ k =>
    obtain ⟨r, t', rs', hdraw, -, rfl⟩ := Helper.coefficients_succ hrs
    rw [Transcript.forkChallenge, hdraw] at hrho
    cases hrho
    rintro _ ⟨⟩
    rfl

theorem length_coefficients (k : Nat) (t : Transcript) :
    Gives (fun rs => rs.length = k) (Helper.coefficients oracle k t) := by
  induction k generalizing t with
  | zero => exact .pure rfl
  | succ k ih =>
    exact .of_forall fun drawn => .bind (ih drawn.2) fun rs hrs => .pure (congrArg (· + 1) hrs)

section

variable [SourceGroup G Fp] {proofs : List (Proof G × Advice G)} {agg : Aggregate G}

theorem challenges_eq_ok_iff {ch : Challenges} : challenges oracle proofs agg.c = .ok ch ↔
    ∃ t, agg.points oracle proofs = .ok ⟨ch.ys, ch.z, ch.w, t⟩ ∧
      t.forkChallenge oracle = .ok ch.shared ∧
      Helper.coefficients oracle proofs.length t = .ok ch.rs := by
  have heq : challenges oracle proofs agg.c = do
      let pts ← agg.points oracle proofs
      let shared ← pts.transcript.forkChallenge oracle
      let rs ← Helper.coefficients oracle proofs.length pts.transcript
      return ⟨pts.ys, pts.z, pts.w, shared, rs⟩ := by
    simp only [challenges, points, bind_assoc, pure_bind]
  rw [heq]
  constructor
  · intro h
    obtain ⟨pts, hpts, h⟩ := exists_of_bind_ok h
    obtain ⟨shared, hshared, h⟩ := exists_of_bind_ok h
    obtain ⟨rs, hrs, h⟩ := exists_of_bind_ok h
    cases h
    exact ⟨pts.transcript, hpts, hshared, hrs⟩
  · rintro ⟨t, hpts, hshared, hrs⟩
    exact (except_bind_ok hpts _).trans <| (except_bind_ok hshared _).trans (except_bind_ok hrs _)

theorem coefficients_constant (a : Fr) (k : Nat) (t : Transcript) :
    Helper.coefficients (.constant a) k t = .ok (List.replicate k a) := by
  induction k generalizing t with
  | zero => rfl
  | succ k ih =>
    obtain ⟨t', ht⟩ := Oracle.challenge_constant a t
    exact (except_bind_ok ht _).trans (except_bind_ok (ih t') _)

theorem challenges_constant (a : Fr) (proofs : List (Proof G × Advice G)) (c : G) :
    challenges (.constant a) proofs c =
      .ok ⟨List.replicate proofs.length a, a, a, a, List.replicate proofs.length a⟩ := by
  have hfork : ∀ t : Transcript, t.forkChallenge (.constant a) = .ok a := by
    intro t
    obtain ⟨t', ht⟩ := Oracle.challenge_constant a t
    rw [Transcript.forkChallenge, ht]
    rfl
  have hys : proofPoints (.constant a) proofs = .ok (List.replicate proofs.length a) := by
    show proofs.mapM (fun p => ((Transcript.start []).absorbElement p.1.r).forkChallenge _) = _
    simp only [hfork]
    exact (List.mapM_pure ..).trans (congrArg _ (List.map_const' ..))
  obtain ⟨t₁, hz⟩ := Oracle.challenge_constant a
    (proofs.foldl (fun t p => t.absorbElement p.2.s) (Transcript.start []))
  obtain ⟨t₂, hw⟩ := Oracle.challenge_constant a (t₁.absorbElement c)
  exact (except_bind_ok hys _).trans <| (except_bind_ok hz _).trans <| (except_bind_ok hw _).trans <|
    (except_bind_ok (hfork t₂) _).trans (except_bind_ok (coefficients_constant a _ t₂) _)

end

end Aggregate

namespace Verifier

variable {G₁ G₂ : Type} [SourceGroup G₁ Fp] {oracle : Oracle} {proofs : List (Proof G₁ × Advice G₁)}
  {agg agg' : Aggregate G₁}

theorem Call.aggregateClaims_eq_ok_iff {s : Fr → Fr → Except Fault Fr} {entries : List (Entry G₁)} :
    Call.aggregateClaims oracle s proofs agg = .ok entries ↔
      agg.cOpenings.length = proofs.length ∧
      ∃ ch szw, Aggregate.challenges oracle proofs agg.c = .ok ch ∧ s ch.w ch.z = .ok szw ∧
        entries = agg.sharedEntries proofs ch szw := by
  unfold Call.aggregateClaims
  by_cases hcount : agg.cOpenings.length = proofs.length
  · rw [if_pos hcount]
    constructor
    · intro h
      obtain ⟨pts, hpts, h⟩ := exists_of_bind_ok h
      obtain ⟨szw, hszw, h⟩ := exists_of_bind_ok h
      obtain ⟨rho, hrho, -⟩ := exists_of_bind_ok h
      rw [Aggregate.entries_eq hcount hrho] at h
      cases hrs : Helper.coefficients oracle proofs.length pts.transcript with
      | error e =>
        rw [hrs] at h
        cases h
      | ok rs =>
        rw [hrs] at h
        exact ⟨hcount, ⟨pts.ys, pts.z, pts.w, rho, rs⟩, szw,
          Aggregate.challenges_eq_ok_iff.2 ⟨pts.transcript, hpts, hrho, hrs⟩, hszw,
          (Except.ok.inj h).symm⟩
    · rintro ⟨-, ch, szw, hch, hszw, rfl⟩
      obtain ⟨t, hpts, hrho, hrs⟩ := Aggregate.challenges_eq_ok_iff.1 hch
      refine (except_bind_ok hpts _).trans <| (except_bind_ok hszw _).trans ?_
      rw [Aggregate.entries_eq hcount hrho, hrs]
      rfl
  · rw [if_neg hcount]
    exact ⟨nofun, fun h => absurd h.1 hcount⟩

omit [SourceGroup G₁ Fp] in
theorem ending_of_evaluate {v : Verifier G₁ G₂} {y x s : Fr} (h : v.evaluate y x = .ok s) :
    v.circuit.ending = .ok () := by
  have hrun := eq_ok_of_outcome h
  unfold constraintValue at hrun
  rw [get_bind] at hrun
  dsimp only at hrun
  by_cases hy : y = 0
  · rw [AtY.start, if_pos hy] at hrun
    cases hrun
  obtain ⟨s₀, hstart, hs₀⟩ := AtY.start_holds hy v.shape.gates
  rw [ofExcept_bind hstart] at hrun
  obtain ⟨done, v₁, hdone, -⟩ := exists_of_run_ok hrun
  obtain ⟨next, hcomplete⟩ := exists_of_onCircuit_ok hdone
  cases hpass : Synthesis.complete AtY.backend s₀ v.circuit with
  | ok done c => exact Synthesis.ending_of_complete (AtY.tracks y v.shape.gates) hs₀ rfl hpass
  | error e c =>
    rw [hpass] at hcomplete
    cases hcomplete

omit [SourceGroup G₁ Fp] in
/-- The value that the next pass of the circuit gives is that of its constraint polynomial, with as
many gates as were measured. -/
theorem eq_of_evaluate {v : Verifier G₁ G₂} {y x s : Fr} (h : v.evaluate y x = .ok s) :
    s = v.circuit.outline.constraintValue v.shape.gates x y := by
  obtain ⟨pass, hvalue⟩ := constraintValue_eq_evaluateFor (ending_of_evaluate h) y x
  rw [evaluate, hvalue, outcome_withEnd] at h
  exact Outline.eq_of_evaluateFor h

theorem addAggregate_eq {v : Verifier G₁ G₂} (hopen : v.finalized = false)
    (hbatch : v.batch.finalized = false) (hcount : agg.cOpenings.length = proofs.length)
    {ch : Aggregate.Challenges} (hch : Aggregate.challenges oracle proofs agg.c = .ok ch) {szw : Fr}
    (hszw : v.evaluate ch.w ch.z = .ok szw) :
    addAggregate oracle proofs agg v =
      let batch := (agg.sharedEntries proofs ch szw).foldl Batch.push v.batch
      .ok () { endState (constraintValue ch.w ch.z v) with
        batch, log := v.log ++ [.aggregateAdded proofs.length batch.size] } := by
  obtain ⟨t, hpts, hrho, hrs⟩ := Aggregate.challenges_eq_ok_iff.1 hch
  have hentries : agg.entries oracle proofs ⟨ch.ys, ch.z, ch.w, t⟩ szw =
      .ok (agg.sharedEntries proofs ch szw) := by
    rw [Aggregate.entries_eq hcount hrho, hrs]
    rfl
  obtain ⟨c, hc⟩ := endState_constraintValue v ch.w ch.z
  have hvalue := eq_ok_of_outcome hszw
  have hclaims := claimAggregate_follows oracle (.inr ⟨ch.w, ch.z, rfl⟩ : v.Evaluated _) proofs agg
    ⟨ch.ys, ch.z, ch.w, t⟩ szw
  rw [hentries] at hclaims
  obtain ⟨_, s, hclaim, -, rfl⟩ := hclaims.eq_ok hbatch
  unfold addAggregate
  refine awaited_ok ?_
  rw [bind_ok (ensureOpen_eq hopen), if_neg (not_not.2 hcount)]
  dsimp only
  rw [ofExcept_bind hpts, bind_ok hvalue, bind_ok hclaim, hc]
  rfl

theorem exists_of_addAggregate {v v' : Verifier G₁ G₂}
    (hrun : addAggregate oracle proofs agg v = .ok () v') :
    v.finalized = false ∧ v.batch.finalized = false ∧ agg.cOpenings.length = proofs.length ∧
      ∃ ch szw, Aggregate.challenges oracle proofs agg.c = .ok ch ∧ v.evaluate ch.w ch.z = .ok szw := by
  have hopen : v.finalized = false := by
    by_contra hclosed
    rw [Bool.not_eq_false] at hclosed
    cases hrun.symm.trans (Call.run_finalized hclosed (.aggregate proofs agg))
  have hcall : (Call.aggregate proofs agg).run oracle v = .ok () v' := hrun
  obtain ⟨entries, hclaims, hbatch, -⟩ := Call.exists_claims_of_run hcall
  obtain ⟨hcount, ch, szw, hch, hszw, -⟩ := Call.aggregateClaims_eq_ok_iff.1 hclaims
  exact ⟨hopen, hbatch, hcount, ch, szw, hch, hszw⟩

section

variable {F₂ T : Type} [SourceGroup G₂ F₂] [Pairing G₁ G₂ T]

/-- Extent of the shared coefficient. All claims of an aggregate that a verifier takes have one and
the same coefficient, which every fork of the transcript draws, and if there are proofs, the first
challenge after the forks is that coefficient again. The challenges depend on the proofs and on `c`
alone. So an aggregate that differs in its claimed values only, with the same weighted sum of them,
leaves the verifier in the same state, and the check answers the same after any further calls. -/
theorem addAggregate_shares_coefficient (oracle : Oracle) {proofs : List (Proof G₁ × Advice G₁)}
    {agg : Aggregate G₁} {v v' : Verifier G₁ G₂}
    (hrun : addAggregate oracle proofs agg v = .ok () v') :
    ∃ ch szw, Aggregate.challenges oracle proofs agg.c = .ok ch ∧
      ch.rs.length = proofs.length ∧ (∀ r ∈ ch.rs.head?, r = ch.shared) ∧
      szw = v.circuit.outline.constraintValue v.shape.gates ch.z ch.w ∧
      v'.batch = { v.batch with
        alphaX := v.batch.alphaX ++ agg.evidence.map fun W => (W, ch.shared)
        alpha := v.batch.alpha ++
          (agg.evidence.zip (ch.w :: (ch.ys ++ [ch.z]))).map fun Wz => (Wz.1, -(Wz.2 * ch.shared))
        full := v.batch.full ++ (List.replicate (proofs.length + 1) (agg.c, ch.shared) ++
          (proofs.zip ch.rs).map fun pr => (pr.1.2.s, pr.2 * ch.shared))
        value := v.batch.value + ch.shared * (szw + ∑ i ∈ Finset.range proofs.length,
          agg.values.getD i 0 * (1 + ch.rs.getD i 0)) } ∧
      ∀ agg' : Aggregate G₁, agg.EqUpToValues agg' →
        ∑ i ∈ Finset.range proofs.length,
          (agg.values.getD i 0 - agg'.values.getD i 0) * (1 + ch.rs.getD i 0) = 0 →
        addAggregate oracle proofs agg' v = .ok () v' ∧
        ∀ calls : List (Call G₁),
          outcome ((do
            addAggregate oracle proofs agg'
            calls.forM (Call.attempt oracle)
            check) v) =
          outcome ((do
            addAggregate oracle proofs agg
            calls.forM (Call.attempt oracle)
            check) v) := by
  obtain ⟨hopen, hbatch, hcount, ch, szw, hch, hszw⟩ := exists_of_addAggregate hrun
  obtain ⟨t, hpts, hrho, hrs⟩ := Aggregate.challenges_eq_ok_iff.1 hch
  have hys : ch.ys.length = proofs.length := Call.points_length proofs agg _ hpts
  have hlength : ch.rs.length = proofs.length := Aggregate.length_coefficients _ _ _ hrs
  have hadded := Aggregate.foldl_push_sharedEntries hcount hys hlength szw v.batch
  have hadd := addAggregate_eq hopen hbatch hcount hch hszw
  refine ⟨ch, szw, hch, hlength, Aggregate.eq_of_mem_head hrho hrs, eq_of_evaluate hszw, ?_,
    fun agg' hagg hsum => ?_⟩
  · cases hadd.symm.trans hrun
    exact hadded
  · have hcount' := hagg.length.symm.trans hcount
    rw [hagg.c] at hch
    have hadd' := addAggregate_eq hopen hbatch hcount' hch hszw
    have hweighted : ∑ i ∈ Finset.range proofs.length, agg.values.getD i 0 * (1 + ch.rs.getD i 0) =
        ∑ i ∈ Finset.range proofs.length, agg'.values.getD i 0 * (1 + ch.rs.getD i 0) := by
      rw [← sub_eq_zero, ← Finset.sum_sub_distrib]
      simpa only [sub_mul] using hsum
    have hsame : (agg'.sharedEntries proofs ch szw).foldl Batch.push v.batch =
        (agg.sharedEntries proofs ch szw).foldl Batch.push v.batch := by
      rw [Aggregate.foldl_push_sharedEntries hcount' hys hlength, hadded, hagg.evidence_eq, hagg.c,
        hweighted]
    have hrun' : addAggregate oracle proofs agg' v = .ok () v' := by
      rw [hadd', hsame, ← hrun, hadd]
    exact ⟨hrun', fun calls => by rw [bind_ok hrun', bind_ok hrun]⟩

end

/-- Two proofs whose claimed values have changed places. -/
theorem addAggregate_swaps_values :
    letI := scalarPairing (Point Fp) (Point Fp2)
    let P : Point Fp := generator₁
    let proofs : List (Proof (Point Fp) × Advice (Point Fp)) :=
      [(⟨P, P, 3, 4, P, P⟩, ⟨P, 8, P⟩), (⟨P, P, 5, 6, P, P⟩, ⟨P, 9, P⟩)]
    ∃ (srs : ReferenceString (Point Fp) (Point Fp2)) (v v' : Verifier (Point Fp) (Point Fp2))
      (log : List LogEntry),
      ReferenceString.ofSecrets 2 2 3 = .ok srs ∧
      start srs (productCircuit.atPass 0) [] = .ok v log ∧
      addAggregate (.constant 5) proofs ⟨P, P, [(P, 1), (P, 2)], P⟩ v = .ok () v' ∧
      addAggregate (.constant 5) proofs ⟨P, P, [(P, 2), (P, 1)], P⟩ v = .ok () v' := by
  let := scalarPairing (Point Fp) (Point Fp2)
  intro P proofs
  obtain ⟨srs, v, log, hsrs, hstart, hv, -⟩ := productCircuit_takes_proofs
  have hch : Aggregate.challenges (.constant 5) proofs P = .ok ⟨[5, 5], 5, 5, 5, [5, 5]⟩ :=
    Aggregate.challenges_constant 5 proofs P
  have hvalue : v.evaluate 5 5 = .ok 1924350 := by
    rw [hv.evaluate_eq productCircuit_uniform (by decide +kernel)]
    decide +kernel
  have hcount : (Aggregate.mk P P [(P, 1), (P, 2)] P).cOpenings.length = proofs.length := rfl
  have hrun := addAggregate_eq hv.finalized_eq hv.batch.finalized hcount hch hvalue
  obtain ⟨ch, szw, hch', -, -, -, -, hsame⟩ := addAggregate_shares_coefficient (.constant 5) hrun
  cases hch.symm.trans hch'
  obtain ⟨hrun', -⟩ := hsame ⟨P, P, [(P, 2), (P, 1)], P⟩ ⟨rfl, rfl, rfl, rfl⟩ (by decide +kernel)
  exact ⟨srs, v, _, log, hsrs, hstart, hrun, hrun'⟩

end Verifier

end SnarkBatch
