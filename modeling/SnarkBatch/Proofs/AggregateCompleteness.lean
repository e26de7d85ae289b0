import SnarkBatch.Proofs.Completeness
import SnarkBatch.Proofs.Helper

/-!
# Completeness of aggregates

The verifier redraws the challenges of the helper, all from what it is given, so it works out claims
that an honest aggregate satisfies: every opening of `c` is one of `s(z, Y)`, the value that the
verifier computes itself is `s(z, w)`, and the values claimed at the challenges `y` are those of the
sections `s(X, y)` at `z` (`Helper.IsHonest.entries_delivers`). So a new verifier accepts what the
helper makes, for any number of proofs (`Helper.aggregate_accepted`).
-/

namespace SnarkBatch.Helper

open SourceGroup

variable {G₁ : Type} [SourceGroup G₁ Fp] {oracle : Oracle} {d n : Int} {x alpha z w : Fr}
  {s : Fr → Fr → Fr} {ys rs : List Fr} {t : Transcript} {agg : Aggregate G₁}
  {proofs : List (Proof G₁ × Advice G₁)}

/-! ## The challenges of the verifier -/

theorem coefficients_succ {k : Nat} (h : coefficients oracle (k + 1) t = .ok rs) :
    ∃ r t' rs', t.challenge oracle = .ok (r, t') ∧ coefficients oracle k t' = .ok rs' ∧
      rs = r :: rs' := by
  obtain ⟨⟨r, t'⟩, hdraw, h⟩ := exists_of_bind_ok h
  obtain ⟨rs', hrest, h⟩ := exists_of_bind_ok h
  exact ⟨r, t', rs', hdraw, hrest, (Except.ok.inj h).symm⟩

/-- The verifier draws the points of an aggregate as the helper has drawn them. -/
theorem points_eq {commitments : List G₁} {t₁ t₂ : Transcript}
    (hys : points oracle (proofs.map (·.1)) = .ok ys)
    (hcommitments : proofs.map (·.2.s) = commitments)
    (hz : (commitments.foldl Transcript.absorbElement (Transcript.start [])).challenge oracle =
      .ok (z, t₁))
    (hw : (t₁.absorbElement agg.c).challenge oracle = .ok (w, t₂)) :
    agg.points oracle proofs = .ok ⟨ys, z, w, t₂⟩ := by
  have hproofPoints : Aggregate.proofPoints oracle proofs = .ok ys := by
    rw [points, List.mapM_map] at hys
    exact hys
  rw [← hcommitments, List.foldl_map] at hz
  unfold Aggregate.points
  rw [hproofPoints]
  show ((proofs.foldl (fun t p => t.absorbElement p.2.s) (Transcript.start [])).challenge oracle >>= _)
    = _
  rw [hz]
  show ((t₁.absorbElement agg.c).challenge oracle >>= _) = _
  rw [hw]
  rfl

/-! ## The claims -/

theorem pointEntries_balanced {value : Fr → Fr} (hc : IsMultiple agg.c (alpha * value x))
    {evidence : G₁} {point : Fr} (hopens : Opens x value point evidence) (coefficient : Fr) :
    Entry.Balanced d n x alpha (agg.pointEntries evidence coefficient point (value point)) := by
  obtain ⟨w, hw, hquotient⟩ := hopens
  refine ⟨[.opening w coefficient point, .commitment (alpha * value x) coefficient,
    .value (value point) coefficient], ?_, ?_⟩
  · exact .cons (.opening _ _ hw) <| .cons (.commitment _ hc) <| .cons (.value _ _) .nil
  · simp only [Entry.balance, Entry.openingPart, Entry.valuePart, Entry.commitmentPart,
      Entry.boundedPart, List.map_cons, List.map_nil, List.sum_cons, List.sum_nil]
    linear_combination alpha * coefficient * hquotient

theorem openingEntries_delivers (h : IsHonest x alpha s ys rs z w agg) :
    Delivers oracle (agg.openingEntries oracle ⟨ys, z, w, t⟩) (Entry.Balanced d n x alpha) := by
  unfold Aggregate.openingEntries
  refine (Delivers.mapM (R := fun _ => Entry.Balanced d n x alpha) fun oy hoy => ?_).bind
    fun each heach => .pure (.flatten heach)
  obtain ⟨⟨evidence, value⟩, y⟩ := oy
  obtain ⟨hopens, rfl⟩ := List.forall₂_zip h.cOpenings hoy
  exact (Delivers.forkChallenge oracle t).bind fun coefficient _ =>
    .pure (pointEntries_balanced h.isMultiple_c hopens coefficient)

/-- The commitments to the sections combine as their values at the secret do. -/
theorem combine_eq {advised : List (Advice G₁ × Fr)} {f value : Fr → Fr}
    (hadvised : List.Forall₂ (fun a y => IsMultiple a.1.s (alpha * f y) ∧ a.2 = value y) advised ys)
    (hrs : coefficients oracle ys.length t = .ok rs) (coefficient : Fr) :
    ∃ entries scalars,
      Aggregate.combine oracle coefficient advised t = .ok (combined ys rs value, entries) ∧
      List.Forall₂ Entry.IsMultiple entries scalars ∧
      Entry.balance d n x alpha scalars = -(alpha * coefficient * combined ys rs f) := by
  induction hadvised generalizing t rs with
  | nil =>
    refine ⟨[], [], rfl, .nil, ?_⟩
    simp [Entry.balance, combined]
  | @cons a y advised ys ha _ ih =>
    obtain ⟨r, t', rs', hdraw, hrs', rfl⟩ := coefficients_succ hrs
    obtain ⟨entries, scalars, hcombine, hscalars, hbalance⟩ := ih hrs'
    obtain ⟨⟨advice, v⟩, rfl⟩ : ∃ a', a = a' := ⟨a, rfl⟩
    obtain ⟨hmultiple, rfl⟩ := ha
    refine ⟨.commitment advice.s (r * coefficient) :: entries,
      .commitment (alpha * f y) (r * coefficient) :: scalars, ?_,
      .cons (.commitment _ hmultiple) hscalars, ?_⟩
    · rw [Aggregate.combine, hdraw, combined_cons]
      show (Aggregate.combine oracle coefficient advised t' >>= _) = _
      rw [hcombine]
      rfl
    · rw [← List.singleton_append, Entry.balance_append, hbalance, combined_cons]
      simp only [Entry.balance, Entry.openingPart, Entry.valuePart, Entry.commitmentPart,
        Entry.boundedPart, List.map_cons, List.map_nil, List.sum_cons, List.sum_nil]
      ring

theorem forall₂_zip {A B C : Type} {R : A → C → Prop} {S : B → C → Prop} {as : List A} {bs : List B}
    {cs : List C} (has : List.Forall₂ R as cs) (hbs : List.Forall₂ S bs cs) :
    List.Forall₂ (fun ab c => R ab.1 c ∧ S ab.2 c) (as.zip bs) cs := by
  induction has generalizing bs with
  | nil => exact .nil
  | cons ha _ ih =>
    cases hbs with
    | cons hb hbs => exact .cons ⟨ha, hb⟩ (ih hbs)

theorem IsHonest.entries_delivers (h : IsHonest x alpha s ys rs z w agg)
    (hproofs : List.Forall₂ (fun p y => IsMultiple p.2.s (alpha * s x y)) proofs ys)
    (hrs : coefficients oracle ys.length t = .ok rs) :
    Delivers oracle (agg.entries oracle proofs ⟨ys, z, w, t⟩ (s z w))
      (Entry.Balanced d n x alpha) := by
  have hadvice : List.Forall₂ (fun a y => IsMultiple a.s (alpha * s x y)) (proofs.map (·.2)) ys :=
    List.forall₂_map_left_iff.2 hproofs
  have hvalues : List.Forall₂ (fun v y => v = s z y) (agg.cOpenings.map (·.2)) ys :=
    List.forall₂_map_left_iff.2 (h.cOpenings.imp fun _ _ ho => ho.2)
  have hadvised := forall₂_zip hadvice hvalues
  have hopenings : Delivers oracle (agg.openingEntries oracle ⟨ys, z, w, t⟩)
    (Entry.Balanced d n x alpha) := openingEntries_delivers h
  refine (Delivers.forkChallenge oracle t).bind fun shared _ => hopenings.bind fun openings hopenings =>
    (Delivers.forkChallenge oracle t).bind fun coefficient _ => ?_
  obtain ⟨entries, scalars, hcombine, hscalars, hbalance⟩ :=
    combine_eq (d := d) (n := n) (x := x) hadvised hrs coefficient
  refine .bind_of_ok hcombine (.pure ?_)
  have hcombined : Entry.Balanced d n x alpha (entries ++
      [.value (combined ys rs (s z ·)) coefficient, .opening agg.sOpening coefficient z]) := by
    obtain ⟨u, hu, hquotient⟩ := h.sOpening
    refine ⟨scalars ++ [.value (combined ys rs (s z ·)) coefficient, .opening u coefficient z],
      List.rel_append hscalars (.cons (.value _ _) (.cons (.opening _ _ hu) .nil)), ?_⟩
    rw [Entry.balance_append, hbalance]
    simp only [Entry.balance, Entry.openingPart, Entry.valuePart, Entry.commitmentPart,
      Entry.boundedPart, List.map_cons, List.map_nil, List.sum_cons, List.sum_nil]
    linear_combination alpha * coefficient * hquotient
  have hshared : Entry.Balanced d n x alpha (agg.pointEntries agg.opening shared w (s z w)) :=
    pointEntries_balanced h.isMultiple_c h.opening shared
  rw [List.append_assoc _ entries]
  exact (hshared.append hopenings).append hcombined

/-! ## Acceptance -/

theorem IsHonest.claims_delivers {o : Outline} (hwires : o.InGates o.gates)
    (h : IsHonest x alpha (o.constraintValue o.gates) ys rs z w agg) (hz : z ≠ 0) (hw : w ≠ 0)
    (hproofs : List.Forall₂ (fun p y => IsMultiple p.2.s (alpha * o.constraintValue o.gates x y))
      proofs ys)
    (hrs : coefficients oracle ys.length t = .ok rs)
    (hpoints : agg.points oracle proofs = .ok ⟨ys, z, w, t⟩) :
    Delivers oracle ((Verifier.Call.aggregate proofs agg).claims oracle o.shape o.evaluate)
      (Entry.Balanced d n x alpha) := by
  have hcount : agg.cOpenings.length = proofs.length :=
    h.cOpenings.length_eq.trans hproofs.length_eq.symm
  rw [Verifier.Call.claims, Verifier.Call.aggregateClaims, if_pos hcount]
  exact .bind_of_ok hpoints (.bind_of_ok (Outline.evaluate_eq hwires hw hz)
    (h.entries_delivers hproofs hrs))

section

variable {G₂ F₂ E T : Type} [SourceGroup G₂ F₂] [LawfulGroup G₁] [LawfulGroup G₂] [Pairing G₁ G₂ T]
  [CommGroupWithZero E] (e : BilinearPairing G₁ G₂ E)
include e

/-- Completeness of aggregates. For a circuit that does the same on every pass, with constraints on
its own gates only, and any list of proofs, every round of the helper succeeds over a reference
string whose degree covers the sections of the constraint polynomial, and a new verifier accepts the
aggregate with any advice that has the commitments of the helper, as long as the challenges are not
0. -/
theorem aggregate_accepted (oracle : Oracle) (c : Circuit) (hc : c.Uniform) (shape : Shape)
    (hshape : outcome (Shape.measure c) = .ok shape) (hwires : c.outline.InGates shape.gates)
    (hd : 2 * shape.gates ≤ d) (hdq : shape.gates + shape.constraints ≤ d) (hx : x ≠ 0) (alpha : Fr)
    (proofs : List (Proof G₁)) (pass₁ pass₂ pass₃ : Nat) :
    ∃ srs : ReferenceString G₁ G₂, ReferenceString.ofSecrets d x alpha = .ok srs ∧
      Delivers oracle (points oracle proofs) fun ys => (∀ y ∈ ys, y ≠ 0) →
        Delivers oracle (first oracle srs (c.atPass pass₁) shape.gates ys) fun m₁ => m₁.z ≠ 0 →
          Delivers oracle (second oracle srs (c.atPass pass₂) shape.gates shape.constraints m₁)
            fun m₂ => m₂.w ≠ 0 →
              Delivers oracle (third oracle srs shape.gates ys m₁ m₂) fun agg =>
                ∀ advised : List (Proof G₁ × Advice G₁), advised.map (·.1) = proofs →
                  advised.map (·.2.s) = m₁.commitments →
                  Delivers oracle (Verifier.runNew srs (c.atPass pass₃) do
                    Verifier.addAggregate oracle advised agg
                    Verifier.check) (· = true) := by
  rw [Shape.measure_eq] at hshape
  cases hend : c.ending with
  | error e => rw [hend] at hshape; cases hshape
  | ok _ =>
    rw [hend] at hshape
    obtain rfl : c.outline.shape = shape := Except.ok.inj hshape
    have hpos := c.outline_gates_pos
    have hgates : 2 * (c.outline.gates : Int) ≤ d := hd
    have hfits : AtX.Fits c.outline.gates c.outline.constraints.length c.outline := ⟨hwires, le_rfl⟩
    obtain ⟨srs, hsrs⟩ : ∃ srs : ReferenceString G₁ G₂, ReferenceString.ofSecrets d x alpha = .ok srs :=
      ReferenceString.exists_ofSecrets (by omega) hx alpha
    have htables := ReferenceString.tables_of_ofSecrets hsrs
    refine ⟨srs, hsrs, (points_delivers oracle proofs).mono ?_⟩
    rintro ys ⟨hpoints, -⟩ hys
    refine (first_delivers oracle htables hc hend hd hwires hys pass₁).mono ?_
    rintro m₁ ⟨hrows, hcommitments, hz⟩ hz₀
    refine (second_delivers oracle htables hc hend hdq hfits hz₀ pass₂).mono ?_
    rintro m₂ ⟨hcolumn, hcolumnCommitment, hw⟩ hw₀
    refine (third_delivers oracle htables hd hdq hys hrows hcolumn hcolumnCommitment hz₀ hw₀).mono ?_
    rintro agg ⟨hagg, rs, hrs, hhonest⟩ advised rfl hadvice
    rw [← hagg] at hw
    rw [← hadvice, List.forall₂_map_left_iff] at hcommitments
    exact Verifier.Call.runNew_delivers e htables hc hend (by omega) (hhonest.claims_delivers hwires
      hz₀ hw₀ hcommitments hrs (points_eq hpoints hadvice hz hw)) pass₃

end

theorem aggregate_accepted_productCircuit :
    letI := scalarPairing (Point Fp) (Point Fp2)
    ∃ (proofs : List (Proof (Point Fp))) (srs : ReferenceString (Point Fp) (Point Fp2)) (ys : List Fr)
      (m₁ : First (Point Fp)) (m₂ : Second (Point Fp)) (agg : Aggregate (Point Fp))
      (advised : List (Proof (Point Fp) × Advice (Point Fp))),
      proofs = [⟨generator, zero, 1, 2, zero, zero⟩, ⟨zero, zero, 1, 2, zero, zero⟩] ∧
      ReferenceString.ofSecrets 5 2 3 = .ok srs ∧ points (.constant 5) proofs = .ok ys ∧
      first (.constant 5) srs (productCircuit.atPass 0) 2 ys = .ok m₁ ∧
      second (.constant 5) srs (productCircuit.atPass 1) 2 3 m₁ = .ok m₂ ∧
      third (.constant 5) srs 2 ys m₁ m₂ = .ok agg ∧ advised.map (·.1) = proofs ∧
      advised.map (·.2.s) = m₁.commitments ∧
      (Verifier.runNew srs (productCircuit.atPass 2) do
        Verifier.addAggregate (.constant 5) advised agg
        Verifier.check) = .ok true := by
  let := scalarPairing (Point Fp) (Point Fp2)
  have hdraw : ∀ {t t' : Transcript} {c : Fr}, t.challenge (.constant 5) = .ok (c, t') → c ≠ 0 := by
    intro t t' c h
    rw [Oracle.eq_of_challenge_constant h]
    decide +kernel
  have hnever := Oracle.challenge_constant_ne 5
  have hwires : productCircuit.outline.InGates 2 := by
    rw [productCircuit_outline]
    decide
  have hfits : AtX.Fits 2 3 productCircuit.outline := ⟨hwires, by rw [productCircuit_outline]; rfl⟩
  let proofs : List (Proof (Point Fp)) :=
    [⟨generator, zero, 1, 2, zero, zero⟩, ⟨zero, zero, 1, 2, zero, zero⟩]
  obtain ⟨srs, hsrs, hpoints⟩ := aggregate_accepted (scalarPairing_bilinear (Point Fp) (Point Fp2))
    (.constant 5) productCircuit productCircuit_uniform ⟨[1, 2], 2, 3⟩ (by decide +kernel) hwires
    (d := 5) (by decide) (by decide) (x := 2) (by decide +kernel) 3 proofs 0 1 2
  have htables := ReferenceString.tables_of_ofSecrets hsrs
  obtain ⟨ys, hys, hfirst⟩ := hpoints.exists_of_forall hnever
  have hys₀ : ∀ y ∈ ys, y ≠ 0 := by
    have hdrawn : Delivers (.constant 5) (points (.constant 5) proofs)
        (List.Forall₂ (fun _ y => y ≠ 0) proofs) :=
      .mapM fun p _ => .bind (.challenge _ _) fun drawn h => .pure (hdraw h)
    obtain ⟨ys', hys', hne⟩ := hdrawn.exists_of_forall hnever
    cases hys.symm.trans hys'
    rw [List.forall₂_cons_left_iff] at hne
    obtain ⟨y₁, rest, h₁, hne, rfl⟩ := hne
    obtain ⟨y₂, -, h₂, ⟨⟩, rfl⟩ := List.forall₂_cons_left_iff.1 hne
    exact List.forall_mem_cons.2 ⟨h₁, List.forall_mem_singleton.2 h₂⟩
  obtain ⟨m₁, hm₁, hsecond⟩ := (hfirst hys₀).exists_of_forall hnever
  obtain ⟨hz, hlength⟩ : m₁.z ≠ 0 ∧ m₁.commitments.length = proofs.length := by
    obtain ⟨m, hm, -, hcommitments, hdrawn⟩ := (first_delivers (.constant 5) htables
      productCircuit_uniform (by decide +kernel) (by decide) hwires hys₀ 0).exists_of_forall hnever
    obtain ⟨ys', hys', -, hlength⟩ := (points_delivers (.constant 5) proofs).exists_of_forall hnever
    cases hm₁.symm.trans hm
    cases hys.symm.trans hys'
    exact ⟨hdraw hdrawn, hcommitments.length_eq.trans hlength⟩
  obtain ⟨m₂, hm₂, hthird⟩ := (hsecond hz).exists_of_forall hnever
  have hw : m₂.w ≠ 0 := by
    obtain ⟨m, hm, -, -, hdrawn⟩ := (second_delivers (.constant 5) htables productCircuit_uniform
      (by decide +kernel) (by decide) hfits hz 1).exists_of_forall hnever
    cases hm₂.symm.trans hm
    exact hdraw hdrawn
  obtain ⟨agg, hagg, haccepted⟩ := (hthird hw).exists_of_forall hnever
  let advised := proofs.zip (m₁.commitments.map fun P => (⟨P, 1, zero⟩ : Advice (Point Fp)))
  have hproofs : advised.map (·.1) = proofs := by
    rw [List.map_fst_zip (by rw [List.length_map, hlength])]
  have hadvice : advised.map (·.2.s) = m₁.commitments := by
    show advised.map (Advice.s ∘ Prod.snd) = _
    rw [← List.map_map, List.map_snd_zip (by rw [List.length_map, hlength]), List.map_map]
    exact List.map_id _
  obtain ⟨answer, hanswer, rfl⟩ := (haccepted advised hproofs hadvice).exists_of_forall hnever
  exact ⟨proofs, srs, ys, m₁, m₂, agg, advised, rfl, hsrs, hys, hm₁, hm₂, hagg, hproofs, hadvice,
    hanswer⟩

end SnarkBatch.Helper
