import SnarkBatch.Proofs.Calls
import SnarkBatch.Proofs.Curve.Rescaling
import SnarkBatch.Proofs.Helper
import SnarkBatch.Proofs.Lockstep

/-!
# Points in other representations

An element comes to a verifier on two ways: by its affine coordinates into the transcripts, and by
the triple itself into the sums of the batch. A relation that sums, multiples, coordinates and the
pairing respect (`Respected`) therefore goes through whole sessions, over any groups: calls with
related elements run in lockstep (`Verifier.lockstep_run`), and the check answers the same
(`Verifier.session_respected`). Triples that differ by a factor are related so, on the curve or off
it, for every pairing that depends on the affine point only (`rescaled_respected`), and the one of
the program does (`Verifier.session_rescaled`).
-/

namespace SnarkBatch

open SourceGroup

/-! ## Relations between elements -/

/-- No operation and no result can tell related elements apart. -/
structure Respected {G₁ F₂ T : Type} (G₂ : Type) [SourceGroup G₁ Fp] [SourceGroup G₂ F₂]
    [Pairing G₁ G₂ T] (R : G₁ → G₁ → Prop) : Prop where
  refl : ∀ P, R P P
  affine_eq : ∀ P P', R P P' → affine P = affine P'
  add : ∀ {P P' Q Q'}, R P P' → R Q Q' → R (add P Q) (add P' Q')
  smul : ∀ {P P'} (k : Fr), R P P' → R (smul k P) (smul k P')
  value_eq : ∀ {P P'} (Q : G₂), R P P' → Pairing.value P Q = Pairing.value P' Q

/-- Related first parts and the same second part. -/
def Paired {A B : Type} (R : A → A → Prop) (x y : A × B) : Prop := R x.1 y.1 ∧ x.2 = y.2

theorem paired_zip {A B : Type} {R : A → A → Prop} {as as' : List A} (h : List.Forall₂ R as as')
    (bs : List B) : List.Forall₂ (Paired R) (as.zip bs) (as'.zip bs) := by
  induction h generalizing bs with
  | nil => exact .nil
  | cons hhead _ ih =>
    cases bs with
    | nil => exact .nil
    | cons b bs => exact .cons ⟨hhead, rfl⟩ (ih bs)

structure Proof.Related {G : Type} (R : G → G → Prop) (p p' : Proof G) : Prop where
  r : R p.r p'.r
  t : R p.t p'.t
  rz : p.rz = p'.rz
  rzy : p.rzy = p'.rzy
  zOpening : R p.zOpening p'.zOpening
  zyOpening : R p.zyOpening p'.zyOpening

structure Advice.Related {G : Type} (R : G → G → Prop) (a a' : Advice G) : Prop where
  s : R a.s a'.s
  szy : a.szy = a'.szy
  opening : R a.opening a'.opening

structure Aggregate.Related {G : Type} (R : G → G → Prop) (agg agg' : Aggregate G) : Prop where
  c : R agg.c agg'.c
  sOpening : R agg.sOpening agg'.sOpening
  cOpenings : List.Forall₂ (Paired R) agg.cOpenings agg'.cOpenings
  opening : R agg.opening agg'.opening

inductive Entry.Related {G : Type} (R : G → G → Prop) : Entry G → Entry G → Prop
  | opening {P P' : G} (r z : Fr) : R P P' → Related R (.opening P r z) (.opening P' r z)
  | value (v r : Fr) : Related R (.value v r) (.value v r)
  | commitment {P P' : G} (r : Fr) : R P P' → Related R (.commitment P r) (.commitment P' r)
  | bounded {P P' : G} (r : Fr) : R P P' → Related R (.bounded P r) (.bounded P' r)

/-- The same call with related elements. -/
inductive Verifier.Call.Related {G : Type} (R : G → G → Prop) : Call G → Call G → Prop
  | proof {p p' : Proof G} (inputs : List Fr) (szy : Option Fr) :
    p.Related R p' → Related R (.proof p inputs szy) (.proof p' inputs szy)
  | advised {p p' : Proof G} {a a' : Advice G} (inputs : List Fr) :
    p.Related R p' → a.Related R a' → Related R (.advised p inputs a) (.advised p' inputs a')
  | aggregate {proofs proofs' : List (Proof G × Advice G)} {agg agg' : Aggregate G} :
    List.Forall₂ (fun p p' => p.1.Related R p'.1 ∧ p.2.Related R p'.2) proofs proofs' →
    agg.Related R agg' → Related R (.aggregate proofs agg) (.aggregate proofs' agg')

/-! ## Challenges and claims -/

section

variable {G : Type} [SourceGroup G Fp] {R : G → G → Prop}
  (hR : ∀ P P' : G, R P P' → affine P = affine P') {oracle : Oracle}
include hR

theorem absorbElement_eq {P P' : G} (h : R P P') (t : Transcript) :
    t.absorbElement P = t.absorbElement P' := congrArg t.absorbPoint (hR P P' h)

theorem Proof.Related.points_eq {p p' : Proof G} (h : p.Related R p') :
    p.points oracle = p'.points oracle := by
  unfold points
  simp only [absorbElement_eq hR h.r, absorbElement_eq hR h.t, h.rz, h.rzy,
    absorbElement_eq hR h.zOpening, absorbElement_eq hR h.zyOpening]

theorem Proof.Related.challenges_eq {p p' : Proof G} (h : p.Related R p') :
    p.challenges oracle = p'.challenges oracle := by
  unfold challenges
  rw [h.points_eq hR]

theorem Advice.Related.coefficient_eq {a a' : Advice G} (h : a.Related R a') :
    a.coefficient oracle = a'.coefficient oracle := by
  unfold coefficient
  simp only [absorbElement_eq hR h.opening, absorbElement_eq hR h.s, h.szy]

theorem Aggregate.Related.points_eq {proofs proofs' : List (Proof G × Advice G)}
    {agg agg' : Aggregate G} (h : agg.Related R agg')
    (hproofs : List.Forall₂ (fun p p' => p.1.Related R p'.1 ∧ p.2.Related R p'.2) proofs proofs') :
    agg.points oracle proofs = agg'.points oracle proofs' := by
  have hys : Aggregate.proofPoints oracle proofs = Aggregate.proofPoints oracle proofs' := by
    unfold Aggregate.proofPoints
    induction hproofs with
    | nil => rfl
    | cons hp _ ih => rw [List.mapM_cons, List.mapM_cons, absorbElement_eq hR hp.1.r, ih]
  have hs : ∀ t : Transcript, proofs.foldl (fun t p => t.absorbElement p.2.s) t =
      proofs'.foldl (fun t p => t.absorbElement p.2.s) t := by
    clear hys
    induction hproofs with
    | nil => exact fun _ => rfl
    | cons hp _ ih =>
      intro t
      rw [List.foldl_cons, List.foldl_cons, absorbElement_eq hR hp.2.s, ih]
  unfold points
  simp only [hys, hs, absorbElement_eq hR h.c]

end

section

variable {G : Type} {R : G → G → Prop} {oracle : Oracle}

theorem Proof.Related.claimedT_eq {p p' : Proof G} (h : p.Related R p') :
    p.claimedT = p'.claimedT := by
  funext szy publicValue
  rw [claimedT, claimedT, h.rz, h.rzy]

theorem Proof.Related.productEntries {p p' : Proof G} (h : p.Related R p') (coefficient zy : Fr) :
    List.Forall₂ (Entry.Related R) (p.productEntries coefficient zy)
      (p'.productEntries coefficient zy) := by
  unfold Proof.productEntries
  rw [h.rzy]
  exact .cons (.opening _ _ h.zyOpening) <| .cons (.bounded _ h.r) <| .cons (.value _ _) .nil

theorem Proof.Related.mixedEntries {p p' : Proof G} (h : p.Related R p')
    (mix coefficient z tzy : Fr) :
    List.Forall₂ (Entry.Related R) (p.mixedEntries mix coefficient z tzy)
      (p'.mixedEntries mix coefficient z tzy) := by
  unfold Proof.mixedEntries
  rw [h.rz]
  exact .cons (.opening _ _ h.zOpening) <| .cons (.value _ _) <| .cons (.commitment _ h.t) <|
    .cons (.value _ _) <| .cons (.bounded _ h.r) .nil

theorem Advice.Related.entries {a a' : Advice G} (h : a.Related R a') (coefficient z : Fr) :
    List.Forall₂ (Entry.Related R) (a.entries coefficient z) (a'.entries coefficient z) := by
  unfold Advice.entries
  rw [h.szy]
  exact .cons (.opening _ _ h.opening) <| .cons (.commitment _ h.s) <| .cons (.value _ _) .nil

theorem Aggregate.Related.pointEntries {agg agg' : Aggregate G} (h : agg.Related R agg')
    {evidence evidence' : G} (hevidence : R evidence evidence') (coefficient point value : Fr) :
    List.Forall₂ (Entry.Related R) (agg.pointEntries evidence coefficient point value)
      (agg'.pointEntries evidence' coefficient point value) :=
  .cons (.opening _ _ hevidence) <| .cons (.commitment _ h.c) <| .cons (.value _ _) .nil

end

/-! ## Sums and products -/

section

variable {G₁ G₂ F₂ T : Type} [SourceGroup G₁ Fp] [SourceGroup G₂ F₂] [Pairing G₁ G₂ T]
  {R : G₁ → G₁ → Prop} (hR : Respected G₂ R)
include hR

theorem Respected.weightedSum {terms terms' : List (G₁ × Fr)}
    (h : List.Forall₂ (Paired R) terms terms') : R (weightedSum terms) (weightedSum terms') := by
  refine List.rel_foldl (P := R) (R := Paired R) ?_ (hR.refl _) h
  intro sum sum' hsum term term' hterm
  dsimp only
  rw [← hterm.2]
  split
  · exact hsum
  · exact hR.add hsum (hR.smul _ hterm.1)

theorem Respected.productIsOne_eq {pairs pairs' : List (G₁ × G₂)}
    (h : List.Forall₂ (Paired R) pairs pairs') :
    Pairing.productIsOne pairs = Pairing.productIsOne pairs' := by
  have hproduct : ∀ product : T, pairs.foldlM (fun product pair =>
      if (affine pair.1).isNone || (affine pair.2).isNone then pure product
      else do return Pairing.mul G₁ G₂ product (← Pairing.value pair.1 pair.2)) product =
        (pairs'.foldlM (fun product pair =>
      if (affine pair.1).isNone || (affine pair.2).isNone then pure product
      else do return Pairing.mul G₁ G₂ product (← Pairing.value pair.1 pair.2)) product :
          Except Fault T) := by
    induction h with
    | nil => exact fun _ => rfl
    | cons hpair _ ih =>
      intro product
      rw [List.foldlM_cons, List.foldlM_cons, hR.affine_eq _ _ hpair.1, hR.value_eq _ hpair.1, hpair.2]
      exact bind_congr ih
  unfold Pairing.productIsOne Pairing.product
  rw [hproduct]

end

/-! ## Batches -/

namespace Batch

variable {G₁ G₂ : Type} {R : G₁ → G₁ → Prop}

/-- Batches that differ in the elements of their terms only. -/
structure Related (R : G₁ → G₁ → Prop) (b b' : Batch G₁ G₂) : Prop where
  g : b.g = b'.g
  alphaXKey : b.alphaXKey = b'.alphaXKey
  alphaKey : b.alphaKey = b'.alphaKey
  fullKey : b.fullKey = b'.fullKey
  boundedKey : b.boundedKey = b'.boundedKey
  alphaX : List.Forall₂ (Paired R) b.alphaX b'.alphaX
  alpha : List.Forall₂ (Paired R) b.alpha b'.alpha
  full : List.Forall₂ (Paired R) b.full b'.full
  bounded : List.Forall₂ (Paired R) b.bounded b'.bounded
  value : b.value = b'.value
  finalized : b.finalized = b'.finalized

/-- The coefficients of the terms of each sum, and the sum of the values. -/
def coefficients (b : Batch G₁ G₂) : List Fr × List Fr × List Fr × List Fr × Fr :=
  (b.alphaX.map (·.2), b.alpha.map (·.2), b.full.map (·.2), b.bounded.map (·.2), b.value)

variable {b b' : Batch G₁ G₂}

theorem Related.refl (hR : ∀ P, R P P) (b : Batch G₁ G₂) : b.Related R b := by
  have hterms : ∀ terms : List (G₁ × Fr), List.Forall₂ (Paired R) terms terms :=
    fun terms => List.forall₂_same.2 fun term _ => ⟨hR term.1, rfl⟩
  exact ⟨rfl, rfl, rfl, rfl, rfl, hterms _, hterms _, hterms _, hterms _, rfl, rfl⟩

theorem Related.coefficients_eq (h : b.Related R b') : b.coefficients = b'.coefficients := by
  have hterms : ∀ {terms terms' : List (G₁ × Fr)}, List.Forall₂ (Paired R) terms terms' →
      terms.map (·.2) = terms'.map (·.2) :=
    fun h => List.forall₂_eq_eq_eq ▸ List.rel_map (fun _ _ hterm => hterm.2) h
  rw [coefficients, coefficients, hterms h.alphaX, hterms h.alpha, hterms h.full, hterms h.bounded,
    h.value]

theorem Related.size_eq (h : b.Related R b') : b.size = b'.size := h.alphaX.length_eq

theorem Related.push (h : b.Related R b') {entry entry' : Entry G₁} (hentry : entry.Related R entry') :
    (b.push entry).Related R (b'.push entry') := by
  have hconcat : ∀ {terms terms' : List (G₁ × Fr)} {P P' : G₁} (r : Fr),
      List.Forall₂ (Paired R) terms terms' → R P P' →
        List.Forall₂ (Paired R) (terms ++ [(P, r)]) (terms' ++ [(P', r)]) :=
    fun r hterms hP => List.rel_append hterms (.cons ⟨hP, rfl⟩ .nil)
  cases hentry with
  | opening r z hP =>
    exact { h with alphaX := hconcat r h.alphaX hP, alpha := hconcat _ h.alpha hP }
  | value v r => exact { h with value := congrArg (· + v * r) h.value }
  | commitment r hP => exact { h with full := hconcat r h.full hP }
  | bounded r hP => exact { h with bounded := hconcat r h.bounded hP }

theorem matches_add {entry entry' : Entry G₁} (hentry : entry.Related R entry') :
    Matches (Related R) Eq (add entry : EStateM Fault (Batch G₁ G₂) Unit) (add entry') := by
  refine .get_bind fun b b' h => ?_
  rw [h.finalized]
  split
  · exact Matches.throw _
  · exact .modify fun b b' h => h.push hentry

/-- The last term is the same in both. -/
theorem matches_finalize (hR : ∀ P, R P P) :
    Matches (Related R) Eq (finalize : EStateM Fault (Batch G₁ G₂) Unit) finalize := by
  refine .get_bind fun b b' h => ?_
  rw [h.finalized]
  split
  · exact Matches.throw _
  · refine .modify fun b b' h => ?_
    exact { h with
      alpha := List.rel_append h.alpha (.cons ⟨h.g ▸ hR b.g, h.value⟩ .nil)
      finalized := rfl }

variable {F₂ T : Type} [SourceGroup G₁ Fp] [SourceGroup G₂ F₂] [Pairing G₁ G₂ T]

theorem Related.verdict_eq (hR : Respected G₂ R) (h : b.Related R b') : b.verdict = b'.verdict :=
  hR.productIsOne_eq <|
    .cons ⟨hR.weightedSum h.alphaX, h.alphaXKey⟩ <|
    .cons ⟨hR.weightedSum h.alpha, h.alphaKey⟩ <|
    .cons ⟨hR.weightedSum h.full, h.fullKey⟩ <|
    .cons ⟨hR.weightedSum h.bounded, h.boundedKey⟩ .nil

end Batch

/-! ## Verifiers in lockstep -/

namespace Verifier

variable {G₁ G₂ : Type} {R : G₁ → G₁ → Prop}

structure Related (R : G₁ → G₁ → Prop) (v v' : Verifier G₁ G₂) : Prop where
  circuit : v.circuit = v'.circuit
  shape : v.shape = v'.shape
  batch : v.batch.Related R v'.batch
  finalized : v.finalized = v'.finalized
  log : v.log = v'.log

section

variable {α β : Type}

theorem matches_note (entry : LogEntry) :
    Matches (Related R) Eq (note entry : Action G₁ G₂ Unit) (note entry) :=
  .modify fun _ _ h => { h with log := congrArg (· ++ [entry]) h.log }

theorem matches_ensureOpen :
    Matches (Related R) Eq (ensureOpen : Action G₁ G₂ Unit) ensureOpen := by
  refine .get_bind fun v v' h => ?_
  rw [h.finalized]
  split
  · exact Matches.throw _
  · exact .pure rfl

theorem matches_onCircuit (act : EStateM Fault Circuit α) :
    Matches (Related R) Eq (onCircuit act : Action G₁ G₂ α) (onCircuit act) := by
  intro v v' h
  unfold onCircuit
  rw [h.circuit]
  cases act v'.circuit with
  | ok a circuit => exact .ok rfl { h with circuit := rfl }
  | error e circuit => exact .error ⟨rfl, { h with circuit := rfl }⟩

theorem matches_onBatch {Q : α → β → Prop} {act : EStateM Fault (Batch G₁ G₂) α}
    {act' : EStateM Fault (Batch G₁ G₂) β} (hact : Matches (Batch.Related R) Q act act') :
    Matches (Related R) Q (onBatch act) (onBatch act') := by
  intro v v' h
  have hbatch := hact v.batch v'.batch h.batch
  unfold onBatch
  generalize act v.batch = r, act' v'.batch = r' at hbatch
  cases hbatch with
  | ok hab hbatch => exact .ok hab { h with batch := hbatch }
  | error he => exact .error ⟨he.1, { h with batch := he.2 }⟩

theorem matches_constraintValue (y x : Fr) :
    Matches (Related R) Eq (constraintValue y x : Action G₁ G₂ Fr) (constraintValue y x) := by
  refine .get_bind fun v v' h => ?_
  rw [h.shape]
  refine Matches.bind_same _ fun s => ?_
  refine .bind (matches_onCircuit _) fun done _ hdone => ?_
  cases hdone
  dsimp only
  split
  · exact Matches.throw _
  · exact Matches.ofExcept _

theorem matches_send {entries entries' : List (Entry G₁)}
    (hentries : List.Forall₂ (Entry.Related R) entries entries') :
    Matches (Related R) Eq (send entries : Action G₁ G₂ Unit) (send entries') :=
  .forM hentries fun _ _ hentry => matches_onBatch (Batch.matches_add hentry)

theorem matches_awaited {call call' : Action G₁ G₂ α} (h : Matches (Related R) Eq call call') :
    Matches (Related R) Eq (awaited call) (awaited call') := by
  intro v v' hv
  have hends := h v v' hv
  unfold awaited
  generalize call v = r, call' v' = r' at hends
  cases hends with
  | ok hab hs => exact .ok hab hs
  | @error e _ _ _ he =>
    obtain ⟨rfl, hs⟩ := he
    cases e with
    | noChallenge => exact .error ⟨rfl, hv⟩
    | _ => exact .error ⟨rfl, hs⟩

end

/-! ### Claims -/

section

variable {oracle : Oracle}

theorem matches_claimProof {p p' : Proof G₁} (h : p.Related R p') (pts : Proof.Points) (tzy : Fr) :
    Matches (Related R) Eq (claimProof oracle p pts tzy : Action G₁ G₂ Unit)
      (claimProof oracle p' pts tzy) :=
  Matches.bind_same _ fun _ => .bind (matches_send (h.productEntries _ _)) fun _ _ _ =>
    Matches.bind_same _ fun _ => matches_send (h.mixedEntries _ _ _ _)

theorem matches_claimOpenings {agg agg' : Aggregate G₁} (h : agg.Related R agg')
    (pts : Aggregate.Points) :
    Matches (Related R) Eq (claimOpenings oracle agg pts : Action G₁ G₂ Unit)
      (claimOpenings oracle agg' pts) := by
  refine .forM (paired_zip h.cOpenings pts.ys) ?_
  rintro ⟨⟨P, value⟩, y⟩ ⟨⟨P', value'⟩, y'⟩ ⟨⟨hP, hvalue⟩, hy⟩
  cases hvalue
  cases hy
  exact Matches.bind_same _ fun coefficient => matches_send (h.pointEntries hP coefficient y value)

theorem matches_claimCombination (coefficient : Fr) {advised advised' : List (Advice G₁ × Fr)}
    (h : List.Forall₂ (Paired (Advice.Related R)) advised advised') (expected : Fr)
    (t : Transcript) :
    Matches (Related R) Eq
      (claimCombination oracle coefficient advised expected t : Action G₁ G₂ Fr)
      (claimCombination oracle coefficient advised' expected t) := by
  induction h generalizing expected t with
  | nil => exact .pure rfl
  | @cons av av' _ _ hav _ ih =>
    obtain ⟨advice, value⟩ := av
    obtain ⟨advice', value'⟩ := av'
    obtain ⟨hadvice, hvalue⟩ := hav
    cases hvalue
    exact Matches.bind_same _ fun drawn =>
      .bind (matches_send (.cons (.commitment _ hadvice.s) .nil)) fun _ _ _ => ih _ _

theorem matches_claimAggregate {proofs proofs' : List (Proof G₁ × Advice G₁)}
    (hproofs : List.Forall₂ (fun p p' => p.1.Related R p'.1 ∧ p.2.Related R p'.2) proofs proofs')
    {agg agg' : Aggregate G₁} (h : agg.Related R agg') (pts : Aggregate.Points) (szw : Fr) :
    Matches (Related R) Eq (claimAggregate oracle proofs agg pts szw : Action G₁ G₂ Unit)
      (claimAggregate oracle proofs' agg' pts szw) := by
  have hadvice : List.Forall₂ (Advice.Related R) (proofs.map (·.2)) (proofs'.map (·.2)) :=
    List.rel_map (fun _ _ hp => hp.2) hproofs
  have hvalues : agg.cOpenings.map (·.2) = agg'.cOpenings.map (·.2) :=
    List.forall₂_eq_eq_eq ▸ List.rel_map (fun _ _ ho => ho.2) h.cOpenings
  unfold claimAggregate
  rw [hvalues]
  refine Matches.bind_same _ fun shared =>
    .bind (matches_send (h.pointEntries h.opening shared pts.w szw)) fun _ _ _ =>
    .bind (matches_claimOpenings h pts) fun _ _ _ => Matches.bind_same _ fun coefficient =>
    .bind (matches_claimCombination coefficient (paired_zip hadvice _) 0 pts.transcript) ?_
  rintro expected _ rfl
  exact matches_send (.cons (.value _ _) <| .cons (.opening _ _ h.sOpening) .nil)

end

/-! ### Calls -/

variable [SourceGroup G₁ Fp] (hR : ∀ P P' : G₁, R P P' → affine P = affine P') (oracle : Oracle)
include hR

theorem matches_prepare {p p' : Proof G₁} (h : p.Related R p') (inputs : List Fr)
    (szy : Option Fr) :
    Matches (Related R) Eq (prepare oracle p inputs szy : Action G₁ G₂ _)
      (prepare oracle p' inputs szy) := by
  refine .get_bind fun v v' hv => ?_
  rw [hv.shape, h.points_eq hR, h.claimedT_eq]
  dsimp only
  split
  · exact Matches.throw _
  · refine Matches.bind_same _ fun pts => ?_
    cases szy with
    | some szy => exact .pure rfl
    | none =>
      refine .bind (matches_constraintValue pts.y pts.z) ?_
      rintro szy _ rfl
      exact .pure rfl

theorem matches_takeProof {p p' : Proof G₁} (h : p.Related R p') (inputs : List Fr)
    (szy : Option Fr) :
    Matches (Related R) Eq (takeProof oracle p inputs szy : Action G₁ G₂ Fr)
      (takeProof oracle p' inputs szy) := by
  refine .bind (matches_prepare hR oracle h inputs szy) ?_
  rintro ⟨pts, tzy⟩ _ rfl
  refine .bind (matches_claimProof h pts tzy) fun _ _ _ => .get_bind fun v v' hv => ?_
  rw [hv.batch.size_eq]
  exact .bind (matches_note _) fun _ _ _ => .pure rfl

theorem matches_addProof {p p' : Proof G₁} (h : p.Related R p') (inputs : List Fr)
    (szy : Option Fr) :
    Matches (Related R) Eq (addProof oracle p inputs szy : Action G₁ G₂ Unit)
      (addProof oracle p' inputs szy) :=
  matches_awaited <| .bind matches_ensureOpen fun _ _ _ =>
    .bind (matches_takeProof hR oracle h inputs szy) fun _ _ _ => .pure rfl

theorem matches_addAdvisedProof {p p' : Proof G₁} (h : p.Related R p') (inputs : List Fr)
    {a a' : Advice G₁} (ha : a.Related R a') :
    Matches (Related R) Eq (addAdvisedProof oracle p inputs a : Action G₁ G₂ Unit)
      (addAdvisedProof oracle p' inputs a') := by
  unfold addAdvisedProof
  rw [ha.szy, ha.coefficient_eq hR]
  refine matches_awaited <| .bind matches_ensureOpen fun _ _ _ =>
    .bind (matches_takeProof hR oracle h inputs _) ?_
  rintro z _ rfl
  exact Matches.bind_same _ fun coefficient => matches_send (ha.entries coefficient z)

theorem matches_addAggregate {proofs proofs' : List (Proof G₁ × Advice G₁)}
    (hproofs : List.Forall₂ (fun p p' => p.1.Related R p'.1 ∧ p.2.Related R p'.2) proofs proofs')
    {agg agg' : Aggregate G₁} (hagg : agg.Related R agg') :
    Matches (Related R) Eq (addAggregate oracle proofs agg : Action G₁ G₂ Unit)
      (addAggregate oracle proofs' agg') := by
  unfold addAggregate
  rw [hagg.cOpenings.length_eq, hproofs.length_eq, hagg.points_eq hR hproofs]
  refine matches_awaited <| .bind matches_ensureOpen fun _ _ _ => ?_
  split
  · exact Matches.throw _
  refine Matches.bind_same _ fun pts => .bind (matches_constraintValue pts.w pts.z) ?_
  rintro szw _ rfl
  refine .bind (matches_claimAggregate hproofs hagg pts szw) fun _ _ _ =>
    .get_bind fun v v' hv => ?_
  rw [hv.batch.size_eq]
  exact matches_note _

theorem lockstep_run {call call' : Call G₁} (h : call.Related R call') :
    Matches (Related R) Eq (call.run oracle : Action G₁ G₂ Unit) (call'.run oracle) := by
  cases h with
  | proof inputs szy hp => exact matches_addProof hR oracle hp inputs szy
  | advised inputs hp ha => exact matches_addAdvisedProof hR oracle hp inputs ha
  | aggregate hproofs hagg => exact matches_addAggregate hR oracle hproofs hagg

/-! ## Sessions -/

/-- All challenges that a call may draw. The forks of an aggregate all draw the same one. -/
def Call.challenges (oracle : Oracle) : Call G₁ → Except Fault (List Fr)
  | .proof p _ _ => do
    let ch ← p.challenges oracle
    return [ch.y, ch.z, ch.mix, ch.first, ch.second]
  | .advised p _ advice => do
    let ch ← p.challenges oracle
    return [ch.y, ch.z, ch.mix, ch.first, ch.second, ← advice.coefficient oracle]
  | .aggregate proofs agg => do
    let pts ← agg.points oracle proofs
    let fork ← pts.transcript.forkChallenge oracle
    return pts.ys ++ pts.z :: pts.w :: fork ::
      (← Helper.coefficients oracle proofs.length pts.transcript)

theorem Call.Related.challenges_eq {call call' : Call G₁} (h : call.Related R call') :
    call.challenges oracle = call'.challenges oracle := by
  cases h with
  | proof inputs szy hp => simp only [Call.challenges, hp.challenges_eq hR]
  | advised inputs hp ha => simp only [Call.challenges, hp.challenges_eq hR, ha.coefficient_eq hR]
  | aggregate hproofs hagg =>
    simp only [Call.challenges, hagg.points_eq hR hproofs, hproofs.length_eq]

omit hR in
/-- Makes one call after another, whether or not they fail. Gives how each of them ended, and the
verifier after all of them. -/
def session : List (Call G₁) → Verifier G₁ G₂ → List (Except Fault Unit) × Verifier G₁ G₂
  | [], v => ([], v)
  | call :: calls, v =>
    let result := call.run oracle v
    let rest := session calls (endState result)
    (outcome result :: rest.1, rest.2)

theorem session_related {calls calls' : List (Call G₁)}
    (h : List.Forall₂ (Call.Related R) calls calls') {v v' : Verifier G₁ G₂} (hv : v.Related R v') :
    (session oracle calls v).1 = (session oracle calls' v').1 ∧
      (session oracle calls v).2.Related R (session oracle calls' v').2 := by
  induction h generalizing v v' with
  | nil => exact ⟨rfl, hv⟩
  | cons hcall _ ih =>
    obtain ⟨houtcome, hend⟩ := (lockstep_run hR oracle hcall).outcome_eq hv
    obtain ⟨houtcomes, hrest⟩ := ih hend
    exact ⟨congrArg₂ List.cons houtcome houtcomes, hrest⟩

section

variable {F₂ T : Type} [SourceGroup G₂ F₂] [Pairing G₁ G₂ T]

omit hR in
theorem matches_checkBatch (hR : Respected G₂ R) :
    Matches (Related R) Eq (checkBatch : Action G₁ G₂ Bool) checkBatch := by
  refine .bind (matches_onBatch (Batch.matches_finalize hR.refl)) fun _ _ _ => ?_
  refine .get_bind fun v v' h => ?_
  dsimp only
  rw [h.batch.verdict_eq hR, h.batch.alphaX.length_eq, h.batch.full.length_eq,
    h.batch.bounded.length_eq]
  exact .bind (matches_note _) fun _ _ _ => Matches.ofExcept _

omit hR in
theorem lockstep_check (hR : Respected G₂ R) :
    Matches (Related R) Eq (check : Action G₁ G₂ Bool) check := by
  refine .bind matches_ensureOpen fun _ _ _ => ?_
  refine .bind (.modify fun v v' h => { h with finalized := rfl }) fun _ _ _ => ?_
  refine .bind (matches_checkBatch hR) fun accepted _ haccepted => ?_
  cases haccepted
  exact .bind (matches_note _) fun _ _ _ => .pure rfl

end

end Verifier

/-! ## Rescaled triples -/

/-- Rescaling is respected by every pairing whose value depends on the affine point only. -/
theorem rescaled_respected {G₂ F₂ T : Type} [SourceGroup G₂ F₂] [Pairing (Point Fp) G₂ T]
    (hvalue : ∀ {P P' : Point Fp} (Q : G₂), P.affine = P'.affine →
      (Pairing.value P Q : Except Fault T) = Pairing.value P' Q) :
    Respected G₂ (Point.Rescaled : Point Fp → Point Fp → Prop) where
  refl := Point.Rescaled.refl
  affine_eq _ _ h := h.affine_eq
  add hP hQ := hP.add hQ
  smul k h := h.nsmul k.val
  value_eq Q h := hvalue Q h.affine_eq

theorem AtePairing.value_congr {P P' : Point Fp} (Q : Point Fp2) (h : P.affine = P'.affine) :
    (Pairing.value P Q : Except Fault Fp12) = Pairing.value P' Q := by
  show millerFactor P Q = millerFactor P' Q
  unfold millerFactor
  rw [h]
  simp only [Point.onCurve_congr h]

namespace Verifier

/-- Two sessions of the same calls with related elements. Whatever the groups, the pairing and the
relation that they respect, the same challenges are drawn, each call ends the same, the batches hold
the same coefficients, and the check gives the same answer or the same fault. -/
theorem session_respected {G₁ G₂ F₂ T : Type} [SourceGroup G₁ Fp] [SourceGroup G₂ F₂]
    [Pairing G₁ G₂ T] {R : G₁ → G₁ → Prop} (hR : Respected G₂ R) (oracle : Oracle)
    (v : Verifier G₁ G₂) {calls calls' : List (Call G₁)}
    (h : List.Forall₂ (Call.Related R) calls calls') :
    calls.map (Call.challenges oracle) = calls'.map (Call.challenges oracle) ∧
      (session oracle calls v).1 = (session oracle calls' v).1 ∧
      (session oracle calls v).2.batch.coefficients = (session oracle calls' v).2.batch.coefficients ∧
      outcome (check (session oracle calls v).2) = outcome (check (session oracle calls' v).2) := by
  have hv : v.Related R v := ⟨rfl, rfl, .refl hR.refl v.batch, rfl, rfl⟩
  obtain ⟨houtcomes, hend⟩ := session_related hR.affine_eq oracle h hv
  have hchallenges : calls.map (Call.challenges oracle) = calls'.map (Call.challenges oracle) :=
    List.forall₂_eq_eq_eq ▸
      List.rel_map (fun _ _ hcall => Call.Related.challenges_eq hR.affine_eq oracle hcall) h
  exact ⟨hchallenges, houtcomes, hend.batch.coefficients_eq,
    ((lockstep_check hR).outcome_eq hend).1⟩

/-- The representation of points does not matter. From any verifier, whatever its circuit and its
reference string, let two sessions make the same calls with points that are triples of any kind, on
the curve, off it or at infinity, and differ by factors other than 0, each by its own. Then the same
challenges are drawn, each call ends the same, with the same fault if any, the batches hold the same
coefficients, and the check gives the same answer or the same fault. -/
theorem session_rescaled (oracle : Oracle) (v : Verifier (Point Fp) (Point Fp2))
    {calls calls' : List (Call (Point Fp))}
    (h : List.Forall₂ (Call.Related Point.Rescaled) calls calls') :
    calls.map (Call.challenges oracle) = calls'.map (Call.challenges oracle) ∧
      (session oracle calls v).1 = (session oracle calls' v).1 ∧
      (session oracle calls v).2.batch.coefficients = (session oracle calls' v).2.batch.coefficients ∧
      outcome (check (session oracle calls v).2) = outcome (check (session oracle calls' v).2) :=
  session_respected (rescaled_respected AtePairing.value_congr) oracle v h

/-- A session with a point at infinity and one that is off the curve, every triple rescaled. -/
theorem session_rescaled_generator :
    let P : Point Fp := generator₁
    let infinity : Point Fp := ⟨7, 9, 0⟩
    let offCurve : Point Fp := ⟨5, 5, 1⟩
    let calls : List (Call (Point Fp)) :=
      [.proof ⟨P, infinity, 3, 4, offCurve, P⟩ [6] none,
        .aggregate [(⟨P, P, 3, 4, P, P⟩, ⟨offCurve, 8, infinity⟩)] ⟨P, infinity, [(offCurve, 8)], P⟩]
    let calls' : List (Call (Point Fp)) :=
      [.proof ⟨P.scale 2, infinity.scale 3, 3, 4, offCurve.scale 5, P.scale 7⟩ [6] none,
        .aggregate [(⟨P, P.scale 3, 3, 4, P, P⟩, ⟨offCurve.scale 2, 8, infinity.scale 5⟩)]
          ⟨P.scale 5, infinity, [(offCurve.scale 7, 8)], P.scale 2⟩]
    ∃ (srs : ReferenceString (Point Fp) (Point Fp2)) (v : Verifier (Point Fp) (Point Fp2))
      (log : List LogEntry),
      ReferenceString.ofSecrets 2 2 3 = .ok srs ∧
      start srs (productCircuit.atPass 0) [] = .ok v log ∧
      List.Forall₂ (Call.Related Point.Rescaled) calls calls' ∧
      calls.map (Call.challenges .sha256) = calls'.map (Call.challenges .sha256) ∧
      (session .sha256 calls v).1 = (session .sha256 calls' v).1 ∧
      (session .sha256 calls v).2.batch.coefficients =
        (session .sha256 calls' v).2.batch.coefficients ∧
      outcome (check (session .sha256 calls v).2) = outcome (check (session .sha256 calls' v).2) := by
  intro P infinity offCurve calls calls'
  obtain ⟨srs, v, log, hsrs, hstart, -⟩ := productCircuit_takes_proofs
  have hscale : ∀ (Q : Point Fp) {l : Fp}, l ≠ 0 → Q.Rescaled (Q.scale l) := fun Q l hl => ⟨l, hl, rfl⟩
  have hrefl : ∀ Q : Point Fp, Q.Rescaled Q := Point.Rescaled.refl
  have h2 : (2 : Fp) ≠ 0 := by decide +kernel
  have h3 : (3 : Fp) ≠ 0 := by decide +kernel
  have h5 : (5 : Fp) ≠ 0 := by decide +kernel
  have h7 : (7 : Fp) ≠ 0 := by decide +kernel
  have hcalls : List.Forall₂ (Call.Related Point.Rescaled) calls calls' := by
    refine .cons (.proof _ _ ?_) (.cons (.aggregate (.cons ⟨?_, ?_⟩ .nil) ?_) .nil)
    · exact ⟨hscale P h2, hscale infinity h3, rfl, rfl, hscale offCurve h5, hscale P h7⟩
    · exact ⟨hrefl P, hscale P h3, rfl, rfl, hrefl P, hrefl P⟩
    · exact ⟨hscale offCurve h2, rfl, hscale infinity h5⟩
    · exact ⟨hscale P h5, hrefl infinity, .cons ⟨hscale offCurve h7, rfl⟩ .nil, hscale P h2⟩
  exact ⟨srs, v, log, hsrs, hstart, hcalls, session_rescaled .sha256 v hcalls⟩

end Verifier

end SnarkBatch
