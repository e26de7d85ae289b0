import SnarkBatch.Proofs.Sending

/-!
# Calls

The ways in which claims come into a verifier: a proof alone, a proof with advice, an aggregate.
What a call adds is a function of its arguments, of the shape of the circuit and of the values of
the constraint polynomial (`Call.claims`), for every circuit. The call draws its coefficients and
adds its claims by turns, and yet it does just that (`Call.run_adds`): it appends these claims to
the batch, or it fails and leaves no claim behind. With a finalized batch it always fails
(`Call.run_answers`).
-/

namespace SnarkBatch

namespace Entry

/-- The element of a part of a claim; values have none. -/
def element {G : Type} : Entry G → Option G
  | opening evidence _ _ => some evidence
  | value _ _ => none
  | commitment c _ => some c
  | bounded c _ => some c

end Entry

def Proof.elements {G : Type} (p : Proof G) : List G := [p.r, p.t, p.zOpening, p.zyOpening]

def Advice.elements {G : Type} (a : Advice G) : List G := [a.s, a.opening]

def Aggregate.elements {G : Type} (agg : Aggregate G) : List G :=
  agg.c :: agg.sOpening :: agg.opening :: agg.cOpenings.map (·.1)

namespace Verifier

inductive Call (G : Type)
  | proof (p : Proof G) (inputs : List Fr) (szy : Option Fr)
  | advised (p : Proof G) (inputs : List Fr) (advice : Advice G)
  | aggregate (proofs : List (Proof G × Advice G)) (agg : Aggregate G)
  deriving DecidableEq, Repr

namespace Call

variable {G₁ G₂ : Type} [SourceGroup G₁ Fp] (oracle : Oracle)

def run : Call G₁ → Action G₁ G₂ Unit
  | proof p inputs szy => addProof oracle p inputs szy
  | advised p inputs advice => addAdvisedProof oracle p inputs advice
  | aggregate proofs agg => addAggregate oracle proofs agg

/-! ## The claims of a call -/

/-- The points of a proof and its `t(z, y)`, where `s` gives the values of the constraint polynomial.
-/
def preparation (shape : Shape) (s : Fr → Fr → Except Fault Fr) (p : Proof G₁) (inputs : List Fr)
    (szy : Option Fr) : Except Fault (Proof.Points × Fr) :=
  if inputs.length = shape.inputs.length - 1 then do
    let pts ← p.points oracle
    let szy ← szy.elim (s pts.y pts.z) .ok
    return (pts, p.claimedT szy (shape.publicValue pts.y inputs))
  else .error (.inputCount inputs.length (shape.inputs.length - 1))

/-- What a proof adds, with its challenges. -/
def proofClaims (shape : Shape) (s : Fr → Fr → Except Fault Fr) (p : Proof G₁) (inputs : List Fr)
    (szy : Option Fr) : Except Fault (Proof.Challenges × List (Entry G₁)) := do
  let (pts, tzy) ← preparation oracle shape s p inputs szy
  let ch ← pts.challenges oracle
  return (ch, p.entries ch tzy)

def advisedClaims (shape : Shape) (s : Fr → Fr → Except Fault Fr) (p : Proof G₁) (inputs : List Fr)
    (advice : Advice G₁) : Except Fault (List (Entry G₁)) := do
  let (ch, entries) ← proofClaims oracle shape s p inputs (some advice.szy)
  let coefficient ← advice.coefficient oracle
  return entries ++ advice.entries coefficient ch.z

def aggregateClaims (s : Fr → Fr → Except Fault Fr) (proofs : List (Proof G₁ × Advice G₁))
    (agg : Aggregate G₁) : Except Fault (List (Entry G₁)) :=
  if agg.cOpenings.length = proofs.length then do
    let pts ← agg.points oracle proofs
    let szw ← s pts.w pts.z
    agg.entries oracle proofs pts szw
  else .error (.openingCount agg.cOpenings.length proofs.length)

/-- What a call adds to the batch. -/
def claims (shape : Shape) (s : Fr → Fr → Except Fault Fr) : Call G₁ → Except Fault (List (Entry G₁))
  | proof p inputs szy => do return (← proofClaims oracle shape s p inputs szy).2
  | advised p inputs advice => advisedClaims oracle shape s p inputs advice
  | aggregate proofs agg => aggregateClaims oracle s proofs agg

section

variable {oracle} {shape : Shape} {s : Fr → Fr → Except Fault Fr} {p : Proof G₁} {inputs : List Fr}

theorem preparation_none (hinputs : inputs.length = shape.inputs.length - 1) {pts : Proof.Points}
    (hpts : p.points oracle = .ok pts) :
    preparation oracle shape s p inputs none =
      s pts.y pts.z >>= fun szy => .ok (pts, p.claimedT szy (shape.publicValue pts.y inputs)) := by
  unfold preparation
  rw [if_pos hinputs]
  exact except_bind_ok hpts _

theorem proofClaims_eq (hinputs : inputs.length = shape.inputs.length - 1) {ch : Proof.Challenges}
    (hch : p.challenges oracle = .ok ch) (szy : Option Fr) {u : Fr}
    (hu : szy.elim (s ch.y ch.z) .ok = .ok u) :
    proofClaims oracle shape s p inputs szy =
      .ok (ch, p.entries ch (p.claimedT u (shape.publicValue ch.y inputs))) := by
  obtain ⟨pts, hpts, hch⟩ := exists_of_bind_ok hch
  obtain ⟨hy, hz⟩ := pts.of_challenges hch
  rw [hy, hz] at hu
  have hprepared : preparation oracle shape s p inputs szy =
      .ok (pts, p.claimedT u (shape.publicValue pts.y inputs)) := by
    unfold preparation
    rw [if_pos hinputs]
    exact (except_bind_ok hpts _).trans (except_bind_ok hu _)
  rw [hy]
  exact (except_bind_ok hprepared _).trans (except_bind_ok hch _)

theorem claims_proof (hinputs : inputs.length = shape.inputs.length - 1) {ch : Proof.Challenges}
    (hch : p.challenges oracle = .ok ch) {szy : Fr} (hszy : s ch.y ch.z = .ok szy) :
    (proof p inputs none).claims oracle shape s =
      .ok (p.entries ch (p.claimedT szy (shape.publicValue ch.y inputs))) :=
  except_bind_ok (proofClaims_eq hinputs hch none hszy) _

theorem claims_proof_some (hinputs : inputs.length = shape.inputs.length - 1) {ch : Proof.Challenges}
    (hch : p.challenges oracle = .ok ch) {szy : Fr} :
    (proof p inputs (some szy)).claims oracle shape s =
      .ok (p.entries ch (p.claimedT szy (shape.publicValue ch.y inputs))) :=
  except_bind_ok (proofClaims_eq hinputs hch (some szy) rfl) _

theorem exists_of_proofClaims {szy : Option Fr} {prepared : Proof.Challenges × List (Entry G₁)}
    (h : proofClaims oracle shape s p inputs szy = .ok prepared) :
    inputs.length = shape.inputs.length - 1 ∧
      ∃ ch u, p.challenges oracle = .ok ch ∧ szy.elim (s ch.y ch.z) .ok = .ok u ∧
        prepared = (ch, p.entries ch (p.claimedT u (shape.publicValue ch.y inputs))) := by
  obtain ⟨⟨pts, tzy⟩, hprepared, h⟩ := exists_of_bind_ok h
  obtain ⟨ch, hch, h⟩ := exists_of_bind_ok h
  obtain ⟨hy, hz⟩ := pts.of_challenges hch
  unfold preparation at hprepared
  split at hprepared
  · rename_i hinputs
    obtain ⟨pts', hpts, hprepared⟩ := exists_of_bind_ok hprepared
    obtain ⟨u, hu, hprepared⟩ := exists_of_bind_ok hprepared
    cases hprepared
    refine ⟨hinputs, ch, u, (except_bind_ok hpts _).trans hch, ?_, ?_⟩
    · rw [hy, hz]
      exact hu
    · rw [hy]
      exact (Except.ok.inj h).symm
  · cases hprepared

end

end Call

/-- How a call ends on a verifier, from what it is to add: the batch has all of it or is as before,
and nothing else has changed but the circuit and the log. -/
inductive Adds {G₁ G₂ : Type} (v : Verifier G₁ G₂) :
    Except Fault (List (Entry G₁)) → EStateM.Result Fault (Verifier G₁ G₂) Unit → Prop
  | added {v' : Verifier G₁ G₂} (entries : List (Entry G₁)) (log : List LogEntry) :
    v.Evaluated v' →
    Adds v (.ok entries) (.ok () { v' with batch := entries.foldl Batch.push v'.batch, log })
  | failed {v' : Verifier G₁ G₂} (e : Fault) : v.Evaluated v' → Adds v (.error e) (.error e v')

namespace Adds

variable {G₁ G₂ : Type} {v : Verifier G₁ G₂} {r : EStateM.Result Fault (Verifier G₁ G₂) Unit}

theorem eq_ok {entries : List (Entry G₁)} (h : v.Adds (.ok entries) r) :
    ∃ v' log, v.Evaluated v' ∧
      r = .ok () { v' with batch := entries.foldl Batch.push v'.batch, log } := by
  cases h with
  | added _ log hv' => exact ⟨_, log, hv', rfl⟩

theorem eq_error {e : Fault} (h : v.Adds (.error e) r) : ∃ v', v.Evaluated v' ∧ r = .error e v' := by
  cases h with
  | failed _ hv' => exact ⟨_, hv', rfl⟩

end Adds

/-! ## Running a call -/

section

variable {G₁ G₂ : Type} {v : Verifier G₁ G₂}

/-- The batch was open and has the entries, after passes of the circuit and with another log. -/
def Gained (v : Verifier G₁ G₂) (entries : List (Entry G₁)) (s : Verifier G₁ G₂) : Prop :=
  v.batch.finalized = false ∧ ∃ v' log, v.Evaluated v' ∧ s = { v'.push entries with log }

theorem Gained.open {entries : List (Entry G₁)} {s : Verifier G₁ G₂} (h : v.Gained entries s) :
    s.batch.finalized = false := by
  obtain ⟨hbatch, v', log, hv', rfl⟩ := h
  exact push_open (hv'.batch_eq ▸ hbatch) entries

theorem Gained.push {entries : List (Entry G₁)} {s : Verifier G₁ G₂} (h : v.Gained entries s)
    (more : List (Entry G₁)) : v.Gained (entries ++ more) (s.push more) := by
  obtain ⟨hbatch, v', log, hv', rfl⟩ := h
  refine ⟨hbatch, v', log, hv', ?_⟩
  rw [push_append]
  rfl

/-- How a call ends, for any state of the batch: a finalized one refuses the first claim. -/
inductive Answers (v : Verifier G₁ G₂) :
    Except Fault (List (Entry G₁)) → EStateM.Result Fault (Verifier G₁ G₂) Unit → Prop
  | added {s : Verifier G₁ G₂} (entries : List (Entry G₁)) : v.Gained entries s →
    Answers v (.ok entries) (.ok () s)
  | failed {v' : Verifier G₁ G₂} (e : Fault) : v.Evaluated v' →
    Answers v (.error e) (.error e v')
  | refused {v' : Verifier G₁ G₂} (claims : Except Fault (List (Entry G₁))) :
    v.batch.finalized = true → v.Evaluated v' → Answers v claims (.error .batchFinalized v')

theorem Answers.adds {claims : Except Fault (List (Entry G₁))}
    {r : EStateM.Result Fault (Verifier G₁ G₂) Unit} (h : v.Answers claims r)
    (hbatch : v.batch.finalized = false) : v.Adds claims r := by
  cases h with
  | added entries h =>
    obtain ⟨-, v', log, hv', rfl⟩ := h
    exact .added entries log hv'
  | failed e hv' => exact .failed e hv'
  | refused claims hclosed _ =>
    rw [hbatch] at hclosed
    cases hclosed

/-- A call that is given up leaves nothing behind. -/
theorem Follows.answers {claims : Except Fault (List (Entry G₁))} {call : Action G₁ G₂ Unit}
    (h : v.Follows (fun entries _ => v.Gained entries) claims (call v)) :
    v.Answers claims (awaited call v) := by
  generalize hcall : call v = r at h
  cases h with
  | ok hgained =>
    rw [awaited_ok hcall]
    exact .added _ hgained
  | failed e hv' =>
    -- The points of a call wait for challenges too, before there is any claim.
    by_cases he : e = .noChallenge
    · subst he
      rw [awaited_noChallenge hcall]
      exact .failed _ (.inl rfl)
    · rw [awaited_error hcall he]
      exact .failed e hv'
  | waiting s =>
    rw [awaited_noChallenge hcall]
    exact .failed _ (.inl rfl)
  | refused claims hbatch hv' =>
    rw [awaited_error hcall nofun]
    exact .refused claims hbatch hv'

variable [SourceGroup G₁ Fp] (oracle : Oracle)

/-- Preparing a proof works out what its claims need and changes nothing but the circuit. -/
theorem prepare_spec (v : Verifier G₁ G₂) (p : Proof G₁) (inputs : List Fr) (szy : Option Fr) :
    ∃ v', v.Evaluated v' ∧ prepare oracle p inputs szy v =
      withEnd v' (Call.preparation oracle v.shape v.evaluate p inputs szy) := by
  unfold prepare Call.preparation
  rw [get_bind]
  dsimp only
  by_cases hinputs : inputs.length = v.shape.inputs.length - 1
  · rw [if_neg (not_not.2 hinputs), if_pos hinputs]
    cases hpts : p.points oracle with
    | error e => exact ⟨v, .inl rfl, rfl⟩
    | ok pts =>
      cases szy with
      | some szy => exact ⟨v, .inl rfl, rfl⟩
      | none =>
        refine ⟨endState (constraintValue pts.y pts.z v), .inr ⟨pts.y, pts.z, rfl⟩, ?_⟩
        exact (ofExcept_bind rfl _ v).trans (bind_pure_eq _ _ v)
  · rw [if_pos hinputs, if_neg hinputs]
    exact ⟨v, .inl rfl, rfl⟩

theorem takeProof_follows (v : Verifier G₁ G₂) (p : Proof G₁) (inputs : List Fr)
    (szy : Option Fr) :
    v.Follows (fun claims z s => z = claims.1.z ∧ v.Gained claims.2 s)
      (Call.proofClaims oracle v.shape v.evaluate p inputs szy)
      (takeProof oracle p inputs szy v) := by
  obtain ⟨v', hv', hprepare⟩ := prepare_spec oracle v p inputs szy
  have hprepared := Follows.of_withEnd hv'
    (Call.preparation oracle v.shape v.evaluate p inputs szy)
  rw [← hprepare] at hprepared
  refine hprepared.bind ?_
  rintro ⟨pts, tzy⟩ _ s ⟨rfl, hs⟩
  refine (claimProof_follows oracle hs p pts tzy).bind ?_
  rintro ch _ _ ⟨hbatch, hz, rfl⟩
  exact .ok ⟨hz.symm, hbatch, s, _, hs, rfl⟩

theorem addProof_answers (hopen : v.finalized = false) (p : Proof G₁) (inputs : List Fr)
    (szy : Option Fr) :
    v.Answers ((Call.proof p inputs szy).claims oracle v.shape v.evaluate)
      (addProof oracle p inputs szy v) := by
  refine Follows.answers ?_
  rw [bind_ok (ensureOpen_eq hopen)]
  exact (takeProof_follows oracle v p inputs szy).bind fun _ _ _ h => .ok h.2

theorem addAdvisedProof_answers (hopen : v.finalized = false) (p : Proof G₁) (inputs : List Fr)
    (advice : Advice G₁) :
    v.Answers (Call.advisedClaims oracle v.shape v.evaluate p inputs advice)
      (addAdvisedProof oracle p inputs advice v) := by
  have hcoefficient : Delivers oracle (advice.coefficient oracle) fun _ => True :=
    .bind (.challenge oracle _) fun _ _ => .pure trivial
  refine Follows.answers ?_
  rw [bind_ok (ensureOpen_eq hopen)]
  refine (takeProof_follows oracle v p inputs (some advice.szy)).bind ?_
  rintro ⟨ch, entries⟩ _ s ⟨rfl, hs⟩
  exact .draw hcoefficient fun coefficient => .send hs.open (hs.push _)

theorem addAggregate_answers (hopen : v.finalized = false) (proofs : List (Proof G₁ × Advice G₁))
    (agg : Aggregate G₁) :
    v.Answers (Call.aggregateClaims oracle v.evaluate proofs agg)
      (addAggregate oracle proofs agg v) := by
  refine Follows.answers ?_
  unfold Call.aggregateClaims
  rw [bind_ok (ensureOpen_eq hopen)]
  by_cases hcount : agg.cOpenings.length = proofs.length
  · rw [if_neg (not_not.2 hcount), if_pos hcount]
    cases agg.points oracle proofs with
    | error e => exact .failed e (.inl rfl)
    | ok pts =>
      refine (Follows.constraintValue v pts.w pts.z).bind ?_
      rintro _ szw s ⟨rfl, hs⟩
      refine (claimAggregate_follows oracle hs proofs agg pts szw).bind_left ?_
      rintro entries _ _ ⟨hbatch, rfl⟩
      exact .ok ⟨hbatch, s, _, hs, rfl⟩
  · rw [if_pos hcount, if_neg hcount]
    exact .failed _ (.inl rfl)

theorem Call.run_answers (hopen : v.finalized = false) (call : Call G₁) :
    v.Answers (call.claims oracle v.shape v.evaluate) (call.run oracle v) := by
  cases call with
  | proof p inputs szy => exact addProof_answers oracle hopen p inputs szy
  | advised p inputs advice => exact addAdvisedProof_answers oracle hopen p inputs advice
  | aggregate proofs agg => exact addAggregate_answers oracle hopen proofs agg

/-- A call adds its claims to an open verifier, or it fails and adds none. -/
theorem Call.run_adds (hopen : v.finalized = false) (hbatch : v.batch.finalized = false)
    (call : Call G₁) :
    v.Adds (call.claims oracle v.shape v.evaluate) (call.run oracle v) :=
  (Call.run_answers oracle hopen call).adds hbatch

theorem Call.run_ok (hopen : v.finalized = false) (hbatch : v.batch.finalized = false)
    {call : Call G₁} {entries : List (Entry G₁)}
    (hclaims : call.claims oracle v.shape v.evaluate = .ok entries) :
    ∃ v' log, v.Evaluated v' ∧
      call.run oracle v = .ok () { v' with batch := entries.foldl Batch.push v'.batch, log } := by
  have hadds := Call.run_adds oracle hopen hbatch call
  rw [hclaims] at hadds
  exact hadds.eq_ok

/-- A proof that comes with a value of the constraint polynomial is always taken. -/
theorem Call.run_proof_some (hopen : v.finalized = false) (hbatch : v.batch.finalized = false)
    {p : Proof G₁} {inputs : List Fr} (hinputs : inputs.length = v.shape.inputs.length - 1)
    {ch : Proof.Challenges} (hch : p.challenges oracle = .ok ch) (szy : Fr) :
    ∃ v', (Call.proof p inputs (some szy)).run oracle v = .ok () v' ∧
      v'.batch = (p.entries ch (p.claimedT szy (v.shape.publicValue ch.y inputs))).foldl Batch.push
        v.batch := by
  obtain ⟨v', log, hv', hrun⟩ := Call.run_ok oracle hopen hbatch
    (Call.claims_proof_some hinputs hch)
  exact ⟨_, hrun, by rw [← hv'.batch_eq]⟩

end

/-! ## The elements of a call -/

namespace Call

variable {G : Type}

def elements : Call G → List G
  | proof p _ _ => p.elements
  | advised p _ advice => p.elements ++ advice.elements
  | aggregate proofs agg =>
    agg.elements ++ proofs.flatMap fun p => p.1.elements ++ p.2.elements

/-- The elements of the entries are among the given ones. -/
def Within (elements : List G) (entries : List (Entry G)) : Prop :=
  ∀ entry ∈ entries, ∀ P, entry.element = some P → P ∈ elements

section

variable {els els' : List G} {as bs : List (Entry G)}

theorem Within.mono (h : Within els as) (hsub : els ⊆ els') : Within els' as :=
  fun entry hentry P hP => hsub (h entry hentry P hP)

theorem Within.append (ha : Within els as) (hb : Within els bs) : Within els (as ++ bs) :=
  fun entry hentry => (List.mem_append.1 hentry).elim (ha entry) (hb entry)

theorem Within.flatten {A : Type} {items : List A} {each : List (List (Entry G))}
    (h : List.Forall₂ (fun _ as => Within els as) items each) : Within els each.flatten := by
  induction h with
  | nil => exact fun _ hentry => absurd hentry List.not_mem_nil
  | cons hhead _ ih => exact hhead.append ih

end

theorem pointEntries_within (agg : Aggregate G) {evidence : G} (h : evidence ∈ agg.elements)
    (coefficient point value : Fr) :
    Within agg.elements (agg.pointEntries evidence coefficient point value) := by
  have hc : agg.c ∈ agg.elements := List.mem_cons_self
  simp [Within, Aggregate.pointEntries, Entry.element, h, hc]

variable {oracle : Oracle}

theorem openingEntries_within (agg : Aggregate G) (pts : Aggregate.Points) :
    Gives (Within agg.elements) (agg.openingEntries oracle pts) := by
  unfold Aggregate.openingEntries
  refine .bind (.mapM fun oy hoy => ?_) fun each heach => .pure (Within.flatten heach)
  refine .of_forall fun coefficient => .pure (pointEntries_within agg ?_ _ _ _)
  have hopening := List.mem_map_of_mem (f := (·.1)) (List.of_mem_zip hoy).1
  simp only [Aggregate.elements, List.mem_cons, hopening, or_true]

theorem combine_within (coefficient : Fr) (advised : List (Advice G × Fr)) (t : Transcript) :
    Gives (fun combined => Within (advised.map (·.1.s)) combined.2)
      (Aggregate.combine oracle coefficient advised t) := by
  induction advised generalizing t with
  | nil => exact .pure fun _ h => absurd h List.not_mem_nil
  | cons av rest ih =>
    refine .of_forall fun drawn => .bind (ih drawn.2) fun combined hcombined => .pure ?_
    intro entry hentry P hP
    rcases List.mem_cons.1 hentry with rfl | hrest
    · cases hP
      exact List.mem_cons_self
    · exact List.mem_cons_of_mem _ (hcombined entry hrest P hP)

theorem aggregateEntries_within (proofs : List (Proof G × Advice G)) (agg : Aggregate G)
    (pts : Aggregate.Points) (szw : Fr) :
    Gives (Within (aggregate proofs agg).elements) (agg.entries oracle proofs pts szw) := by
  have hagg : agg.elements ⊆ (aggregate proofs agg).elements := List.subset_append_left _ _
  have hopening : agg.opening ∈ agg.elements := by
    simp only [Aggregate.elements, List.mem_cons, true_or, or_true]
  have hsOpening : agg.sOpening ∈ agg.elements := by
    simp only [Aggregate.elements, List.mem_cons, true_or, or_true]
  have hadvised : ((proofs.map (·.2)).zip (agg.cOpenings.map (·.2))).map (·.1.s) ⊆
      (aggregate proofs agg).elements := by
    intro P hP
    obtain ⟨av, hav, rfl⟩ := List.mem_map.1 hP
    obtain ⟨p, hp, hpav⟩ := List.mem_map.1 (List.of_mem_zip hav).1
    refine List.mem_append_right _ (List.mem_flatMap.2 ⟨p, hp, List.mem_append_right _ ?_⟩)
    rw [hpav]
    exact List.mem_cons_self
  refine .of_forall fun shared => .bind (openingEntries_within agg pts) fun openings hopenings => ?_
  refine .of_forall fun coefficient => .bind (combine_within _ _ _) fun combined hcombined => .pure ?_
  refine ((((pointEntries_within agg hopening _ _ _).mono hagg).append (hopenings.mono hagg)).append
    (hcombined.mono hadvised)).append ?_
  simp [Within, Entry.element, hagg hsOpening]

variable [SourceGroup G Fp] {shape : Shape} {s : Fr → Fr → Except Fault Fr}

theorem proofClaims_within (p : Proof G) (inputs : List Fr) (szy : Option Fr) :
    Gives (fun prepared => Within p.elements prepared.2)
      (proofClaims oracle shape s p inputs szy) := by
  refine .of_forall fun prepared => .of_forall fun ch => .pure ?_
  simp [Within, Proof.entries, Proof.productEntries, Proof.mixedEntries, Proof.elements,
    Entry.element]

/-- The claims of a call are about the elements that it was given. -/
theorem claims_within (call : Call G) :
    Gives (Within call.elements) (call.claims oracle shape s) := by
  cases call with
  | proof p inputs szy => exact .bind (proofClaims_within p inputs szy) fun _ h => .pure h
  | advised p inputs advice =>
    refine .bind (proofClaims_within p inputs _) fun prepared h => .of_forall fun coefficient => .pure ?_
    refine (h.mono (List.subset_append_left _ _)).append ?_
    simp [Within, Advice.entries, Advice.elements, Entry.element]
  | aggregate proofs agg =>
    unfold claims aggregateClaims
    dsimp only
    split
    · exact .of_forall fun pts => .of_forall fun szw => aggregateEntries_within proofs agg pts szw
    · exact .error _

end Call

/-! ## Circuits that do the same on every pass -/

section

variable {G₁ G₂ F₂ : Type} [SourceGroup G₁ Fp] [SourceGroup G₂ F₂] {c : Circuit} {d : Int}
  {x alpha : Fr} {before : List (Entry Fr)} {v : Verifier G₁ G₂}

theorem Collects.evaluate_eq (hv : v.Collects c d x alpha before) (hc : c.Uniform)
    (hend : c.ending = .ok ()) : v.evaluate = c.outline.evaluate := by
  funext y z
  obtain ⟨pass, hvalue⟩ := constraintValue_eq hv hc hend y z
  rw [evaluate, hvalue, outcome_withEnd]

theorem Collects.evaluated (hv : v.Collects c d x alpha before) (hc : c.Uniform)
    (hend : c.ending = .ok ()) {v' : Verifier G₁ G₂} (hv' : v.Evaluated v') :
    v'.Collects c d x alpha before := by
  rcases hv' with rfl | ⟨y, z, rfl⟩
  · exact hv
  · obtain ⟨pass, hvalue⟩ := constraintValue_eq hv hc hend y z
    rw [hvalue, endState_withEnd]
    exact ⟨⟨pass, rfl⟩, hv.shape_eq, hv.finalized_eq, hv.keys, hv.batch⟩

variable (oracle : Oracle) {call : Call G₁}

theorem Collects.run_ok [LawfulGroup G₁] (hv : v.Collects c d x alpha before) (hc : c.Uniform)
    (hend : c.ending = .ok ()) {entries : List (Entry G₁)}
    (hclaims : call.claims oracle c.outline.shape c.outline.evaluate = .ok entries)
    {scalars : List (Entry Fr)} (hscalars : List.Forall₂ Entry.IsMultiple entries scalars) :
    ∃ v', call.run oracle v = .ok () v' ∧ v'.Collects c d x alpha (before ++ scalars) := by
  rw [← hv.shape_eq, ← hv.evaluate_eq hc hend] at hclaims
  obtain ⟨v', log, hv', hrun⟩ := Call.run_ok oracle hv.finalized_eq hv.batch.finalized hclaims
  have hv' := hv.evaluated hc hend hv'
  exact ⟨_, hrun, hv'.circuit_eq, hv'.shape_eq, hv'.finalized_eq, hv'.keys.foldl_push entries,
    hv'.batch.foldl_push hscalars⟩

theorem Collects.run_error (hv : v.Collects c d x alpha before) (hc : c.Uniform)
    (hend : c.ending = .ok ()) {e : Fault}
    (hclaims : call.claims oracle c.outline.shape c.outline.evaluate = .error e) :
    ∃ v', call.run oracle v = .error e v' ∧ v'.Collects c d x alpha before := by
  have hadds := Call.run_adds oracle hv.finalized_eq hv.batch.finalized call
  rw [hv.shape_eq, hv.evaluate_eq hc hend, hclaims] at hadds
  obtain ⟨v', hv', hrun⟩ := hadds.eq_error
  exact ⟨v', hrun, hv.evaluated hc hend hv'⟩

end

theorem foldl_push_entries {G₁ G₂ : Type} (b : Batch G₁ G₂) (p : Proof G₁) (ch : Proof.Challenges)
    (tzy : Fr) :
    (p.entries ch tzy).foldl Batch.push b = { b with
      alphaX := b.alphaX ++ [(p.zyOpening, ch.first), (p.zOpening, ch.second)]
      alpha := b.alpha ++
        [(p.zyOpening, -(ch.z * ch.y * ch.first)), (p.zOpening, -(ch.z * ch.second))]
      full := b.full ++ [(p.t, ch.second)]
      bounded := b.bounded ++ [(p.r, ch.first), (p.r, ch.second * ch.mix)]
      value := b.value + p.rzy * ch.first + tzy * ch.second + p.rz * (ch.second * ch.mix) } := by
  simp [Proof.entries, Proof.productEntries, Proof.mixedEntries, Batch.push]

/-- A new verifier for a circuit with one public input takes every proof that comes with a value. -/
theorem productCircuit_takes_proofs :
    ∃ (srs : ReferenceString (Point Fp) (Point Fp2)) (v : Verifier (Point Fp) (Point Fp2))
      (log : List LogEntry),
      ReferenceString.ofSecrets 2 2 3 = .ok srs ∧
      start srs (productCircuit.atPass 0) [] = .ok v log ∧
      v.Collects productCircuit 2 2 3 [] ∧
      ∀ {oracle : Oracle} {p : Proof (Point Fp)} {ch : Proof.Challenges},
        p.challenges oracle = .ok ch → ∀ input szy : Fr, ∃ v',
          (Call.proof p [input] (some szy)).run oracle v = .ok () v' ∧
          v'.batch = List.foldl Batch.push v.batch
            (p.entries ch
              (p.claimedT szy (productCircuit.outline.shape.publicValue ch.y [input]))) := by
  obtain ⟨srs, hsrs⟩ : ∃ srs : ReferenceString (Point Fp) (Point Fp2),
      ReferenceString.ofSecrets 2 2 3 = .ok srs :=
    ReferenceString.exists_ofSecrets (by decide) (by decide +kernel) 3
  obtain ⟨v, log, hstart, hv⟩ := exists_start (ReferenceString.tables_of_ofSecrets hsrs)
    productCircuit_uniform (by decide +kernel) (by decide +kernel) 0 []
  refine ⟨srs, v, log, hsrs, hstart, hv, fun {oracle p ch} hch input szy => ?_⟩
  have hinputs : [input].length = v.shape.inputs.length - 1 := by
    rw [hv.shape_eq, productCircuit_outline]
    rfl
  rw [← hv.shape_eq]
  exact Call.run_proof_some oracle hv.finalized_eq hv.batch.finalized hinputs hch szy

end Verifier

end SnarkBatch
