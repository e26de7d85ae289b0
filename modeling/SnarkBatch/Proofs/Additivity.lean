import SnarkBatch.Proofs.Transcript
import SnarkBatch.Proofs.Calls
import SnarkBatch.Proofs.Curve.Order
import SnarkBatch.Proofs.Group.Bilinear

/-!
# Batching is additive

What the claims of a call are off by is its `Call.residual`: a function of the call, of the outline
of the circuit and of the secrets, but not of other calls. A verifier accepts a sequence of calls
exactly when their residuals add up to 0 (`Verifier.verdict_eq`), where a call that fails counts for
nothing. So their order is immaterial, calls that are right one by one are right together, and a
single wrong one among them shows.
-/

namespace SnarkBatch

open SourceGroup

namespace Entry

/-- The same entry with other elements. -/
def map {G H : Type} (f : G → H) : Entry G → Entry H
  | opening evidence r z => opening (f evidence) r z
  | value v r => value v r
  | commitment c r => commitment (f c) r
  | bounded c r => bounded (f c) r

theorem isMultiple_map {G F : Type} [SourceGroup G F] [LawfulGroup G] {entry : Entry G}
    (h : ∀ P, entry.element = some P → ∃ k, SourceGroup.IsMultiple P k) :
    entry.IsMultiple (entry.map fun P => scalarAt G (affine P)) := by
  have hscalar : ∀ {P : G}, entry.element = some P →
      SourceGroup.IsMultiple P (scalarAt G (affine P)) := by
    intro P hP
    obtain ⟨k, hk⟩ := h P hP
    rwa [scalarAt_eq hk]
  cases entry with
  | opening evidence r z => exact .opening r z (hscalar rfl)
  | value v r => exact .value v r
  | commitment c r => exact .commitment r (hscalar rfl)
  | bounded c r => exact .bounded r (hscalar rfl)

theorem balance_flatMap {A : Type} (d n : Int) (x alpha : Fr) (f : A → List (Entry Fr)) (as : List A) :
    balance d n x alpha (as.flatMap f) = (as.map fun a => balance d n x alpha (f a)).sum := by
  induction as with
  | nil =>
    simp only [balance, List.flatMap_nil, List.map_nil, List.sum_nil]
    ring
  | cons a as ih => rw [List.flatMap_cons, balance_append, ih, List.map_cons, List.sum_cons]

end Entry

namespace Verifier

namespace Call

/-! ## Residuals -/

variable {G : Type} [SourceGroup G Fp] (oracle : Oracle) (o : Outline)

/-- The claims of a call with the scalars of their elements; none where the call fails. -/
noncomputable def scalars (call : Call G) : List (Entry Fr) :=
  match call.claims oracle o.shape o.evaluate with
  | .ok entries => entries.map (Entry.map fun P => scalarAt G (affine P))
  | .error _ => []

/-- What the claims of a call are off by. -/
noncomputable def residual (d : Int) (x alpha : Fr) (call : Call G) : Fr :=
  Entry.balance d o.gates x alpha (call.scalars oracle o)

/-- Runs a call and goes on where it fails. -/
def attempt {G₂ : Type} (call : Call G) : Action G G₂ Unit :=
  tryCatch (call.run oracle) fun _ => pure ()

theorem attempt_eq {G₂ : Type} (call : Call G) (v : Verifier G G₂) :
    call.attempt oracle v = .ok () (endState (call.run oracle v)) := by
  show EStateM.tryCatch _ _ v = _
  unfold EStateM.tryCatch
  cases call.run oracle v <;> rfl

end Call

/-! ## The verdict on a sequence of calls -/

section

variable {G₁ G₂ F₂ : Type} [SourceGroup G₁ Fp] [SourceGroup G₂ F₂] [LawfulGroup G₁]
  {c : Circuit} {d : Int} {x alpha : Fr} {before : List (Entry Fr)} {v : Verifier G₁ G₂}
  (oracle : Oracle)

theorem Collects.attempt (hv : v.Collects c d x alpha before) (hc : c.Uniform) (hend : c.ending = .ok ())
    {call : Call G₁} (hmembers : ∀ P ∈ call.elements, ∃ k, IsMultiple P k) :
    ∃ v', call.attempt oracle v = .ok () v' ∧
      v'.Collects c d x alpha (before ++ call.scalars oracle c.outline) := by
  rw [Call.attempt_eq]
  unfold Call.scalars
  cases hclaims : call.claims oracle c.outline.shape c.outline.evaluate with
  | error e =>
    obtain ⟨v', hrun, hv'⟩ := hv.run_error oracle hc hend hclaims
    rw [hrun, List.append_nil]
    exact ⟨v', rfl, hv'⟩
  | ok entries =>
    have hwithin := call.claims_within entries hclaims
    have hscalars : List.Forall₂ Entry.IsMultiple entries
        (entries.map (Entry.map fun P => scalarAt G₁ (affine P))) := by
      rw [List.forall₂_map_right_iff, List.forall₂_same]
      intro entry hentry
      exact Entry.isMultiple_map fun P hP => hmembers P (hwithin entry hentry P hP)
    obtain ⟨v', hrun, hv'⟩ := hv.run_ok oracle hc hend hclaims hscalars
    rw [hrun]
    exact ⟨v', rfl, hv'⟩

theorem Collects.forM_attempt (hv : v.Collects c d x alpha before) (hc : c.Uniform)
    (hend : c.ending = .ok ()) {calls : List (Call G₁)}
    (hmembers : ∀ call ∈ calls, ∀ P ∈ call.elements, ∃ k, IsMultiple P k) :
    ∃ v', calls.forM (Call.attempt oracle) v = .ok () v' ∧
      v'.Collects c d x alpha (before ++ calls.flatMap (Call.scalars oracle c.outline)) := by
  induction calls generalizing v before with
  | nil =>
    rw [List.flatMap_nil, List.append_nil]
    exact ⟨v, rfl, hv⟩
  | cons call calls ih =>
    obtain ⟨hhead, htail⟩ := List.forall_mem_cons.1 hmembers
    obtain ⟨v₁, hrun₁, hv₁⟩ := hv.attempt oracle hc hend hhead
    obtain ⟨v₂, hrun₂, hv₂⟩ := ih hv₁ htail
    rw [List.append_assoc, ← List.flatMap_cons] at hv₂
    exact ⟨v₂, (bind_ok hrun₁).trans hrun₂, hv₂⟩

/-- Runs calls one after the other on a new verifier, and then checks. -/
def verdict {T : Type} [Pairing G₁ G₂ T] (srs : ReferenceString G₁ G₂) (circuit : Circuit)
    (calls : List (Call G₁)) : Except Fault Bool :=
  runNew srs circuit do
    calls.forM (Call.attempt oracle)
    check

section

variable [LawfulGroup G₂] {srs : ReferenceString G₁ G₂} (hsrs : srs.Tables d x alpha) (hc : c.Uniform)
  (hend : c.ending = .ok ()) (hgates : c.outline.gates ≤ d) (pass : Nat)
include hsrs hc hend hgates

/-- A call that fails, after whatever other calls, has no residual. -/
theorem residual_eq_zero {before : List (Call G₁)} {call : Call G₁}
    (hmembers : ∀ call ∈ before, ∀ P ∈ call.elements, ∃ k, IsMultiple P k) {f : Fault}
    (hfails : runNew srs (c.atPass pass) (do
      before.forM (Call.attempt oracle)
      call.run oracle) = .error f) :
    call.residual oracle c.outline d x alpha = 0 := by
  obtain ⟨v₀, log, hstart, hv₀⟩ := exists_start hsrs hc hend hgates pass []
  obtain ⟨v₁, hrun, hv₁⟩ := hv₀.forM_attempt oracle hc hend hmembers
  unfold Call.residual Call.scalars
  cases hclaims : call.claims oracle c.outline.shape c.outline.evaluate with
  | error e => simp [Entry.balance]
  | ok entries =>
    exfalso
    rw [← hv₁.shape_eq, ← hv₁.evaluate_eq hc hend] at hclaims
    obtain ⟨v₂, log₂, -, hrun₂⟩ :=
      Call.run_ok oracle hv₁.finalized_eq hv₁.batch.finalized hclaims
    unfold runNew at hfails
    rw [hstart] at hfails
    dsimp only at hfails
    rw [bind_ok hrun, hrun₂] at hfails
    cases hfails

variable {E T : Type} [Pairing G₁ G₂ T] [CommGroupWithZero E] (e : BilinearPairing G₁ G₂ E)
include e

theorem verdict_eq {calls : List (Call G₁)}
    (hmembers : ∀ call ∈ calls, ∀ P ∈ call.elements, ∃ k, IsMultiple P k) :
    verdict oracle srs (c.atPass pass) calls =
      .ok (decide ((calls.map (Call.residual oracle c.outline d x alpha)).sum = 0)) := by
  obtain ⟨v₀, log, hstart, hv₀⟩ := exists_start hsrs hc hend hgates pass []
  obtain ⟨v₁, hrun, hv₁⟩ := hv₀.forM_attempt oracle hc hend hmembers
  obtain ⟨v₂, hcheck⟩ := check_eq e hv₁
  unfold verdict runNew
  rw [hstart]
  dsimp only
  rw [bind_ok hrun, hcheck, List.nil_append, Entry.balance_flatMap]
  rfl

end

end

/-! ## Points on the curve -/

def Call.OnCurve (call : Call (Point Fp)) : Prop :=
  ∀ P ∈ call.elements, P.OnCurve AtePairing.curveConstant

/-- The verdict on calls is one on the sum of quantities that belong to one call each. Fresh
verifiers may start on any pass of the circuit. -/
structure IsAdditive {T : Type} [Pairing (Point Fp) (Point Fp2) T] (oracle : Oracle)
    (srs : ReferenceString (Point Fp) (Point Fp2)) (c : Circuit) (residual : Call (Point Fp) → Fr) :
    Prop where
  verdict_eq : ∀ pass (calls : List (Call (Point Fp))), (∀ call ∈ calls, call.OnCurve) →
    verdict oracle srs (c.atPass pass) calls = .ok (decide ((calls.map residual).sum = 0))
  eq_zero_of_fails : ∀ pass (before : List (Call (Point Fp))) (call : Call (Point Fp)) (f : Fault),
    (∀ call ∈ before, call.OnCurve) →
    runNew srs (c.atPass pass) (do
      before.forM (Call.attempt oracle)
      call.run oracle) = .error f →
    residual call = 0
  perm : ∀ pass pass' (calls calls' : List (Call (Point Fp))), (∀ call ∈ calls, call.OnCurve) →
    calls.Perm calls' →
    verdict oracle srs (c.atPass pass) calls = verdict oracle srs (c.atPass pass') calls'
  accepted : ∀ pass (calls : List (Call (Point Fp))), (∀ call ∈ calls, call.OnCurve) →
    (∀ call ∈ calls, ∃ pass', verdict oracle srs (c.atPass pass') [call] = .ok true) →
    verdict oracle srs (c.atPass pass) calls = .ok true
  rejected : ∀ pass pass' (before after : List (Call (Point Fp))) (bad : Call (Point Fp)),
    (∀ call ∈ before ++ bad :: after, call.OnCurve) →
    (∀ call ∈ before ++ after, ∃ pass', verdict oracle srs (c.atPass pass') [call] = .ok true) →
    verdict oracle srs (c.atPass pass') [bad] ≠ .ok true →
    verdict oracle srs (c.atPass pass) (before ++ bad :: after) = .ok false

section

variable {T : Type} [Pairing (Point Fp) (Point Fp2) T] {oracle : Oracle}
  {srs : ReferenceString (Point Fp) (Point Fp2)} {c : Circuit} {residual : Call (Point Fp) → Fr}

theorem IsAdditive.of_verdict_eq
    (hverdict : ∀ pass (calls : List (Call (Point Fp))), (∀ call ∈ calls, call.OnCurve) →
      verdict oracle srs (c.atPass pass) calls = .ok (decide ((calls.map residual).sum = 0)))
    (hfails : ∀ pass (before : List (Call (Point Fp))) (call : Call (Point Fp)) (f : Fault),
      (∀ call ∈ before, call.OnCurve) →
      runNew srs (c.atPass pass) (do
        before.forM (Call.attempt oracle)
        call.run oracle) = .error f →
      residual call = 0) :
    IsAdditive oracle srs c residual := by
  have halone : ∀ {call : Call (Point Fp)}, call.OnCurve → ∀ pass,
      verdict oracle srs (c.atPass pass) [call] = .ok true ↔ residual call = 0 := by
    intro call hcall pass
    rw [hverdict pass [call] (List.forall_mem_singleton.2 hcall), List.map_singleton,
      List.sum_singleton, Except.ok.injEq, decide_eq_true_iff]
  have hsum : ∀ {calls : List (Call (Point Fp))}, (∀ call ∈ calls, call.OnCurve) →
      (∀ call ∈ calls, ∃ pass', verdict oracle srs (c.atPass pass') [call] = .ok true) →
      (calls.map residual).sum = 0 := by
    intro calls hcurve haccepted
    refine List.sum_eq_zero fun r hr => ?_
    obtain ⟨call, hcall, rfl⟩ := List.mem_map.1 hr
    obtain ⟨pass, hpass⟩ := haccepted call hcall
    exact (halone (hcurve call hcall) pass).1 hpass
  refine ⟨hverdict, hfails, ?_, ?_, ?_⟩
  · intro pass pass' calls calls' hcurve hperm
    rw [hverdict pass calls hcurve,
      hverdict pass' calls' fun call hcall => hcurve call (hperm.mem_iff.2 hcall),
      (hperm.map residual).sum_eq]
  · intro pass calls hcurve haccepted
    rw [hverdict pass calls hcurve, hsum hcurve haccepted]
    rfl
  · intro pass pass' before after bad hcurve haccepted hbad
    have hbad : residual bad ≠ 0 := fun h =>
      hbad ((halone (hcurve bad (List.mem_append_right _ List.mem_cons_self)) pass').2 h)
    have hothers := hsum (fun call hcall => hcurve call <| List.mem_append.2 <|
      (List.mem_append.1 hcall).imp id (List.mem_cons_of_mem bad)) haccepted
    rw [hverdict pass _ hcurve, Except.ok.injEq, decide_eq_false_iff_not]
    rw [List.map_append, List.sum_append] at hothers
    rwa [List.map_append, List.map_cons, List.sum_append, List.sum_cons, add_left_comm, hothers,
      add_zero]

variable {E : Type} [CommGroupWithZero E] (e : BilinearPairing (Point Fp) (Point Fp2) E)
include e

/-- Batching is additive. For a circuit that does the same on every pass and that a verifier can be
made for, every call has a residual of its own, and the verdict on any sequence of calls with points
on the curve is that on the sum of the residuals. -/
theorem residual_isAdditive (oracle : Oracle) (c : Circuit) (hc : c.Uniform) {d : Int} {x alpha : Fr}
    (srs : ReferenceString (Point Fp) (Point Fp2))
    (hsrs : ReferenceString.ofSecrets d x alpha = .ok srs) {pass : Nat} {log log' : List LogEntry}
    {v : Verifier (Point Fp) (Point Fp2)} (hstart : start srs (c.atPass pass) log = .ok v log') :
    IsAdditive oracle srs c (Call.residual oracle c.outline d x alpha) := by
  have htables := ReferenceString.tables_of_ofSecrets hsrs
  obtain ⟨hend, hgates⟩ := ending_of_start htables hc hstart
  refine .of_verdict_eq (fun pass calls hcurve => ?_) fun pass before call f hcurve hfails => ?_
  · exact verdict_eq oracle htables hc hend hgates pass e fun call hcall P hP =>
      exists_isMultiple_of_onCurve (hcurve call hcall P hP)
  · exact residual_eq_zero oracle htables hc hend hgates pass (fun call hcall P hP =>
      exists_isMultiple_of_onCurve (hcurve call hcall P hP)) hfails

end

theorem residual_isAdditive_productCircuit :
    letI := scalarPairing (Point Fp) (Point Fp2)
    ∃ srs : ReferenceString (Point Fp) (Point Fp2), ReferenceString.ofSecrets 2 2 3 = .ok srs ∧
      IsAdditive (.constant 5) srs productCircuit
        (Call.residual (.constant 5) productCircuit.outline 2 2 3) := by
  let := scalarPairing (Point Fp) (Point Fp2)
  obtain ⟨srs, v, log, hsrs, hstart, -⟩ := productCircuit_takes_proofs
  exact ⟨srs, hsrs, residual_isAdditive (scalarPairing_bilinear (Point Fp) (Point Fp2)) (.constant 5)
    productCircuit productCircuit_uniform srs hsrs hstart⟩

end Verifier

end SnarkBatch
