import SnarkBatch.Proofs.Circuit.Inputs
import SnarkBatch.Proofs.Circuit.Progress

/-!
# Where a synthesis is refused

A backend that keeps to an outline refuses the first fault that it finds with it. Here is the place
where that happens: the backend has been told the constraints of the outline up to the first term
that does not belong, and nothing after it (`Synthesis.run_stops`). The place is the same for all
such backends (`RefusedAt.unique`).
-/

namespace SnarkBatch

/-! ## The events of the constraints -/

/-- The event belongs to a linear constraint. -/
def StructuralEvent.isLinear : StructuralEvent → Bool
  | constraint | term .. => true
  | gate | input _ => false

/-- If the event is a term, then it is on a wire of the gates `1, …, n`, with a coefficient that has
a value. -/
def StructuralEvent.InGates (n : Nat) : StructuralEvent → Prop
  | term w c => w.InGates n ∧ c ≠ .full none
  | constraint | gate | input _ => True

theorem LinearCombination.filter_events (lc : LinearCombination) :
    lc.events.filter StructuralEvent.isLinear = lc.events := by
  refine List.filter_eq_self.2 ?_
  simp only [events, List.forall_mem_cons, List.forall_mem_map]
  exact ⟨rfl, fun _ _ => rfl⟩

namespace Outline

/-- What a backend is told about the constraints. -/
def events (o : Outline) : List StructuralEvent := o.constraints.flatMap LinearCombination.events

theorem events_addConstraint (o : Outline) (lc : LinearCombination) :
    (o.addConstraint lc).events = o.events ++ lc.events := by
  simp only [events, addConstraint, List.flatMap_append, List.flatMap_singleton]

theorem inGates_iff_events {o : Outline} {n : Nat} : o.InGates n ↔ ∀ e ∈ o.events, e.InGates n := by
  simp only [InGates, events, List.forall_mem_flatMap, LinearCombination.events,
    List.forall_mem_cons, List.forall_mem_map, StructuralEvent.InGates, true_and]

end Outline

/-! ## Noting the structure beside a backend -/

section

variable {β γ ι : Type} {k : Backend β ι} {l : Backend γ ι} {π : β → γ}

theorem Backend.Maps.openWith (h : k.Maps l π) (lc : LinearCombination) (b : β) :
    l.openWith lc (π b) = mapEnd π (k.openWith lc b) := by
  have hterms : ∀ (index : ι) (terms : List (Wire × Coeff)) (b : β),
      (terms.forM fun term => l.insertTerm term.1 term.2 index) (π b) =
        mapEnd π ((terms.forM fun term => k.insertTerm term.1 term.2 index) b) := by
    intro index terms
    induction terms with
    | nil => exact fun b => rfl
    | cons term terms ih => exact mapEnd_bind (h.insertTerm term.1 term.2 index) fun _ => ih
  exact mapEnd_bind h.newConstraint (fun index => hterms index lc.terms) b

variable {R : Outline → β → Prop} {fault : Outline → Option Fault}

theorem Backend.Tracks.traced_openWith (hk : k.Tracks R fault) {o : Outline} {b : β}
    {lc : LinearCombination} (hR : R o b) (hfault : fault (o.addConstraint lc) = none)
    (trace : List StructuralEvent) :
    ∃ b', k.traced.openWith lc (b, trace) = .ok () (b', trace ++ lc.events) ∧
      R (o.addConstraint lc) b' := by
  obtain ⟨b', hrun, hR'⟩ := hk.openWith lc hR hfault
  have hmap := k.traced_maps.openWith lc (b, trace)
  cases htraced : k.traced.openWith lc (b, trace) with
  | ok _ s =>
    rw [htraced, hrun] at hmap
    have htrace := (Tells.openWith k lc).ok htraced
    cases hmap
    exact ⟨s.1, congrArg (EStateM.Result.ok ()) (Prod.ext rfl htrace), hR'⟩
  | error e s =>
    rw [htraced, hrun] at hmap
    cases hmap

theorem Backend.Tracks.traced_refuses (hk : k.Tracks R fault) {o : Outline} {b : β} {e : Fault}
    {lc : LinearCombination} (hR : R o b) (hnone : fault o = none)
    (hfault : fault (o.addConstraint lc) = some e) (trace : List StructuralEvent) :
    ∃ s, k.traced.openWith lc (b, trace) = .error e s := by
  obtain ⟨b', hrun⟩ := hk.refuses lc hR hnone hfault
  have hmap := k.traced_maps.openWith lc (b, trace)
  rw [hrun] at hmap
  cases htraced : k.traced.openWith lc (b, trace) with
  | ok _ s =>
    rw [htraced] at hmap
    cases hmap
  | error e' s =>
    rw [htraced] at hmap
    cases hmap
    exact ⟨s, rfl⟩

/-- The state of a backend belongs to an outline, and so do the notes beside it. -/
structure Outline.Noted (R : Outline → β → Prop) (o : Outline) (s : β × List StructuralEvent) :
    Prop where
  state : R o s.1
  trace_eq : s.2.filter StructuralEvent.isLinear = o.events

theorem Backend.Tracks.traced (hk : k.Tracks R fault) : k.traced.Tracks (Outline.Noted R) fault where
  wants_eq := hk.wants_eq
  setValue_eq w v s := Prod.ext (hk.setValue_eq w v s.1) rfl
  getValue_eq w s := by
    show ((k.getValue w s.1).1, (k.getValue w s.1).2, s.2) = (none, s)
    rw [hk.getValue_eq]
  newGate h :=
    ⟨hk.newGate h.state, (List.filter_append ..).trans ((List.append_nil _).trans h.trace_eq)⟩
  newInput i h :=
    ⟨hk.newInput i h.state, (List.filter_append ..).trans ((List.append_nil _).trans h.trace_eq)⟩
  openWith {o s} lc h hfault := by
    obtain ⟨b', hrun, hR⟩ := hk.traced_openWith h.state hfault s.2
    refine ⟨_, hrun, hR, ?_⟩
    rw [List.filter_append, h.trace_eq, lc.filter_events, o.events_addConstraint]
  refuses lc h hnone hfault := hk.traced_refuses h.state hnone hfault _
  fault_addGate := hk.fault_addGate
  fault_addInput := hk.fault_addInput
  fault_addConstraint := hk.fault_addConstraint

/-- The first term that brings a fault is the last that is noted. -/
theorem Backend.Tracks.openWith_stops (hk : k.Tracks R fault) {o : Outline} {b : β} {e : Fault}
    {done : List (Wire × Coeff)} {term : Wire × Coeff} (hR : R o b)
    (hdone : fault (o.addConstraint ⟨done⟩) = none)
    (hterm : fault (o.addConstraint ⟨done ++ [term]⟩) = some e) (rest : List (Wire × Coeff))
    (trace : List StructuralEvent) :
    ∃ b', k.traced.openWith ⟨done ++ term :: rest⟩ (b, trace) =
      .error e (b', trace ++ LinearCombination.events ⟨done⟩ ++ [.term term.1 term.2]) := by
  have hnone : fault o = none := by
    cases h : fault o with
    | none => rfl
    | some e' =>
      exact absurd ((hk.fault_addConstraint ⟨done⟩ h).symm.trans hdone) (Option.some_ne_none _)
  obtain ⟨b₁, hopen, -⟩ := hk.traced_openWith hR hdone trace
  obtain ⟨s, hrefused⟩ := hk.traced_refuses hR hnone hterm trace
  obtain ⟨index, s₀, hnew, hinserted⟩ := exists_of_run_ok hopen
  -- The terms before the bad one run as they do without it.
  have hrun : ∀ terms, k.traced.openWith ⟨done ++ term :: terms⟩ (b, trace) =
      (term :: terms).forM (fun term => k.traced.insertTerm term.1 term.2 index)
        (b₁, trace ++ LinearCombination.events ⟨done⟩) := by
    intro terms
    have happend : (done ++ term :: terms).forM
        (fun term => k.traced.insertTerm term.1 term.2 index) =
        (done.forM (fun term => k.traced.insertTerm term.1 term.2 index) >>= fun _ =>
          (term :: terms).forM fun term => k.traced.insertTerm term.1 term.2 index) :=
      List.forM_append
    exact (bind_ok hnew).trans ((congrFun happend s₀).trans (bind_ok hinserted))
  rw [hrun] at hrefused ⊢
  have hinsert : k.traced.insertTerm term.1 term.2 index
      (b₁, trace ++ LinearCombination.events ⟨done⟩) =
      mapEnd (·, trace ++ LinearCombination.events ⟨done⟩ ++ [.term term.1 term.2])
        (k.insertTerm term.1 term.2 index b₁) := rfl
  cases h : k.insertTerm term.1 term.2 index b₁ with
  | ok _ b' =>
    rw [h] at hinsert
    cases (bind_ok hinsert).symm.trans hrefused
  | error e' b' =>
    rw [h] at hinsert
    cases (bind_error hinsert).symm.trans hrefused
    exact ⟨b', bind_error hinsert⟩

end

/-! ## The first fault -/

/-- The trace has what the outline says about the constraints, up to the first term that is not on
the gates `1, …, n` or has no value. That term, which brings the fault, is the last event. -/
structure Outline.RefusedAt (o : Outline) (free : Axis) (n : Nat) (e : Fault)
    (told : List StructuralEvent) (term : Wire × Coeff) (trace : List StructuralEvent) : Prop where
  prefix_events : told ++ [.term term.1 term.2] <+: o.events
  inGates : ∀ event ∈ told, event.InGates n
  fault_eq : termFault free n term = some e
  trace_eq : trace.filter StructuralEvent.isLinear = told ++ [.term term.1 term.2]
  last_eq : trace.getLast? = some (.term term.1 term.2)

theorem Outline.events_mono {o o' : Outline} (h : o.constraints <+: o'.constraints) :
    o.events <+: o'.events := by
  obtain ⟨more, hmore⟩ := h
  rw [events, events, ← hmore, List.flatMap_append]
  exact List.prefix_append _ _

namespace Outline.RefusedAt

variable {o o' : Outline} {free free' : Axis} {n : Nat} {e e' : Fault}
  {told told' trace trace' : List StructuralEvent} {term term' : Wire × Coeff}

theorem mono (h : o.RefusedAt free n e told term trace) (ho : o.events <+: o'.events) :
    o'.RefusedAt free n e told term trace :=
  ⟨h.prefix_events.trans ho, h.inGates, h.fault_eq, h.trace_eq, h.last_eq⟩

theorem not_inGates (h : o.RefusedAt free n e told term trace) :
    ¬ (StructuralEvent.term term.1 term.2).InGates n := by
  intro hterm
  have hnone : termFault free n term = none := termFault_eq_none_iff.2 hterm
  exact Option.some_ne_none e (h.fault_eq.symm.trans hnone)

theorem unique (h : o.RefusedAt free n e told term trace)
    (h' : o.RefusedAt free' n e' told' term' trace') : told = told' ∧ term = term' := by
  have hends : told ++ [.term term.1 term.2] = told' ++ [.term term'.1 term'.2] := by
    rcases List.prefix_or_prefix_of_prefix h.prefix_events h'.prefix_events with hpre | hpre
    · refine (List.prefix_concat_iff.1 hpre).resolve_right fun hpre => h.not_inGates ?_
      exact h'.inGates _ (hpre.mem (List.mem_append_right _ (List.mem_singleton_self _)))
    · refine ((List.prefix_concat_iff.1 hpre).resolve_right fun hpre => h'.not_inGates ?_).symm
      exact h.inGates _ (hpre.mem (List.mem_append_right _ (List.mem_singleton_self _)))
  obtain ⟨htold, hterm⟩ := List.append_inj' hends rfl
  obtain ⟨hw, hc⟩ := StructuralEvent.term.inj (List.singleton_inj.1 hterm)
  exact ⟨htold, Prod.ext hw hc⟩

end Outline.RefusedAt

namespace Synthesis

theorem forM_grows (ops : List Op) (t : Synthesis Outline) :
    t.backend.constraints <+:
      (endState (ops.forM (step Outline.collector) t)).backend.constraints := by
  have hstable : Stable fun _ o => t.backend.constraints <+: o.constraints :=
    ⟨fun h => h, fun _ h => h.trans (List.prefix_append _ _),
      fun _ h => h.trans (List.prefix_append _ _)⟩
  exact Keeps.parametric.listForM (g := step Outline.collector) (keeps_step hstable) ops t
    List.prefix_rfl

section

variable {β ι : Type} {k : Backend β ι} {R : Outline → β → Prop} {fault : Outline → Option Fault}
  {free : Axis} {n q : Nat} (hk : k.Tracks R fault)
  (hfault : ∀ o : Outline, o.constraints.length ≤ q → fault o = o.fault free n)
include hk hfault

theorem enforce_stops {t : Synthesis Outline} {c : Circuit} {b : β × List StructuralEvent}
    {lc : LinearCombination} {e : Fault} (hnoted : t.backend.Noted R b)
    (hnone : t.backend.fault free n = none) (hq : t.backend.constraints.length < q)
    (hsome : (t.backend.addConstraint lc).fault free n = some e) :
    ∃ s, enforce k.traced lc (t.on c b) = .error e s ∧
      ∃ told term, (t.backend.addConstraint lc).RefusedAt free n e told term s.backend.2 := by
  rw [Outline.fault_addConstraint, hnone, Option.none_or] at hsome
  obtain ⟨done, term, rest, hterms, hterm, hdone⟩ := List.findSome?_eq_some_iff.1 hsome
  obtain rfl : lc = ⟨done ++ term :: rest⟩ := congrArg LinearCombination.mk hterms
  have hlength : ∀ lc, (t.backend.addConstraint lc).constraints.length ≤ q := fun lc => by
    rw [t.backend.length_addConstraint]
    exact hq
  have hnone' : fault (t.backend.addConstraint ⟨done⟩) = none := by
    rw [hfault _ (hlength _), Outline.fault_addConstraint, hnone, Option.none_or]
    exact List.findSome?_eq_none_iff.2 hdone
  have hsome' : fault (t.backend.addConstraint ⟨done ++ [term]⟩) = some e := by
    rw [hfault _ (hlength _), Outline.fault_addConstraint, hnone, Option.none_or,
      List.findSome?_append, List.findSome?_eq_none_iff.2 hdone, Option.none_or,
      List.findSome?_singleton, hterm]
  obtain ⟨b', hrun⟩ := hk.openWith_stops hnoted.state hnone' hsome' rest b.2
  have hevents : (t.backend.addConstraint ⟨done ++ term :: rest⟩).events =
      t.backend.events ++ LinearCombination.events ⟨done⟩ ++ [.term term.1 term.2] ++
        rest.map fun term => .term term.1 term.2 := by
    simp only [Outline.events_addConstraint, LinearCombination.events, List.map_append,
      List.map_cons, List.append_assoc, List.cons_append, List.nil_append]
  have hrefused : (t.backend.addConstraint ⟨done ++ term :: rest⟩).RefusedAt free n e
      (t.backend.events ++ LinearCombination.events ⟨done⟩) term
      (b.2 ++ LinearCombination.events ⟨done⟩ ++ [.term term.1 term.2]) := by
    refine ⟨⟨_, hevents.symm⟩, ?_, hterm, ?_, List.getLast?_concat⟩
    · rw [← t.backend.events_addConstraint, ← Outline.inGates_iff_events, ← Outline.fault_eq_none_iff,
        ← hfault _ (hlength _)]
      exact hnone'
    · rw [List.filter_append, List.filter_append, hnoted.trace_eq, LinearCombination.filter_events]
      rfl
  refine ⟨{ t.on c (b', _) with constraints := t.constraints + 1 }, ?_, _, _, hrefused⟩
  rw [enforce_eq]
  refine (modify_bind _ _ _).trans ?_
  simp only [onBackend, on, hrun]

/-- The operation that brings the first fault is refused with it, in the middle of its constraint. -/
theorem step_stops {op : Op} {t t' : Synthesis Outline} {c : Circuit}
    {b : β × List StructuralEvent} {e : Fault} (h : step Outline.collector op t = .ok () t')
    (hnoted : t.backend.Noted R b) (hnone : t.backend.fault free n = none)
    (hq : t'.backend.constraints.length ≤ q) (hsome : t'.backend.fault free n = some e) :
    ∃ s, step k.traced op (t.on c b) = .error e s ∧
      ∃ told term, t'.backend.RefusedAt free n e told term s.backend.2 := by
  have hsame : t'.backend.constraints ≠ t.backend.constraints := by
    intro hconstraints
    rw [Outline.fault, hconstraints, ← Outline.fault, hnone] at hsome
    exact Option.some_ne_none e hsome.symm
  cases op with
  | alloc value =>
    obtain ⟨w, t₁, halloc, rfl⟩ := exists_of_step_alloc h
    exact absurd (alloc_constraints halloc) hsame
  | input value =>
    obtain ⟨w, t₁, halloc, rfl⟩ := exists_of_step_input h
    have hconstraints := alloc_constraints halloc
    have hnone₁ : t₁.backend.fault free n = none := by
      rw [Outline.fault, hconstraints]
      exact hnone
    have hq₁ : t₁.backend.constraints.length < q :=
      Nat.lt_of_succ_le ((t₁.backend.length_addConstraint _).ge.trans hq)
    have hrun := (simulates_alloc hk.traced (eval k.traced value) (eval Outline.collector value)).run
      t c b hnoted
    rw [halloc] at hrun
    obtain ⟨b₁, halloc', hnoted₁⟩ := hrun ((hfault _ hq₁.le).trans hnone₁)
    obtain ⟨s, henforce, told, term, hrefused⟩ :=
      enforce_stops hk hfault (c := c) hnoted₁ hnone₁ hq₁ hsome
    exact ⟨s, bind_error ((bind_ok halloc').trans (bind_error henforce)), told, term,
      hrefused.mono List.prefix_rfl⟩
  | multiply values =>
    obtain rfl : _ = t' := (EStateM.Result.ok.inj h).2
    exact absurd rfl hsame
  | enforce terms =>
    obtain ⟨lc, hterms, henforce⟩ := exists_of_step_enforce h
    rw [enforce_collector] at henforce
    cases henforce
    have hq' : t.backend.constraints.length < q :=
      Nat.lt_of_succ_le ((t.backend.length_addConstraint lc).ge.trans hq)
    have hparametric : Parametric fun {α} (x : Build (β × List StructuralEvent) α) y =>
        Simulates (Outline.Noted R) fault x y := Simulates.parametric
    have hrun := (hparametric.foldlM hparametric.addTerm terms .empty).run t c b hnoted
    rw [hterms] at hrun
    obtain ⟨b₁, hterms', hnoted₁⟩ := hrun ((hfault _ hq'.le).trans hnone)
    obtain ⟨s, henforce', hrefused⟩ := enforce_stops hk hfault (c := c) hnoted₁ hnone hq' hsome
    exact ⟨s, (bind_ok hterms').trans henforce', hrefused⟩
  | read ref => exact absurd h (step_read_collector ref t t')
  | fail kind message => cases h

theorem forM_stops {ops : List Op} {t t' : Synthesis Outline} {c : Circuit}
    {b : β × List StructuralEvent} {e : Fault} (h : ops.forM (step Outline.collector) t = .ok () t')
    (hnoted : t.backend.Noted R b) (hnone : t.backend.fault free n = none)
    (hq : t'.backend.constraints.length ≤ q) (hsome : t'.backend.fault free n = some e) :
    ∃ s, ops.forM (step k.traced) (t.on c b) = .error e s ∧
      ∃ told term, t'.backend.RefusedAt free n e told term s.backend.2 := by
  induction ops generalizing t b with
  | nil =>
    cases h
    exact absurd (hnone.symm.trans hsome) (Option.some_ne_none e).symm
  | cons op ops ih =>
    obtain ⟨_, t₁, hstep, hrest⟩ := exists_of_run_ok h
    have hgrows := forM_grows ops t₁
    rw [hrest] at hgrows
    have hq₁ := hgrows.length_le.trans hq
    cases hfirst : t₁.backend.fault free n with
    | none =>
      have hrun := (simulates_step hk.traced op).run t c b hnoted
      rw [hstep] at hrun
      obtain ⟨b₁, hstep', hnoted₁⟩ := hrun ((hfault _ hq₁).trans hfirst)
      obtain ⟨s, hs, hrefused⟩ := ih hrest hnoted₁ hfirst
      exact ⟨s, (bind_ok hstep').trans hs, hrefused⟩
    | some e' =>
      obtain rfl : e' = e := Option.some.inj ((hgrows.findSome?_eq_some hfirst).symm.trans hsome)
      obtain ⟨s, hs, told, term, hrefused⟩ :=
        step_stops hk hfault (c := c) hstep hnoted hnone hq₁ hfirst
      exact ⟨s, bind_error hs, told, term, hrefused.mono (Outline.events_mono hgrows)⟩

/-- A pass that the collector finishes is refused at the first fault of its outline. -/
theorem run_stops {c : Circuit} {b : β} {e : Fault} (hend : c.ending = .ok ()) (hR : R .empty b)
    (hn : 1 ≤ n) (hq : c.outline.constraints.length ≤ q) (hsome : c.outline.fault free n = some e) :
    outcome (run k c b) = .error e ∧
      ∃ told term, c.outline.RefusedAt free n e told term (c.trace k b) := by
  obtain ⟨script, t, hcurrent, -, hrun, houtline⟩ := exists_of_ending hend
  rw [houtline] at hq hsome ⊢
  have hfirst : (beforeScript c).backend.fault free n = none := by
    refine Outline.fault_eq_none_iff.2 ?_
    simp only [Outline.InGates, beforeScript, List.forall_mem_singleton]
    exact ⟨⟨.inl rfl, le_rfl, Int.ofNat_le.2 hn⟩, by simp⟩
  have hgrows := forM_grows script.unroll (beforeScript c.advance)
  rw [hrun] at hgrows
  have hinput := (simulates_allocInput hk.traced (Pure.pure 1) (Pure.pure 1)).run (start c .empty)
    c (b, []) ⟨hR, rfl⟩
  rw [allocInput_start] at hinput
  obtain ⟨b₁, hstart, hnoted⟩ := hinput ((hfault _ (hgrows.length_le.trans hq)).trans hfirst)
  obtain ⟨s, hs, hrefused⟩ := forM_stops hk hfault (c := c.advance) hrun hnoted hfirst hq hsome
  rw [← Script.forM_eq_unroll_forM] at hs
  have hstopped : run k.traced c (b, []) = .error e s :=
    (bind_ok hstart).trans ((bind_ok (takePass_some hcurrent)).trans hs)
  rw [run_traced, outcome_mapEnd, Circuit.trace, hstopped]
  exact ⟨rfl, hrefused⟩

end

end Synthesis

end SnarkBatch
