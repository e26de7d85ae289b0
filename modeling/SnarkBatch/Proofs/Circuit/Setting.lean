import SnarkBatch.Proofs.Circuit.Evaluation
import SnarkBatch.Proofs.Circuit.Origins

/-!
# A recorder sets the wires of a circuit

`Synthesis.Sets` says of a computation that it sets given wires on a recorder, each to the value of
its origin, and if it fails the first of them. It goes through sequences (`Synthesis.Sets.bind`), so
that an operation sets what `Progress.origins` says (`Synthesis.sets_step`), and a synthesis what
`Circuit.origins` says, as far as it comes (`Synthesis.sets_upTo`).
-/

namespace SnarkBatch.Synthesis

variable {cfg : Recorder} {α α' : Type}

/-! ## Setting wires -/

/-- After the wires of `done`, the computation sets those of `new`, with `Q` at its end, or the first
of them if it fails. -/
def Sets (cfg : Recorder) (done new : List (Wire × Origin)) (Q : α → Synthesis Recording → Prop)
    (x : Build Recording α) (s : Synthesis Recording) : Prop :=
  match x s with
  | .ok a t => Recorded cfg (done ++ new) t.backend ∧ Q a t
  | .error _ t => ∃ part, part <+: new ∧ Recorded cfg (done ++ part) t.backend

/-- Of all wires, only `w` has got a value or remained without one. -/
structure Stores (w : Wire) (v : Option Fr) (s t : Synthesis Recording) : Prop where
  lookup_self : t.backend.lookup w = v
  lookup_ne : ∀ w', w' ≠ w → t.backend.lookup w' = s.backend.lookup w'
  wires_eq : t.wires = s.wires

namespace Stores

variable {w w' : Wire} {v : Option Fr} {s s₁ t : Synthesis Recording}

theorem visible_ne (h : Stores w v s t) (hne : w' ≠ w) :
    t.backend.visible cfg w' = s.backend.visible cfg w' := by
  rw [Recording.visible, Recording.visible, h.lookup_ne w' hne]

theorem mono (h : Stores w v s t) (hfresh : s.backend.lookup w = none) :
    s.backend.Extends t.backend := by
  intro w' v' hv'
  by_cases hne : w' = w
  · rw [hne, hfresh] at hv'
    cases hv'
  · rw [h.lookup_ne w' hne, hv']

theorem of_noneSet (h : Stores w v s₁ t) (hs : NoneSet s s₁) : Stores w v s t :=
  ⟨h.lookup_self, fun w' hne => (h.lookup_ne w' hne).trans (Recording.lookup_congr hs.values_eq w'),
    h.wires_eq.trans hs.wires_eq⟩

end Stores

namespace Sets

variable {done new more : List (Wire × Origin)} {s : Synthesis Recording}
  {Q : α → Synthesis Recording → Prop}

theorem bind {x : Build Recording α} {f : α → Build Recording α'}
    {Q' : α' → Synthesis Recording → Prop} (hx : Sets cfg done new Q x s)
    (hf : ∀ a t, Q a t → Recorded cfg (done ++ new) t.backend →
      Sets cfg (done ++ new) more Q' (f a) t) :
    Sets cfg done (new ++ more) Q' (x >>= f) s := by
  unfold Sets at hx
  cases h : x s with
  | error e t =>
    rw [h] at hx
    obtain ⟨part, hpart, hrecorded⟩ := hx
    rw [Sets, bind_error h]
    exact ⟨part, hpart.trans (List.prefix_append _ _), hrecorded⟩
  | ok a t =>
    rw [h] at hx
    have hrest := hf a t hx.2 hx.1
    unfold Sets at hrest
    rw [Sets, bind_ok h]
    cases h' : f a t with
    | ok b u =>
      rw [h'] at hrest
      exact ⟨List.append_assoc done new more ▸ hrest.1, hrest.2⟩
    | error e u =>
      rw [h'] at hrest
      obtain ⟨part, hpart, hrecorded⟩ := hrest
      exact ⟨new ++ part, (List.prefix_append_right_inj new).2 hpart,
        List.append_assoc done new part ▸ hrecorded⟩

theorem of_nothing {x : Build Recording α} (hx : SetsNothing x) (hs : Recorded cfg done s.backend) :
    Sets cfg done [] (fun a t => NoneSet s t ∧ x s = .ok a t) x s := by
  have hend := hx s
  unfold Sets
  cases h : x s with
  | ok a t =>
    rw [h] at hend
    exact ⟨(List.append_nil done).symm ▸ hend.recorded hs, hend, rfl⟩
  | error e t =>
    rw [h] at hend
    exact ⟨[], List.prefix_refl _, (List.append_nil done).symm ▸ hend.recorded hs⟩

theorem with_run {x : Build Recording α} (h : Sets cfg done new Q x s) :
    Sets cfg done new (fun a t => Q a t ∧ x s = .ok a t) x s := by
  unfold Sets at h ⊢
  cases hrun : x s with
  | ok a t =>
    rw [hrun] at h
    exact ⟨h.1, h.2, rfl⟩
  | error e t =>
    rw [hrun] at h
    exact h

theorem imp {x : Build Recording α} {Q' : α → Synthesis Recording → Prop}
    (h : Sets cfg done new Q x s) (hQ : ∀ a t, Q a t → Q' a t) : Sets cfg done new Q' x s := by
  unfold Sets at h ⊢
  cases hrun : x s with
  | ok a t =>
    rw [hrun] at h
    exact ⟨h.1, hQ a t h.2⟩
  | error e t =>
    rw [hrun] at h
    exact h

theorem bind_nil {x : Build Recording α} {f : α → Build Recording α'}
    {Q' : α' → Synthesis Recording → Prop} (h : Sets cfg done new Q x s)
    (hf : ∀ a t, Q a t → Recorded cfg (done ++ new) t.backend →
      Sets cfg (done ++ new) [] Q' (f a) t) :
    Sets cfg done new Q' (x >>= f) s := by
  have hall := h.bind hf
  rwa [List.append_nil] at hall

theorem map {x : Build Recording α} {f : α → α'} {Q' : α' → Synthesis Recording → Prop}
    (h : Sets cfg done new Q x s) (hQ : ∀ a t, Q a t → Q' (f a) t) :
    Sets cfg done new Q' (x >>= fun a => Pure.pure (f a)) s :=
  h.bind_nil fun a t ha ht => ⟨(List.append_nil (done ++ new)).symm ▸ ht, hQ a t ha⟩

theorem followed {x : Build Recording α} {f : α → Build Recording α'} (h : Sets cfg done new Q x s)
    (hf : ∀ a, SetsNothing (f a)) : Sets cfg done new (fun _ _ => True) (x >>= f) s :=
  h.bind_nil fun a _ _ ht => (of_nothing (hf a) ht).imp fun _ _ _ => trivial

end Sets

/-! ## The operations -/

section

variable {β ι : Type} {k : Backend β ι} {value : Build β Fr} {s : Synthesis β}

theorem alloc_closing {gate : Nat} (h : s.pending = some gate) :
    alloc k value s = closeHalf k gate value s := by
  simp only [alloc, get_bind, h]

theorem alloc_opening (h : s.pending = none) : alloc k value s = openHalf k value s := by
  simp only [alloc, get_bind, h]

end

section

variable {done : List (Wire × Origin)} {s : Synthesis Recording}

theorem sets_store {w : Wire} {o : Origin} {v : Fr} (hs : Recorded cfg done s.backend)
    (hkind : w.kind ∈ cfg.evaluated) (hfresh : s.backend.lookup w = none)
    (hv : o.valueIn cfg s.backend = some v) :
    Sets cfg done [(w, o)] (fun _ t => Stores w (some v) s t)
      (setValue cfg.backend w (some v)) s :=
  ⟨hs.set hkind hv hfresh, Recording.lookup_set_self,
    fun _ hne => Recording.lookup_set_of_ne (r := s.backend) hne.symm (some v), rfl⟩

theorem sets_skip {w : Wire} (o : Origin) (hs : Recorded cfg done s.backend)
    (hkind : w.kind ∉ cfg.evaluated) (hfresh : s.backend.lookup w = none) :
    Sets cfg done [(w, o)] (fun _ t => Stores w none s t) (setValue cfg.backend w none) s := by
  have hvalues : (s.backend.add (.set w none)).values = s.backend.values := Recording.values_add rfl
  exact ⟨hs.unset o hkind, (Recording.lookup_congr hvalues w).trans hfresh,
    fun w' _ => Recording.lookup_congr hvalues w', rfl⟩

theorem sets_assign {w : Wire} {o : Origin} {value : Build Recording Fr}
    (hs : Recorded cfg done s.backend) (hfresh : s.backend.lookup w = none)
    (hvalue : SetsNothing value)
    (horigin : ∀ v t, value s = .ok v t → o.valueIn cfg s.backend = some v) :
    Sets cfg done [(w, o)] (fun v t => Stores w v s t) (assign cfg.backend w value) s := by
  rw [assign]
  split
  · rename_i hwants
    refine (Sets.of_nothing hvalue hs).bind fun v s₁ hend hrecorded => ?_
    obtain ⟨hs₁, hrun⟩ := hend
    have hlookup := Recording.lookup_congr hs₁.values_eq w
    have hv := (Origin.valueIn_congr hs₁.values_eq o).trans (horigin v s₁ hrun)
    exact (sets_store hrecorded (Recorder.wants_iff.1 hwants) (hlookup.trans hfresh) hv).map
      fun _ t ht => ht.of_noneSet hs₁
  · rename_i hwants
    exact (sets_skip o hs (fun h => hwants (Recorder.wants_iff.2 h)) hfresh).map
      fun _ t ht => ht

variable {value : Build Recording Fr} {e : Expr}
  (hvalue : Computes cfg value fun wires read => e.valueAt wires read)
include hvalue

theorem Computes.valueAt_eq {t : Synthesis Recording} {v : Fr} (h : value s = .ok v t) :
    e.valueAt s.wires.toList (s.backend.visible cfg) = some v := by
  rw [← hvalue.toOption_eq, h]
  rfl

theorem sets_openHalf (hs : Recorded cfg done s.backend)
    (ha : s.backend.lookup ⟨.a, s.gates + 1⟩ = none) :
    Sets cfg done [(⟨.a, s.gates + 1⟩, .expression e s.wires.toList)] (fun _ _ => True)
      (openHalf cfg.backend value) s := by
  refine (Sets.of_nothing SetsNothing.newGate hs).bind fun gate s₁ hend hrecorded => ?_
  obtain ⟨hs₁, hgate⟩ := hend
  obtain rfl : s.gates + 1 = gate := by
    cases hgate
    rfl
  refine (sets_assign (o := .expression e s.wires.toList) hrecorded ?_ hvalue.setsNothing
    fun v t h => ?_).followed fun _ => .bind (fun _ => .of_backend rfl rfl) fun _ => .pure _
  · exact (Recording.lookup_congr hs₁.values_eq _).trans ha
  · have hvalueAt := hvalue.valueAt_eq h
    rwa [hs₁.wires_eq] at hvalueAt

theorem sets_closeHalf {gate : Nat} (hs : Recorded cfg done s.backend)
    (hb : s.backend.lookup ⟨.b, gate⟩ = none) (hc : s.backend.lookup ⟨.c, gate⟩ = none) :
    Sets cfg done
      [(⟨.b, gate⟩, .expression e s.wires.toList), (⟨.c, gate⟩, .product gate)]
      (fun _ _ => True) (closeHalf cfg.backend gate value) s := by
  have hab : (⟨.a, gate⟩ : Wire) ≠ ⟨.b, gate⟩ := by simp
  have hcb : (⟨.c, gate⟩ : Wire) ≠ ⟨.b, gate⟩ := by simp
  refine (Sets.of_nothing (SetsNothing.getValue ⟨.a, gate⟩) hs).bind
    fun left s₁ hend hrecorded₁ => ?_
  obtain ⟨hs₁, hget⟩ := hend
  have hleft : s₁.backend.visible cfg ⟨.a, gate⟩ = left := by
    rw [Recording.visible_congr hs₁.values_eq]
    cases hget
    rfl
  have hfresh : ∀ {w}, s.backend.lookup w = none → s₁.backend.lookup w = none := fun hw =>
    (Recording.lookup_congr hs₁.values_eq _).trans hw
  refine (sets_assign (o := .expression e s.wires.toList) hrecorded₁ (hfresh hb) ?_ ?_).bind
    fun right s₂ hright hrecorded₂ => ?_
  · refine .bind hvalue.setsNothing fun v => ?_
    dsimp only
    split
    · exact .bind (.throw _) fun _ => .pure v
    · exact .pure v
  · intro v t h
    obtain ⟨v', t', hv', h⟩ := exists_of_run_ok h
    have hvalueAt := hvalue.valueAt_eq hv'
    rw [hs₁.wires_eq] at hvalueAt
    dsimp only at h
    split at h
    · cases h
    · cases h
      exact hvalueAt
  -- The left factor was read before the second wire got its value, which is another wire.
  refine (sets_assign hrecorded₂ ?_ ?_ fun v t h => ?_).followed fun _ =>
    .bind (fun _ => .of_backend rfl rfl) fun _ => .pure _
  · exact (hright.lookup_ne _ hcb).trans (hfresh hc)
  · split
    · exact .pure _
    · exact .throw _
  · split at h
    · rename_i l r
      cases h
      rw [Origin.valueIn, hright.visible_ne hab, hleft, hright.lookup_self]
      rfl
    · cases h

end

section

variable {done : List (Wire × Origin)} {s : Synthesis Recording}

/-- A component of the list of values, if there is one, is what its origin says. -/
theorem valueIn_component {values : GateValues} {wires : List Wire} {vs : Option (List Fr)}
    (hvs : ∀ l, vs = some l → values.valuesAt wires (s.backend.visible cfg) = some l) {w : Wire}
    {i : Nat} {v : Fr} {t : Synthesis Recording} (h : component w vs i s = .ok v t) :
    (Origin.component values i wires).valueIn cfg s.backend = some v := by
  cases vs with
  | none => cases h
  | some l =>
    rw [Origin.valueIn, hvs l rfl, Option.bind_some]
    cases hget : l[i]? with
    | none =>
      simp only [component, hget] at h
      cases h
    | some v' =>
      simp only [component, hget] at h
      cases h
      rfl

theorem sets_components {values : GateValues} {wires : List Wire} {vs : Option (List Fr)}
    (hs : Recorded cfg done s.backend)
    (hvs : ∀ l, vs = some l → values.valuesAt wires (s.backend.visible cfg) = some l) {gate : Nat}
    (hb : s.backend.lookup ⟨.b, gate⟩ = none) (hc : s.backend.lookup ⟨.c, gate⟩ = none) :
    Sets cfg done
      [(⟨.b, gate⟩, .component values 1 wires), (⟨.c, gate⟩, .component values 2 wires)]
      (fun _ _ => True)
      (do
        let _ ← assign cfg.backend ⟨.b, gate⟩ (component ⟨.b, gate⟩ vs 1)
        let _ ← assign cfg.backend ⟨.c, gate⟩ (component ⟨.c, gate⟩ vs 2)
        modify fun s => { s with pending := none }
        return ((⟨.a, gate⟩ : Wire), (⟨.b, gate⟩ : Wire), (⟨.c, gate⟩ : Wire))) s := by
  have hcb : (⟨.c, gate⟩ : Wire) ≠ ⟨.b, gate⟩ := by simp
  refine (sets_assign (o := .component values 1 wires) hs hb
    (SetsNothing.parametric.component (β := Recording) _ _ _)
    fun v t h => valueIn_component hvs h).bind fun _ s₁ hs₁ hrecorded => ?_
  -- The values were computed before `b` was set, and still are what the expressions say.
  have hvs₁ : ∀ l, vs = some l → values.valuesAt wires (s₁.backend.visible cfg) = some l :=
    fun l hl => GateValues.valuesAt_mono (fun _ _ => (hs₁.mono hb).visible) (hvs l hl)
  refine (sets_assign hrecorded ((hs₁.lookup_ne _ hcb).trans hc)
    (SetsNothing.parametric.component (β := Recording) _ _ _)
    fun v t h => valueIn_component hvs₁ h).followed fun _ =>
      .bind (fun _ => .of_backend rfl rfl) fun _ => .pure _

theorem sets_multiply {x : Build Recording (List Fr)} {values : GateValues}
    (hvalues : Computes cfg x fun wires read => values.valuesAt wires read)
    (hs : Recorded cfg done s.backend) (ha : s.backend.lookup ⟨.a, s.gates + 1⟩ = none)
    (hb : s.backend.lookup ⟨.b, s.gates + 1⟩ = none)
    (hc : s.backend.lookup ⟨.c, s.gates + 1⟩ = none) :
    Sets cfg done
      [(⟨.a, s.gates + 1⟩, .component values 0 s.wires.toList),
        (⟨.b, s.gates + 1⟩, .component values 1 s.wires.toList),
        (⟨.c, s.gates + 1⟩, .component values 2 s.wires.toList)]
      (fun _ _ => True) (multiply cfg.backend x) s := by
  have hba : (⟨.b, s.gates + 1⟩ : Wire) ≠ ⟨.a, s.gates + 1⟩ := by simp
  have hca : (⟨.c, s.gates + 1⟩ : Wire) ≠ ⟨.a, s.gates + 1⟩ := by simp
  refine (Sets.of_nothing SetsNothing.newGate hs).bind fun gate s₁ hend hrecorded₁ => ?_
  obtain ⟨hs₁, hgate⟩ := hend
  obtain rfl : s.gates + 1 = gate := by
    cases hgate
    rfl
  have hfresh₁ : ∀ {w}, s.backend.lookup w = none → s₁.backend.lookup w = none := fun hw =>
    (Recording.lookup_congr hs₁.values_eq _).trans hw
  dsimp only
  split
  · rename_i hwants
    have hkind : WireKind.a ∈ cfg.evaluated := Recorder.wants_iff.1 hwants
    refine (Sets.of_nothing hvalues.setsNothing hrecorded₁).bind
      fun vs s₂ hend hrecorded₂ => ?_
    obtain ⟨hs₂, hrun⟩ := hend
    refine (Sets.of_nothing (SetsNothing.parametric.component (β := Recording) _ _ _)
      hrecorded₂).bind fun v s₃ hend hrecorded₃ => ?_
    obtain ⟨hs₃, hcomponent⟩ := hend
    have hvisible : s₂.backend.visible cfg = s₁.backend.visible cfg :=
      Recording.visible_congr hs₂.values_eq
    have hvs : values.valuesAt s.wires.toList (s₂.backend.visible cfg) = some vs := by
      rw [hvisible, ← hs₁.wires_eq, ← hvalues.toOption_eq, hrun]
      rfl
    have hvalueIn : (Origin.component values 0 s.wires.toList).valueIn cfg s₃.backend = some v := by
      rw [Origin.valueIn_congr hs₃.values_eq]
      exact valueIn_component (fun l hl => Option.some.inj hl ▸ hvs) hcomponent
    have hfresh₃ : ∀ {w}, s.backend.lookup w = none → s₃.backend.lookup w = none := fun hw =>
      (Recording.lookup_congr (hs₁.trans (hs₂.trans hs₃)).values_eq _).trans hw
    refine (sets_store hrecorded₃ hkind (hfresh₃ ha) hvalueIn).bind fun _ s₄ hs₄ hrecorded₄ => ?_
    rw [pure_bind]
    refine sets_components hrecorded₄ (fun l hl => ?_) ((hs₄.lookup_ne _ hba).trans (hfresh₃ hb))
      ((hs₄.lookup_ne _ hca).trans (hfresh₃ hc))
    rw [← Recording.visible_congr hs₃.values_eq, Option.some.inj hl] at hvs
    exact GateValues.valuesAt_mono (fun _ _ => (hs₄.mono (hfresh₃ ha)).visible) hvs
  · rename_i hwants
    have hkind : WireKind.a ∉ cfg.evaluated := fun h => hwants (Recorder.wants_iff.2 h)
    refine (sets_skip (.component values 0 s.wires.toList) hrecorded₁ hkind (hfresh₁ ha)).bind
      fun _ s₂ hs₂ hrecorded₂ => ?_
    exact sets_components hrecorded₂ (fun l hl => by cases hl)
      ((hs₂.lookup_ne _ hba).trans (hfresh₁ hb)) ((hs₂.lookup_ne _ hca).trans (hfresh₁ hc))

def Fresh (origins : List (Wire × Origin)) (r : Recording) : Prop :=
  ∀ w ∈ origins.map Prod.fst, r.lookup w = none

section

variable {value : Build Recording Fr} {e : Expr}
  (hvalue : Computes cfg value fun wires read => e.valueAt wires read)
include hvalue

theorem sets_alloc (hs : Recorded cfg done s.backend)
    (hfresh : Fresh (s.progress.allocOrigins e) s.backend) :
    Sets cfg done (s.progress.allocOrigins e) (fun _ _ => True) (alloc cfg.backend value) s := by
  unfold Sets
  unfold Progress.allocOrigins at hfresh ⊢
  cases hpending : s.pending with
  | some gate =>
    rw [show s.progress.pending = some gate from hpending] at hfresh ⊢
    rw [alloc_closing hpending]
    exact sets_closeHalf hvalue hs (hfresh _ (by simp)) (hfresh _ (by simp))
  | none =>
    rw [show s.progress.pending = none from hpending] at hfresh ⊢
    rw [alloc_opening hpending]
    exact sets_openHalf hvalue hs (hfresh _ (by simp [progress]))

theorem sets_allocInput (hs : Recorded cfg done s.backend)
    (hfresh : Fresh (s.progress.allocOrigins e) s.backend) :
    Sets cfg done (s.progress.allocOrigins e) (fun _ _ => True)
      (allocInput cfg.backend value) s :=
  (sets_alloc hvalue hs hfresh).followed fun _ =>
    .bind (.enforce _) fun _ => .bind .newInput fun _ => .pure _

end

theorem Sets.keep {x : Build Recording α} {new : List (Wire × Origin)}
    {Q : α → Synthesis Recording → Prop} (h : Sets cfg done new Q x s) (wires : α → List Wire) :
    Sets cfg done new (fun _ _ => True) (x >>= fun a => Synthesis.keep (wires a)) s :=
  h.bind_nil fun _ _ _ ht => ⟨(List.append_nil (done ++ new)).symm ▸ ht, trivial⟩

/-- What an operation sets depends on the progress alone. -/
theorem sets_step (op : Op) (hs : Recorded cfg done s.backend)
    (hfresh : Fresh (s.progress.origins op) s.backend) :
    Sets cfg done (s.progress.origins op) (fun _ _ => True) (step cfg.backend op) s := by
  have hnothing : ∀ {x : Build Recording Unit}, SetsNothing x →
      Sets cfg done [] (fun _ _ => True) x s := fun hx =>
    (Sets.of_nothing hx hs).imp fun _ _ _ => trivial
  cases op with
  | alloc value => exact (sets_alloc (.eval value) hs hfresh).keep fun w => [w]
  | input value => exact (sets_allocInput (.eval value) hs hfresh).keep fun w => [w]
  | multiply values =>
    exact (sets_multiply (.evalGate values) hs (hfresh _ (by simp [Progress.origins, progress]))
      (hfresh _ (by simp [Progress.origins, progress]))
      (hfresh _ (by simp [Progress.origins, progress]))).keep
        fun wires => [wires.1, wires.2.1, wires.2.2]
  | enforce terms =>
    refine hnothing (.bind ?_ fun lc => .enforce lc)
    exact SetsNothing.parametric.foldlM (β := Recording) (g := addTerm)
      SetsNothing.parametric.addTerm terms .empty
  | read ref =>
    exact hnothing (.bind (SetsNothing.parametric.resolve (β := Recording) ref) fun w =>
      .bind (Computes.valueOf w).setsNothing fun v => fun _ => .of_backend rfl rfl)
  | fail kind message => exact hnothing (.throw _)

theorem sets_forM {ops : List Op} (hs : Recorded cfg done s.backend)
    (hnodup : ((done ++ s.progress.originsFrom ops).map Prod.fst).Nodup) :
    Sets cfg done (s.progress.originsFrom ops) (fun _ _ => True)
      (ops.forM (step cfg.backend)) s := by
  induction ops generalizing done s with
  | nil => exact ⟨(List.append_nil done).symm ▸ hs, trivial⟩
  | cons op ops ih =>
    rw [Progress.originsFrom] at hnodup ⊢
    -- The wires of the operation have no values yet, since no wire is set by two operations.
    have hfresh : Fresh (s.progress.origins op) s.backend := by
      intro w hw
      rw [List.map_append, List.map_append] at hnodup
      refine hs.lookup_eq_none fun hmem => ?_
      exact (List.nodup_append'.1 hnodup).2.2 hmem (List.mem_append_left _ hw)
    refine (sets_step op hs hfresh).with_run.bind fun _ t hend hrecorded => ?_
    rw [← step_progress hend.2] at hnodup ⊢
    exact ih hrecorded (List.append_assoc .. ▸ hnodup)

end

/-! ## Wherever a synthesis has come to -/

theorem allocInput_recorder (cfg : Recorder) (c : Circuit) :
    ∃ r, allocInput cfg.backend (pure 1) (start c .empty) =
      .ok .one { start c r with pending := some 1, gates := 1, constraints := 1 } := by
  obtain ⟨r, halloc⟩ := alloc_start cfg.backend c .empty
  exact ⟨_, (bind_ok halloc).trans rfl⟩

/-- What has been set after a number of operations, and how far the driver is if they have all
succeeded. -/
theorem sets_upTo (cfg : Recorder) (c : Circuit) (count : Nat) :
    Sets cfg [] (c.originsUpTo count) (fun _ t => t.progress = c.progressAt count)
      (upTo cfg.backend count) (start c .empty) := by
  obtain ⟨r, hone⟩ := allocInput_recorder cfg c
  refine (sets_allocInput (.pure 1) (.empty cfg) fun _ _ => rfl).with_run.bind
    fun _ t hend hrecorded => ?_
  obtain ⟨-, hrun⟩ := hend
  rw [hone] at hrun
  obtain rfl := (EStateM.Result.ok.inj hrun).2
  cases hcurrent : c.current with
  | none =>
    unfold Sets
    rw [bind_error (takePass_none hcurrent)]
    exact ⟨[], List.nil_prefix, (List.append_nil _).symm ▸ hrecorded⟩
  | some script =>
    have hops : script.unroll = c.ops := by
      rw [Circuit.ops, hcurrent]
      rfl
    have hforM := (sets_forM (s := { start c r with
      circuit := c.advance, pending := some 1, gates := 1, constraints := 1 }) hrecorded
      (c.nodup_originsUpTo count)).with_run
    unfold Sets
    rw [bind_ok (takePass_some hcurrent), hops]
    exact hforM.imp fun _ t ht => forM_progress ht.2

end SnarkBatch.Synthesis
