import Mathlib.Data.List.Induction
import SnarkBatch.Circuit.Recorder
import SnarkBatch.Proofs.Result

/-!
# Recordings and the origin of their values

A recording is what its events have made of it (`Recording.replay`), so the prefixes of its events
are the points that it has gone through. `Origin` says where the value of a wire comes from: from an
expression, from the list of a multiplication or from the other two wires of its gate.
`Records cfg origins es` holds of the events in which the wires of `origins` are set one after the
other, each for the first time: to the value of its origin at that point, if it is to be evaluated,
and to none otherwise. Values that have been stored stay, so that they are those of their origins at
every later point as well (`Records.exists_origin`).
-/

namespace SnarkBatch

namespace Event

/-- The wire that the event sets, with or without a value. -/
def assigned : Event → Option Wire
  | set w _ => some w
  | _ => none

/-- The wire that the event stores a value of. -/
def stored : Event → Option (Wire × Fr)
  | set w (some v) => some (w, v)
  | _ => none

def isConstraint : Event → Bool
  | constraint _ => true
  | _ => false

theorem stored_eq_none {e : Event} (h : e.assigned = none) : e.stored = none := by
  cases e with
  | set w v => cases h
  | _ => rfl

end Event

theorem Recorder.wants_iff {cfg : Recorder} {kind : WireKind} :
    cfg.backend.wants kind = true ↔ kind ∈ cfg.evaluated :=
  List.contains_iff_mem

namespace Recording

def add (r : Recording) (e : Event) : Recording where
  events := r.events ++ [e]
  constraints := r.constraints + if e.isConstraint then 1 else 0
  values := e.stored.toList ++ r.values

def replay (es : List Event) : Recording := es.foldl add .empty

theorem replay_concat (es : List Event) (e : Event) : replay (es ++ [e]) = (replay es).add e := by
  rw [replay, List.foldl_append]
  rfl

theorem events_replay (es : List Event) : (replay es).events = es := by
  induction es using List.reverseRecOn with
  | nil => rfl
  | append_singleton es e ih => rw [replay_concat, add, ih]

theorem values_replay_concat (es : List Event) {e : Event} (he : e.stored = none) :
    (replay (es ++ [e])).values = (replay es).values := by
  rw [replay_concat, add, he, Option.toList_none, List.nil_append]

/-- The value that the recorder tells. -/
def visible (cfg : Recorder) (r : Recording) (w : Wire) : Option Fr :=
  if cfg.hidden.contains w.kind then none else r.lookup w

/-! ## Stored values -/

variable {r r' : Recording} {e : Event} {w w' : Wire} {v : Fr}

theorem lookup_congr (h : r'.values = r.values) (w : Wire) : r'.lookup w = r.lookup w := by
  rw [lookup, lookup, h]

theorem visible_congr {cfg : Recorder} (h : r'.values = r.values) :
    r'.visible cfg = r.visible cfg := by
  funext w
  rw [visible, visible, lookup_congr h]

theorem visible_eq_some_iff {cfg : Recorder} :
    r.visible cfg w = some v ↔ w.kind ∉ cfg.hidden ∧ r.lookup w = some v := by
  by_cases hhidden : w.kind ∈ cfg.hidden <;> simp [visible, hhidden]

theorem values_add (h : e.stored = none) : (r.add e).values = r.values := by
  rw [add, h, Option.toList_none, List.nil_append]

theorem values_foldl_add {es : List Event} (hes : ∀ e ∈ es, e.assigned = none) :
    (es.foldl add r).values = r.values := by
  induction es generalizing r with
  | nil => rfl
  | cons e es ih =>
    obtain ⟨he, hes⟩ := List.forall_mem_cons.1 hes
    exact (ih hes).trans (values_add (Event.stored_eq_none he))

theorem lookup_set_self : (r.add (.set w (some v))).lookup w = some v := by
  rw [lookup, add]
  exact congrArg _ (List.find?_cons_of_pos (by simp))

theorem lookup_set_of_ne (h : w ≠ w') (v : Option Fr) :
    (r.add (.set w v)).lookup w' = r.lookup w' := by
  cases v with
  | none => exact lookup_congr (values_add rfl) w'
  | some v => exact congrArg _ (List.find?_cons_of_neg (by simpa using h))

/-- What has a value keeps it. -/
def Extends (r r' : Recording) : Prop := ∀ w v, r.lookup w = some v → r'.lookup w = some v

theorem extends_add (h : ∀ w v, e.stored = some (w, v) → r.lookup w = none) :
    r.Extends (r.add e) := by
  intro w v hv
  cases e with
  | set w' value =>
    cases value with
    | none => exact (lookup_congr (values_add rfl) w).trans hv
    | some v' =>
      have hne : w' ≠ w := by
        rintro rfl
        rw [h w' v' rfl] at hv
        cases hv
      exact (lookup_set_of_ne hne _).trans hv
  | _ => exact (lookup_congr (values_add rfl) w).trans hv

theorem Extends.visible {cfg : Recorder} (h : r.Extends r') {w : Wire} {v : Fr}
    (hv : r.visible cfg w = some v) : r'.visible cfg w = some v := by
  rw [visible_eq_some_iff] at hv ⊢
  exact ⟨hv.1, h w v hv.2⟩

end Recording

/-! ## The values of expressions -/

/-- The wire that is meant, given the wires returned so far. -/
def WireRef.wireIn (wires : List Wire) : WireRef → Option Wire
  | one => some .one
  | wire w => some w
  | slot i => (position? wires.length i).bind (wires[·]?)

theorem Synthesis.resolve_eq {β : Type} (ref : WireRef) (s : Synthesis β) :
    resolve ref s = withEnd s ((ref.wireIn s.wires.toList).elim (.error .position) .ok) := by
  cases ref with
  | one => rfl
  | wire w => rfl
  | slot i =>
    have hwires : (position? s.wires.toList.length i).bind (s.wires.toList[·]?) =
        (position? s.wires.size i).bind (s.wires[·]?) := by simp
    rw [WireRef.wireIn, hwires]
    unfold resolve
    dsimp only
    rw [get_bind]
    cases (position? s.wires.size i).bind (s.wires[·]?) <;> rfl

/-- The value of an expression where `read` gives the values of wires. -/
def Expr.valueAt (wires : List Wire) (read : Wire → Option Fr) : Expr → Option Fr
  | const v => some v
  | unassigned | fail .. => none
  | .read ref => (ref.wireIn wires).bind read
  | add l r => do
    let v ← l.valueAt wires read
    return v + (← r.valueAt wires read)
  | mul l r => do
    let v ← l.valueAt wires read
    return v * (← r.valueAt wires read)

def GateValues.valuesAt (wires : List Wire) (read : Wire → Option Fr) :
    GateValues → Option (List Fr)
  | each values => values.mapM (·.valueAt wires read)
  | single _ => none

section

variable {wires : List Wire} {read read' : Wire → Option Fr}
  (h : ∀ w v, read w = some v → read' w = some v)
include h

theorem Expr.valueAt_mono {e : Expr} {v : Fr} (hv : e.valueAt wires read = some v) :
    e.valueAt wires read' = some v := by
  induction e generalizing v with
  | const c => exact hv
  | unassigned | fail => cases hv
  | read ref =>
    obtain ⟨w, hw, hv⟩ := Option.bind_eq_some_iff.1 hv
    exact Option.bind_eq_some_iff.2 ⟨w, hw, h w v hv⟩
  | add l r ihl ihr | mul l r ihl ihr =>
    obtain ⟨x, hx, hv⟩ := Option.bind_eq_some_iff.1 hv
    obtain ⟨y, hy, hv⟩ := Option.bind_eq_some_iff.1 hv
    exact Option.bind_eq_some_iff.2 ⟨x, ihl hx, Option.bind_eq_some_iff.2 ⟨y, ihr hy, hv⟩⟩

theorem GateValues.valuesAt_mono {values : GateValues} {vs : List Fr}
    (hvs : values.valuesAt wires read = some vs) : values.valuesAt wires read' = some vs := by
  cases values with
  | single value => cases hvs
  | each values =>
    rw [valuesAt] at hvs ⊢
    induction values generalizing vs with
    | nil => exact hvs
    | cons e values ih =>
      rw [List.mapM_cons] at hvs ⊢
      obtain ⟨v, hv, hvs⟩ := Option.bind_eq_some_iff.1 hvs
      obtain ⟨rest, hrest, hvs⟩ := Option.bind_eq_some_iff.1 hvs
      exact Option.bind_eq_some_iff.2
        ⟨v, Expr.valueAt_mono h hv, Option.bind_eq_some_iff.2 ⟨rest, ih hrest, hvs⟩⟩

end

/-- Where the value of a wire comes from. -/
inductive Origin
  /-- An expression over the wires returned before. -/
  | expression (value : Expr) (wires : List Wire)
  /-- One of the values of a multiplication. -/
  | component (values : GateValues) (place : Nat) (wires : List Wire)
  /-- The other two wires of the gate. -/
  | product (gate : Nat)

namespace Origin

/-- The value at a point of a recording. The left factor of a product is asked of the recorder. -/
def valueIn (cfg : Recorder) (r : Recording) : Origin → Option Fr
  | expression value wires => value.valueAt wires (r.visible cfg)
  | component values place wires => (values.valuesAt wires (r.visible cfg)).bind (·[place]?)
  | product gate => do
    let left ← r.visible cfg ⟨.a, gate⟩
    return left * (← r.lookup ⟨.b, gate⟩)

theorem valueIn_mono {cfg : Recorder} {r r' : Recording} (h : r.Extends r') {o : Origin} {v : Fr}
    (hv : o.valueIn cfg r = some v) : o.valueIn cfg r' = some v := by
  cases o with
  | expression value wires => exact Expr.valueAt_mono (fun _ _ => h.visible) hv
  | component values place wires =>
    obtain ⟨vs, hvs, hv⟩ := Option.bind_eq_some_iff.1 hv
    exact Option.bind_eq_some_iff.2
      ⟨vs, GateValues.valuesAt_mono (fun _ _ => h.visible) hvs, hv⟩
  | product gate =>
    obtain ⟨left, hleft, hv⟩ := Option.bind_eq_some_iff.1 hv
    obtain ⟨right, hright, hv⟩ := Option.bind_eq_some_iff.1 hv
    exact Option.bind_eq_some_iff.2
      ⟨left, h.visible hleft, Option.bind_eq_some_iff.2 ⟨right, h _ _ hright, hv⟩⟩

theorem valueIn_congr {cfg : Recorder} {r r' : Recording} (h : r'.values = r.values) (o : Origin) :
    o.valueIn cfg r' = o.valueIn cfg r := by
  cases o with
  | expression value wires => rw [valueIn, valueIn, Recording.visible_congr h]
  | component values place wires => rw [valueIn, valueIn, Recording.visible_congr h]
  | product gate =>
    rw [valueIn, valueIn, Recording.visible_congr h, Recording.lookup_congr h]

end Origin

/-! ## Setting wires one after the other -/

open Recording (replay replay_concat values_replay_concat)

/-- The events in which the wires are set in this order, each for the first time, with other events
in between. -/
inductive Records (cfg : Recorder) : List (Wire × Origin) → List Event → Prop
  | nil : Records cfg [] []
  | other {origins : List (Wire × Origin)} {es : List Event} {e : Event} :
    Records cfg origins es → e.assigned = none → Records cfg origins (es ++ [e])
  | unset {origins : List (Wire × Origin)} {es : List Event} {w : Wire} (o : Origin) :
    Records cfg origins es → w.kind ∉ cfg.evaluated →
    Records cfg (origins ++ [(w, o)]) (es ++ [.set w none])
  | set {origins : List (Wire × Origin)} {es : List Event} {w : Wire} {o : Origin} {v : Fr} :
    Records cfg origins es → w.kind ∈ cfg.evaluated → o.valueIn cfg (replay es) = some v →
    (replay es).lookup w = none → Records cfg (origins ++ [(w, o)]) (es ++ [.set w (some v)])

namespace Records

variable {cfg : Recorder} {origins : List (Wire × Origin)} {es : List Event}

/-- Every point on the way to a recording is a recording of the first wires. -/
theorem of_prefix (h : Records cfg origins es) {es' : List Event} (hes : es' <+: es) :
    ∃ origins', origins' <+: origins ∧ Records cfg origins' es' := by
  induction h with
  | nil => exact ⟨[], List.prefix_refl _, List.prefix_nil.1 hes ▸ .nil⟩
  | other h he ih =>
    rcases List.prefix_concat_iff.1 hes with rfl | hes
    · exact ⟨_, List.prefix_refl _, h.other he⟩
    · exact ih hes
  | unset o h hkind ih =>
    rcases List.prefix_concat_iff.1 hes with rfl | hes
    · exact ⟨_, List.prefix_refl _, h.unset o hkind⟩
    · obtain ⟨origins', horder, h'⟩ := ih hes
      exact ⟨origins', horder.trans (List.prefix_append _ _), h'⟩
  | set h hkind hv hfresh ih =>
    rcases List.prefix_concat_iff.1 hes with rfl | hes
    · exact ⟨_, List.prefix_refl _, h.set hkind hv hfresh⟩
    · obtain ⟨origins', horder, h'⟩ := ih hes
      exact ⟨origins', horder.trans (List.prefix_append _ _), h'⟩

theorem filterMap_assigned (h : Records cfg origins es) :
    es.filterMap Event.assigned = origins.map Prod.fst := by
  induction h with
  | nil => rfl
  | other h he ih => simp [List.filterMap_append, ih, he]
  | unset o h hkind ih => simp [List.filterMap_append, ih, Event.assigned]
  | set h hkind hv hfresh ih => simp [List.filterMap_append, ih, Event.assigned]

/-- A value that is stored is that of an origin of its wire, still. -/
theorem exists_origin (h : Records cfg origins es) {w : Wire} {v : Fr}
    (hv : (replay es).lookup w = some v) :
    w.kind ∈ cfg.evaluated ∧ ∃ o, (w, o) ∈ origins ∧ o.valueIn cfg (replay es) = some v := by
  induction h with
  | nil => cases hv
  | @other origins es e h he ih =>
    have hvalues := values_replay_concat es (Event.stored_eq_none he)
    rw [Recording.lookup_congr hvalues] at hv
    obtain ⟨hkind, o, ho, hvalue⟩ := ih hv
    exact ⟨hkind, o, ho, (Origin.valueIn_congr hvalues o).trans hvalue⟩
  | @unset origins es w' o' h hkind' ih =>
    have hvalues : (replay (es ++ [.set w' none])).values = (replay es).values :=
      values_replay_concat es rfl
    rw [Recording.lookup_congr hvalues] at hv
    obtain ⟨hkind, o, ho, hvalue⟩ := ih hv
    exact ⟨hkind, o, List.mem_append_left _ ho, (Origin.valueIn_congr hvalues o).trans hvalue⟩
  | @set origins es w' o' v' h hkind' hv' hfresh ih =>
    have hextends : (replay es).Extends ((replay es).add (.set w' (some v'))) := by
      refine Recording.extends_add fun w v hstored => ?_
      cases hstored
      exact hfresh
    rw [replay_concat] at hv ⊢
    -- What the origin was made of has its values still: the wire that is set now had none.
    by_cases hw : w' = w
    · subst hw
      rw [Recording.lookup_set_self] at hv
      cases hv
      exact ⟨hkind', o', List.mem_append_right _ (List.mem_singleton_self _),
        Origin.valueIn_mono hextends hv'⟩
    · rw [Recording.lookup_set_of_ne hw] at hv
      obtain ⟨hkind, o, ho, hvalue⟩ := ih hv
      exact ⟨hkind, o, List.mem_append_left _ ho, Origin.valueIn_mono hextends hvalue⟩

theorem lookup_isSome (h : Records cfg origins es) {w : Wire} (hw : w ∈ origins.map Prod.fst)
    (hkind : w.kind ∈ cfg.evaluated) : ((replay es).lookup w).isSome := by
  induction h with
  | nil => cases hw
  | @other origins es e h he ih =>
    rw [Recording.lookup_congr (values_replay_concat es (Event.stored_eq_none he))]
    exact ih hw
  | @unset origins es w' o' h hkind' ih =>
    rw [Recording.lookup_congr (values_replay_concat es rfl)]
    rw [List.map_append, List.mem_append] at hw
    refine ih (hw.resolve_right fun hmem => ?_)
    obtain rfl : w = w' := List.mem_singleton.1 hmem
    exact hkind' hkind
  | @set origins es w' o' v' h hkind' hv' hfresh ih =>
    rw [replay_concat]
    by_cases hne : w' = w
    · subst hne
      rw [Recording.lookup_set_self]
      rfl
    · rw [Recording.lookup_set_of_ne hne]
      rw [List.map_append, List.mem_append] at hw
      exact ih (hw.resolve_right fun hmem => hne (List.mem_singleton.1 hmem).symm)

end Records

/-- The recording has come about by setting these wires. -/
structure Recorded (cfg : Recorder) (origins : List (Wire × Origin)) (r : Recording) : Prop where
  replay_eq : replay r.events = r
  records : Records cfg origins r.events

namespace Recorded

variable {cfg : Recorder} {origins : List (Wire × Origin)} {r : Recording} {w : Wire} {o : Origin}
  {v : Fr}

theorem empty (cfg : Recorder) : Recorded cfg [] .empty := ⟨rfl, .nil⟩

theorem replay_add (h : Recorded cfg origins r) (e : Event) :
    replay (r.add e).events = r.add e := by
  rw [Recording.add, replay_concat, h.replay_eq, Recording.add]

theorem other (h : Recorded cfg origins r) {e : Event} (he : e.assigned = none) :
    Recorded cfg origins (r.add e) :=
  ⟨h.replay_add e, h.records.other he⟩

theorem others (h : Recorded cfg origins r) {es : List Event} (hes : ∀ e ∈ es, e.assigned = none) :
    Recorded cfg origins (es.foldl Recording.add r) := by
  induction es generalizing r with
  | nil => exact h
  | cons e es ih =>
    obtain ⟨he, hes⟩ := List.forall_mem_cons.1 hes
    exact ih (h.other he) hes

/-- A value that is stored is that of an origin of its wire. -/
theorem exists_origin (h : Recorded cfg origins r) (hv : r.lookup w = some v) :
    w.kind ∈ cfg.evaluated ∧ ∃ o, (w, o) ∈ origins ∧ o.valueIn cfg r = some v := by
  have horigin := h.records.exists_origin (w := w) (v := v)
  rw [h.replay_eq] at horigin
  exact horigin hv

theorem lookup_eq_none (h : Recorded cfg origins r) (hw : w ∉ origins.map Prod.fst) :
    r.lookup w = none := by
  cases hv : r.lookup w with
  | none => rfl
  | some v =>
    obtain ⟨-, o, ho, -⟩ := h.exists_origin hv
    exact absurd (List.mem_map_of_mem ho) hw

/-- The wires that are to be evaluated have values as soon as they have been set. -/
theorem isSome_iff (h : Recorded cfg origins r) (hkind : w.kind ∈ cfg.evaluated) :
    (r.lookup w).isSome ↔ w ∈ origins.map Prod.fst := by
  refine ⟨fun hsome => ?_, fun hw => h.replay_eq ▸ h.records.lookup_isSome hw hkind⟩
  by_contra hw
  rw [h.lookup_eq_none hw] at hsome
  cases hsome

theorem unset (h : Recorded cfg origins r) (o : Origin) (hkind : w.kind ∉ cfg.evaluated) :
    Recorded cfg (origins ++ [(w, o)]) (r.add (.set w none)) :=
  ⟨h.replay_add _, h.records.unset o hkind⟩

theorem set (h : Recorded cfg origins r) (hkind : w.kind ∈ cfg.evaluated)
    (hv : o.valueIn cfg r = some v) (hfresh : r.lookup w = none) :
    Recorded cfg (origins ++ [(w, o)]) (r.add (.set w (some v))) :=
  ⟨h.replay_add _, h.records.set hkind (h.replay_eq.symm ▸ hv) (h.replay_eq.symm ▸ hfresh)⟩

end Recorded

end SnarkBatch
