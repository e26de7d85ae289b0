import SnarkBatch.Proofs.Circuit.Callback
import SnarkBatch.Proofs.Circuit.Setting

/-!
# The values of a witness

A recorder is told the values of the wires of a circuit while it is synthesised, some of which it may
not ask for and some of which it may not tell. Wherever the synthesis has come to
(`Circuit.Reaches`), also if it has failed, what it has been told obeys the law of the gates
(`Circuit.WitnessLaw`); where a value is missing that the law would need, the synthesis ends
(`Circuit.EndsMissing`). `Circuit.witness_law` puts this together.
-/

namespace SnarkBatch

namespace Synthesis

variable {cfg : Recorder} {α : Type}

/-! ## Missing values -/

/-- What is computed depends on the values stored and the wires returned only. -/
theorem Computes.outcome_congr {x : Build Recording α}
    {f : List Wire → (Wire → Option Fr) → Option α} (h : Computes cfg x f)
    {s t : Synthesis Recording} (hst : NoneSet s t) :
    (outcome (x t)).toOption = (outcome (x s)).toOption := by
  rw [h.toOption_eq, h.toOption_eq, hst.wires_eq, Recording.visible_congr hst.values_eq]

section

variable {s : Synthesis Recording} {gate : Nat}

theorem getValue_recorder (cfg : Recorder) (s : Synthesis Recording) (w : Wire) : ∃ s₁,
    getValue cfg.backend w s = .ok (s.backend.visible cfg w) s₁ ∧ NoneSet s s₁ :=
  ⟨_, rfl, SetsNothing.getValue w s⟩

theorem assign_wanted {w : Wire} {value : Build Recording Fr} (hkind : w.kind ∈ cfg.evaluated)
    {e : Fault} {t : Synthesis Recording} (h : value s = .error e t) :
    assign cfg.backend w value s = .error e t := by
  rw [assign, if_pos (Recorder.wants_iff.2 hkind)]
  exact bind_error h

theorem assign_unwanted {w : Wire} {value : Build Recording Fr} (hkind : w.kind ∉ cfg.evaluated) :
    assign cfg.backend w value s =
      .ok none { s with backend := s.backend.add (.set w none) } := by
  rw [assign, if_neg (mt Recorder.wants_iff.1 hkind)]
  rfl

/-- The second half of a gate is to be evaluated and can be, and the first half has no value to
show. -/
theorem closeHalf_operandUnset {value : Build Recording Fr} {e : Expr}
    (hvalue : Computes cfg value fun wires read => e.valueAt wires read)
    (hright : .b ∈ cfg.evaluated) (hok : ∃ v, outcome (value s) = .ok v)
    (hleft : s.backend.visible cfg ⟨.a, gate⟩ = none) :
    ∃ t, closeHalf cfg.backend gate value s = .error (.synthesis (.operandUnset gate)) t ∧
      t.backend.values = s.backend.values := by
  obtain ⟨s₁, hget, hs₁⟩ := getValue_recorder cfg s ⟨.a, gate⟩
  rw [hleft] at hget
  obtain ⟨v, hv⟩ := hok
  have hsame := hvalue.outcome_congr hs₁
  have hvalues := (hvalue.setsNothing s₁).values_eq
  rw [hv] at hsame
  cases hrun : value s₁ with
  | error e t =>
    rw [hrun] at hsame
    cases hsame
  | ok v' t =>
    rw [hrun] at hvalues
    refine ⟨t, (bind_ok hget).trans (bind_error (assign_wanted hright ?_)),
      hvalues.trans hs₁.values_eq⟩
    exact (bind_ok hrun).trans rfl

/-- The product is to be evaluated, and the second half is not. -/
theorem closeHalf_wireUnset (value : Build Recording Fr) (hright : .b ∉ cfg.evaluated)
    (houtput : .c ∈ cfg.evaluated) :
    ∃ t, closeHalf cfg.backend gate value s = .error (.synthesis (.wireUnset ⟨.c, gate⟩)) t ∧
      t.backend.values = s.backend.values := by
  obtain ⟨s₁, hget, hs₁⟩ := getValue_recorder cfg s ⟨.a, gate⟩
  refine ⟨{ s₁ with backend := s₁.backend.add (.set ⟨.b, gate⟩ none) },
    (bind_ok hget).trans ((bind_ok (assign_unwanted hright)).trans
      (bind_error (assign_wanted houtput ?_))), (Recording.values_add rfl).trans hs₁.values_eq⟩
  cases s.backend.visible cfg ⟨.a, gate⟩ <;> rfl

/-- The values of a multiplication are evaluated with its first wire only. -/
theorem multiply_wireUnset (values : Build Recording (List Fr)) (hleft : .a ∉ cfg.evaluated)
    (hrest : .b ∈ cfg.evaluated ∨ .c ∈ cfg.evaluated) :
    ∃ w t, multiply cfg.backend values s = .error (.synthesis (.wireUnset w)) t ∧
      t.backend.values = s.backend.values := by
  let rest : Build Recording (Wire × Wire × Wire) := do
    let _ ← assign cfg.backend ⟨.b, s.gates + 1⟩ (component ⟨.b, s.gates + 1⟩ none 1)
    let _ ← assign cfg.backend ⟨.c, s.gates + 1⟩ (component ⟨.c, s.gates + 1⟩ none 2)
    modify fun s => { s with pending := none }
    return (⟨.a, s.gates + 1⟩, ⟨.b, s.gates + 1⟩, ⟨.c, s.gates + 1⟩)
  let s₁ : Synthesis Recording :=
    { s with
      gates := s.gates + 1
      backend := (s.backend.add .gate).add (.set ⟨.a, s.gates + 1⟩ none) }
  have hvalues : s₁.backend.values = s.backend.values :=
    (Recording.values_add rfl).trans (Recording.values_add rfl)
  have hgate : newGate cfg.backend s =
      .ok (s.gates + 1) { s with gates := s.gates + 1, backend := s.backend.add .gate } := rfl
  have hrun : multiply cfg.backend values s = rest s₁ := by
    refine (bind_ok hgate).trans ?_
    dsimp only
    rw [if_neg (mt Recorder.wants_iff.1 hleft)]
    rfl
  by_cases hright : .b ∈ cfg.evaluated
  · exact ⟨_, s₁, hrun.trans (bind_error (assign_wanted hright rfl)), hvalues⟩
  · refine ⟨_, _, hrun.trans ((bind_ok (assign_unwanted hright)).trans
      (bind_error (assign_wanted (hrest.resolve_left hright) rfl))), ?_⟩
    exact (Recording.values_add rfl).trans hvalues

end

theorem run_error_of_step {β ι : Type} {k : Backend β ι} {c : Circuit} {b : β} {i : Nat} {op : Op}
    {e : Fault} {s t : Synthesis β} (hupTo : upTo k i (start c b) = .ok () s)
    (hop : c.ops[i]? = some op) (hstep : step k op s = .error e t) :
    run k c b = .error e t := by
  have hcircuit := (commutes_allocInput (Backend.Maps.refl k) (.pure 1)).circuit_eq (start c b)
  obtain ⟨w, s₁, hinput, hupTo⟩ := exists_of_run_ok hupTo
  obtain ⟨script, s₂, htake, hforM⟩ := exists_of_run_ok hupTo
  rw [hinput] at hcircuit
  obtain rfl : s₁.circuit = c := hcircuit
  have hops : s₁.circuit.ops = script.unroll := by
    cases hcurrent : s₁.circuit.current with
    | none =>
      rw [takePass_none hcurrent] at htake
      cases htake
    | some script' =>
      rw [takePass_some hcurrent] at htake
      cases htake
      rw [Circuit.ops, hcurrent]
      rfl
  rw [hops] at hop
  obtain ⟨hlt, rfl⟩ := List.getElem?_eq_some_iff.1 hop
  refine (bind_ok hinput).trans ((bind_ok htake).trans ?_)
  rw [Script.forM_eq_unroll_forM]
  have hsplit : script.unroll =
      script.unroll.take i ++ script.unroll[i] :: script.unroll.drop (i + 1) := by
    rw [← List.drop_eq_getElem_cons hlt, List.take_append_drop]
  rw [hsplit]
  exact (congrFun List.forM_append s₂).trans ((bind_ok hforM).trans (bind_error hstep))

/-! ## The law -/

section

variable {s t : Synthesis Recording} {i : Nat} {op : Op} {c : Circuit}

theorem upTo_recorded (h : upTo cfg.backend i (start c .empty) = .ok () s) :
    Recorded cfg (c.originsUpTo i) s.backend ∧ s.progress = c.progressAt i := by
  have hsets := sets_upTo cfg c i
  unfold Sets at hsets
  rwa [h] at hsets

theorem Sets.recorded_end {x : Build Recording α} {new : List (Wire × Origin)}
    {Q : α → Synthesis Recording → Prop} (h : Sets cfg [] new Q x s) :
    ∃ part, part <+: new ∧ Recorded cfg part (endState (x s)).backend := by
  unfold Sets at h
  cases hrun : x s with
  | ok a t =>
    rw [hrun] at h
    exact ⟨new, List.prefix_refl _, h.1⟩
  | error e t =>
    rw [hrun] at h
    exact h

/-- An allocation that fills the second half of a gate fails with what is wrong with that. -/
theorem step_closing_error {value : Expr} (hop : op = .alloc value ∨ op = .input value) {gate : Nat}
    (hpending : s.pending = some gate) {e : Fault}
    (h : closeHalf cfg.backend gate (eval cfg.backend value) s = .error e t) :
    step cfg.backend op s = .error e t := by
  have halloc : alloc cfg.backend (eval cfg.backend value) s = .error e t :=
    (alloc_closing hpending).trans h
  rcases hop with rfl | rfl
  · exact bind_error halloc
  · exact bind_error (bind_error halloc)

end

end Synthesis

namespace Circuit

open Synthesis

/-- The synthesis goes through the recording: it is what the first events make, wherever the
synthesis has come to. -/
def Reaches (c : Circuit) (cfg : Recorder) (r : Recording) : Prop :=
  ∃ count es, es <+: (endState (upTo cfg.backend count (start c .empty))).backend.events ∧
    Recording.replay es = r

/-- What the values of a recording have to do with one another. -/
structure WitnessLaw (c : Circuit) (cfg : Recorder) (r : Recording) : Prop where
  /-- No wire has been set twice. -/
  set_once : (r.events.filterMap Event.assigned).Nodup
  /-- The output of a gate that an allocation fills is the product of its halves. -/
  product : ∀ i op gate, c.ops[i]? = some op → op.isAllocation = true →
    (c.progressAt i).pending = some gate → ∀ v, r.lookup ⟨.c, gate⟩ = some v →
      .a ∉ cfg.hidden ∧ ∃ left right, r.lookup ⟨.a, gate⟩ = some left ∧
        r.lookup ⟨.b, gate⟩ = some right ∧ v = left * right
  /-- The wires of a multiplication have the values of its list, in order. -/
  listed : ∀ i values, c.ops[i]? = some (.multiply values) →
    ∀ kind place, (kind, place) ∈ [(WireKind.a, 0), (.b, 1), (.c, 2)] →
      ∀ v, r.lookup ⟨kind, (c.progressAt i).gates + 1⟩ = some v →
        ∃ vs, values.valuesAt (c.progressAt i).wires (r.visible cfg) = some vs ∧
          vs[place]? = some v

/-- The synthesis ends for want of a value, and the second and the third wire of the gate have
none. -/
def EndsMissing (c : Circuit) (cfg : Recorder) (gate : Nat) : Prop :=
  ∃ cause t, run cfg.backend c .empty = .error (.synthesis cause) t ∧
    cause.kind = "assignment-missing" ∧ t.backend.lookup ⟨.b, gate⟩ = none ∧
    t.backend.lookup ⟨.c, gate⟩ = none

variable {c : Circuit} {cfg : Recorder} {r : Recording}

theorem Reaches.recorded (h : c.Reaches cfg r) :
    ∃ origins, origins <+: c.origins ∧ Recorded cfg origins r := by
  obtain ⟨count, es, hes, rfl⟩ := h
  obtain ⟨origins, horigins, hrecorded⟩ := (sets_upTo cfg c count).recorded_end
  obtain ⟨part, hpart, hrecords⟩ := hrecorded.records.of_prefix hes
  refine ⟨part, hpart.trans (horigins.trans (c.originsUpTo_prefix count)), ?_, ?_⟩
  · rw [Recording.events_replay]
  · rwa [Recording.events_replay]

theorem Reaches.valueIn_eq (h : c.Reaches cfg r) {w : Wire} {o : Origin}
    (ho : (w, o) ∈ c.origins) {v : Fr} (hv : r.lookup w = some v) : o.valueIn cfg r = some v := by
  obtain ⟨origins, horder, hrecorded⟩ := h.recorded
  obtain ⟨-, o', ho', hvalue⟩ := hrecorded.exists_origin hv
  rwa [← origin_unique (horder.subset ho') ho]

theorem reaches_upTo (c : Circuit) (cfg : Recorder) (count : Nat) :
    c.Reaches cfg (endState (upTo cfg.backend count (start c .empty))).backend := by
  obtain ⟨origins, -, hrecorded⟩ := (sets_upTo cfg c count).recorded_end
  exact ⟨count, _, List.prefix_refl _, hrecorded.replay_eq⟩

theorem Reaches.witnessLaw (h : c.Reaches cfg r) : c.WitnessLaw cfg r where
  set_once := by
    obtain ⟨origins, horder, hrecorded⟩ := h.recorded
    rw [hrecorded.records.filterMap_assigned]
    exact c.nodup_origins.sublist (horder.map Prod.fst).sublist
  product := by
    intro i op gate hop hallocation hpending v hv
    have ho : ((⟨.c, gate⟩ : Wire), Origin.product gate) ∈ c.origins := by
      refine mem_origins hop ?_
      cases op with
      | alloc value | input value => simp [Progress.origins, Progress.allocOrigins, hpending]
      | _ => cases hallocation
    obtain ⟨left, hleft, hvalue⟩ := Option.bind_eq_some_iff.1 (h.valueIn_eq ho hv)
    obtain ⟨right, hright, hvalue⟩ := Option.bind_eq_some_iff.1 hvalue
    obtain ⟨hhidden, hleft⟩ := Recording.visible_eq_some_iff.1 hleft
    exact ⟨hhidden, left, right, hleft, hright, (Option.some.inj hvalue).symm⟩
  listed := by
    intro i values hop kind place hplace v hv
    have ho : ((⟨kind, (c.progressAt i).gates + 1⟩ : Wire),
        Origin.component values place (c.progressAt i).wires) ∈ c.origins := by
      refine mem_origins hop ?_
      simp only [List.mem_cons, Prod.mk.injEq, List.not_mem_nil, or_false] at hplace
      rcases hplace with ⟨rfl, rfl⟩ | ⟨rfl, rfl⟩ | ⟨rfl, rfl⟩ <;> simp [Progress.origins]
    exact Option.bind_eq_some_iff.1 (h.valueIn_eq ho hv)

/-- An operation that fails for want of a value has stored none. -/
theorem endsMissing_of_step {i : Nat} {op : Op} {s t : Synthesis Recording} {cause : SynthesisFault}
    {gate : Nat} (hupTo : upTo cfg.backend i (start c .empty) = .ok () s)
    (hop : c.ops[i]? = some op) (hstep : step cfg.backend op s = .error (.synthesis cause) t)
    (hcause : cause.kind = "assignment-missing") (hvalues : t.backend.values = s.backend.values)
    (hright : ⟨.b, gate⟩ ∈ ((c.progressAt i).origins op).map Prod.fst)
    (houtput : ⟨.c, gate⟩ ∈ ((c.progressAt i).origins op).map Prod.fst) : c.EndsMissing cfg gate := by
  obtain ⟨hrecorded, -⟩ := upTo_recorded hupTo
  refine ⟨cause, t, run_error_of_step hupTo hop hstep, hcause, ?_, ?_⟩
  · rw [Recording.lookup_congr hvalues, hrecorded.lookup_eq_none (not_mem_originsUpTo hop hright)]
  · rw [Recording.lookup_congr hvalues, hrecorded.lookup_eq_none (not_mem_originsUpTo hop houtput)]

section

variable {i : Nat} {s : Synthesis Recording}
  (hupTo : upTo cfg.backend i (start c .empty) = .ok () s)
include hupTo

/-- The second half of a gate is to be filled, and its value or the product cannot be given. -/
theorem endsMissing_of_closing {op : Op} {value : Expr} {gate : Nat} (hop : c.ops[i]? = some op)
    (hvalue : op = .alloc value ∨ op = .input value) (hpending : s.pending = some gate) :
    (.b ∈ cfg.evaluated → (∃ v, outcome (eval cfg.backend value s) = .ok v) →
      s.backend.visible cfg ⟨.a, gate⟩ = none → c.EndsMissing cfg gate) ∧
    (.c ∈ cfg.evaluated → .b ∉ cfg.evaluated → c.EndsMissing cfg gate) := by
  obtain ⟨-, hprogress⟩ := upTo_recorded hupTo
  have hset : ∀ kind, kind = .b ∨ kind = .c →
      (⟨kind, gate⟩ : Wire) ∈ ((c.progressAt i).origins op).map Prod.fst := by
    have hpending : (c.progressAt i).pending = some gate := hprogress ▸ hpending
    rintro kind (rfl | rfl) <;> rcases hvalue with rfl | rfl <;>
      simp [Progress.origins, Progress.allocOrigins, hpending]
  have hends : ∀ {cause t}, closeHalf cfg.backend gate (eval cfg.backend value) s =
      .error (.synthesis cause) t → cause.kind = "assignment-missing" →
      t.backend.values = s.backend.values → c.EndsMissing cfg gate := fun hclose hcause hvalues =>
    endsMissing_of_step hupTo hop (step_closing_error hvalue hpending hclose) hcause hvalues
      (hset .b (.inl rfl)) (hset .c (.inr rfl))
  refine ⟨fun hright hok hleft => ?_, fun houtput hright => ?_⟩
  · obtain ⟨t, hclose, hvalues⟩ := closeHalf_operandUnset (.eval value) hright hok hleft
    exact hends hclose rfl hvalues
  · obtain ⟨t, hclose, hvalues⟩ := closeHalf_wireUnset (eval cfg.backend value) hright houtput
    exact hends hclose rfl hvalues

theorem endsMissing_of_multiply {values : GateValues} (hop : c.ops[i]? = some (.multiply values))
    (hleft : .a ∉ cfg.evaluated) (hrest : .b ∈ cfg.evaluated ∨ .c ∈ cfg.evaluated) :
    c.EndsMissing cfg (s.gates + 1) := by
  obtain ⟨-, hprogress⟩ := upTo_recorded hupTo
  obtain ⟨w, t, hmultiply, hvalues⟩ :=
    multiply_wireUnset (s := s) (evalGate cfg.backend values) hleft hrest
  have hgates : (c.progressAt i).gates = s.gates := hprogress ▸ rfl
  exact endsMissing_of_step hupTo hop (bind_error hmultiply) rfl hvalues
    (by simp [Progress.origins, hgates]) (by simp [Progress.origins, hgates])

/-- Where everything is evaluated, a gate has a value on its first wire, and on the other two as soon
as the second one has been returned. -/
theorem isSome_lookup (hkinds : ∀ kind ∈ [WireKind.a, .b, .c], kind ∈ cfg.evaluated) {gate : Nat}
    (hone : 1 ≤ gate) (hle : gate ≤ s.gates) :
    (s.backend.lookup ⟨.a, gate⟩).isSome ∧
      ((s.backend.lookup ⟨.b, gate⟩).isSome ↔ ⟨.b, gate⟩ ∈ s.wires) ∧
      ((s.backend.lookup ⟨.c, gate⟩).isSome ↔ ⟨.b, gate⟩ ∈ s.wires) := by
  obtain ⟨hrecorded, hprogress⟩ := upTo_recorded hupTo
  have hcovers := Progress.start_covers.foldl (c.ops.take i)
  change (c.progressAt i).Covers _ at hcovers
  have hset : (c.originsUpTo i).map Prod.fst =
      Wire.one :: ([] ++ (Progress.start.originsFrom (c.ops.take i)).map Prod.fst) := rfl
  rw [← hprogress] at hcovers
  refine ⟨(hrecorded.isSome_iff (hkinds _ (by simp))).2 (hcovers.mem_left gate hone hle), ?_, ?_⟩
  · rw [hrecorded.isSome_iff (hkinds _ (by simp)), hset, List.mem_cons,
      or_iff_right (by simp [Wire.one]), hcovers.mem_right]
    exact Array.mem_toList_iff
  · rw [hrecorded.isSome_iff (hkinds _ (by simp)), hset, List.mem_cons,
      or_iff_right (by simp [Wire.one]), hcovers.mem_output]
    exact Array.mem_toList_iff

end

/-- The values that a recorder keeps are those of a witness. Every call runs its callback at most
once. Wherever the synthesis has come to, also in the middle of an operation, no wire has been set
twice, the output of a gate that an allocation fills is the product of its halves, and the wires of a
multiplication have the values of its list (`WitnessLaw`). Where a value would be needed for that and
is missing, the synthesis ends. If all wires are evaluated, then between two operations the first
wire of every gate has a value, and the other two have one if and only if the second one has been
returned. -/
theorem witness_law (c : Circuit) (cfg : Recorder) :
    (∀ {β ι : Type} (k : Backend β ι),
      RunsOnce (alloc k) ∧ RunsOnce (allocInput k) ∧ RunsOnce (multiply k)) ∧
    (c.Reaches cfg (endState (run cfg.backend c .empty)).backend ∧
      ∀ count, c.Reaches cfg (endState (upTo cfg.backend count (start c .empty))).backend) ∧
    (∀ r, c.Reaches cfg r → c.WitnessLaw cfg r) ∧
    ∀ i s, upTo cfg.backend i (start c .empty) = .ok () s →
      (∀ op value gate, c.ops[i]? = some op → op = .alloc value ∨ op = .input value →
        s.pending = some gate →
        (.b ∈ cfg.evaluated → (∃ v, outcome (eval cfg.backend value s) = .ok v) →
          s.backend.visible cfg ⟨.a, gate⟩ = none → c.EndsMissing cfg gate) ∧
        (.c ∈ cfg.evaluated → .b ∉ cfg.evaluated → c.EndsMissing cfg gate)) ∧
      (∀ values, c.ops[i]? = some (.multiply values) → .a ∉ cfg.evaluated →
        .b ∈ cfg.evaluated ∨ .c ∈ cfg.evaluated → c.EndsMissing cfg (s.gates + 1)) ∧
      ((∀ kind ∈ [WireKind.a, .b, .c], kind ∈ cfg.evaluated) →
        ∀ gate : Nat, 1 ≤ gate → gate ≤ s.gates →
          (s.backend.lookup ⟨.a, gate⟩).isSome ∧
          ((s.backend.lookup ⟨.b, gate⟩).isSome ↔ ⟨.b, gate⟩ ∈ s.wires) ∧
          ((s.backend.lookup ⟨.c, gate⟩).isSome ↔ ⟨.b, gate⟩ ∈ s.wires)) := by
  refine ⟨fun k => ⟨alloc_runsOnce k, allocInput_runsOnce k, multiply_runsOnce k⟩,
    ⟨?_, c.reaches_upTo cfg⟩, fun r h => h.witnessLaw, fun i s hupTo => ⟨?_, ?_, ?_⟩⟩
  · obtain ⟨count, hcount⟩ := run_eq_upTo cfg.backend c .empty
    exact hcount ▸ c.reaches_upTo cfg count
  · exact fun op value gate hop hvalue hpending =>
      endsMissing_of_closing hupTo hop hvalue hpending
  · exact fun values hop hleft hrest => endsMissing_of_multiply hupTo hop hleft hrest
  · exact fun hkinds gate hone hle => isSome_lookup hupTo hkinds hone hle

end Circuit

/-- The constant 1 and 6 share a gate, 4 and 6 the next; a multiplication has the third. -/
def halvesCircuit : Circuit :=
  .ofScript <| .step (.alloc (.const 6)) <| .step (.alloc (.const 4)) <|
    .step (.alloc (.read (.slot 0))) <|
    .step (.multiply (.each [.const 3, .read (.slot 1), .mul (.const 3) (.read (.slot 1))])) .done

/-- All wires of the three gates are evaluated. The first gate cannot be closed if its first wire is
hidden, nor if only the outputs are evaluated; and of a multiplication, the second wire cannot be
evaluated alone. -/
theorem Circuit.witness_law_halves :
    (∃ s, Synthesis.run (Recorder.mk [.a, .b, .c] [] none).backend halvesCircuit .empty = .ok () s ∧
      (∃ left right, s.backend.lookup ⟨.a, 2⟩ = some left ∧ s.backend.lookup ⟨.b, 2⟩ = some right ∧
        24 = left * right) ∧
      (∃ vs, GateValues.valuesAt [⟨.b, 1⟩, ⟨.a, 2⟩, ⟨.b, 2⟩] (s.backend.visible ⟨[.a, .b, .c], [], none⟩)
        (.each [.const 3, .read (.slot 1), .mul (.const 3) (.read (.slot 1))]) = some vs ∧
        vs[2]? = some 12)) ∧
    halvesCircuit.EndsMissing ⟨[.a, .b, .c], [.a], none⟩ 1 ∧
    halvesCircuit.EndsMissing ⟨[.c], [], none⟩ 1 ∧
    (Circuit.ofScript (.step (.multiply (.each [])) .done)).EndsMissing ⟨[.b], [], none⟩ 2 := by
  refine ⟨?_, ?_, ?_, ?_⟩
  · obtain ⟨-, ⟨hreached, -⟩, hlaw, -⟩ := witness_law halvesCircuit ⟨[.a, .b, .c], [], none⟩
    have hrun : outcome (Synthesis.run (Recorder.mk [.a, .b, .c] [] none).backend halvesCircuit
        .empty) = .ok () := by decide +kernel
    obtain ⟨-, hproduct, hlisted⟩ := hlaw _ hreached
    obtain ⟨-, hsecond⟩ := hproduct 2 (.alloc (.read (.slot 0))) 2 rfl rfl (by decide) 24
      (by decide +kernel)
    exact ⟨_, eq_ok_of_outcome hrun, hsecond,
      hlisted 3 _ rfl .c 2 (by simp) 12 (by decide +kernel)⟩
  · obtain ⟨-, -, -, hends⟩ := witness_law halvesCircuit ⟨[.a, .b, .c], [.a], none⟩
    obtain ⟨hclosing, -⟩ := hends 0 _ (eq_ok_of_outcome (by decide +kernel))
    exact (hclosing (.alloc (.const 6)) (.const 6) 1 rfl (.inl rfl) (by decide +kernel)).1 (by decide)
      ⟨6, by decide +kernel⟩ (by decide +kernel)
  · obtain ⟨-, -, -, hends⟩ := witness_law halvesCircuit ⟨[.c], [], none⟩
    obtain ⟨hclosing, -⟩ := hends 0 _ (eq_ok_of_outcome (by decide +kernel))
    exact (hclosing (.alloc (.const 6)) (.const 6) 1 rfl (.inl rfl) (by decide +kernel)).2 (by decide)
      (by decide)
  · obtain ⟨-, -, -, hends⟩ := witness_law (.ofScript (.step (.multiply (.each [])) .done))
      ⟨[.b], [], none⟩
    obtain ⟨-, hmultiply, -⟩ := hends 0 _ (eq_ok_of_outcome (by decide +kernel))
    exact hmultiply (.each []) rfl (by decide) (by decide)

end SnarkBatch
