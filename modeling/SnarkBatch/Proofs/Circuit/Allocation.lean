import SnarkBatch.Proofs.Circuit.Inputs
import SnarkBatch.Proofs.Circuit.Progress

/-!
# What a circuit allocates

The number of gates of a circuit can be read off its operations: a multiplication takes a gate, and
allocations share one between two of them, as long as no multiplication stands between these
(`Progress.gates_foldl`). Every public input has a constraint of its own, on its wire alone
(`Synthesis.Collected`), and the shape of the circuit names these constraints in order.
`Circuit.allocation_accounted` puts the account of gates, constraints, wires and inputs together.
-/

namespace SnarkBatch

namespace Op

def isMultiply : Op → Bool
  | multiply _ => true
  | _ => false

def isInput : Op → Bool
  | input _ => true
  | _ => false

/-- The operation fills half a gate. -/
def isAllocation : Op → Bool
  | alloc _ | input _ => true
  | _ => false

/-- The number of wires that the operation returns. -/
def returned : Op → Nat
  | alloc _ | input _ => 1
  | multiply _ => 3
  | _ => 0

/-- The wires of the public inputs among the wires that the operations return. -/
def inputWires : List Op → List Wire → List Wire
  | [], _ => []
  | op :: ops, wires =>
    (if op.isInput then wires.take 1 else []) ++ inputWires ops (wires.drop op.returned)

theorem returned_of_isInput {op : Op} (h : op.isInput = true) : op.returned = 1 := by
  cases op with
  | input value => rfl
  | _ => cases h

theorem inputWires_append {op : Op} {new : List Wire} (h : new.length = op.returned)
    (ops : List Op) (more : List Wire) :
    inputWires (op :: ops) (new ++ more) =
      (if op.isInput then new else []) ++ inputWires ops more := by
  rw [inputWires, List.drop_left' h]
  split
  · rename_i hinput
    rw [List.take_left' (h.trans (returned_of_isInput hinput))]
  · rfl

/-- The gates that allocations fill by halves. A multiplication breaks a run of them off. -/
def allocationGates (ops : List Op) : Nat :=
  ((ops.splitOnP isMultiply).map fun run => (run.countP isAllocation + 1) / 2).sum

end Op

/-! ## The gates -/

namespace Progress

def halves (p : Progress) : Nat := p.pending.elim 0 fun _ => 1

/-- A half that is open counts with the first run of allocations. -/
theorem gates_foldl {ops first : List Op} {rest : List (List Op)}
    (hruns : ops.splitOnP Op.isMultiply = first :: rest) (p : Progress) :
    (ops.foldl after p).gates + p.halves =
      p.gates + ops.countP Op.isMultiply + (p.halves + first.countP Op.isAllocation + 1) / 2 +
        (rest.map fun run => (run.countP Op.isAllocation + 1) / 2).sum := by
  induction ops generalizing p first rest with
  | nil =>
    obtain ⟨rfl, rfl⟩ := List.cons.inj hruns
    have hhalves : p.halves ≤ 1 := by unfold halves; cases p.pending <;> simp
    simp
    omega
  | cons op ops ih =>
    obtain ⟨first', rest', hruns'⟩ :=
      List.exists_cons_of_ne_nil (List.splitOnP_ne_nil Op.isMultiply ops)
    rw [List.splitOnP_cons_eq_if_modifyHead, hruns'] at hruns
    have ih := ih hruns' (p.after op)
    obtain ⟨pending, gates, constraints, wires⟩ := p
    cases op with
    | multiply values =>
      obtain ⟨rfl, rfl⟩ := List.cons.inj hruns
      cases pending <;>
        simp [Op.isMultiply, List.countP_cons, after, halves] at ih ⊢ <;> omega
    | alloc value | input value =>
      obtain ⟨rfl, rfl⟩ := List.cons.inj hruns
      cases pending <;>
        simp [Op.isMultiply, Op.isAllocation, List.countP_cons, after, Progress.alloc, halves] at ih ⊢ <;>
        omega
    | enforce terms | read ref | fail kind message =>
      obtain ⟨rfl, rfl⟩ := List.cons.inj hruns
      simpa [Op.isMultiply, Op.isAllocation, List.countP_cons, after, halves] using ih

theorem gates_foldl_start (ops : List Op) :
    (ops.foldl after start).gates =
      ops.countP Op.isMultiply + Op.allocationGates (.input (.const 1) :: ops) := by
  obtain ⟨first, rest, hruns⟩ :=
    List.exists_cons_of_ne_nil (List.splitOnP_ne_nil Op.isMultiply ops)
  have hgates := gates_foldl hruns start
  have hsplit : (Op.input (.const 1) :: ops).splitOnP Op.isMultiply =
      (.input (.const 1) :: first) :: rest := by
    rw [List.splitOnP_cons_eq_if_modifyHead, hruns]
    rfl
  have hfirst : (Op.input (.const 1) :: first).countP Op.isAllocation =
      first.countP Op.isAllocation + 1 := List.countP_cons_of_pos rfl
  rw [Op.allocationGates, hsplit, List.map_cons, List.sum_cons, hfirst]
  rw [show start.halves = 1 from rfl, show start.gates = 1 from rfl] at hgates
  omega

theorem Sound.foldl {p : Progress} (h : p.Sound) (ops : List Op) :
    (ops.foldl Progress.after p).Sound := by
  induction ops generalizing p with
  | nil => exact h
  | cons op ops ih => exact ih (h.after op)

end Progress

/-! ## The public inputs -/

namespace Synthesis

/-- The counters of the outline are those of the driver. Each of its inputs names a constraint whose
only term is the wire of that input, the constant 1 being the first. -/
structure Collected (inputs : List Wire) (t : Synthesis Outline) : Prop where
  gates_eq : t.backend.gates = t.gates
  constraints_eq : t.backend.constraints.length = t.constraints
  head_eq : t.backend.inputs.head? = some 1
  constraint_eq : List.Forall₂ (fun q w => t.backend.constraints[q - 1]? = some ⟨[(w, .one none)]⟩)
    t.backend.inputs inputs

theorem beforeScript_collected (c : Circuit) : Collected [.one] (beforeScript c) :=
  ⟨rfl, rfl, rfl, .cons rfl .nil⟩

namespace Collected

variable {inputs : List Wire} {t t' : Synthesis Outline}

theorem congr (h : t.Collected inputs) (hbackend : t'.backend = t.backend)
    (hgates : t'.gates = t.gates) (hconstraints : t'.constraints = t.constraints) :
    t'.Collected inputs := by
  obtain ⟨gates_eq, constraints_eq, head_eq, constraint_eq⟩ := h
  rw [← hbackend] at gates_eq constraints_eq head_eq constraint_eq
  exact ⟨gates_eq.trans hgates.symm, constraints_eq.trans hconstraints.symm, head_eq, constraint_eq⟩

theorem append_nil (h : t.Collected inputs) : t.Collected (inputs ++ []) :=
  (List.append_nil inputs).symm ▸ h

theorem addGate (h : t.Collected inputs) :
    Collected inputs { t with gates := t.gates + 1, backend := t.backend.addGate } :=
  ⟨congrArg Nat.succ h.gates_eq, h.constraints_eq, h.head_eq, h.constraint_eq⟩

/-- A new constraint leaves those of the inputs where they are. -/
theorem addConstraint (h : t.Collected inputs) (lc : LinearCombination) :
    Collected inputs
      { t with constraints := t.constraints + 1, backend := t.backend.addConstraint lc } := by
  refine ⟨h.gates_eq, ?_, h.head_eq, h.constraint_eq.imp fun q w hq => ?_⟩
  · rw [t.backend.length_addConstraint, h.constraints_eq]
  · obtain ⟨hlt, -⟩ := List.getElem?_eq_some_iff.1 hq
    exact (List.getElem?_append_left hlt).trans hq

theorem addInput (h : t.Collected inputs) (w : Wire) :
    Collected (inputs ++ [w])
      { t with
        constraints := t.constraints + 1
        backend := (t.backend.addConstraint ⟨[(w, .one none)]⟩).addInput (t.constraints + 1) } := by
  have hadded := h.addConstraint ⟨[(w, .one none)]⟩
  refine ⟨h.gates_eq, hadded.constraints_eq, ?_, List.rel_append hadded.constraint_eq (.cons ?_ .nil)⟩
  · show (t.backend.inputs ++ [t.constraints + 1]).head? = some 1
    rw [List.head?_append, h.head_eq, Option.some_or]
  · show (t.backend.constraints ++ [_])[t.constraints + 1 - 1]? = _
    rw [Nat.add_sub_cancel, ← h.constraints_eq, List.getElem?_concat_length]

theorem alloc (h : t.Collected inputs) {v : Build Outline Fr} {w : Wire}
    (hrun : Synthesis.alloc Outline.collector v t = .ok w t') :
    t'.Collected inputs ∧ t'.wires = t.wires := by
  obtain ⟨⟨hbackend, hgates⟩ | ⟨hbackend, hgates⟩, hconstraints, hwires⟩ := alloc_collector hrun
  · exact ⟨h.congr hbackend hgates hconstraints, hwires⟩
  · exact ⟨h.addGate.congr hbackend hgates hconstraints, hwires⟩

end Collected

theorem step_collected {op : Op} {inputs : List Wire} {t t' : Synthesis Outline}
    (ht : t.Collected inputs) (h : step Outline.collector op t = .ok () t') :
    ∃ new, t'.wires.toList = t.wires.toList ++ new ∧ new.length = op.returned ∧
      t'.Collected (inputs ++ if op.isInput then new else []) := by
  cases op with
  | alloc value =>
    obtain ⟨w, t₁, halloc, rfl⟩ := exists_of_step_alloc h
    obtain ⟨ht₁, hwires⟩ := ht.alloc halloc
    refine ⟨[w], by simp [hwires], rfl, Collected.append_nil ?_⟩
    exact ht₁.congr rfl rfl rfl
  | input value =>
    obtain ⟨w, t₁, halloc, rfl⟩ := exists_of_step_input h
    obtain ⟨ht₁, hwires⟩ := ht.alloc halloc
    exact ⟨[w], by simp [hwires], rfl, (ht₁.addInput w).congr rfl rfl rfl⟩
  | multiply values =>
    obtain rfl : _ = t' := (EStateM.Result.ok.inj h).2
    refine ⟨[⟨.a, t.gates + 1⟩, ⟨.b, t.gates + 1⟩, ⟨.c, t.gates + 1⟩], by simp, rfl,
      Collected.append_nil ?_⟩
    exact ht.addGate.congr rfl rfl rfl
  | enforce terms =>
    obtain ⟨lc, -, henforce⟩ := exists_of_step_enforce h
    rw [enforce_collector] at henforce
    cases henforce
    exact ⟨[], (List.append_nil _).symm, rfl, (ht.addConstraint lc).append_nil⟩
  | read ref => exact absurd h (step_read_collector ref t t')
  | fail kind message => cases h

theorem forM_collected {ops : List Op} {inputs : List Wire} {t t' : Synthesis Outline}
    (ht : t.Collected inputs) (h : ops.forM (step Outline.collector) t = .ok () t') :
    ∃ new, t'.wires.toList = t.wires.toList ++ new ∧
      (Op.inputWires ops new).length = ops.countP Op.isInput ∧
      t'.Collected (inputs ++ Op.inputWires ops new) := by
  induction ops generalizing inputs t with
  | nil =>
    cases h
    exact ⟨[], (List.append_nil _).symm, rfl, ht.append_nil⟩
  | cons op ops ih =>
    obtain ⟨_, t₁, hstep, hrest⟩ := exists_of_run_ok h
    obtain ⟨new, hwires, hlength, ht₁⟩ := step_collected ht hstep
    obtain ⟨more, hmore, hcount, ht'⟩ := ih ht₁ hrest
    refine ⟨new ++ more, by rw [hmore, hwires, List.append_assoc], ?_, ?_⟩
    · rw [Op.inputWires_append hlength, List.length_append, hcount, List.countP_cons, add_comm]
      refine congrArg _ ?_
      split
      · rename_i hinput
        exact hlength.trans (Op.returned_of_isInput hinput)
      · rfl
    · rwa [Op.inputWires_append hlength, ← List.append_assoc]

/-- A pass that comes to its end on the collector leaves the driver where its operations take it,
and the collector with a constraint for each of its inputs. -/
theorem run_collected {c : Circuit} {script : Script} (hcurrent : c.current = some script)
    {t : Synthesis Outline} (h : run Outline.collector c .empty = .ok () t) :
    t.progress = script.unroll.foldl Progress.after .start ∧
      (Op.inputWires script.unroll t.wires.toList).length = script.unroll.countP Op.isInput ∧
      t.Collected (.one :: Op.inputWires script.unroll t.wires.toList) := by
  rw [run_collector_some hcurrent, Script.forM_eq_unroll_forM] at h
  obtain ⟨new, hwires, hcount, ht⟩ := forM_collected (beforeScript_collected c.advance) h
  obtain rfl : t.wires.toList = new := hwires
  exact ⟨forM_progress h, hcount, ht⟩

end Synthesis

namespace Circuit

open Synthesis

/-- Gates, constraints and wires are accounted for. On every backend, wherever the synthesis of a
circuit has come to, even if it has stopped with an error, also in the middle of an operation: the
driver has counted the gates and the constraints that it has told the backend about, and the
constant 1 and the wires returned are different wires of these gates. A gate that is half open after
an operation is the last. A recorder has these gates and constraints among its events. A pass that
can be measured has a gate for every multiplication and for every two allocations in a row, and its
inputs are, in order, the numbers of constraints whose only term is an input, of which the constant
1 is the first. -/
theorem allocation_accounted (c : Circuit) :
    (∀ {β ι : Type} (k : Backend β ι) (b : β),
      (∃ count, run k c b = mapEnd (into c Prod.fst) (upTo k.traced count (start c (b, [])))) ∧
      ∀ count, (endState (upTo k.traced count (start c (b, [])))).Accounted ∧
        ∀ s, upTo k.traced count (start c (b, [])) = .ok () s →
          s.pending = none ∨ s.pending = some s.gates) ∧
    (∀ (cfg : Recorder) s, endState (run cfg.backend c .empty) = s →
      s.gates = s.backend.structural.count .gate ∧
      s.constraints = s.backend.structural.count .constraint) ∧
    ∀ script s, c.current = some script → run Shape.counter c .empty = .ok () s →
      s.backend.gates = s.gates ∧ s.backend.constraints = s.constraints ∧
      s.gates = script.unroll.countP Op.isMultiply +
        Op.allocationGates (.input (.const 1) :: script.unroll) ∧
      s.backend.inputs.length = 1 + script.unroll.countP Op.isInput ∧
      s.backend.inputs.Pairwise (· < ·) ∧ (∀ q ∈ s.backend.inputs, 1 ≤ q ∧ q ≤ s.constraints) ∧
      s.backend.inputs.head? = some 1 ∧
      List.Forall₂ (fun q w => c.outline.constraints[q - 1]? = some ⟨[(w, .one none)]⟩)
        s.backend.inputs (.one :: Op.inputWires script.unroll s.wires.toList) := by
  refine ⟨fun k b => ⟨?_, fun count => ?_⟩, ?_, fun script s hcurrent hrun => ?_⟩
  · obtain ⟨count, hcount⟩ := run_eq_upTo k.traced c (b, [])
    exact ⟨count, (run_traced k c b).trans (congrArg _ hcount)⟩
  · obtain ⟨haccounted, hprogress⟩ := upTo_accounted k c b count
    refine ⟨haccounted, fun s hs => ?_⟩
    obtain ⟨script, -, hs⟩ := hprogress s hs
    have hsound := Progress.start_sound.foldl (script.unroll.take count)
    rw [← hs] at hsound
    cases hpending : s.pending with
    | none => exact .inl rfl
    | some gate => exact .inr (congrArg some (hsound.pending_eq gate hpending).1)
  · rintro cfg _ rfl
    obtain ⟨count, hcount⟩ := run_eq_upTo cfg.backend.traced c (Recording.empty, [])
    obtain ⟨hgates, hconstraints⟩ := (upTo_accounted cfg.backend c .empty count).1.toTallied
    rw [← hcount] at hgates hconstraints
    rw [← trace_recorder, run_traced, endState_mapEnd]
    exact ⟨hgates, hconstraints⟩
  · obtain ⟨pass, shape, hend, rfl⟩ :=
      run_eq Shape.counter_tracks (rfl : Shape.empty = Outline.empty.shape) (d := c) rfl rfl
    cases ht : run Outline.collector c .empty with
    | error e t =>
      rw [hend, ht] at hrun
      cases hrun
    | ok _ t =>
      rw [hend, ht] at hrun
      cases hrun
      have houtline : c.outline = t.backend := by rw [outline, ht]; rfl
      obtain ⟨hprogress, hcount, hgates, hconstraints, hhead, hinputs⟩ := run_collected hcurrent ht
      obtain ⟨hsorted, hrange⟩ := c.outline_inputs_ordered
      have hlength := hinputs.length_eq
      rw [List.length_cons, hcount] at hlength
      rw [houtline] at hsorted hrange ⊢
      refine ⟨hgates, hconstraints, ?_, hlength.trans (Nat.add_comm _ _), hsorted, ?_, hhead, hinputs⟩
      · exact (congrArg Progress.gates hprogress).trans (Progress.gates_foldl_start _)
      · rwa [hconstraints] at hrange

end Circuit

/-- A circuit that mixes allocations and multiplications: the half gate that is open at a
multiplication is dropped. -/
def interleavedCircuit : Circuit :=
  .ofScript <| .loop 2
    (.step (.alloc (.const 1)) <| .step (.multiply (.each [.const 1, .const 1, .const 1])) .done) <|
    .step (.input (.const 1)) .done

/-- The constant 1 shares its gate with the first allocation, the others have gates of their own. -/
theorem interleavedCircuit_accounted :
    ∃ script s, interleavedCircuit.current = some script ∧
      Synthesis.run Shape.counter interleavedCircuit .empty = .ok () s ∧
      script.unroll.countP Op.isMultiply = 2 ∧
      Op.allocationGates (.input (.const 1) :: script.unroll) = 3 ∧ s.backend.gates = 5 ∧
      s.backend.inputs.length = 2 ∧ s.backend.inputs.head? = some 1 := by
  have hrun : outcome (Synthesis.run Shape.counter interleavedCircuit .empty) = .ok () := by
    decide +kernel
  obtain ⟨-, -, hmeasured⟩ := Circuit.allocation_accounted interleavedCircuit
  obtain ⟨hgates, -, hcount, hlength, -, -, hhead, -⟩ := hmeasured _ _ rfl (eq_ok_of_outcome hrun)
  exact ⟨_, _, rfl, eq_ok_of_outcome hrun, by decide, by decide, hgates.trans hcount, hlength, hhead⟩

end SnarkBatch
