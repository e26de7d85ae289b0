import SnarkBatch.Proofs.Circuit.Allocation
import SnarkBatch.Proofs.Circuit.Recording

/-!
# The wires that a circuit sets

Which wires are set, in which order, and where their values come from depends on the operations
alone: `Progress.origins` says it of one operation and `Circuit.origins` of a pass. No wire is among
them twice (`Circuit.nodup_origins`). After any number of operations, the first wire of every gate
has been set, and the other two of those gates whose second wire has been returned
(`Progress.Covers`).
-/

namespace SnarkBatch

namespace Progress

def allocOrigins (p : Progress) (value : Expr) : List (Wire × Origin) :=
  match p.pending with
  | some gate => [(⟨.b, gate⟩, .expression value p.wires), (⟨.c, gate⟩, .product gate)]
  | none => [(⟨.a, p.gates + 1⟩, .expression value p.wires)]

/-- The wires that an operation sets, in this order. -/
def origins (p : Progress) : Op → List (Wire × Origin)
  | .alloc value | .input value => p.allocOrigins value
  | .multiply values =>
    [(⟨.a, p.gates + 1⟩, .component values 0 p.wires),
      (⟨.b, p.gates + 1⟩, .component values 1 p.wires),
      (⟨.c, p.gates + 1⟩, .component values 2 p.wires)]
  | .enforce _ | .read _ | .fail .. => []

/-- The wires that operations set from here on. -/
def originsFrom (p : Progress) : List Op → List (Wire × Origin)
  | [] => []
  | op :: ops => p.origins op ++ (p.after op).originsFrom ops

theorem originsFrom_append (p : Progress) (ops more : List Op) :
    p.originsFrom (ops ++ more) = p.originsFrom ops ++ (ops.foldl after p).originsFrom more := by
  induction ops generalizing p with
  | nil => rfl
  | cons op ops ih =>
    rw [List.cons_append, originsFrom, ih, originsFrom, List.append_assoc, List.foldl_cons]

/-- The account of the wires that have been set after the constant 1: they are different wires of the
gates, the second half of a gate that is open is not among them, and the gates have been set as far
as their wires have been returned. -/
structure Covers (p : Progress) (set : List Wire) : Prop extends Wire.Allocated p.gates set where
  pending_eq : ∀ gate, p.pending = some gate →
    gate = p.gates ∧ ⟨.b, gate⟩ ∉ set ∧ ⟨.c, gate⟩ ∉ set
  mem_left : ∀ gate : Nat, 1 ≤ gate → gate ≤ p.gates → ⟨.a, gate⟩ ∈ Wire.one :: set
  mem_right : ∀ gate : Nat, ⟨.b, gate⟩ ∈ set ↔ ⟨.b, gate⟩ ∈ p.wires
  mem_output : ∀ gate : Nat, ⟨.c, gate⟩ ∈ set ↔ ⟨.b, gate⟩ ∈ p.wires

theorem start_covers : start.Covers [] where
  toAllocated := start_sound.toAllocated
  pending_eq := by
    rintro gate ⟨⟩
    exact ⟨rfl, List.not_mem_nil, List.not_mem_nil⟩
  mem_left gate hone hle := by
    obtain rfl : gate = 1 := Nat.le_antisymm hle hone
    exact .head _
  mem_right _ := .rfl
  mem_output _ := by simp [start]

namespace Covers

variable {p : Progress} {set : List Wire}

theorem mem_left_succ (h : p.Covers set) {new : List Wire} (hnew : ⟨.a, p.gates + 1⟩ ∈ new) :
    ∀ gate : Nat, 1 ≤ gate → gate ≤ p.gates + 1 → ⟨.a, gate⟩ ∈ Wire.one :: (set ++ new) := by
  intro gate hone hle
  rw [← List.cons_append]
  rcases Nat.lt_or_eq_of_le hle with hlt | rfl
  · exact List.mem_append_left _ (h.mem_left gate hone (Nat.le_of_lt_succ hlt))
  · exact List.mem_append_right _ hnew

theorem alloc (h : p.Covers set) (value : Expr) :
    p.alloc.Covers (set ++ (p.allocOrigins value).map Prod.fst) := by
  unfold Progress.alloc allocOrigins
  cases hpending : p.pending with
  | some gate =>
    obtain ⟨rfl, hright, houtput⟩ := h.pending_eq gate hpending
    have hone : 1 ≤ (p.gates : Int) := (h.inGates .one (.head _)).le
    have hfresh : ∀ w ∈ [(⟨.b, p.gates⟩ : Wire), ⟨.c, p.gates⟩],
        w ∉ Wire.one :: set ∧ w.InGates p.gates := by
      simp only [List.forall_mem_cons]
      exact ⟨⟨by simp [Wire.one, hright], .inr (.inl rfl), hone, le_rfl⟩,
        ⟨by simp [Wire.one, houtput], .inr (.inr rfl), hone, le_rfl⟩, fun _ hw => by cases hw⟩
    exact {
      toAllocated := h.append le_rfl (by simp) hfresh
      pending_eq := fun _ hnone => by cases hnone
      mem_left := fun gate hone hle => List.mem_append_left [_, _] (h.mem_left gate hone hle)
      mem_right := fun gate => by simp [h.mem_right]
      mem_output := fun gate => by simp [h.mem_output] }
  | none =>
    have hnew := h.next (.inl rfl)
    refine {
      toAllocated := h.append (Nat.le_succ _) (List.nodup_singleton _)
        (List.forall_mem_singleton.2 hnew)
      pending_eq := ?_
      mem_left := h.mem_left_succ (List.mem_singleton_self _)
      mem_right := fun gate => by simp [h.mem_right]
      mem_output := fun gate => by simp [h.mem_output] }
    rintro gate ⟨⟩
    have hright := (h.next (.inr (.inl rfl))).1
    have houtput := (h.next (.inr (.inr rfl))).1
    simp only [List.mem_cons, not_or] at hright houtput
    simp [hright.2, houtput.2]

theorem after (h : p.Covers set) (op : Op) :
    (p.after op).Covers (set ++ (p.origins op).map Prod.fst) := by
  cases op with
  | alloc value => exact h.alloc value
  | input value =>
    have halloc := h.alloc value
    exact ⟨halloc.toAllocated, halloc.pending_eq, halloc.mem_left, halloc.mem_right,
      halloc.mem_output⟩
  | multiply values =>
    have hfresh : ∀ w ∈ [(⟨.a, p.gates + 1⟩ : Wire), ⟨.b, p.gates + 1⟩, ⟨.c, p.gates + 1⟩],
        w ∉ Wire.one :: set ∧ w.InGates (p.gates + 1) := by
      simp only [List.forall_mem_cons]
      exact ⟨h.next (.inl rfl), h.next (.inr (.inl rfl)), h.next (.inr (.inr rfl)),
        fun _ hw => by cases hw⟩
    have hnodup : [(⟨.a, p.gates + 1⟩ : Wire), ⟨.b, p.gates + 1⟩, ⟨.c, p.gates + 1⟩].Nodup := by simp
    exact {
      toAllocated := h.append (Nat.le_succ _) hnodup hfresh
      pending_eq := fun _ hnone => by cases hnone
      mem_left := h.mem_left_succ (.head _)
      mem_right := fun gate => by simp [Progress.after, h.mem_right, origins]
      mem_output := fun gate => by simp [Progress.after, h.mem_output, origins] }
  | enforce terms | read ref | fail kind message =>
    exact (List.append_nil set).symm ▸
      ⟨h.toAllocated, h.pending_eq, h.mem_left, h.mem_right, h.mem_output⟩

theorem foldl (h : p.Covers set) (ops : List Op) :
    (ops.foldl Progress.after p).Covers (set ++ (p.originsFrom ops).map Prod.fst) := by
  induction ops generalizing p set with
  | nil => exact (List.append_nil set).symm ▸ h
  | cons op ops ih =>
    rw [originsFrom, List.map_append, ← List.append_assoc]
    exact ih (h.after op)

end Covers

end Progress

namespace Circuit

def ops (c : Circuit) : List Op := c.current.elim [] Script.unroll

/-- The progress of the next pass after a number of operations. -/
def progressAt (c : Circuit) (count : Nat) : Progress :=
  (c.ops.take count).foldl Progress.after .start

/-- The wires that the first operations of the next pass set, the constant 1 being the first. -/
def originsUpTo (c : Circuit) (count : Nat) : List (Wire × Origin) :=
  (.one, .expression (.const 1) []) :: Progress.start.originsFrom (c.ops.take count)

/-- The wires that the next pass sets. -/
def origins (c : Circuit) : List (Wire × Origin) :=
  (.one, .expression (.const 1) []) :: Progress.start.originsFrom c.ops

theorem originsUpTo_prefix (c : Circuit) (count : Nat) : c.originsUpTo count <+: c.origins := by
  have hsplit := Progress.originsFrom_append .start (c.ops.take count) (c.ops.drop count)
  rw [List.take_append_drop] at hsplit
  rw [originsUpTo, origins, hsplit]
  exact (List.prefix_cons_inj _).2 (List.prefix_append _ _)

theorem nodup_origins (c : Circuit) : (c.origins.map Prod.fst).Nodup :=
  (Progress.start_covers.foldl c.ops).nodup

theorem nodup_originsUpTo (c : Circuit) (count : Nat) :
    ((c.originsUpTo count).map Prod.fst).Nodup :=
  c.nodup_origins.sublist ((c.originsUpTo_prefix count).map Prod.fst).sublist

section

variable {c : Circuit} {i : Nat} {op : Op}

/-- The wires that an operation sets follow those of the operations before it. -/
theorem exists_origins_eq (hop : c.ops[i]? = some op) :
    ∃ rest, c.origins = c.originsUpTo i ++ ((c.progressAt i).origins op ++ rest) := by
  obtain ⟨hlt, rfl⟩ := List.getElem?_eq_some_iff.1 hop
  have hsplit := Progress.originsFrom_append .start (c.ops.take i) (c.ops.drop i)
  rw [List.take_append_drop, List.drop_eq_getElem_cons hlt, Progress.originsFrom] at hsplit
  rw [origins, hsplit]
  exact ⟨_, rfl⟩

theorem mem_origins (hop : c.ops[i]? = some op) {wire : Wire × Origin}
    (hwire : wire ∈ (c.progressAt i).origins op) : wire ∈ c.origins := by
  obtain ⟨rest, hsplit⟩ := exists_origins_eq hop
  rw [hsplit]
  exact List.mem_append_right _ (List.mem_append_left _ hwire)

theorem not_mem_originsUpTo (hop : c.ops[i]? = some op) {w : Wire}
    (hw : w ∈ ((c.progressAt i).origins op).map Prod.fst) :
    w ∉ (c.originsUpTo i).map Prod.fst := by
  obtain ⟨rest, hsplit⟩ := exists_origins_eq hop
  have hnodup := c.nodup_origins
  rw [hsplit, List.map_append, List.map_append] at hnodup
  exact fun hmem => (List.nodup_append'.1 hnodup).2.2 hmem (List.mem_append_left _ hw)

end

theorem origin_unique {c : Circuit} {w : Wire} {o o' : Origin} (ho : (w, o) ∈ c.origins)
    (ho' : (w, o') ∈ c.origins) : o = o' :=
  congrArg Prod.snd (List.inj_on_of_nodup_map c.nodup_origins ho ho' rfl)

end Circuit

end SnarkBatch
