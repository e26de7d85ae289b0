import SnarkBatch.Text.Quoted

/-!
# Wires

A multiplication gate has three wires, and every gate satisfies `a · b = c`. A wire is named by its
kind and by the index of its gate, counted from 1. Constraints may name wires that no gate has
(another kind, an index out of range): who reads a wire decides what to do about it.
-/

namespace SnarkBatch

inductive WireKind
  | a
  | b
  | c
  | other (name : String)
  deriving DecidableEq, Repr, Inhabited

namespace WireKind

def name : WireKind → String
  | a => "A"
  | b => "B"
  | c => "C"
  | other name => name

def ofName (name : String) : WireKind :=
  if name = "A" then a else if name = "B" then b else if name = "C" then c else other name

theorem name_ofName (s : String) : (ofName s).name = s := by
  unfold ofName
  split
  · simp_all [name]
  · split
    · simp_all [name]
    · split <;> simp_all [name]

end WireKind

structure Wire where
  kind : WireKind
  index : Int
  deriving DecidableEq, Repr, Inhabited

namespace Wire

/-- The wire that carries the constant 1: every synthesis allocates it first. -/
def one : Wire := ⟨.a, 1⟩

/-- The short form `A(1)`. -/
def short (w : Wire) : String := s!"{w.kind.name}({w.index})"

/-- The long form, with the kind quoted. -/
def long (w : Wire) : String :=
  s!"Variable(kind={Quoted.string w.kind.name}, index={w.index})"

end Wire

end SnarkBatch
