/-!
# Residues

A `Residue m` is an integer modulo `m`, kept as its representative below `m`; the lemmas `val_add`,
`val_sub`, `val_neg` and `val_mul` say which representative each operation gives. The inverse is the
power `m - 2`: for a prime `m` that is the multiplicative inverse, and it sends 0 to 0, so division
by zero gives zero.
-/

namespace SnarkBatch

/-- A number other than 0, so that there are residues modulo it. -/
class Modulus (m : Nat) : Prop where
  pos : 0 < m

structure Residue (m : Nat) where
  val : Nat
  val_lt : val < m
  deriving DecidableEq, Repr

namespace Residue

variable {m : Nat}

@[ext] theorem ext {a b : Residue m} (h : a.val = b.val) : a = b := by
  cases a; cases b; cases h; rfl

theorem modulus_pos (a : Residue m) : 0 < m := Nat.zero_lt_of_lt a.val_lt

def ofNat [Modulus m] (n : Nat) : Residue m := ⟨n % m, Nat.mod_lt _ Modulus.pos⟩

/-- Negative integers go to their non-negative remainder. -/
def ofInt [Modulus m] (i : Int) : Residue m := ofNat (i % (m : Int)).toNat

instance [Modulus m] : Zero (Residue m) := ⟨ofNat 0⟩
instance [Modulus m] : One (Residue m) := ⟨ofNat 1⟩
instance [Modulus m] : Inhabited (Residue m) := ⟨0⟩

def add (a b : Residue m) : Residue m :=
  let sum := a.val + b.val
  if h : sum < m then ⟨sum, h⟩
  else ⟨sum - m, by have := a.val_lt; have := b.val_lt; omega⟩

def sub (a b : Residue m) : Residue m :=
  if h : b.val ≤ a.val then ⟨a.val - b.val, by have := a.val_lt; omega⟩
  else ⟨a.val + m - b.val, by have := a.val_lt; have := b.val_lt; omega⟩

def neg (a : Residue m) : Residue m :=
  if h : a.val = 0 then a else ⟨m - a.val, by have := a.val_lt; omega⟩

def mul (a b : Residue m) : Residue m := ⟨a.val * b.val % m, Nat.mod_lt _ a.modulus_pos⟩

instance : Add (Residue m) := ⟨add⟩
instance : Sub (Residue m) := ⟨sub⟩
instance : Neg (Residue m) := ⟨neg⟩
instance : Mul (Residue m) := ⟨mul⟩

/-- `a · b + c · d`, reduced once. -/
def sumOfProducts (a b c d : Residue m) : Residue m :=
  ⟨(a.val * b.val + c.val * d.val) % m, Nat.mod_lt _ a.modulus_pos⟩

/-- Square and multiply, from the lowest bit of the exponent. -/
def pow [Modulus m] (a : Residue m) (n : Nat) : Residue m :=
  if _h : n = 0 then 1
  else
    let half := (a * a).pow (n / 2)
    if n % 2 = 0 then half else half * a
termination_by n
decreasing_by omega

instance [Modulus m] : Pow (Residue m) Nat := ⟨pow⟩
instance [Modulus m] : Inv (Residue m) := ⟨fun a => a ^ (m - 2)⟩
instance [Modulus m] : Div (Residue m) := ⟨fun a b => a * b⁻¹⟩

/-! ## Representatives -/

@[simp] theorem val_ofNat [Modulus m] (n : Nat) : (ofNat n : Residue m).val = n % m := rfl
@[simp] theorem val_zero [Modulus m] : (0 : Residue m).val = 0 := Nat.zero_mod m
theorem val_one [Modulus m] : (1 : Residue m).val = 1 % m := rfl

theorem val_add (a b : Residue m) : (a + b).val = (a.val + b.val) % m := by
  have ha := a.val_lt
  have hb := b.val_lt
  by_cases h : a.val + b.val < m
  · have e : a + b = ⟨a.val + b.val, h⟩ := dif_pos h
    rw [e, Nat.mod_eq_of_lt h]
  · have e : a + b = ⟨a.val + b.val - m, by omega⟩ := dif_neg h
    rw [e, Nat.mod_eq_sub_mod (by omega), Nat.mod_eq_of_lt (by omega)]

theorem val_sub (a b : Residue m) : (a - b).val = (a.val + (m - b.val)) % m := by
  have ha := a.val_lt
  have hb := b.val_lt
  by_cases h : b.val ≤ a.val
  · have e : a - b = ⟨a.val - b.val, by omega⟩ := dif_pos h
    rw [e, show a.val + (m - b.val) = a.val - b.val + m by omega, Nat.add_mod_right,
      Nat.mod_eq_of_lt (by omega)]
  · have e : a - b = ⟨a.val + m - b.val, by omega⟩ := dif_neg h
    rw [e, Nat.mod_eq_of_lt (by omega)]
    show a.val + m - b.val = a.val + (m - b.val)
    omega

theorem val_neg (a : Residue m) : (-a).val = (m - a.val) % m := by
  have ha := a.val_lt
  by_cases h : a.val = 0
  · have e : -a = a := dif_pos h
    rw [e, h, Nat.sub_zero, Nat.mod_self]
  · have e : -a = ⟨m - a.val, by omega⟩ := dif_neg h
    rw [e, Nat.mod_eq_of_lt (by omega)]

theorem val_mul (a b : Residue m) : (a * b).val = a.val * b.val % m := rfl

theorem sumOfProducts_eq (a b c d : Residue m) : sumOfProducts a b c d = a * b + c * d := by
  apply ext
  rw [val_add, val_mul, val_mul, ← Nat.add_mod]
  rfl

theorem ofNat_val [Modulus m] (a : Residue m) : ofNat a.val = a :=
  ext (Nat.mod_eq_of_lt a.val_lt)

end Residue

end SnarkBatch
