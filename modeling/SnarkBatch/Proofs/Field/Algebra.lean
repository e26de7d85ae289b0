import Mathlib.FieldTheory.Finite.Basic
import SnarkBatch.Circuit.Recorder
import SnarkBatch.Commitment
import SnarkBatch.ConstraintPolynomial.AtX
import SnarkBatch.Curve.Groups
import SnarkBatch.Verifier.Basic

/-!
# Residues as a ring

The operations on representatives are those of `ZMod m`: `toZMod` carries one to the other and
is injective, so `Residue m` is a commutative ring, and a field when `m` is prime. The ring uses
the operations of `Residue` themselves; only the laws come from `ZMod m`.
-/

namespace SnarkBatch.Residue

variable {m : Nat}

/-- The class of a residue. -/
def toZMod (a : Residue m) : ZMod m := a.val

theorem toZMod_injective : Function.Injective (toZMod : Residue m → ZMod m) := by
  intro a b h
  apply ext
  have := congrArg ZMod.val h
  rwa [toZMod, toZMod, ZMod.val_natCast_of_lt a.val_lt, ZMod.val_natCast_of_lt b.val_lt] at this

@[simp] theorem toZMod_add (a b : Residue m) : toZMod (a + b) = toZMod a + toZMod b := by
  rw [toZMod, val_add, ZMod.natCast_mod, Nat.cast_add]
  rfl

@[simp] theorem toZMod_mul (a b : Residue m) : toZMod (a * b) = toZMod a * toZMod b := by
  rw [toZMod, val_mul, ZMod.natCast_mod, Nat.cast_mul]
  rfl

@[simp] theorem toZMod_neg (a : Residue m) : toZMod (-a) = -toZMod a := by
  rw [toZMod, val_neg, ZMod.natCast_mod, Nat.cast_sub a.val_lt.le, ZMod.natCast_self, zero_sub]
  rfl

@[simp] theorem toZMod_sub (a b : Residue m) : toZMod (a - b) = toZMod a - toZMod b := by
  rw [toZMod, val_sub, ZMod.natCast_mod, Nat.cast_add, Nat.cast_sub b.val_lt.le,
    ZMod.natCast_self, zero_sub, ← sub_eq_add_neg]
  rfl

variable [Modulus m]

instance : NeZero m := ⟨Modulus.pos.ne.symm⟩

@[simp] theorem toZMod_ofNat (n : Nat) : toZMod (ofNat n : Residue m) = n := by
  rw [toZMod, val_ofNat, ZMod.natCast_mod]

@[simp] theorem toZMod_ofInt (i : Int) : toZMod (ofInt i : Residue m) = i := by
  have hm : (m : Int) ≠ 0 := Int.natCast_ne_zero.2 (NeZero.ne m)
  rw [ofInt, toZMod_ofNat, ← Int.cast_natCast, Int.toNat_of_nonneg (Int.emod_nonneg i hm),
    ZMod.intCast_mod]

@[simp] theorem toZMod_zero : toZMod (0 : Residue m) = 0 := by
  rw [show (0 : Residue m) = ofNat 0 from rfl, toZMod_ofNat, Nat.cast_zero]

@[simp] theorem toZMod_one : toZMod (1 : Residue m) = 1 := by
  rw [show (1 : Residue m) = ofNat 1 from rfl, toZMod_ofNat, Nat.cast_one]

/-- Squaring and multiplying computes the power. -/
@[simp] theorem toZMod_pow (a : Residue m) (n : Nat) : toZMod (a ^ n) = toZMod a ^ n := by
  show toZMod (a.pow n) = toZMod a ^ n
  induction a, n using pow.induct with
  | case1 a => rw [pow, dif_pos rfl, toZMod_one, pow_zero]
  | case2 a n hn hpar ih =>
    rw [pow, dif_neg hn, if_pos hpar, ih, toZMod_mul, ← sq, ← pow_mul,
      Nat.mul_div_cancel' (Nat.dvd_of_mod_eq_zero hpar)]
  | case3 a n hn hpar ih =>
    rw [pow, dif_neg hn, if_neg hpar, toZMod_mul, ih, toZMod_mul, ← sq, ← pow_mul, ← pow_succ]
    congr 1
    omega

instance : NatCast (Residue m) := ⟨ofNat⟩
instance : IntCast (Residue m) := ⟨ofInt⟩
instance : SMul Nat (Residue m) := ⟨fun n a => ofNat n * a⟩
instance : SMul Int (Residue m) := ⟨fun i a => ofInt i * a⟩

instance : CommRing (Residue m) :=
  toZMod_injective.commRing toZMod toZMod_zero toZMod_one toZMod_add toZMod_mul toZMod_neg
    toZMod_sub
    (fun n a => (toZMod_mul _ a).trans (by rw [toZMod_ofNat, nsmul_eq_mul]))
    (fun i a => (toZMod_mul _ a).trans (by rw [toZMod_ofInt, zsmul_eq_mul]))
    toZMod_pow toZMod_ofNat toZMod_ofInt

theorem ofInt_eq_iff {i j : Int} : (ofInt i : Residue m) = ofInt j ↔ i ≡ j [ZMOD m] := by
  rw [← ZMod.intCast_eq_intCast_iff, ← toZMod_ofInt, ← toZMod_ofInt]
  exact toZMod_injective.eq_iff.symm

theorem val_ofInt (i : Int) : ((ofInt i : Residue m).val : Int) = i % m := by
  have hm : (m : Int) ≠ 0 := Int.natCast_ne_zero.2 (NeZero.ne m)
  rw [ofInt, val_ofNat, Int.natCast_emod, Int.toNat_of_nonneg (Int.emod_nonneg i hm), Int.emod_emod]

/-- The power `m - 2` is the inverse, by Fermat's little theorem; for `m = 2` it is not, as
`0 ^ 0 = 1`. -/
theorem toZMod_inv [Fact m.Prime] (hm : 2 < m) (a : Residue m) : toZMod a⁻¹ = (toZMod a)⁻¹ := by
  rw [show a⁻¹ = a ^ (m - 2) from rfl, toZMod_pow]
  by_cases h : toZMod a = 0
  · rw [h, inv_zero, zero_pow (by omega)]
  · refine eq_inv_of_mul_eq_one_left ?_
    rw [← pow_succ, show m - 2 + 1 = m - 1 by omega]
    exact ZMod.pow_card_sub_one_eq_one h

abbrev field [Fact m.Prime] (hm : 2 < m) : Field (Residue m) where
  inv := Inv.inv
  div := Div.div
  div_eq_mul_inv _ _ := rfl
  exists_pair_ne := ⟨0, 1, fun h => zero_ne_one (α := ZMod m) (by
    rw [← toZMod_zero, h, toZMod_one])⟩
  mul_inv_cancel a ha := by
    apply toZMod_injective
    have h : toZMod a ≠ 0 := fun h => ha (toZMod_injective (h.trans toZMod_zero.symm))
    rw [toZMod_mul, toZMod_inv hm, mul_inv_cancel₀ h, toZMod_one]
  inv_zero := by
    apply toZMod_injective
    rw [toZMod_inv hm, toZMod_zero, inv_zero]
  nnqsmul := _
  nnqsmul_def _ _ := rfl
  qsmul := _
  qsmul_def _ _ := rfl

end SnarkBatch.Residue
