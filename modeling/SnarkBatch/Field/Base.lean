import SnarkBatch.Field.Residue

/-!
# The base field and its quadratic extension

`Fp` holds the coordinates of the first source group. `Fp2` adjoins a square root `i` of -1 and
holds those of the second; `re + im · i` is written as the pair `⟨re, im⟩`.
-/

namespace SnarkBatch

def baseOrder : Nat :=
  21888242871839275222246405745257275088696311157297823662689037894645226208583

instance : Modulus baseOrder := ⟨by decide⟩

abbrev Fp := Residue baseOrder

structure Fp2 where
  re : Fp
  im : Fp
  deriving DecidableEq, Repr

namespace Fp2

@[ext] theorem ext {a b : Fp2} (hre : a.re = b.re) (him : a.im = b.im) : a = b := by
  cases a; cases b; cases hre; cases him; rfl

instance : Zero Fp2 := ⟨⟨0, 0⟩⟩
instance : One Fp2 := ⟨⟨1, 0⟩⟩
instance : Inhabited Fp2 := ⟨0⟩
def add (a b : Fp2) : Fp2 := ⟨a.re + b.re, a.im + b.im⟩
def sub (a b : Fp2) : Fp2 := ⟨a.re - b.re, a.im - b.im⟩

instance : Add Fp2 := ⟨add⟩
instance : Sub Fp2 := ⟨sub⟩
instance : Neg Fp2 := ⟨fun a => ⟨-a.re, -a.im⟩⟩

/-- From `(re + im · i)(re' + im' · i)` with `i² = -1`. -/
def mul (a b : Fp2) : Fp2 :=
  ⟨.sumOfProducts a.re b.re (-a.im) b.im, .sumOfProducts a.re b.im a.im b.re⟩

instance : Mul Fp2 := ⟨mul⟩


/-- The conjugate over the norm. -/
instance : Inv Fp2 :=
  ⟨fun a =>
    let s := (a.re * a.re + a.im * a.im)⁻¹
    ⟨a.re * s, -(a.im * s)⟩⟩

instance : Div Fp2 := ⟨fun a b => a * b⁻¹⟩

/-- Multiplication by a base field element. -/
def scale (c : Fp) (a : Fp2) : Fp2 := ⟨c * a.re, c * a.im⟩

/-- The constant `9 + i`, which is no square and no cube: the tower above `Fp2` adjoins its roots.
-/
def xi : Fp2 := ⟨.ofNat 9, 1⟩

/-- Multiplication by `xi`, as `9a = 8a + a` on each part. -/
def mulXi (a : Fp2) : Fp2 :=
  let d := a + a
  let q := d + d
  let e := q + q + a
  ⟨e.re - a.im, e.im + a.re⟩

end Fp2

end SnarkBatch
