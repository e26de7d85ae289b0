import SnarkBatch.Field.Base

/-!
# The target field

The pairing takes its values in a field of degree twelve over `Fp`, built in two steps over `Fp2`:
`Fp6` adjoins a cube root `v` of `xi`, and `Fp12` adjoins a square root `w` of `v`. An element of
`Fp6` is `c0 + c1 · v + c2 · v²`, one of `Fp12` is `c0 + c1 · w`.
-/

namespace SnarkBatch

structure Fp6 where
  c0 : Fp2
  c1 : Fp2
  c2 : Fp2
  deriving DecidableEq, Repr

namespace Fp6

instance : Zero Fp6 := ⟨⟨0, 0, 0⟩⟩
instance : One Fp6 := ⟨⟨1, 0, 0⟩⟩
instance : Add Fp6 := ⟨fun a b => ⟨a.c0 + b.c0, a.c1 + b.c1, a.c2 + b.c2⟩⟩
instance : Sub Fp6 := ⟨fun a b => ⟨a.c0 - b.c0, a.c1 - b.c1, a.c2 - b.c2⟩⟩

/-- Six products serve the nine that the definition asks for; `v³ = xi`. -/
def mul (a b : Fp6) : Fp6 :=
  let p0 := a.c0 * b.c0
  let p1 := a.c1 * b.c1
  let p2 := a.c2 * b.c2
  ⟨p0 + ((a.c1 + a.c2) * (b.c1 + b.c2) - p1 - p2).mulXi,
    (a.c0 + a.c1) * (b.c0 + b.c1) - p0 - p1 + p2.mulXi,
    (a.c0 + a.c2) * (b.c0 + b.c2) - p0 - p2 + p1⟩

instance : Mul Fp6 := ⟨mul⟩

/-- Multiplication by `v`. -/
def mulV (a : Fp6) : Fp6 := ⟨a.c2.mulXi, a.c0, a.c1⟩

end Fp6

structure Fp12 where
  c0 : Fp6
  c1 : Fp6
  deriving DecidableEq, Repr

namespace Fp12

instance : One Fp12 := ⟨⟨1, 0⟩⟩

/-- One multiplication in `Fp6` serves both cross terms. -/
def mul (a b : Fp12) : Fp12 :=
  let low := a.c0 * b.c0
  let high := a.c1 * b.c1
  ⟨low + high.mulV, (a.c0 + a.c1) * (b.c0 + b.c1) - low - high⟩

instance : Mul Fp12 := ⟨mul⟩

/-- Square and multiply, from the lowest bit of the exponent. -/
def pow (a : Fp12) (n : Nat) : Fp12 :=
  if _h : n = 0 then 1
  else
    let half := (a * a).pow (n / 2)
    if n % 2 = 0 then half else half * a
termination_by n
decreasing_by omega

end Fp12

end SnarkBatch
