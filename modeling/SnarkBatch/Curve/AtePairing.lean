import SnarkBatch.Curve.Point
import SnarkBatch.Curve.Tower
import SnarkBatch.Field.Scalar

/-!
# The ate pairing

The first source group is the curve `y² = x³ + 3` over `Fp`. The second is the order-`r` subgroup
of the twist `y² = x³ + 3/xi` over `Fp2`, where `r` is `scalarOrder`. The map
`(x, y) ↦ (x w², y w³)` carries the twist to the first curve over `Fp12`.

`millerLoop Q P` evaluates at `P` the function with divisor `T·(Q) - (T·Q) - (T-1)·(∞)`, where
`T + 1` is the trace of Frobenius. Its power `(p¹² - 1)/r` is bilinear and non-degenerate, so a
product of pairings is one exactly when that power of the product of the Miller loops is one.
-/

namespace SnarkBatch.AtePairing

/-- The constant of the first curve. -/
def curveConstant : Fp := .ofNat 3

/-- The constant of the twist. -/
def twistConstant : Fp2 := ⟨curveConstant, 0⟩ / Fp2.xi

/-- The trace of Frobenius less one. -/
def loopLength : Nat := 6 * (4965661367192848881 * 4965661367192848881)

/-- The line of slope `slope · w` through the image of `T`, at a point of the first curve. -/
def line (slope : Fp2) (T : Fp2 × Fp2) (P : Fp × Fp) : Fp12 :=
  ⟨⟨⟨P.2, 0⟩, 0, 0⟩, ⟨-slope.scale P.1, slope * T.1 - T.2, 0⟩⟩

/-- The third point on the line of the given slope through `T` and `R`, reflected. -/
def chord (slope : Fp2) (T R : Fp2 × Fp2) : Fp2 × Fp2 :=
  let x := slope * slope - T.1 - R.1
  (x, slope * (T.1 - x) - T.2)

def tangentSlope (T : Fp2 × Fp2) : Fp2 :=
  let xx := T.1 * T.1
  (xx + xx + xx) / (T.2 + T.2)

def chordSlope (T R : Fp2 × Fp2) : Fp2 := (R.2 - T.2) / (R.1 - T.1)

/-- The value accumulated so far, and the multiple of `Q` it belongs to. -/
structure LoopState where
  value : Fp12
  point : Fp2 × Fp2

def LoopState.double (P : Fp × Fp) (s : LoopState) : LoopState :=
  let slope := tangentSlope s.point
  ⟨s.value * s.value * line slope s.point P, chord slope s.point s.point⟩

def LoopState.add (Q : Fp2 × Fp2) (P : Fp × Fp) (s : LoopState) : LoopState :=
  let slope := chordSlope s.point Q
  ⟨s.value * line slope s.point P, chord slope s.point Q⟩

/-- The state that belongs to the multiple `n · Q`, for `n ≥ 1`. -/
def loopAt (Q : Fp2 × Fp2) (P : Fp × Fp) (n : Nat) : LoopState :=
  if _h : n ≤ 1 then ⟨1, Q⟩
  else
    let s := (loopAt Q P (n / 2)).double P
    if n % 2 = 0 then s else s.add Q P
termination_by n
decreasing_by omega

def millerLoop (Q : Fp2 × Fp2) (P : Fp × Fp) : Fp12 := (loopAt Q P loopLength).value

/-- `(p⁶ + 1)/r`. A value raised to it lies in `Fp6` exactly when its power `(p¹² - 1)/r` is 1,
because the elements of `Fp6` are those that the power `p⁶ - 1` sends to 1, zero apart. -/
def finalExponent : Nat := (baseOrder.pow 6 + 1) / scalarOrder

def IsOneInTarget (f : Fp12) : Prop := (f.pow finalExponent).c1 = 0

instance (f : Fp12) : Decidable (IsOneInTarget f) := inferInstanceAs (Decidable (_ = _))

end SnarkBatch.AtePairing
