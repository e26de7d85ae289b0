/-!
# Projective points

A `Point F` is a triple `(x, y, z)` that stands for `(x/z, y/z)` on a curve `y² = x³ + b`, and for
the point at infinity when `z = 0`. The formulas do not look at `b` and never check the curve
equation, so they are defined on all triples; only `OnCurve` says which triples are points of a
curve. Several triples stand for one point: `same` compares points, `=` compares triples.
-/

namespace SnarkBatch

structure Point (F : Type) where
  x : F
  y : F
  z : F
  deriving DecidableEq, Repr

namespace Point

variable {F : Type}

@[ext] theorem ext {P Q : Point F} (hx : P.x = Q.x) (hy : P.y = Q.y) (hz : P.z = Q.z) : P = Q := by
  cases P; cases Q; cases hx; cases hy; cases hz; rfl

def infinity [Zero F] [One F] : Point F := ⟨1, 1, 0⟩

def ofAffine [One F] (x y : F) : Point F := ⟨x, y, 1⟩

def IsInfinity [Zero F] (P : Point F) : Prop := P.z = 0

instance [Zero F] [DecidableEq F] (P : Point F) : Decidable P.IsInfinity :=
  inferInstanceAs (Decidable (P.z = 0))

def neg [Neg F] (P : Point F) : Point F := ⟨P.x, -P.y, P.z⟩

/-- Equality of points by cross multiplication. -/
def Same [Mul F] (P Q : Point F) : Prop := P.x * Q.z = Q.x * P.z ∧ P.y * Q.z = Q.y * P.z

instance [Mul F] [DecidableEq F] (P Q : Point F) : Decidable (P.Same Q) :=
  inferInstanceAs (Decidable (_ ∧ _))

@[specialize] def double [Add F] [Sub F] [Mul F] (P : Point F) : Point F :=
  let xx := P.x * P.x
  let w := xx + xx + xx
  let s := P.y * P.z
  let ss := s * s
  let b := P.x * P.y * s
  let b2 := b + b
  let b4 := b2 + b2
  let h := w * w - (b4 + b4)
  let hs := h * s
  let yy := P.y * P.y * ss
  let yy2 := yy + yy
  let yy4 := yy2 + yy2
  let c := s * ss
  let c2 := c + c
  let c4 := c2 + c2
  ⟨hs + hs, w * (b4 - h) - (yy4 + yy4), c4 + c4⟩

@[specialize] def add [Add F] [Sub F] [Mul F] [Zero F] [One F] [DecidableEq F]
    (P Q : Point F) : Point F :=
  if Q.IsInfinity then P
  else if P.IsInfinity then Q
  else
    let u1 := Q.y * P.z
    let u2 := P.y * Q.z
    let v1 := Q.x * P.z
    let v2 := P.x * Q.z
    if v1 = v2 then
      if u1 = u2 then P.double else infinity
    else
      let u := u1 - u2
      let v := v1 - v2
      let vv := v * v
      let vvv := v * vv
      let w := P.z * Q.z
      let vv2 := vv * v2
      let a := u * u * w - vvv - (vv2 + vv2)
      ⟨v * a, u * (vv2 - a) - vvv * u2, vvv * w⟩

/-- The multiple `n · P`, doubling the point before it halves `n`. -/
@[specialize] def nsmul [Add F] [Sub F] [Mul F] [Zero F] [One F] [DecidableEq F]
    (P : Point F) (n : Nat) : Point F :=
  if n = 0 then infinity
  else if n = 1 then P
  else
    let Q := P.double.nsmul (n / 2)
    if n % 2 = 0 then Q else Q.add P
termination_by n
decreasing_by omega

def affine [Zero F] [Div F] [DecidableEq F] (P : Point F) : Option (F × F) :=
  if P.IsInfinity then none else some (P.x / P.z, P.y / P.z)

/-- The homogeneous equation `y² z = x³ + b z³`; infinity counts as a point of every curve. -/
def OnCurve [Add F] [Mul F] [Zero F] (b : F) (P : Point F) : Prop :=
  P.IsInfinity ∨ P.y * P.y * P.z = P.x * P.x * P.x + b * (P.z * P.z * P.z)

instance [Add F] [Mul F] [Zero F] [DecidableEq F] (b : F) (P : Point F) :
    Decidable (P.OnCurve b) :=
  inferInstanceAs (Decidable (_ ∨ _))

end Point

end SnarkBatch
