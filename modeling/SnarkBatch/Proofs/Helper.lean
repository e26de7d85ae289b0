import SnarkBatch.Proofs.ConstraintPolynomial.AtX
import SnarkBatch.Proofs.Prover

/-!
# The honest helper

The helper of a list of proofs makes the aggregate that lets a verifier trust their advice. It
learns the challenge `y` of each proof, and goes on in three rounds, each of which begins with the
challenge that the one before has drawn: it commits to every `s(X, y)`, then to `s(z, Y)`, and opens
`s(z, Y)` at `w` and at every `y`, and a combination of the `s(X, y)` at `z`.

What it commits to are sections of the constraint polynomial, lists of coefficients without a
constant term (`IsSection`). Every round succeeds over a reference string whose degree covers them,
for challenges other than 0, and sends what `IsHonest` asks for.
-/

namespace SnarkBatch

open LaurentPolynomial SourceGroup

/-- The coefficients of `s(x, Y)` as accumulated, from that of `Y^(-n)` on. -/
def AtX.column (s : AtX) : Laurent := ⟨s.negative.reverse ++ 0 :: s.positive, -s.gates⟩

/-- The position of a coefficient 0 stays without a term. -/
theorem Laurent.exponent_ne_zero {negative positive : List Fr} {e : Int} (he : e = -negative.length)
    {m : Int × Fr} (hm : m ∈ monomials ⟨negative.reverse ++ 0 :: positive, e⟩) (hne : m.2 ≠ 0) :
    m.1 ≠ 0 := by
  obtain ⟨i, hi, rfl⟩ := List.mem_mapIdx.1 hm
  intro hzero
  apply hne
  have hindex : i = negative.reverse.length := by
    rw [List.length_reverse]
    dsimp only at hzero
    omega
  subst hindex
  show (negative.reverse ++ 0 :: positive)[negative.reverse.length] = 0
  rw [List.getElem_append_right le_rfl]
  simp only [Nat.sub_self, List.getElem_cons_zero]

namespace Helper

/-! ## Sections of the constraint polynomial -/

/-- Coefficients from `X^(-low)` to `X^high` without a constant term, with given values. -/
structure IsSection (low high : Nat) (value : Fr → Fr) (f : Laurent) : Prop where
  lowest_eq : f.lowest = -low
  length_eq : f.coeffs.length = low + 1 + high
  exponent_ne_zero : ∀ m ∈ f.monomials, m.2 ≠ 0 → m.1 ≠ 0
  eval_eq : ∀ x, x ≠ 0 → f.eval x = value x

theorem isSection_row {n : Nat} {o : Outline} {y : Fr} {s : AtY} (hs : s.Holds y n o) :
    IsSection n (2 * n) (o.constraintValue n · y) s.row where
  lowest_eq := congrArg (fun k : Nat => -(k : Int)) hs.gates_eq
  length_eq := by
    rw [hs.length_row]
    omega
  exponent_ne_zero m hm hne := by
    refine Laurent.exponent_ne_zero ?_ hm hne
    rw [AtY.negative, hs.length_u, hs.gates_eq]
  eval_eq x hx := by
    have hvalue := s.row.eval_eq (.mk0 x hx)
    rwa [hs.series_row, hs.laurent_eq, Outline.evalAt_constraintSeries] at hvalue

theorem isSection_column {n q : Nat} {o : Outline} {x : Fr} {s : AtX} (hs : s.Holds x n q o) :
    IsSection n (n + q) (o.constraintValue n x ·) s.column where
  lowest_eq := congrArg (- ·) hs.gates_eq
  length_eq := by
    simp only [AtX.column, List.length_append, List.length_reverse, List.length_cons,
      hs.length_negative, hs.length_positive]
    omega
  exponent_ne_zero m hm hne := by
    refine Laurent.exponent_ne_zero ?_ hm hne
    rw [hs.length_negative, hs.gates_eq]
  eval_eq y hy := by
    have hvalue := s.column.eval_eq (.mk0 y hy)
    have hseries := series_reverse_append s.negative s.positive
    rw [hs.length_negative, ← hs.gates_eq] at hseries
    rwa [show s.column.series = s.laurent from hseries, hs.eval_eq] at hvalue

/-! ## Rounds -/

/-- `s(X, y)`, from the next pass of the circuit. -/
def rowAt (n : Nat) (y : Fr) : EStateM Fault Circuit Laurent := do
  let s ← ofExcept (AtY.start y n)
  let done ← Synthesis.complete AtY.backend s
  return done.backend.row

/-- `s(x, Y)`, from the next pass of the circuit. -/
def columnAt (n q : Nat) (x : Fr) : EStateM Fault Circuit Laurent := do
  let s ← ofExcept (AtX.start x n q)
  let done ← Synthesis.complete AtX.backend s
  return done.backend.column

/-- `Σ f(y_i) · r_i`. -/
def combined (ys rs : List Fr) (f : Fr → Fr) : Fr := ((ys.zip rs).map fun yr => f yr.1 * yr.2).sum

/-- The coefficients of `Σ r_i · s(X, y_i)`, from that of `X^(-n)` on. -/
def combination (n : Nat) (rows : List Laurent) (rs : List Fr) : Except Fault Laurent := do
  let coeffs ← (rows.zip rs).foldlM (fun sum term => mulAdd sum term.1.coeffs term.2)
    (List.replicate (3 * n + 1) 0)
  return ⟨coeffs, -n⟩

section

variable {G₁ G₂ : Type} [SourceGroup G₁ Fp] (oracle : Oracle) (srs : ReferenceString G₁ G₂)

def points (proofs : List (Proof G₁)) : Except Fault (List Fr) :=
  proofs.mapM fun p => do return (← ((Transcript.start []).absorbElement p.r).challenge oracle).1

/-- Challenges that follow one another. -/
def coefficients : Nat → Transcript → Except Fault (List Fr)
  | 0, _ => .ok []
  | k + 1, t => do
    let (r, t) ← t.challenge oracle
    return r :: (← coefficients k t)

variable (G₁) in
structure First where
  /-- `s(X, y)` for each proof. -/
  rows : List Laurent
  /-- Commits to the rows. -/
  commitments : List G₁
  z : Fr
  transcript : Transcript

variable (G₁) in
structure Second where
  /-- `s(z, Y)`. -/
  column : Laurent
  /-- Commits to the column. -/
  c : G₁
  w : Fr
  transcript : Transcript

def first (c : Circuit) (n : Nat) (ys : List Fr) : Except Fault (First G₁) := do
  let rows ← outcome (ys.mapM (rowAt n) c)
  let commitments ← rows.mapM (commitment srs srs.degree)
  let t := commitments.foldl Transcript.absorbElement (Transcript.start [])
  let (z, transcript) ← t.challenge oracle
  return { rows, commitments, z, transcript }

def second (c : Circuit) (n q : Nat) (m : First G₁) : Except Fault (Second G₁) := do
  let column ← outcome (columnAt n q m.z c)
  let c ← commitment srs srs.degree column
  let (w, transcript) ← (m.transcript.absorbElement c).challenge oracle
  return { column, c, w, transcript }

/-- The column opened at a point, with its value there. -/
def Second.openAt (m : Second G₁) (point : Fr) : Except Fault (G₁ × Fr) := do
  return (← opening srs m.column (m.column.eval point) point, m.column.eval point)

def third (n : Nat) (ys : List Fr) (m₁ : First G₁) (m₂ : Second G₁) : Except Fault (Aggregate G₁) := do
  let (opening₁, _) ← m₂.openAt srs m₂.w
  let cOpenings ← ys.mapM (m₂.openAt srs)
  let rs ← coefficients oracle ys.length m₂.transcript
  let f ← combination n m₁.rows rs
  let sOpening ← opening srs f (combined ys rs m₂.column.eval) m₁.z
  return { c := m₂.c, sOpening, cOpenings, opening := opening₁ }

end

/-! ## What the rounds deliver -/

/-- The element opens the polynomial with the given values at `z`, for the secret `x`. -/
def Opens {G F : Type} [SourceGroup G F] (x : Fr) (value : Fr → Fr) (z : Fr) (P : G) : Prop :=
  ∃ w, IsMultiple P w ∧ (x - z) * w = value x - value z

/-- An aggregate in scalars, for the constraint polynomial `s` and the challenges. -/
structure IsHonest {G F : Type} [SourceGroup G F] (x alpha : Fr) (s : Fr → Fr → Fr)
    (ys rs : List Fr) (z w : Fr) (agg : Aggregate G) : Prop where
  isMultiple_c : IsMultiple agg.c (alpha * s z x)
  opening : Opens x (s z ·) w agg.opening
  cOpenings : List.Forall₂ (fun o y => Opens x (s z ·) y o.1 ∧ o.2 = s z y) agg.cOpenings ys
  sOpening : Opens x (fun x => combined ys rs (s x ·)) z agg.sOpening

section

variable {c : Circuit} (hc : c.Uniform) (hend : c.ending = .ok ()) {n : Nat}
include hc hend

theorem rowAt_eq (hwires : c.outline.InGates n) {y : Fr} (hy : y ≠ 0) (pass : Nat) :
    ∃ f pass', rowAt n y (c.atPass pass) = .ok f (c.atPass pass') ∧
      IsSection n (2 * n) (c.outline.constraintValue n · y) f := by
  obtain ⟨houtline, hending⟩ := hc pass
  obtain ⟨s₀, hstart, hs₀⟩ := AtY.start_holds hy n
  obtain ⟨pass', done, hcomplete, hs⟩ := Synthesis.complete_eq (AtY.tracks y n) hs₀
    (Outline.fault_eq_none_iff.2 (houtline ▸ hwires)) (hending.trans hend)
  rw [houtline] at hs
  refine ⟨done.backend.row, pass', ?_, isSection_row hs⟩
  unfold rowAt
  rw [ofExcept_bind hstart, bind_ok hcomplete]
  rfl

theorem columnAt_eq {q : Nat} (hfits : AtX.Fits n q c.outline) {x : Fr} (hx : x ≠ 0) (pass : Nat) :
    ∃ f pass', columnAt n q x (c.atPass pass) = .ok f (c.atPass pass') ∧
      IsSection n (n + q) (c.outline.constraintValue n x ·) f := by
  obtain ⟨houtline, hending⟩ := hc pass
  obtain ⟨s₀, hstart, hs₀⟩ := AtX.start_holds hx n q
  obtain ⟨pass', done, hcomplete, hs⟩ := Synthesis.complete_eq (AtX.tracks x n q) hs₀
    (AtX.fault_eq_none_iff.2 (houtline.symm ▸ hfits)) (hending.trans hend)
  rw [houtline] at hs
  refine ⟨done.backend.column, pass', ?_, isSection_column hs⟩
  unfold columnAt
  rw [ofExcept_bind hstart, bind_ok hcomplete]
  rfl

theorem mapM_rowAt_eq (hwires : c.outline.InGates n) {ys : List Fr} (hys : ∀ y ∈ ys, y ≠ 0)
    (pass : Nat) :
    ∃ rows pass', ys.mapM (rowAt n) (c.atPass pass) = .ok rows (c.atPass pass') ∧
      List.Forall₂ (fun f y => IsSection n (2 * n) (c.outline.constraintValue n · y) f) rows ys := by
  induction ys generalizing pass with
  | nil => exact ⟨[], pass, rfl, .nil⟩
  | cons y ys ih =>
    obtain ⟨hy, hys⟩ := List.forall_mem_cons.1 hys
    obtain ⟨row, pass₁, hrow, hsection⟩ := rowAt_eq hc hend hwires hy pass
    obtain ⟨rows, pass₂, hrows, hsections⟩ := ih hys pass₁
    refine ⟨row :: rows, pass₂, ?_, .cons hsection hsections⟩
    rw [List.mapM_cons, bind_ok hrow, bind_ok hrows]
    rfl

end

theorem combined_cons (y r : Fr) (ys rs : List Fr) (f : Fr → Fr) :
    combined (y :: ys) (r :: rs) f = f y * r + combined ys rs f := by
  rw [combined, List.zip_cons_cons, List.map_cons, List.sum_cons]
  rfl

theorem foldlM_mulAdd {n : Nat} {s : Fr → Fr → Fr} {ys : List Fr} {rows : List Laurent}
    (hrows : List.Forall₂ (fun f y => IsSection n (2 * n) (s · y) f) rows ys) (rs : List Fr)
    {sum : List Fr} (hsum : sum.length = 3 * n + 1) :
    ∃ coeffs, (rows.zip rs).foldlM (fun sum term => mulAdd sum term.1.coeffs term.2) sum =
        .ok coeffs ∧ coeffs.length = 3 * n + 1 ∧
      ∀ x : Frˣ, evalAt x (series (-n) coeffs) =
        evalAt x (series (-n) sum) + combined ys rs (s x ·) := by
  induction hrows generalizing sum rs with
  | nil => exact ⟨sum, rfl, hsum, fun x => (add_zero _).symm⟩
  | @cons row y rows ys hrow _ ih =>
    cases rs with
    | nil => exact ⟨sum, rfl, hsum, fun x => (add_zero _).symm⟩
    | cons r rs =>
      have hlength : row.coeffs.length ≤ sum.length := by
        rw [hrow.length_eq, hsum]
        omega
      have hgrown : (addScaled sum row.coeffs r).length = 3 * n + 1 :=
        (length_addScaled ..).trans hsum
      obtain ⟨coeffs, hfold, hcoeffs, heval⟩ := ih rs hgrown
      refine ⟨coeffs, ?_, hcoeffs, fun x => ?_⟩
      · rw [List.zip_cons_cons, List.foldlM_cons, mulAdd, if_neg (not_lt.2 hlength)]
        exact hfold
      · have hvalue := row.eval_eq x
        rw [hrow.eval_eq x x.ne_zero, Laurent.series, hrow.lowest_eq] at hvalue
        rw [heval, series_addScaled _ hlength, map_add, map_mul, evalAt_C, ← hvalue, combined_cons]
        ring

theorem combination_eq {n : Nat} {s : Fr → Fr → Fr} {ys : List Fr} {rows : List Laurent}
    (hrows : List.Forall₂ (fun f y => IsSection n (2 * n) (s · y) f) rows ys) (rs : List Fr) :
    ∃ f, combination n rows rs = .ok f ∧ f.lowest = -n ∧ f.coeffs.length = 3 * n + 1 ∧
      ∀ x, x ≠ 0 → f.eval x = combined ys rs (s x ·) := by
  obtain ⟨coeffs, hfold, hlength, heval⟩ := foldlM_mulAdd hrows rs List.length_replicate
  refine ⟨⟨coeffs, -n⟩, ?_, rfl, hlength, fun x hx => ?_⟩
  · unfold combination
    rw [hfold]
    rfl
  · have hvalue := heval (.mk0 x hx)
    rw [series_replicate_zero, map_zero, zero_add] at hvalue
    exact (Laurent.eval_eq _ (.mk0 x hx)).trans hvalue

section

variable {G₁ G₂ F₂ : Type} [SourceGroup G₁ Fp] [SourceGroup G₂ F₂] (oracle : Oracle)

theorem points_delivers (proofs : List (Proof G₁)) :
    Delivers oracle (points oracle proofs) fun ys =>
      points oracle proofs = .ok ys ∧ ys.length = proofs.length := by
  refine (Delivers.mapM (R := fun _ _ => True) fun p _ => ?_).eq_ok.mono fun ys hys =>
    ⟨hys.1, hys.2.length_eq.symm⟩
  exact .bind (.challenge oracle _) fun _ _ => .pure trivial

theorem coefficients_delivers (k : Nat) (t : Transcript) :
    Delivers oracle (coefficients oracle k t) fun rs => coefficients oracle k t = .ok rs := by
  have hlength : ∀ k t, Delivers oracle (coefficients oracle k t) fun _ => True := by
    intro k
    induction k with
    | zero => exact fun t => .pure trivial
    | succ k ih =>
      exact fun t => .bind (.challenge oracle t) fun (_, t') _ => .bind (ih t') fun _ _ => .pure trivial
  exact (hlength k t).eq_ok.mono fun rs hrs => hrs.1

variable [LawfulGroup G₁] {d : Int} {x alpha : Fr} {srs : ReferenceString G₁ G₂}

section

variable {low high : Nat} {value : Fr → Fr} {f : Laurent}

theorem IsSection.exists_commitment (hf : IsSection low high value f) (hsrs : srs.Tables d x alpha)
    (hlow : low ≤ d) (hhigh : high ≤ d) :
    ∃ P, commitment srs srs.degree f = .ok P ∧ IsMultiple P (alpha * value x) := by
  obtain ⟨P, hcommit, hP⟩ := SnarkBatch.exists_commitment hsrs srs.degree (f := f) <| by
    intro m hm hne
    obtain ⟨hfirst, hlast⟩ := Laurent.mem_monomials hm
    have hlowest := hf.lowest_eq
    have hlength := hf.length_eq
    have hconstant := hf.exponent_ne_zero m hm hne
    have hdegree := hsrs.degree_eq
    omega
  rw [hsrs.degree_eq, sub_self, zpow_zero, mul_one, hf.eval_eq x hsrs.secret_ne_zero] at hP
  exact ⟨P, hcommit, hP⟩

theorem IsSection.exists_opening (hf : IsSection low high value f) (hsrs : srs.Tables d x alpha)
    (hlow : low ≤ d) (hhigh : high ≤ d) {z : Fr} (hz : z ≠ 0) :
    ∃ P, opening srs f (f.eval z) z = .ok P ∧ Opens x value z P := by
  have hlowest := hf.lowest_eq
  have hlength := hf.length_eq
  obtain ⟨P, w, hopen, hP, hw⟩ := SnarkBatch.exists_opening hsrs (f := f) (by omega) (by omega) hz
  rw [hf.eval_eq x hsrs.secret_ne_zero, hf.eval_eq z hz] at hw
  exact ⟨P, hopen, w, hP, hw⟩

end

theorem first_delivers (hsrs : srs.Tables d x alpha) {c : Circuit} (hc : c.Uniform)
    (hend : c.ending = .ok ()) {n : Nat} (hd : 2 * n ≤ d) (hwires : c.outline.InGates n)
    {ys : List Fr} (hys : ∀ y ∈ ys, y ≠ 0) (pass : Nat) :
    Delivers oracle (first oracle srs (c.atPass pass) n ys) fun m =>
      List.Forall₂ (fun f y => IsSection n (2 * n) (c.outline.constraintValue n · y) f) m.rows ys ∧
      List.Forall₂ (fun P y => IsMultiple P (alpha * c.outline.constraintValue n x y))
        m.commitments ys ∧
      (m.commitments.foldl Transcript.absorbElement (Transcript.start [])).challenge oracle =
        .ok (m.z, m.transcript) := by
  obtain ⟨rows, pass', hrun, hrows⟩ := mapM_rowAt_eq hc hend hwires hys pass
  obtain ⟨commitments, hcommit, hcommitments⟩ := exists_mapM <| hrows.imp fun f y hf =>
    hf.exists_commitment hsrs (by omega) (by omega)
  unfold first
  refine .bind_of_ok (congrArg outcome hrun) (.bind_of_ok hcommit ?_)
  exact .bind (.challenge oracle _) fun drawn hdrawn => .pure ⟨hrows, hcommitments, hdrawn⟩

theorem second_delivers (hsrs : srs.Tables d x alpha) {c : Circuit} (hc : c.Uniform)
    (hend : c.ending = .ok ()) {n q : Nat} (hd : n + q ≤ d) (hfits : AtX.Fits n q c.outline)
    {m₁ : First G₁} (hz : m₁.z ≠ 0) (pass : Nat) :
    Delivers oracle (second oracle srs (c.atPass pass) n q m₁) fun m =>
      IsSection n (n + q) (c.outline.constraintValue n m₁.z ·) m.column ∧
      IsMultiple m.c (alpha * c.outline.constraintValue n m₁.z x) ∧
      (m₁.transcript.absorbElement m.c).challenge oracle = .ok (m.w, m.transcript) := by
  obtain ⟨column, pass', hrun, hcolumn⟩ := columnAt_eq hc hend hfits hz pass
  obtain ⟨P, hcommit, hP⟩ := hcolumn.exists_commitment hsrs (by omega) (by omega)
  unfold second
  refine .bind_of_ok (congrArg outcome hrun) (.bind_of_ok hcommit ?_)
  exact .bind (.challenge oracle _) fun drawn hdrawn => .pure ⟨hcolumn, hP, hdrawn⟩

theorem third_delivers (hsrs : srs.Tables d x alpha) {n q : Nat} (hd : 2 * n ≤ d) (hdq : n + q ≤ d)
    {s : Fr → Fr → Fr} {ys : List Fr} (hys : ∀ y ∈ ys, y ≠ 0) {m₁ : First G₁} {m₂ : Second G₁}
    (hrows : List.Forall₂ (fun f y => IsSection n (2 * n) (s · y) f) m₁.rows ys)
    (hcolumn : IsSection n (n + q) (s m₁.z ·) m₂.column) (hm₂ : IsMultiple m₂.c (alpha * s m₁.z x))
    (hz : m₁.z ≠ 0) (hw : m₂.w ≠ 0) :
    Delivers oracle (third oracle srs n ys m₁ m₂) fun agg => agg.c = m₂.c ∧
      ∃ rs, coefficients oracle ys.length m₂.transcript = .ok rs ∧
        IsHonest x alpha s ys rs m₁.z m₂.w agg := by
  have hopenAt : ∀ {point}, point ≠ 0 → ∃ o, m₂.openAt srs point = .ok o ∧
      Opens x (s m₁.z ·) point o.1 ∧ o.2 = s m₁.z point := by
    intro point hpoint
    obtain ⟨P, hopen, hP⟩ := hcolumn.exists_opening hsrs (by omega) (by omega) hpoint
    refine ⟨(P, m₂.column.eval point), ?_, hP, hcolumn.eval_eq point hpoint⟩
    unfold Second.openAt
    rw [hopen]
    rfl
  obtain ⟨o, ho, hopens, -⟩ := hopenAt hw
  obtain ⟨cOpenings, hrun, hcOpenings⟩ := exists_mapM <| List.forall₂_same.2 fun y hy => hopenAt (hys y hy)
  unfold third
  refine .bind_of_ok ho (.bind_of_ok hrun (.bind (coefficients_delivers oracle _ _) fun rs hrs => ?_))
  obtain ⟨f, hcombine, hlowest, hlength, heval⟩ := combination_eq hrows rs
  have hexpected : combined ys rs m₂.column.eval = f.eval m₁.z := by
    rw [heval _ hz, combined, combined]
    refine congrArg List.sum (List.map_congr_left fun yr hyr => ?_)
    rw [hcolumn.eval_eq yr.1 (hys yr.1 (List.of_mem_zip hyr).1)]
  obtain ⟨sOpening, u, hopen, hu, hquotient⟩ :=
    exists_opening hsrs (f := f) (by omega) (by omega) hz
  rw [← hexpected] at hopen
  rw [heval x hsrs.secret_ne_zero, heval _ hz] at hquotient
  refine .bind_of_ok hcombine (.bind_of_ok hopen ?_)
  exact .pure ⟨rfl, rs, hrs, hm₂, hopens, hcOpenings, u, hu, hquotient⟩

end

end Helper

end SnarkBatch
