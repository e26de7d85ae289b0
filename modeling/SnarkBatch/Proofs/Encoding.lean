import SnarkBatch.Proofs.Absorption

/-!
# Reading a record back

The record of a transcript begins with its personalization, and everything after that was written
by one operation after the other. What an operation writes (`Transcript.Operation.Writes`) begins
with a letter that tells which operation it was, and ends where that operation ends: points and
scalars have a fixed length, and a challenge ends with its first digest that is a scalar. So there
is only one way to read a record (`Transcript.Operation.Writes.append_injective`), and it tells
which personalization and which operations it comes from (`Transcript.record_eq_iff`). Nothing is
assumed of the hash function.
-/

namespace SnarkBatch.Transcript

open SourceGroup

/-- What a transcript can be told to do. A scalar may be given as any integer. -/
inductive Operation
  | point (P : Point Fp)
  | scalar (s : Int)
  | challenge
  deriving DecidableEq, Repr

namespace Operation

def run (oracle : Oracle) (t : Transcript) : Operation → Except Fault Transcript
  | point P => .ok (t.absorbElement P)
  | scalar s => .ok (t.absorbScalar (.ofInt s))
  | challenge => do return (← t.challenge oracle).2

/-- Its point, if it has one, is on the first curve. -/
def OnCurve : Operation → Prop
  | point P => P.OnCurve AtePairing.curveConstant
  | _ => True

/-- The same operation, up to the representation of its point or scalar. -/
inductive Same : Operation → Operation → Prop
  | point {P Q : Point Fp} : P.affine = Q.affine → Same (point P) (point Q)
  | scalar {s s' : Int} : s ≡ s' [ZMOD scalarOrder] → Same (scalar s) (scalar s')
  | challenge : Same challenge challenge

/-! ## What an operation writes -/

/-- The bytes that an operation appends to a record. -/
inductive Writes : Operation → List UInt8 → Prop
  | point (P : Point Fp) :
    Writes (point P) (pointLabel ++ bigEndian 4 64 ++ pointBytes (affine P))
  | scalar (s : Int) :
    Writes (scalar s) (scalarLabel ++ bigEndian 4 32 ++ bigEndian 32 (Residue.ofInt s : Fr).val)
  | accepted (digest : Digest) : ofBigEndian digest.toList < scalarOrder →
    Writes challenge (challengeLabel ++ digest.toList)
  | rejected {bytes : List UInt8} (digest : Digest) : ¬ ofBigEndian digest.toList < scalarOrder →
    Writes challenge bytes → Writes challenge (challengeLabel ++ digest.toList ++ bytes)

theorem length_pointBytes (P : Point Fp) : (pointBytes (affine P)).length = 64 := by
  simp [pointBytes_affine]

theorem writes_blocks {rejected : List Digest} {accepted : Digest}
    (hge : ∀ d ∈ rejected, scalarOrder ≤ ofBigEndian d.toList)
    (hlt : ofBigEndian accepted.toList < scalarOrder) :
    Writes challenge (blocks (rejected ++ [accepted])) := by
  induction rejected with
  | nil =>
    rw [List.nil_append, blocks_cons, show blocks [] = [] from rfl, List.append_nil]
    exact .accepted accepted hlt
  | cons d rejected ih =>
    obtain ⟨hhead, htail⟩ := List.forall_mem_cons.1 hge
    rw [List.cons_append, blocks_cons]
    exact .rejected d (not_lt.2 hhead) (ih htail)

theorem writes_of_draw {hash : List UInt8 → Digest} {draws : Nat} {t t' : Transcript} {c : Fr}
    (h : draw hash draws t = .ok (c, t')) :
    ∃ bytes, Writes challenge bytes ∧ t'.record = t.record ++ bytes := by
  obtain ⟨rejected, accepted, -, hsampled⟩ := draw_eq_ok_iff.1 h
  exact ⟨_, writes_blocks hsampled.rejected_ge (hsampled.accepted_eq ▸ c.val_lt), hsampled.record_eq⟩

theorem writes_of_run {oracle : Oracle} {t t' : Transcript} {op : Operation}
    (h : op.run oracle t = .ok t') :
    ∃ bytes, op.Writes bytes ∧ t'.record = t.record ++ bytes := by
  cases op with
  | point P =>
    cases h
    refine ⟨_, .point P, ?_⟩
    simp [absorbElement, absorbPoint, absorb, length_pointBytes]
  | scalar s =>
    cases h
    refine ⟨_, .scalar s, ?_⟩
    simp [absorbScalar, absorb]
  | challenge =>
    obtain ⟨⟨c, t''⟩, hdraw, h⟩ := exists_of_bind_ok h
    cases h
    exact writes_of_draw hdraw

/-! ## Reading it back -/

def letter : Operation → UInt8
  | point _ => 112
  | scalar _ => 115
  | challenge => 99

theorem Writes.head_eq {op : Operation} {bytes : List UInt8} (h : op.Writes bytes)
    (rest : List UInt8) : (bytes ++ rest).head? = some op.letter := by
  have hpoint : pointLabel.head? = some 112 := by decide +kernel
  have hscalar : scalarLabel.head? = some 115 := by decide +kernel
  have hchallenge : challengeLabel.head? = some 99 := by decide +kernel
  cases h <;> simp [List.head?_append, letter, hpoint, hscalar, hchallenge]

theorem Writes.ne_nil {op : Operation} {bytes : List UInt8} (h : op.Writes bytes) :
    bytes ≠ [] := by
  rintro rfl
  cases h.head_eq []

theorem Writes.point_injective {P P' : Point Fp} {bytes bytes' rest rest' : List UInt8}
    (hP : P.OnCurve AtePairing.curveConstant) (hP' : P'.OnCurve AtePairing.curveConstant)
    (h : (Operation.point P).Writes bytes) (h' : (Operation.point P').Writes bytes')
    (heq : bytes ++ rest = bytes' ++ rest') : P.affine = P'.affine ∧ rest = rest' := by
  cases h
  cases h'
  obtain ⟨hblock, hrest⟩ := List.append_inj heq (by simp [length_pointBytes])
  have hdata := List.append_cancel_left hblock
  rw [pointBytes_affine, pointBytes_affine] at hdata
  obtain ⟨hx, hy⟩ := List.append_inj hdata (by rw [length_bigEndian, length_bigEndian])
  have habsorbed : absorbed P = absorbed P' :=
    Prod.ext (bigEndian_injective (by decide) hx) (bigEndian_injective (by decide) hy)
  exact ⟨affine_eq_of_absorbed_eq hP hP' habsorbed, hrest⟩

theorem Writes.scalar_injective {s s' : Int} {bytes bytes' rest rest' : List UInt8}
    (h : (Operation.scalar s).Writes bytes) (h' : (Operation.scalar s').Writes bytes')
    (heq : bytes ++ rest = bytes' ++ rest') : s ≡ s' [ZMOD scalarOrder] ∧ rest = rest' := by
  cases h
  cases h'
  obtain ⟨hblock, hrest⟩ := List.append_inj heq (by simp)
  have hdata := List.append_cancel_left hblock
  exact ⟨Residue.ofInt_eq_iff.1 (bigEndian_injective (by decide) hdata), hrest⟩

/-- A challenge ends with its first digest that is a scalar. -/
theorem Writes.challenge_injective {bytes bytes' rest rest' : List UInt8}
    (h : Writes challenge bytes) (h' : Writes challenge bytes')
    (heq : bytes ++ rest = bytes' ++ rest') : rest = rest' := by
  have hdigest : ∀ {d d' : Digest} {after after' : List UInt8},
      challengeLabel ++ d.toList ++ after = challengeLabel ++ d'.toList ++ after' →
      d.toList = d'.toList ∧ after = after' := by
    intro d d' after after' h
    obtain ⟨hfront, hafter⟩ := List.append_inj h (by simp)
    exact ⟨List.append_cancel_left hfront, hafter⟩
  generalize hop : challenge = op at h h'
  induction h generalizing bytes' with
  | point | scalar => cases hop
  | accepted d hd =>
    cases h' with
    | accepted d' hd' => exact (hdigest heq).2
    | rejected d' hd' hbytes' =>
      rw [List.append_assoc _ _ rest'] at heq
      exact absurd ((hdigest heq).1 ▸ hd) hd'
  | rejected d hd hbytes ih =>
    rw [List.append_assoc _ _ rest] at heq
    cases h' with
    | accepted d' hd' => exact absurd ((hdigest heq).1 ▸ hd') hd
    | rejected d' hd' hbytes' =>
      rw [List.append_assoc _ _ rest'] at heq
      exact ih (hdigest heq).2 hop hbytes'

/-- What two operations write is read back as the same operation, and ends at the same place. -/
theorem Writes.append_injective {op op' : Operation} {bytes bytes' rest rest' : List UInt8}
    (hop : op.OnCurve) (hop' : op'.OnCurve) (h : op.Writes bytes) (h' : op'.Writes bytes')
    (heq : bytes ++ rest = bytes' ++ rest') : op.Same op' ∧ rest = rest' := by
  have hletter : op.letter = op'.letter :=
    Option.some.inj ((h.head_eq rest).symm.trans (heq ▸ h'.head_eq rest'))
  cases op with
  | point P =>
    cases op' with
    | point P' => exact (point_injective hop hop' h h' heq).imp_left .point
    | scalar | challenge => cases hletter
  | scalar s =>
    cases op' with
    | scalar s' => exact (scalar_injective h h' heq).imp_left .scalar
    | point | challenge => cases hletter
  | challenge =>
    cases op' with
    | challenge => exact ⟨.challenge, challenge_injective h h' heq⟩
    | point | scalar => cases hletter

/-! ## Sequences of operations -/

def runAll (oracle : Oracle) (ops : List Operation) (t : Transcript) : Except Fault Transcript :=
  ops.foldlM (run oracle) t

theorem writes_of_runAll {oracle : Oracle} {ops : List Operation} {t t' : Transcript}
    (h : runAll oracle ops t = .ok t') :
    ∃ blocks, List.Forall₂ Writes ops blocks ∧ t'.record = t.record ++ blocks.flatten := by
  induction ops generalizing t with
  | nil =>
    cases h
    exact ⟨[], .nil, by simp⟩
  | cons op ops ih =>
    rw [runAll, List.foldlM_cons] at h
    obtain ⟨t₁, hop, hops⟩ := exists_of_bind_ok h
    obtain ⟨bytes, hbytes, hrecord⟩ := writes_of_run hop
    obtain ⟨blocks, hblocks, hrecord'⟩ := ih hops
    refine ⟨bytes :: blocks, .cons hbytes hblocks, ?_⟩
    rw [hrecord', hrecord, List.flatten_cons, List.append_assoc]

/-- Blocks that make up the same bytes were written by the same operations. -/
theorem same_of_flatten_eq {ops ops' : List Operation} {blocks blocks' : List (List UInt8)}
    (hops : ∀ op ∈ ops, op.OnCurve) (hops' : ∀ op ∈ ops', op.OnCurve)
    (h : List.Forall₂ Writes ops blocks) (h' : List.Forall₂ Writes ops' blocks')
    (heq : blocks.flatten = blocks'.flatten) : List.Forall₂ Same ops ops' := by
  induction h generalizing ops' blocks' with
  | nil =>
    cases h' with
    | nil => exact .nil
    | cons hbytes' _ => exact absurd (List.append_eq_nil_iff.1 heq.symm).1 hbytes'.ne_nil
  | cons hbytes _ ih =>
    cases h' with
    | nil => exact absurd (List.append_eq_nil_iff.1 heq).1 hbytes.ne_nil
    | cons hbytes' hblocks' =>
      rw [List.forall_mem_cons] at hops hops'
      rw [List.flatten_cons, List.flatten_cons] at heq
      obtain ⟨hsame, hrest⟩ := hbytes.append_injective hops.1 hops'.1 hbytes' heq
      exact .cons hsame (ih hops.2 hops'.2 hblocks' hrest)

theorem Same.run_eq {op op' : Operation} (h : op.Same op') (oracle : Oracle) (t : Transcript) :
    op.run oracle t = op'.run oracle t := by
  cases h with
  | @point P Q h =>
    have haffine : affine P = affine Q := h
    rw [run, run, absorbElement, absorbElement, haffine]
  | scalar h => rw [run, run, Residue.ofInt_eq_iff.2 h]
  | challenge => rfl

theorem runAll_congr {ops ops' : List Operation} (h : List.Forall₂ Same ops ops') (oracle : Oracle)
    (t : Transcript) : runAll oracle ops t = runAll oracle ops' t := by
  induction h generalizing t with
  | nil => rfl
  | cons hop _ ih =>
    unfold runAll at ih ⊢
    rw [List.foldlM_cons, List.foldlM_cons, hop.run_eq]
    exact bind_congr ih

end Operation

/-! ## Whole transcripts -/

/-- A personalization is absorbed with its length, which four bytes hold. -/
theorem start_append_injective {p p' rest rest' : List UInt8} (hp : p.length < 2 ^ 32)
    (hp' : p'.length < 2 ^ 32) (h : (start p).record ++ rest = (start p').record ++ rest') :
    p = p' ∧ rest = rest' := by
  have hstart : ∀ p rest, (start p).record ++ rest =
      personalizationLabel ++ bigEndian 4 p.length ++ (p ++ rest) := by
    simp [start, absorb]
  rw [hstart, hstart] at h
  obtain ⟨hfront, hdata⟩ := List.append_inj h (by simp)
  have hlength := congrArg ofBigEndian (List.append_cancel_left hfront)
  have hwidth : 256 ^ 4 = 2 ^ 32 := by decide
  rw [ofBigEndian_bigEndian, ofBigEndian_bigEndian, hwidth, Nat.mod_eq_of_lt hp,
    Nat.mod_eq_of_lt hp'] at hlength
  exact List.append_inj hdata hlength

/-- The encoding is injective: two transcripts have the same record just if they have the same
personalization and the same operations one by one, up to the representation of points and scalars.
-/
theorem record_eq_iff (oracle : Oracle) {p p' : List UInt8} (hp : p.length < 2 ^ 32)
    (hp' : p'.length < 2 ^ 32) {ops ops' : List Operation} (hops : ∀ op ∈ ops, op.OnCurve)
    (hops' : ∀ op ∈ ops', op.OnCurve) {t t' : Transcript}
    (hrun : Operation.runAll oracle ops (start p) = .ok t)
    (hrun' : Operation.runAll oracle ops' (start p') = .ok t') :
    t.record = t'.record ↔ p = p' ∧ List.Forall₂ Operation.Same ops ops' := by
  constructor
  · intro hrecord
    obtain ⟨blocks, hblocks, hwritten⟩ := Operation.writes_of_runAll hrun
    obtain ⟨blocks', hblocks', hwritten'⟩ := Operation.writes_of_runAll hrun'
    rw [hwritten, hwritten'] at hrecord
    obtain ⟨rfl, hrest⟩ := start_append_injective hp hp' hrecord
    exact ⟨rfl, Operation.same_of_flatten_eq hops hops' hblocks hblocks' hrest⟩
  · rintro ⟨rfl, hsame⟩
    rw [Operation.runAll_congr hsame, hrun'] at hrun
    rw [Except.ok.inj hrun]

/-- Two representations of the neutral element and of a scalar, and then another scalar. -/
theorem record_eq_iff_neutral :
    ∃ (ops : Point Fp → Int → List Operation) (t₁ t₂ t₃ : Transcript),
      ops = (fun P s => [.point P, .scalar s, .challenge]) ∧
      Operation.runAll (.constant 5) (ops ⟨0, 1, 0⟩ (-1)) (start []) = .ok t₁ ∧
      Operation.runAll (.constant 5) (ops ⟨4, 9, 0⟩ (scalarOrder - 1)) (start []) = .ok t₂ ∧
      Operation.runAll (.constant 5) (ops ⟨4, 9, 0⟩ 1) (start []) = .ok t₃ ∧
      t₁.record = t₂.record ∧ t₁.record ≠ t₃.record := by
  let ops (P : Point Fp) (s : Int) : List Operation := [.point P, .scalar s, .challenge]
  have hruns : ∀ P s, ∃ t, Operation.runAll (.constant 5) (ops P s) (start []) = .ok t := by
    intro P s
    let absorbed := ((start []).absorbElement P).absorbScalar (.ofInt s)
    obtain ⟨t, ht⟩ := Oracle.challenge_constant 5 absorbed
    have hchallenge : Operation.challenge.run (.constant 5) absorbed = .ok t := by
      rw [Operation.run, ht]
      rfl
    refine ⟨t, ?_⟩
    simp only [ops, Operation.runAll, List.foldlM_cons, List.foldlM_nil]
    show Operation.run (.constant 5) absorbed .challenge >>= pure = .ok t
    rw [hchallenge]
    rfl
  have hcurve : ∀ {x y : Fp} {s : Int}, ∀ op ∈ ops ⟨x, y, 0⟩ s, op.OnCurve := by
    intro x y s op hop
    rcases List.mem_cons.1 hop with rfl | hop
    · exact .inl rfl
    · fin_cases hop <;> trivial
  obtain ⟨t₁, h₁⟩ := hruns ⟨0, 1, 0⟩ (-1)
  obtain ⟨t₂, h₂⟩ := hruns ⟨4, 9, 0⟩ (scalarOrder - 1)
  obtain ⟨t₃, h₃⟩ := hruns ⟨4, 9, 0⟩ 1
  refine ⟨ops, t₁, t₂, t₃, rfl, h₁, h₂, h₃, ?_, ?_⟩
  · refine (record_eq_iff _ (by decide) (by decide) hcurve hcurve h₁ h₂).2 ⟨rfl, ?_⟩
    have hpoint : (⟨0, 1, 0⟩ : Point Fp).affine = (⟨4, 9, 0⟩ : Point Fp).affine := by decide +kernel
    exact .cons (.point hpoint) (.cons (.scalar (by decide +kernel)) (.cons .challenge .nil))
  · intro hrecord
    obtain ⟨-, hsame⟩ :=
      (record_eq_iff _ (by decide) (by decide) hcurve hcurve h₁ h₃).1 hrecord
    rcases hsame with _ | ⟨-, hsame⟩
    rcases hsame with _ | ⟨hscalar, -⟩
    cases hscalar with
    | scalar hmod => exact absurd hmod (by decide +kernel)

end SnarkBatch.Transcript
