import SnarkBatch.Proofs.Atomicity
import SnarkBatch.Proofs.Sampling

/-!
# What the coefficient of a claim depends on

The last coefficient of a proof is that of its claim at `z`, where the claimed value is computed
from `r(z, 1)`, `r(z, y)`, the value of the constraint polynomial and the public inputs. The
transcript that it is drawn from has absorbed the parts of the proof and nothing else: two proofs
with the same transcript agree on all their parts (`Proof.beforeSecond_eq_iff`), up to a point
`(0, 0)` in place of the neutral element, which is on no curve (`affine_eq_of_absorbed_eq`). Of the
claimed value it binds only what follows from these parts. `Verifier.addProof_binds` says by how
much two claims under one coefficient may differ: the public inputs, and a value of the constraint
polynomial that the caller gives, are free.
-/

namespace SnarkBatch

open SourceGroup

/-! ## Records that grow -/

namespace Transcript

theorem prefix_absorb (t : Transcript) (label data : List UInt8) :
    t.record <+: (t.absorb label data).record := by
  unfold absorb
  rw [List.append_assoc, List.append_assoc]
  exact List.prefix_append _ _

theorem prefix_of_draw {hash : List UInt8 → Digest} {draws : Nat} {t t' : Transcript} {c : Fr}
    (h : draw hash draws t = .ok (c, t')) : t.record <+: t'.record := by
  obtain ⟨rejected, accepted, -, hsampled⟩ := draw_eq_ok_iff.1 h
  rw [hsampled.record_eq]
  exact List.prefix_append _ _

/-- Records that go on in the same way have absorbed the same, if it has the same length. -/
theorem absorb_injective {t : Transcript} {label data data' record : List UInt8}
    (hlength : data.length = data'.length) (h : (t.absorb label data).record <+: record)
    (h' : (t.absorb label data').record <+: record) : data = data' := by
  have hprefix := List.prefix_of_prefix_length_le h h' (by simp [absorb, hlength])
  have heq := hprefix.eq_of_length (by simp [absorb, hlength])
  exact (List.append_inj' heq hlength).2

theorem bigEndian_injective {m : Nat} (hm : m ≤ 256 ^ 32) {a b : Residue m}
    (h : bigEndian 32 a.val = bigEndian 32 b.val) : a = b := by
  have hvalue := congrArg ofBigEndian h
  rw [ofBigEndian_bigEndian, ofBigEndian_bigEndian, Nat.mod_eq_of_lt (a.val_lt.trans_le hm),
    Nat.mod_eq_of_lt (b.val_lt.trans_le hm)] at hvalue
  exact Residue.ext hvalue

theorem absorbScalar_injective {t : Transcript} {s s' : Fr} {record : List UInt8}
    (h : (t.absorbScalar s).record <+: record) (h' : (t.absorbScalar s').record <+: record) :
    s = s' := by
  refine bigEndian_injective (by decide) (absorb_injective ?_ h h')
  rw [length_bigEndian, length_bigEndian]

end Transcript

/-- The coordinates that are absorbed for an element: `(0, 0)` for the neutral one. -/
def absorbed {G : Type} [SourceGroup G Fp] (P : G) : Fp × Fp := (affine P).getD (0, 0)

section

variable {G : Type} [SourceGroup G Fp] {t : Transcript} {P P' : G}

theorem pointBytes_affine (P : G) :
    Transcript.pointBytes (affine P) =
      bigEndian 32 (absorbed P).1.val ++ bigEndian 32 (absorbed P).2.val := by
  unfold absorbed
  cases affine P with
  | none => decide
  | some p => rfl

theorem absorbElement_congr (h : absorbed P = absorbed P') :
    t.absorbElement P = t.absorbElement P' := by
  rw [Transcript.absorbElement, Transcript.absorbElement, Transcript.absorbPoint,
    Transcript.absorbPoint, pointBytes_affine, pointBytes_affine, h]

theorem absorbElement_injective {record : List UInt8} (h : (t.absorbElement P).record <+: record)
    (h' : (t.absorbElement P').record <+: record) : absorbed P = absorbed P' := by
  have hbytes := Transcript.absorb_injective (by simp [pointBytes_affine]) h h'
  rw [pointBytes_affine, pointBytes_affine] at hbytes
  obtain ⟨hx, hy⟩ := List.append_inj hbytes (by rw [length_bigEndian, length_bigEndian])
  exact Prod.ext (Transcript.bigEndian_injective (by decide) hx)
    (Transcript.bigEndian_injective (by decide) hy)

end

/-- Points of the first curve are absorbed each in its own way. -/
theorem affine_eq_of_absorbed_eq {P P' : Point Fp} (hP : P.OnCurve AtePairing.curveConstant)
    (hP' : P'.OnCurve AtePairing.curveConstant) (h : absorbed P = absorbed P') :
    affine P = affine P' := by
  have hfinite : ∀ {Q : Point Fp} {q : Fp × Fp}, Q.OnCurve AtePairing.curveConstant →
      affine Q = some q → q ≠ (0, 0) := by
    rintro Q q hQ hq rfl
    have hcoords : Q.affine = some (0, 0) := hq
    unfold Point.affine at hcoords
    obtain ⟨hz, hcoords⟩ := Option.ite_none_left_eq_some.1 hcoords
    have hz : Q.z ≠ 0 := hz
    obtain ⟨hx, hy⟩ := Prod.mk.inj (Option.some.inj hcoords)
    have hequation := hQ.resolve_left hz
    rw [(div_eq_zero_iff.1 hx).resolve_right hz, (div_eq_zero_iff.1 hy).resolve_right hz, zero_mul,
      zero_mul, zero_mul, zero_add, eq_comm] at hequation
    exact mul_ne_zero (by decide +kernel) (mul_ne_zero (mul_ne_zero hz hz) hz) hequation
  unfold absorbed at h
  cases hp : affine P with
  | none =>
    cases hp' : affine P' with
    | none => rfl
    | some p' =>
      rw [hp, hp'] at h
      exact absurd h.symm (hfinite hP' hp')
  | some p =>
    cases hp' : affine P' with
    | none =>
      rw [hp, hp'] at h
      exact absurd h (hfinite hP hp)
    | some p' =>
      rw [hp, hp'] at h
      exact congrArg some h

/-! ## The transcript of a proof -/

namespace Proof

variable {G : Type} [SourceGroup G Fp] (oracle : Oracle)

/-- The challenges before the last, and the transcript that the last is drawn from. -/
structure Drawn where
  y : Fr
  z : Fr
  mix : Fr
  first : Fr
  transcript : Transcript

def draws (p : Proof G) : Except Fault Drawn := do
  let (y, t) ← (Transcript.start []).absorbElement p.r |>.challenge oracle
  let (z, t) ← t.absorbElement p.t |>.challenge oracle
  let (mix, t) ← (t.absorbScalar p.rz).absorbScalar p.rzy |>.challenge oracle
  let (first, t) ← (t.absorbElement p.zOpening).absorbElement p.zyOpening |>.challenge oracle
  return ⟨y, z, mix, first, t⟩

theorem challenges_eq (p : Proof G) :
    p.challenges oracle = do
      let drawn ← p.draws oracle
      let (second, _) ← drawn.transcript.challenge oracle
      return { y := drawn.y, z := drawn.z, mix := drawn.mix, first := drawn.first, second } := by
  simp only [challenges, points, Points.challenges, draws, bind_assoc, pure_bind]

/-- The transcript that the coefficient of the claim at `z` is drawn from. -/
def beforeSecond (p : Proof G) : Except Fault Transcript := do return (← p.draws oracle).transcript

/-- The proofs have the same parts, as far as they are absorbed. -/
structure SameParts (p p' : Proof G) : Prop where
  r : absorbed p.r = absorbed p'.r
  t : absorbed p.t = absorbed p'.t
  rz : p.rz = p'.rz
  rzy : p.rzy = p'.rzy
  zOpening : absorbed p.zOpening = absorbed p'.zOpening
  zyOpening : absorbed p.zyOpening = absorbed p'.zyOpening

variable {oracle} {p p' : Proof G}

theorem SameParts.draws_eq (h : p.SameParts p') : p.draws oracle = p'.draws oracle := by
  unfold draws
  simp only [absorbElement_congr h.r, absorbElement_congr h.t, h.rz, h.rzy,
    absorbElement_congr h.zOpening, absorbElement_congr h.zyOpening]

/-- The rounds of a proof one after the other, all of which the last transcript shows. -/
theorem draws_ok {d : Drawn} (h : p.draws oracle = .ok d) :
    ∃ t₁ t₂ t₃,
      (((Transcript.start []).absorbElement p.r).challenge oracle = .ok (d.y, t₁) ∧
        (t₁.absorbElement p.t).challenge oracle = .ok (d.z, t₂) ∧
        ((t₂.absorbScalar p.rz).absorbScalar p.rzy).challenge oracle = .ok (d.mix, t₃)) ∧
      ((Transcript.start []).absorbElement p.r).record <+: d.transcript.record ∧
      (t₁.absorbElement p.t).record <+: d.transcript.record ∧
      (t₂.absorbScalar p.rz).record <+: d.transcript.record ∧
      ((t₂.absorbScalar p.rz).absorbScalar p.rzy).record <+: d.transcript.record ∧
      (t₃.absorbElement p.zOpening).record <+: d.transcript.record ∧
      ((t₃.absorbElement p.zOpening).absorbElement p.zyOpening).record <+: d.transcript.record := by
  obtain ⟨⟨y, t₁⟩, hy, h⟩ := exists_of_bind_ok h
  obtain ⟨⟨z, t₂⟩, hz, h⟩ := exists_of_bind_ok h
  obtain ⟨⟨mix, t₃⟩, hmix, h⟩ := exists_of_bind_ok h
  obtain ⟨⟨first, t₄⟩, hfirst, h⟩ := exists_of_bind_ok h
  cases h
  have hzy := Transcript.prefix_of_draw hfirst
  have hzOpening := (Transcript.prefix_absorb ..).trans hzy
  have hrzy :=
    (Transcript.prefix_of_draw hmix).trans ((Transcript.prefix_absorb ..).trans hzOpening)
  have hrz := (Transcript.prefix_absorb ..).trans hrzy
  have ht := (Transcript.prefix_of_draw hz).trans ((Transcript.prefix_absorb ..).trans hrz)
  have hr := (Transcript.prefix_of_draw hy).trans ((Transcript.prefix_absorb ..).trans ht)
  exact ⟨t₁, t₂, t₃, ⟨hy, hz, hmix⟩, hr, ht, hrz, hrzy, hzOpening, hzy⟩

/-- Two proofs with one transcript have drawn the same challenges from part to part, so that every
part stands at the same place of the transcript. -/
theorem sameParts_of_transcript_eq {d d' : Drawn} (h : p.draws oracle = .ok d)
    (h' : p'.draws oracle = .ok d') (htranscript : d.transcript = d'.transcript) :
    p.SameParts p' := by
  obtain ⟨t₁, t₂, t₃, ⟨hy, hz, hmix⟩, hr, ht, hrz, hrzy, hzOpening, hzyOpening⟩ := draws_ok h
  obtain ⟨t₁', t₂', t₃', ⟨hy', hz', hmix'⟩, hr', ht', hrz', hrzy', hzOpening', hzyOpening'⟩ :=
    draws_ok h'
  rw [← htranscript] at hr' ht' hrz' hrzy' hzOpening' hzyOpening'
  have hr := absorbElement_injective hr hr'
  rw [absorbElement_congr hr, hy'] at hy
  obtain ⟨-, rfl⟩ := Prod.mk.inj (Except.ok.inj hy)
  have ht := absorbElement_injective ht ht'
  rw [absorbElement_congr ht, hz'] at hz
  obtain ⟨-, rfl⟩ := Prod.mk.inj (Except.ok.inj hz)
  have hrz := Transcript.absorbScalar_injective hrz hrz'
  rw [hrz] at hrzy hmix
  have hrzy := Transcript.absorbScalar_injective hrzy hrzy'
  rw [hrzy, hmix'] at hmix
  obtain ⟨-, rfl⟩ := Prod.mk.inj (Except.ok.inj hmix)
  have hzOpening := absorbElement_injective hzOpening hzOpening'
  rw [absorbElement_congr hzOpening] at hzyOpening
  exact ⟨hr, ht, hrz, hrzy, hzOpening, absorbElement_injective hzyOpening hzyOpening'⟩

/-- The transcript before the last coefficient binds the parts of the proof. -/
theorem beforeSecond_eq_iff {t : Transcript} (h : p.beforeSecond oracle = .ok t) :
    p'.beforeSecond oracle = .ok t ↔ p.SameParts p' := by
  constructor
  · intro h'
    obtain ⟨d, hd, h⟩ := exists_of_bind_ok h
    obtain ⟨d', hd', h'⟩ := exists_of_bind_ok h'
    exact sameParts_of_transcript_eq hd hd' ((Except.ok.inj h).trans (Except.ok.inj h').symm)
  · intro hsame
    unfold beforeSecond at h ⊢
    rw [← hsame.draws_eq]
    exact h

theorem SameParts.challenges_eq (h : p.SameParts p') :
    p.challenges oracle = p'.challenges oracle := by
  rw [Proof.challenges_eq, Proof.challenges_eq, h.draws_eq]

end Proof

/-! ## Two runs -/

namespace Verifier

variable {G₁ G₂ : Type} [SourceGroup G₁ Fp] {oracle : Oracle}

/-- What a proof adds, with the value of the constraint polynomial that it uses. -/
theorem addProof_ok {v v₁ : Verifier G₁ G₂} {p : Proof G₁} {inputs : List Fr} {szy : Option Fr}
    (h : addProof oracle p inputs szy v = .ok () v₁) :
    ∃ ch u, p.challenges oracle = .ok ch ∧ szy.elim (v.evaluate ch.y ch.z) .ok = .ok u ∧
      v₁.batch = (p.entries ch (p.claimedT u (v.shape.publicValue ch.y inputs))).foldl Batch.push
        v.batch := by
  have hcall : (Call.proof p inputs szy).run oracle v = .ok () v₁ := h
  obtain ⟨entries, hclaims, -, hbatch, -⟩ := Call.exists_claims_of_run hcall
  obtain ⟨prepared, hprepared, hentries⟩ := exists_of_bind_ok hclaims
  obtain ⟨-, ch, u, hch, hu, rfl⟩ := Call.exists_of_proofClaims hprepared
  cases hentries
  exact ⟨ch, u, hch, hu, hbatch⟩

/-- What the coefficient of the claim at `z` binds. Whatever proofs, public inputs and values of the
constraint polynomial two verifiers for circuits of one shape are given: where both draw this
coefficient from the same transcript, the proofs have the same parts and the same challenges, and
the claimed values of `t` at `z` are apart by what the inputs and the values of the constraint
polynomial make of it. -/
theorem addProof_binds (oracle : Oracle) {v v' v₁ v₁' : Verifier G₁ G₂}
    (hshape : v'.shape = v.shape) {p p' : Proof G₁} {inputs inputs' : List Fr}
    {szy szy' : Option Fr}
    (hrun : addProof oracle p inputs szy v = .ok () v₁)
    (hrun' : addProof oracle p' inputs' szy' v' = .ok () v₁')
    (htranscript : p.beforeSecond oracle = p'.beforeSecond oracle) :
    p.SameParts p' ∧ ∃ (ch : Proof.Challenges) (u u' tzy tzy' : Fr),
      p.challenges oracle = .ok ch ∧ p'.challenges oracle = .ok ch ∧
      szy.elim (v.evaluate ch.y ch.z) .ok = .ok u ∧
      szy'.elim (v'.evaluate ch.y ch.z) .ok = .ok u' ∧
      v₁.batch = (p.entries ch tzy).foldl Batch.push v.batch ∧
      v₁'.batch = (p'.entries ch tzy').foldl Batch.push v'.batch ∧
      tzy - tzy' = p.rz * (u - u') -
        (v.shape.publicValue ch.y inputs - v.shape.publicValue ch.y inputs') := by
  obtain ⟨ch, u, hch, hu, hbatch⟩ := addProof_ok hrun
  obtain ⟨ch', u', hch', hu', hbatch'⟩ := addProof_ok hrun'
  obtain ⟨t, ht⟩ : ∃ t, p.beforeSecond oracle = .ok t := by
    rw [p.challenges_eq] at hch
    obtain ⟨d, hd, -⟩ := exists_of_bind_ok hch
    exact ⟨d.transcript, by rw [Proof.beforeSecond, hd]; rfl⟩
  have hsame := (Proof.beforeSecond_eq_iff ht).1 (htranscript.symm.trans ht)
  obtain rfl : ch = ch' := by
    rw [hsame.challenges_eq, hch'] at hch
    exact (Except.ok.inj hch).symm
  rw [hshape] at hbatch'
  refine ⟨hsame, ch, u, u', _, _, hch, hch', hu, hu', hbatch, hbatch', ?_⟩
  rw [Proof.claimedT, Proof.claimedT, hsame.rz, hsame.rzy]
  ring

/-- Different public inputs under one coefficient. -/
theorem addProof_binds_productCircuit :
    ∃ (srs : ReferenceString (Point Fp) (Point Fp2)) (v v₁ v₁' : Verifier (Point Fp) (Point Fp2))
      (log : List LogEntry) (p : Proof (Point Fp)) (ch : Proof.Challenges) (tzy tzy' : Fr),
      ReferenceString.ofSecrets 2 2 3 = .ok srs ∧
      start srs (productCircuit.atPass 0) [] = .ok v log ∧
      addProof (.constant 5) p [6] (some 0) v = .ok () v₁ ∧
      addProof (.constant 5) p [7] (some 0) v = .ok () v₁' ∧
      v₁.batch = (p.entries ch tzy).foldl Batch.push v.batch ∧
      v₁'.batch = (p.entries ch tzy').foldl Batch.push v.batch ∧ tzy ≠ tzy' := by
  let p : Proof (Point Fp) := ⟨zero, zero, 0, 0, zero, zero⟩
  obtain ⟨srs, v, log, hsrs, hstart, hv, htakes⟩ := productCircuit_takes_proofs
  obtain ⟨v₁, hrun, -⟩ := htakes (p.challenges_constant 5) 6 0
  obtain ⟨v₁', hrun', -⟩ := htakes (p.challenges_constant 5) 7 0
  obtain ⟨-, ch, u, u', tzy, tzy', hch, -, hu, hu', hbatch, hbatch', hdifference⟩ :=
    addProof_binds (.constant 5) rfl hrun hrun' rfl
  cases (p.challenges_constant 5).symm.trans hch
  cases hu
  cases hu'
  refine ⟨srs, v, v₁, v₁', log, p, _, tzy, tzy', hsrs, hstart, hrun, hrun', hbatch, hbatch', ?_⟩
  rintro rfl
  rw [hv.shape_eq, sub_self] at hdifference
  exact absurd hdifference (by decide +kernel)

end Verifier

end SnarkBatch
