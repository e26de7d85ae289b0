import SnarkBatch.Proofs.Transcript

/-!
# Challenges written out

A challenge rejects digests until one is a scalar. `Transcript.Sampled` lists the digests and what
they append to the record, and a challenge comes just if there is such a list that is not too long
(`Transcript.draw_eq_ok_iff`). Nothing is assumed of the hash function.
-/

namespace SnarkBatch.Transcript

/-- What a list of digests appends to a record. -/
def blocks (digests : List Digest) : List UInt8 :=
  digests.flatMap fun d => challengeLabel ++ d.toList

theorem blocks_cons (d : Digest) (digests : List Digest) :
    blocks (d :: digests) = challengeLabel ++ d.toList ++ blocks digests := List.flatMap_cons

theorem length_blocks (digests : List Digest) : (blocks digests).length = 41 * digests.length := by
  have hlabel : challengeLabel.length = 9 := by decide +kernel
  induction digests with
  | nil => rfl
  | cons d digests ih =>
    rw [blocks_cons, List.length_append, List.length_append, ih, hlabel, Vector.length_toList,
      List.length_cons]
    omega

/-- The challenge `c` drawn from `t` with some rejected digests and an accepted one. -/
structure Sampled (hash : List UInt8 → Digest) (t : Transcript) (rejected : List Digest)
    (accepted : Digest) (c : Fr) (t' : Transcript) : Prop where
  record_eq : t'.record = t.record ++ blocks (rejected ++ [accepted])
  rejected_ge : ∀ d ∈ rejected, scalarOrder ≤ ofBigEndian d.toList
  accepted_eq : ofBigEndian accepted.toList = c.val
  /-- Each digest is the hash of what stands before it, with its own label. -/
  hash_eq : ∀ before d after, rejected ++ [accepted] = before ++ d :: after →
    d = hash (t.record ++ blocks before ++ challengeLabel)

section

variable {hash : List UInt8 → Digest} {t t' : Transcript} {rejected : List Digest}
  {accepted : Digest} {c : Fr}

theorem Sampled.length_eq (h : Sampled hash t rejected accepted c t') :
    t'.record.length = t.record.length + 41 * (rejected.length + 1) := by
  rw [h.record_eq, List.length_append, length_blocks, List.length_append, List.length_singleton]

theorem sampled_nil (h : ofBigEndian (t.squeeze hash).1.toList = c.val) :
    Sampled hash t [] (t.squeeze hash).1 c (t.squeeze hash).2 where
  record_eq := by simp [squeeze, blocks]
  rejected_ge := nofun
  accepted_eq := h
  hash_eq before d after heq := by
    cases before with
    | nil =>
      obtain ⟨rfl, -⟩ := List.cons.inj heq
      simp [squeeze, blocks]
    | cons _ before => simp at heq

theorem sampled_cons_iff :
    Sampled hash t ((t.squeeze hash).1 :: rejected) accepted c t' ↔
      scalarOrder ≤ ofBigEndian (t.squeeze hash).1.toList ∧
        Sampled hash (t.squeeze hash).2 rejected accepted c t' := by
  have hrecord : ∀ digests, t.record ++ blocks ((t.squeeze hash).1 :: digests) =
      (t.squeeze hash).2.record ++ blocks digests := by
    intro digests
    rw [blocks_cons]
    simp [squeeze]
  constructor
  · rintro ⟨hrec, hge, hval, hhash⟩
    obtain ⟨hhead, htail⟩ := List.forall_mem_cons.1 hge
    refine ⟨hhead, ?_, htail, hval, fun before d after heq => ?_⟩
    · rw [hrec, List.cons_append, hrecord]
    · rw [← hrecord]
      exact hhash (_ :: before) d after (by rw [List.cons_append, heq, List.cons_append])
  · rintro ⟨hhead, hrec, htail, hval, hhash⟩
    refine ⟨?_, List.forall_mem_cons.2 ⟨hhead, htail⟩, hval, fun before d after heq => ?_⟩
    · rw [hrec, List.cons_append, hrecord]
    · cases before with
      | nil =>
        obtain ⟨rfl, -⟩ := List.cons.inj heq
        simp [squeeze, blocks]
      | cons d' before =>
        obtain ⟨rfl, htail⟩ := List.cons.inj heq
        rw [hrecord]
        exact hhash before d after htail

theorem Sampled.head_eq (h : Sampled hash t rejected accepted c t') :
    (rejected ++ [accepted]).head? = some (t.squeeze hash).1 := by
  obtain ⟨d, after, heq⟩ := List.exists_cons_of_ne_nil
    (List.append_ne_nil_of_right_ne_nil rejected (List.cons_ne_nil accepted []))
  rw [heq, List.head?_cons, h.hash_eq [] d after heq]
  simp [squeeze, blocks]

theorem sampled_iff_of_lt (hscalar : ofBigEndian (t.squeeze hash).1.toList < scalarOrder) :
    Sampled hash t rejected accepted c t' ↔
      rejected = [] ∧ accepted = (t.squeeze hash).1 ∧ c = ⟨_, hscalar⟩ ∧
        t' = (t.squeeze hash).2 := by
  constructor
  · intro h
    cases rejected with
    | nil =>
      obtain rfl : accepted = (t.squeeze hash).1 := Option.some.inj h.head_eq
      have hrecord := (sampled_nil (c := ⟨_, hscalar⟩) rfl).record_eq
      exact ⟨rfl, rfl, Residue.ext h.accepted_eq.symm,
        congrArg Transcript.mk (h.record_eq.trans hrecord.symm)⟩
    | cons d rejected =>
      obtain rfl : d = (t.squeeze hash).1 := Option.some.inj h.head_eq
      exact absurd hscalar (not_lt.2 (h.rejected_ge _ List.mem_cons_self))
  · rintro ⟨rfl, rfl, rfl, rfl⟩
    exact sampled_nil rfl

theorem sampled_iff_of_ge (hscalar : ¬ ofBigEndian (t.squeeze hash).1.toList < scalarOrder) :
    Sampled hash t rejected accepted c t' ↔
      ∃ rejected', rejected = (t.squeeze hash).1 :: rejected' ∧
        Sampled hash (t.squeeze hash).2 rejected' accepted c t' := by
  constructor
  · intro h
    cases rejected with
    | nil =>
      obtain rfl : accepted = (t.squeeze hash).1 := Option.some.inj h.head_eq
      exact absurd (h.accepted_eq ▸ c.val_lt) hscalar
    | cons d rejected =>
      obtain rfl : d = (t.squeeze hash).1 := Option.some.inj h.head_eq
      exact ⟨rejected, rfl, (sampled_cons_iff.1 h).2⟩
  · rintro ⟨rejected', rfl, h⟩
    exact sampled_cons_iff.2 ⟨not_lt.1 hscalar, h⟩

/-- A challenge comes just if one of the next digests is a scalar. -/
theorem draw_eq_ok_iff {draws : Nat} :
    draw hash draws t = .ok (c, t') ↔
      ∃ rejected accepted, rejected.length < draws ∧ Sampled hash t rejected accepted c t' := by
  induction draws generalizing t with
  | zero =>
    constructor
    · intro h
      cases h
    · rintro ⟨rejected, accepted, h, -⟩
      exact absurd h (Nat.not_lt_zero _)
  | succ draws ih =>
    by_cases hscalar : ofBigEndian (t.squeeze hash).1.toList < scalarOrder
    · rw [draw_eq hash t (c := ⟨_, hscalar⟩) rfl draws]
      simp only [sampled_iff_of_lt hscalar]
      constructor
      · intro h
        cases h
        exact ⟨[], _, Nat.succ_pos draws, rfl, rfl, rfl, rfl⟩
      · rintro ⟨_, _, -, rfl, rfl, rfl, rfl⟩
        rfl
    · have hdraw : draw hash (draws + 1) t = draw hash draws (t.squeeze hash).2 := dif_neg hscalar
      rw [hdraw, ih]
      simp only [sampled_iff_of_ge hscalar]
      constructor
      · rintro ⟨rejected, accepted, hlength, h⟩
        exact ⟨_ :: rejected, accepted, Nat.succ_lt_succ hlength, rejected, rfl, h⟩
      · rintro ⟨_, accepted, hlength, rejected, rfl, h⟩
        exact ⟨rejected, accepted, Nat.lt_of_succ_lt_succ hlength, h⟩

theorem challenge_eq_ok_iff {oracle : Oracle} :
    t.challenge oracle = .ok (c, t') ↔
      ∃ rejected accepted, rejected.length < oracle.draws ∧
        Sampled oracle.hash t rejected accepted c t' := draw_eq_ok_iff

end

end SnarkBatch.Transcript
