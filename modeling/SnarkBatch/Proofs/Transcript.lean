import SnarkBatch.Proofs.Result
import SnarkBatch.Proofs.Claims

/-!
# Computations that draw challenges

A challenge may fail to come: every draw allowed may be rejected. `Delivers` says that this is all
that can stop a computation, and what holds of its result otherwise.
-/

namespace SnarkBatch

/-- The computation has a result with `Q`, unless the oracle has no challenge for some transcript.
-/
def Delivers {α : Type} (oracle : Oracle) (x : Except Fault α) (Q : α → Prop) : Prop :=
  (∃ a, x = .ok a ∧ Q a) ∨
    (x = .error .noChallenge ∧ ∃ t : Transcript, t.challenge oracle = .error .noChallenge)

namespace Delivers

variable {α β : Type} {oracle : Oracle} {Q : β → Prop}

theorem pure {b : β} (h : Q b) : Delivers oracle (.ok b) Q := .inl ⟨b, rfl, h⟩

theorem bind {x : Except Fault α} {f : α → Except Fault β} {P : α → Prop}
    (hx : Delivers oracle x P) (hf : ∀ a, P a → Delivers oracle (f a) Q) :
    Delivers oracle (x >>= f) Q := by
  rcases hx with ⟨a, rfl, ha⟩ | ⟨rfl, hdry⟩
  · exact hf a ha
  · exact .inr ⟨rfl, hdry⟩

theorem bind_of_ok {x : Except Fault α} {f : α → Except Fault β} {a : α} (hx : x = .ok a)
    (h : Delivers oracle (f a) Q) : Delivers oracle (x >>= f) Q := by
  rw [hx]
  exact h

theorem mono {x : Except Fault β} {P : β → Prop} (hx : Delivers oracle x P)
    (h : ∀ b, P b → Q b) : Delivers oracle x Q := by
  rcases hx with ⟨b, hb, hP⟩ | hdry
  · exact .inl ⟨b, hb, h b hP⟩
  · exact .inr hdry

theorem eq_ok {x : Except Fault β} (hx : Delivers oracle x Q) :
    Delivers oracle x fun b => x = .ok b ∧ Q b := by
  rcases hx with ⟨b, hb, hQ⟩ | hdry
  · exact .inl ⟨b, hb, hb, hQ⟩
  · exact .inr hdry

theorem mapM {f : α → Except Fault β} {R : α → β → Prop} {items : List α}
    (h : ∀ a ∈ items, Delivers oracle (f a) (R a)) :
    Delivers oracle (items.mapM f) (List.Forall₂ R items) := by
  induction items with
  | nil => exact pure .nil
  | cons a items ih =>
    obtain ⟨hhead, htail⟩ := List.forall_mem_cons.1 h
    rw [List.mapM_cons]
    exact bind hhead fun b hb => bind (ih htail) fun bs hbs => pure (.cons hb hbs)

/-- Where every challenge comes, there is a result. -/
theorem exists_of_forall {x : Except Fault β} (hx : Delivers oracle x Q)
    (h : ∀ t : Transcript, t.challenge oracle ≠ .error .noChallenge) : ∃ b, x = .ok b ∧ Q b := by
  rcases hx with hok | ⟨-, t, ht⟩
  · exact hok
  · exact absurd ht (h t)

end Delivers

theorem Transcript.draw_error {hash : List UInt8 → Digest} {draws : Nat} {t : Transcript} {e : Fault}
    (h : draw hash draws t = .error e) : e = .noChallenge := by
  induction draws generalizing t with
  | zero => exact (Except.error.inj h).symm
  | succ draws ih =>
    unfold draw at h
    dsimp only at h
    split at h
    · cases h
    · exact ih h

theorem Transcript.draw_eq (hash : List UInt8 → Digest) (t : Transcript) {c : Fr}
    (h : ofBigEndian (t.squeeze hash).1.toList = c.val) (draws : Nat) :
    draw hash (draws + 1) t = .ok (c, (t.squeeze hash).2) := by
  have hlt : ofBigEndian (t.squeeze hash).1.toList < scalarOrder := h ▸ c.val_lt
  have hscalar : (⟨_, hlt⟩ : Fr) = c := Residue.ext h
  rw [← hscalar]
  exact dif_pos hlt

theorem Delivers.challenge (oracle : Oracle) (t : Transcript) :
    Delivers oracle (t.challenge oracle) fun drawn => t.challenge oracle = .ok drawn := by
  cases h : t.challenge oracle with
  | ok drawn => exact .pure rfl
  | error e =>
    obtain rfl := Transcript.draw_error h
    exact .inr ⟨rfl, t, h⟩

theorem Delivers.forkChallenge (oracle : Oracle) (t : Transcript) :
    Delivers oracle (t.forkChallenge oracle) fun _ => True :=
  .bind (.challenge oracle t) fun _ _ => .pure trivial

/-- The lowest bytes determine a number that has no more. -/
theorem ofBigEndian_bigEndian (width n : Nat) :
    ofBigEndian (bigEndian width n) = n % 256 ^ width := by
  induction width generalizing n with
  | zero => simp [bigEndian, ofBigEndian, Nat.mod_one]
  | succ width ih =>
    rw [bigEndian, ofBigEndian_append_singleton, ih, Nat.pow_succ', Nat.mod_mul]
    simp
    omega

/-- The digest that is read as a given scalar. -/
def digestOf (c : Fr) : Digest := ⟨(bigEndian 32 c.val).toArray, by simp⟩

theorem ofBigEndian_digestOf (c : Fr) : ofBigEndian (digestOf c).toList = c.val := by
  have hsize : scalarOrder < 256 ^ 32 := by decide +kernel
  show ofBigEndian (bigEndian 32 c.val) = c.val
  rw [ofBigEndian_bigEndian, Nat.mod_eq_of_lt (c.val_lt.trans hsize)]

/-- An oracle whose challenges are all the same. -/
def Oracle.constant (c : Fr) : Oracle := ⟨fun _ => digestOf c, 1⟩

theorem Oracle.challenge_constant (c : Fr) (t : Transcript) :
    ∃ t', t.challenge (constant c) = .ok (c, t') := by
  have hdraw := Transcript.draw_eq (fun _ => digestOf c) t (ofBigEndian_digestOf c) 0
  refine ⟨(t.squeeze fun _ => digestOf c).2, ?_⟩
  unfold Transcript.challenge
  rw [← hdraw]
  rfl

theorem Oracle.eq_of_challenge_constant {c c' : Fr} {t t' : Transcript}
    (h : t.challenge (constant c) = .ok (c', t')) : c' = c := by
  obtain ⟨t'', ht⟩ := challenge_constant c t
  rw [ht] at h
  cases h
  rfl

theorem Oracle.challenge_constant_ne (c : Fr) (t : Transcript) :
    t.challenge (constant c) ≠ .error .noChallenge := by
  obtain ⟨t', ht⟩ := challenge_constant c t
  rw [ht]
  exact nofun

namespace Proof

variable {G : Type} [SourceGroup G Fp] {oracle : Oracle}

theorem points_eq {p : Proof G} {y z mix : Fr} {t₁ t₂ t₃ : Transcript}
    (hy : ((Transcript.start []).absorbElement p.r).challenge oracle = .ok (y, t₁))
    (hz : (t₁.absorbElement p.t).challenge oracle = .ok (z, t₂))
    (hmix : ((t₂.absorbScalar p.rz).absorbScalar p.rzy).challenge oracle = .ok (mix, t₃)) :
    p.points oracle =
      .ok ⟨y, z, mix, (t₃.absorbElement p.zOpening).absorbElement p.zyOpening⟩ :=
  (except_bind_ok hy _).trans <| (except_bind_ok hz _).trans (except_bind_ok hmix _)

theorem Points.challenges_eq {pts : Points} {first second : Fr} {t₁ t₂ : Transcript}
    (hfirst : pts.transcript.challenge oracle = .ok (first, t₁))
    (hsecond : t₁.challenge oracle = .ok (second, t₂)) :
    pts.challenges oracle = .ok ⟨pts.y, pts.z, pts.mix, first, second⟩ :=
  (except_bind_ok hfirst _).trans (except_bind_ok hsecond _)

theorem points_constant (p : Proof G) (c : Fr) :
    ∃ t, p.points (.constant c) = .ok ⟨c, c, c, t⟩ := by
  obtain ⟨t₁, hy⟩ := Oracle.challenge_constant c ((Transcript.start []).absorbElement p.r)
  obtain ⟨t₂, hz⟩ := Oracle.challenge_constant c (t₁.absorbElement p.t)
  obtain ⟨t₃, hmix⟩ := Oracle.challenge_constant c ((t₂.absorbScalar p.rz).absorbScalar p.rzy)
  exact ⟨_, points_eq hy hz hmix⟩

theorem challenges_constant (p : Proof G) (c : Fr) :
    p.challenges (.constant c) = .ok ⟨c, c, c, c, c⟩ := by
  obtain ⟨t, hpts⟩ := p.points_constant c
  obtain ⟨t₁, hfirst⟩ := Oracle.challenge_constant c t
  obtain ⟨t₂, hsecond⟩ := Oracle.challenge_constant c t₁
  exact (except_bind_ok hpts _).trans (Points.challenges_eq hfirst hsecond)

theorem points_delivers (oracle : Oracle) (p : Proof G) :
    Delivers oracle (p.points oracle) fun pts => p.points oracle = .ok pts := by
  have hdelivers : Delivers oracle (p.points oracle) fun _ => True :=
    .bind (.challenge _ _) fun _ _ => .bind (.challenge _ _) fun _ _ =>
    .bind (.challenge _ _) fun _ _ => .pure trivial
  exact hdelivers.eq_ok.mono fun _ h => h.1

/-- The coefficients are drawn from where the points have left the transcript. -/
theorem Points.challenges_delivers (oracle : Oracle) (pts : Points) :
    Delivers oracle (pts.challenges oracle) fun ch =>
      ch.y = pts.y ∧ ch.z = pts.z ∧ ch.mix = pts.mix :=
  .bind (.challenge oracle _) fun _ _ => .bind (.challenge oracle _) fun _ _ =>
    .pure ⟨rfl, rfl, rfl⟩

theorem Points.of_challenges {pts : Points} {ch : Challenges}
    (h : pts.challenges oracle = .ok ch) : ch.y = pts.y ∧ ch.z = pts.z := by
  obtain ⟨first, -, h⟩ := exists_of_bind_ok h
  obtain ⟨second, -, h⟩ := exists_of_bind_ok h
  cases h
  exact ⟨rfl, rfl⟩

end Proof

end SnarkBatch
