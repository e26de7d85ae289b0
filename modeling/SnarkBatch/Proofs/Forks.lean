import SnarkBatch.Proofs.Absorption

/-!
# Forks of transcripts

Several transcripts may be in use at once, some of them copies of others, and be told this and that
in any order. Each goes its own way: it is as if a new transcript had been told what its lineage
says, that is what its ancestors were told before each fork, and then what it was told itself
(`Transcript.lineage`, `Transcript.forks_replay`). The hash function is any function.
-/

namespace SnarkBatch.Transcript

/-! ## Messages and commands -/

/-- What one transcript is told. A scalar may be given as any integer. -/
inductive Message
  | bytes (label data : List UInt8)
  | point (P : Point Fp)
  | scalar (s : Int)
  | challenge
  deriving DecidableEq, Repr

/-- The answer is the challenge, if it was asked for one. -/
def Message.tell (oracle : Oracle) : Message → EStateM Fault Transcript (Option Fr)
  | bytes label data, t => .ok none (t.absorb label data)
  | point P, t => .ok none (t.absorbElement P)
  | scalar s, t => .ok none (t.absorbScalar (.ofInt s))
  | challenge, t =>
    match t.challenge oracle with
    | .ok (c, t') => .ok (some c) t'
    | .error e => .error e t

/-- What is done with a forest of transcripts, which are numbered as they come into being. -/
inductive Command
  | create (personalization : List UInt8)
  | fork (parent : Nat)
  | tell (target : Nat) (m : Message)
  deriving DecidableEq, Repr

def Command.run (oracle : Oracle) : Command → EStateM Fault (List Transcript) (Option Fr)
  | create personalization, forest => .ok none (forest ++ [start personalization])
  | fork parent, forest =>
    match forest[parent]? with
    | some t => .ok none (forest ++ [t])
    | none => .error .position forest
  | tell target m, forest =>
    match forest[target]? with
    | some t => mapEnd (forest.set target ·) (m.tell oracle t)
    | none => .error .position forest

section

variable {oracle : Oracle} {t t' : Transcript} {answer : Option Fr} {forest forest' : List Transcript}

theorem Message.tell_challenge (h : Message.challenge.tell oracle t = .ok answer t') :
    ∃ c, answer = some c ∧ t.challenge oracle = .ok (c, t') := by
  dsimp only [Message.tell] at h
  split at h
  · rename_i hdraw
    cases h
    exact ⟨_, rfl, hdraw⟩
  · cases h

theorem Message.prefix_of_tell {m : Message} (h : m.tell oracle t = .ok answer t') :
    t.record <+: t'.record := by
  cases m with
  | bytes label data =>
    cases h
    exact prefix_absorb ..
  | point P =>
    cases h
    exact prefix_absorb ..
  | scalar s =>
    cases h
    exact prefix_absorb ..
  | challenge =>
    obtain ⟨c, -, hdraw⟩ := Message.tell_challenge h
    exact prefix_of_draw hdraw

namespace Command

theorem run_tell {i : Nat} {m : Message} (h : (tell i m).run oracle forest = .ok answer forest') :
    ∃ t t', forest[i]? = some t ∧ m.tell oracle t = .ok answer t' ∧ forest' = forest.set i t' := by
  dsimp only [run] at h
  split at h
  · rename_i t ht
    cases hm : m.tell oracle t with
    | ok a t' =>
      rw [hm] at h
      cases h
      exact ⟨t, t', ht, hm, rfl⟩
    | error e t' =>
      rw [hm] at h
      cases h
  · cases h

theorem run_cases {c : Command} (h : c.run oracle forest = .ok answer forest') :
    (∃ p, c = .create p ∧ answer = none ∧ forest' = forest ++ [start p]) ∨
    (∃ i t, c = .fork i ∧ forest[i]? = some t ∧ answer = none ∧ forest' = forest ++ [t]) ∨
    (∃ i m t t', c = .tell i m ∧ forest[i]? = some t ∧ m.tell oracle t = .ok answer t' ∧
      forest' = forest.set i t') := by
  cases c with
  | create p =>
    cases h
    exact .inl ⟨p, rfl, rfl, rfl⟩
  | fork i =>
    dsimp only [run] at h
    split at h
    · rename_i t ht
      cases h
      exact .inr (.inl ⟨i, t, rfl, ht, rfl, rfl⟩)
    · cases h
  | tell i m =>
    obtain ⟨t, t', ht, hm, rfl⟩ := run_tell h
    exact .inr (.inr ⟨i, m, t, t', rfl, ht, hm, rfl⟩)

/-- Every transcript stays where it is and goes on from its record. -/
theorem prefix_of_run {c : Command} (h : c.run oracle forest = .ok answer forest') {i : Nat}
    (hi : forest[i]? = some t) : ∃ t', forest'[i]? = some t' ∧ t.record <+: t'.record := by
  have hlength : i < forest.length := (List.getElem?_eq_some_iff.1 hi).1
  obtain ⟨p, -, -, rfl⟩ | ⟨j, s, -, -, -, rfl⟩ | ⟨j, m, s, s', -, hs, hm, rfl⟩ := run_cases h
  · exact ⟨t, by rw [List.getElem?_append_left hlength, hi], List.prefix_rfl⟩
  · exact ⟨t, by rw [List.getElem?_append_left hlength, hi], List.prefix_rfl⟩
  · by_cases hij : j = i
    · subst hij
      obtain rfl : s = t := Option.some.inj (hs.symm.trans hi)
      exact ⟨s', List.getElem?_set_self hlength, m.prefix_of_tell hm⟩
    · exact ⟨t, by rw [List.getElem?_set_ne hij, hi], List.prefix_rfl⟩

end Command

end

/-! ## Lineages -/

def created : List Command → Nat
  | [] => 0
  | .create _ :: past => created past + 1
  | .fork _ :: past => created past + 1
  | .tell _ _ :: past => created past

/-- What a transcript began with, and what it was told afterwards. Each message comes with the
number of its command. -/
structure Lineage where
  personalization : List UInt8
  told : List (Nat × Message)
  deriving DecidableEq, Repr

/-- The lineage of a transcript after the commands, which are listed from the last to the first. A
fork begins with the lineage that its parent has at the time. -/
def lineage : List Command → Nat → Lineage
  | [], _ => ⟨[], []⟩
  | .create p :: past, i => if i = created past then ⟨p, []⟩ else lineage past i
  | .fork parent :: past, i => lineage past (if i = created past then parent else i)
  | .tell target m :: past, i =>
    let l := lineage past i
    if i = target then { l with told := l.told ++ [(past.length, m)] } else l

/-- A new transcript is told what the lineage says, and gives the answers that were given. -/
def Lineage.Replays (oracle : Oracle) (l : Lineage) (answers : List (Option Fr)) (t : Transcript) :
    Prop :=
  ∃ results, (l.told.map (·.2)).mapM (Message.tell oracle) (start l.personalization) = .ok results t ∧
    results.map some = l.told.map fun m => answers[m.1]?

section

variable {oracle : Oracle} {answers : List (Option Fr)} {answer : Option Fr} {t t' : Transcript}

namespace Lineage.Replays

variable {l : Lineage}

theorem append (h : l.Replays oracle answers t) (later : List (Option Fr)) :
    l.Replays oracle (answers ++ later) t := by
  obtain ⟨results, hrun, hresults⟩ := h
  refine ⟨results, hrun, hresults.trans (List.map_congr_left fun m hm => ?_)⟩
  have hgiven : answers[m.1]? ∈ results.map some := hresults ▸ List.mem_map_of_mem hm
  obtain ⟨a, -, ha⟩ := List.mem_map.1 hgiven
  rw [List.getElem?_append_left (List.getElem?_eq_some_iff.1 ha.symm).1]

theorem tell {m : Message} (h : l.Replays oracle answers t) (hm : m.tell oracle t = .ok answer t') :
    Replays oracle { l with told := l.told ++ [(answers.length, m)] } (answers ++ [answer]) t' := by
  obtain ⟨results, hrun, hresults⟩ := h.append [answer]
  refine ⟨results ++ [answer], ?_, ?_⟩
  · rw [List.map_append, List.mapM_append, bind_ok hrun, List.map_singleton, List.mapM_cons,
      bind_assoc, bind_ok hm]
    rfl
  · rw [List.map_append, List.map_append, hresults, List.map_singleton, List.map_singleton,
      List.getElem?_concat_length]

end Lineage.Replays

/-- What holds after a run, with its commands from the last to the first. -/
structure Grown (oracle : Oracle) (past : List Command) (answers : List (Option Fr))
    (forest : List Transcript) : Prop where
  length_answers : answers.length = past.length
  length_forest : forest.length = created past
  replays : ∀ i t, forest[i]? = some t → (lineage past i).Replays oracle answers t

variable {forest forest' : List Transcript}

theorem Grown.concat {past : List Command} (h : Grown oracle past answers forest) {l : Lineage}
    (hl : l.Replays oracle (answers ++ [answer]) t) {i : Nat} {s : Transcript}
    (hi : (forest ++ [t])[i]? = some s) :
    (if i = created past then l else lineage past i).Replays oracle (answers ++ [answer]) s := by
  rw [← h.length_forest]
  obtain hlt | hge := lt_or_ge i forest.length
  · rw [List.getElem?_append_left hlt] at hi
    rw [if_neg hlt.ne]
    exact (h.replays i s hi).append _
  · have hlast : i = forest.length := by
      have := (List.getElem?_eq_some_iff.1 hi).1
      rw [List.length_append, List.length_singleton] at this
      omega
    rw [hlast, List.getElem?_concat_length] at hi
    cases hi
    rw [if_pos hlast]
    exact hl

theorem Grown.step {past : List Command} (h : Grown oracle past answers forest) {c : Command}
    (hc : c.run oracle forest = .ok answer forest') :
    Grown oracle (c :: past) (answers ++ [answer]) forest' := by
  have hanswers : (answers ++ [answer]).length = (c :: past).length := by
    rw [List.length_append, h.length_answers, List.length_singleton, List.length_cons]
  obtain ⟨p, rfl, -, rfl⟩ | ⟨parent, t, rfl, ht, -, rfl⟩ | ⟨target, m, t, t', rfl, ht, hm, rfl⟩ :=
    Command.run_cases hc
  · refine ⟨hanswers, ?_, fun i s hi => h.concat ⟨[], rfl, rfl⟩ hi⟩
    rw [List.length_append, h.length_forest, List.length_singleton, created]
  · refine ⟨hanswers, ?_, fun i s hi => ?_⟩
    · rw [List.length_append, h.length_forest, List.length_singleton, created]
    · have hparent := h.concat ((h.replays parent t ht).append [answer]) hi
      rw [← apply_ite (lineage past)] at hparent
      exact hparent
  · refine ⟨hanswers, ?_, fun i s hi => ?_⟩
    · rw [List.length_set, h.length_forest, created]
    · dsimp only [lineage]
      split
      · rename_i htarget
        subst htarget
        rw [List.getElem?_set_self (List.getElem?_eq_some_iff.1 ht).1] at hi
        cases hi
        rw [← h.length_answers]
        exact (h.replays i t ht).tell hm
      · rename_i htarget
        rw [List.getElem?_set_ne (Ne.symm htarget)] at hi
        exact (h.replays i s hi).append _

theorem exists_of_run_append {before after : List Command}
    (h : (before ++ after).mapM (Command.run oracle) forest = .ok answers forest') :
    ∃ answers₀ forest₀ answers₁, before.mapM (Command.run oracle) forest = .ok answers₀ forest₀ ∧
      after.mapM (Command.run oracle) forest₀ = .ok answers₁ forest' ∧
      answers = answers₀ ++ answers₁ := by
  rw [List.mapM_append] at h
  obtain ⟨answers₀, forest₀, hbefore, h⟩ := exists_of_run_ok h
  obtain ⟨answers₁, forest₁, hafter, h⟩ := exists_of_run_ok h
  cases h
  exact ⟨answers₀, forest₀, answers₁, hbefore, hafter, rfl⟩

theorem exists_of_run_cons {c : Command} {after : List Command}
    (h : (c :: after).mapM (Command.run oracle) forest = .ok answers forest') :
    ∃ answer forest₁ answers₁, c.run oracle forest = .ok answer forest₁ ∧
      after.mapM (Command.run oracle) forest₁ = .ok answers₁ forest' ∧
      answers = answer :: answers₁ := by
  rw [List.mapM_cons] at h
  obtain ⟨answer, forest₁, hc, h⟩ := exists_of_run_ok h
  obtain ⟨answers₁, forest₂, hafter, h⟩ := exists_of_run_ok h
  cases h
  exact ⟨answer, forest₁, answers₁, hc, hafter, rfl⟩

theorem Grown.run {commands : List Command}
    (h : commands.mapM (Command.run oracle) [] = .ok answers forest) :
    Grown oracle commands.reverse answers forest := by
  induction commands using List.reverseRecOn generalizing answers forest with
  | nil =>
    cases h
    exact ⟨rfl, rfl, nofun⟩
  | append_singleton commands c ih =>
    obtain ⟨answers₀, forest₀, answers₁, hcommands, hc, rfl⟩ := exists_of_run_append h
    obtain ⟨answer, forest₁, answers₂, hc, hnil, rfl⟩ := exists_of_run_cons hc
    cases hnil
    rw [List.reverse_append]
    exact (ih hcommands).step hc

end

theorem told_subset {past : List Command} (c : Command) {i : Nat} (hi : i < created past) :
    (lineage past i).told ⊆ (lineage (c :: past) i).told := by
  cases c with
  | create p =>
    rw [lineage, if_neg hi.ne]
    exact List.Subset.refl _
  | fork parent =>
    rw [lineage, if_neg hi.ne]
    exact List.Subset.refl _
  | tell target m =>
    dsimp only [lineage]
    split
    · exact List.subset_append_left _ _
    · exact List.Subset.refl _

theorem mem_told {m : Message} {target : Nat} {before : List Command}
    (htarget : target < created before) (after : List Command) :
    (before.length, m) ∈ (lineage (after ++ .tell target m :: before) target).told := by
  have hcreated : ∀ after, target < created (after ++ .tell target m :: before) := by
    intro after
    induction after with
    | nil => exact htarget
    | cons c after ih => cases c <;> simp only [List.cons_append, created] <;> omega
  induction after with
  | nil =>
    dsimp only [List.nil_append, lineage]
    rw [if_pos rfl]
    exact List.mem_append_right _ (List.mem_singleton_self _)
  | cons c after ih => exact told_subset c (hcreated after) ih

/-- Whatever is done with the transcripts of a forest, and in whichever order, every one of them
has the record, and was given the challenges, of a new transcript that is told its lineage alone.
Nothing takes bytes out of a record, and a challenge appends 41 bytes for each of its digests. -/
theorem forks_replay {oracle : Oracle} {commands : List Command} {answers : List (Option Fr)}
    {forest : List Transcript}
    (hrun : commands.mapM (Command.run oracle) [] = .ok answers forest) :
    (∀ i t, forest[i]? = some t → (lineage commands.reverse i).Replays oracle answers t) ∧
    ∀ before c after, commands = before ++ c :: after →
      (∀ i m, c = .tell i m → (before.length, m) ∈ (lineage commands.reverse i).told) ∧
      ∃ earlier forest₀ answer forest₁,
        before.mapM (Command.run oracle) [] = .ok earlier forest₀ ∧
        c.run oracle forest₀ = .ok answer forest₁ ∧ answers[before.length]? = some answer ∧
        (∀ (i : Nat) (t : Transcript), forest₀[i]? = some t →
          ∃ t', forest₁[i]? = some t' ∧ t.record <+: t'.record) ∧
        ∀ i, c = .tell i .challenge → ∃ (t t' : Transcript) (v : Fr) (rejected : List Digest)
          (accepted : Digest),
          forest₀[i]? = some t ∧ forest₁ = forest₀.set i t' ∧ answer = some v ∧
          t'.record.length = t.record.length + 41 * (rejected.length + 1) ∧
          Sampled oracle.hash t rejected accepted v t' := by
  refine ⟨(Grown.run hrun).replays, ?_⟩
  rintro before c after rfl
  obtain ⟨earlier, forest₀, later, hbefore, hrest, rfl⟩ := exists_of_run_append hrun
  obtain ⟨answer, forest₁, later, hc, -, rfl⟩ := exists_of_run_cons hrest
  have hgrown := Grown.run hbefore
  have hreverse : (before ++ c :: after).reverse = after.reverse ++ c :: before.reverse := by
    rw [List.reverse_append, List.reverse_cons, List.append_assoc, List.singleton_append]
  have hearlier : earlier.length = before.length := by
    rw [hgrown.length_answers, List.length_reverse]
  refine ⟨?_, earlier, forest₀, answer, forest₁, hbefore, hc, ?_, fun i t => Command.prefix_of_run hc,
    ?_⟩
  · rintro i m rfl
    obtain ⟨t, t', ht, -⟩ := Command.run_tell hc
    have hi := (List.getElem?_eq_some_iff.1 ht).1
    rw [hgrown.length_forest] at hi
    rw [hreverse, ← List.length_reverse]
    exact mem_told hi after.reverse
  · rw [← hearlier, List.getElem?_append_right le_rfl, Nat.sub_self, List.getElem?_cons_zero]
  · rintro i rfl
    obtain ⟨t, t', ht, hm, rfl⟩ := Command.run_tell hc
    obtain ⟨v, rfl, hdraw⟩ := Message.tell_challenge hm
    obtain ⟨rejected, accepted, -, hsampled⟩ := challenge_eq_ok_iff.1 hdraw
    exact ⟨t, t', v, rejected, accepted, ht, rfl, rfl, hsampled.length_eq, hsampled⟩

/-- Rejects the digests of records of even length, and draws 5 from the others. -/
def alternating : Oracle :=
  ⟨fun asked => if asked.length % 2 = 0 then .replicate 32 255 else digestOf (.ofNat 5), 2⟩

/-- A fork and its parent told one thing and another, in turn. The first two challenges take two
digests each. -/
def interleaved : List Command :=
  [.create [], .tell 0 .challenge, .fork 0, .tell 0 (.bytes [1] [2, 3]), .tell 1 .challenge,
    .tell 1 (.scalar (-1)), .tell 0 .challenge]

theorem forks_replay_interleaved :
    ∃ answers forest, interleaved.mapM (Command.run alternating) [] = .ok answers forest ∧
      answers = [none, some (.ofNat 5), none, none, some (.ofNat 5), none, some (.ofNat 5)] ∧
      ∃ t, forest[1]? = some t ∧ t.record.length = 19 + 4 * 41 + 42 ∧
        lineage interleaved.reverse 1 =
          ⟨[], [(1, .challenge), (4, .challenge), (5, .scalar (-1))]⟩ ∧
        (lineage interleaved.reverse 1).Replays alternating answers t := by
  have houtcome : outcome (interleaved.mapM (Command.run alternating) []) =
      .ok [none, some (.ofNat 5), none, none, some (.ofNat 5), none, some (.ofNat 5)] := by
    decide +kernel
  have hrun := eq_ok_of_outcome houtcome
  have hlength : ((endState (interleaved.mapM (Command.run alternating) []))[1]?.map
      (·.record.length)) = some (19 + 4 * 41 + 42) := by decide +kernel
  obtain ⟨t, ht, hlength⟩ := Option.map_eq_some_iff.1 hlength
  exact ⟨_, _, hrun, rfl, t, ht, hlength, by decide +kernel, (forks_replay hrun).1 1 t ht⟩

end SnarkBatch.Transcript
