import Mathlib.NumberTheory.LucasPrimality
import Mathlib.Tactic.NormNum.Prime
import SnarkBatch.Proofs.Field.Algebra

/-!
# The two orders are prime

Lucas's test proves `m` prime from a residue whose power `m - 1` is 1 while its powers
`(m - 1) / q` are not, for every prime `q` that divides `m - 1`. A `Certificate` holds what the test
needs; its primes are proved by division where they are small, else by certificates before it
(`Certificate.Chain.prime`). `Fr` and `Fp` are fields with the operations they have as residues.
-/

namespace SnarkBatch

/-! ## Certificates -/

/-- For the test of `pred + 1`: a residue, and the primes of `pred` with their exponents. -/
structure Certificate where
  pred : Nat
  root : Nat
  factors : List (Nat × Nat)

namespace Certificate

instance (n : Nat) : Modulus (n + 1) := ⟨Nat.succ_pos n⟩

/-- The test succeeds, with factors that are known. -/
def Checks (known : List Nat) (c : Certificate) : Prop :=
  (c.factors.map fun f => f.1 ^ f.2).prod = c.pred ∧
    (.ofNat c.root : Residue (c.pred + 1)) ^ c.pred = 1 ∧
    ∀ f ∈ c.factors, f.1 ∈ known ∧ (.ofNat c.root : Residue (c.pred + 1)) ^ (c.pred / f.1) ≠ 1

instance (known : List Nat) (c : Certificate) : Decidable (c.Checks known) :=
  inferInstanceAs (Decidable (_ ∧ _))

theorem Checks.prime {known : List Nat} {c : Certificate} (h : c.Checks known)
    (hknown : ∀ p ∈ known, p.Prime) : (c.pred + 1).Prime := by
  obtain ⟨hprod, hone, hfactors⟩ := h
  refine lucas_primality (c.pred + 1) (Residue.ofNat c.root).toZMod ?_ ?_
  · rw [Nat.add_sub_cancel, ← Residue.toZMod_pow, hone, Residue.toZMod_one]
  · intro q hq hdvd
    rw [Nat.add_sub_cancel, ← hprod] at hdvd
    obtain ⟨x, hx, hqx⟩ := (Prime.dvd_prod_iff hq.prime).1 hdvd
    obtain ⟨f, hf, rfl⟩ := List.mem_map.1 hx
    obtain ⟨hmem, hne⟩ := hfactors f hf
    have hqf : q = f.1 :=
      (Nat.prime_dvd_prime_iff_eq hq (hknown f.1 hmem)).1 (hq.dvd_of_dvd_pow hqx)
    rw [hqf, Nat.add_sub_cancel, ← Residue.toZMod_pow, ← Residue.toZMod_one]
    exact fun h => hne (Residue.toZMod_injective h)

/-- Every certificate may use the primes of those before it. -/
def Chain (known : List Nat) : List Certificate → Prop
  | [] => True
  | c :: cs => c.Checks known ∧ Chain ((c.pred + 1) :: known) cs

instance decidableChain : (known : List Nat) → (cs : List Certificate) → Decidable (Chain known cs)
  | _, [] => inferInstanceAs (Decidable True)
  | known, c :: cs =>
    have := decidableChain ((c.pred + 1) :: known) cs
    inferInstanceAs (Decidable (_ ∧ _))

theorem Chain.prime {known : List Nat} {cs : List Certificate} (h : Chain known cs)
    (hknown : ∀ p ∈ known, p.Prime) : ∀ p ∈ cs.map fun c => c.pred + 1, p.Prime := by
  induction cs generalizing known with
  | nil => exact fun p hp => absurd hp (List.not_mem_nil)
  | cons c cs ih =>
    obtain ⟨hc, hcs⟩ := h
    have hprime := hc.prime hknown
    exact List.forall_mem_cons.2 ⟨hprime, ih hcs (List.forall_mem_cons.2 ⟨hprime, hknown⟩)⟩

end Certificate

def smallPrimes : List Nat :=
  [2, 3, 5, 7, 11, 13, 19, 29, 41, 67, 73, 83, 89, 107, 229, 311, 379, 661, 823, 853, 911, 983,
    1637, 3557, 3691, 4999, 11003, 13327, 93001, 237073, 327599, 1593227, 1853641, 4562087]

theorem prime_of_mem_smallPrimes : ∀ p ∈ smallPrimes, p.Prime := by
  norm_num [smallPrimes]

/-- Those that lead up to `scalarOrder` and `baseOrder`. -/
def certificates : List Certificate :=
  [⟨12048837556, 2, [(2, 2), (7, 2), (661, 1), (93001, 1)]⟩,
    ⟨5156902474396, 2, [(2, 2), (107, 1), (12048837557, 1)]⟩,
    ⟨1670836401704628, 2, [(2, 2), (3, 4), (5156902474397, 1)]⟩,
    ⟨639533338, 2, [(2, 1), (229, 1), (853, 1), (1637, 1)]⟩,
    ⟨405928798, 22, [(2, 1), (11, 1), (3691, 1), (4999, 1)]⟩,
    ⟨65865678001877902, 5, [(2, 1), (83, 1), (379, 1), (1637, 1), (639533339, 1)]⟩,
    ⟨13818364434197438864469338080, 3,
      [(2, 5), (5, 1), (823, 1), (1593227, 1), (65865678001877903, 1)]⟩,
    ⟨21888242871839275222246405745257275088548364400416034343698204186575808495616, 5,
      [(2, 28), (3, 2), (13, 1), (29, 1), (983, 1), (11003, 1), (237073, 1), (405928799, 1),
       (1670836401704629, 1), (13818364434197438864469338081, 1)]⟩,
    ⟨11465965000, 3, [(2, 3), (5, 4), (7, 1), (327599, 1)]⟩,
    ⟨1263766530, 10, [(2, 1), (3, 1), (5, 1), (13, 1), (911, 1), (3557, 1)]⟩,
    ⟨173171038, 13, [(2, 1), (73, 1), (89, 1), (13327, 1)]⟩,
    ⟨35385462868, 2, [(2, 2), (7, 1), (1263766531, 1)]⟩,
    ⟨2480874801745590, 6, [(2, 1), (3, 2), (5, 1), (19, 1), (41, 1), (35385462869, 1)]⟩,
    ⟨13427688667394608761327070753331941386768, 17,
      [(2, 4), (3, 1), (7, 1), (11, 1), (1853641, 1), (4562087, 1), (173171039, 1),
       (2480874801745591, 1)]⟩,
    ⟨21888242871839275222246405745257275088696311157297823662689037894645226208582, 3,
      [(2, 1), (3, 2), (13, 1), (29, 1), (67, 1), (229, 1), (311, 1), (983, 1), (11003, 1),
       (405928799, 1), (11465965001, 1), (13427688667394608761327070753331941386769, 1)]⟩]

theorem prime_of_mem_certificates : ∀ p ∈ certificates.map fun c => c.pred + 1, p.Prime :=
  Certificate.Chain.prime (by decide +kernel) prime_of_mem_smallPrimes

theorem scalarOrder_prime : scalarOrder.Prime := prime_of_mem_certificates scalarOrder (by decide)

theorem baseOrder_prime : baseOrder.Prime := prime_of_mem_certificates baseOrder (by decide)

/-! ## The fields -/

instance : Fact scalarOrder.Prime := ⟨scalarOrder_prime⟩
instance : Fact baseOrder.Prime := ⟨baseOrder_prime⟩
instance : Field Fr := Residue.field (by decide)
instance : Field Fp := Residue.field (by decide)

end SnarkBatch
