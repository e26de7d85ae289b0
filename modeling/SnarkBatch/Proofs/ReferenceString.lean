import SnarkBatch.Proofs.Group.Multiples
import SnarkBatch.Proofs.Result

/-!
# The tables of a reference string

A reference string can be made for every degree from 1 on and every secret other than 0. Its tables
hold the generators times the powers of the secret (`ReferenceString.Tables`), so `gAt` and
`gAlphaAt` find `x^e` and `α · x^e` for every exponent within the degree, and whatever they find is
that; any other exponent they refuse, and `gAlphaAt` also refuses 0.
-/

namespace SnarkBatch.ReferenceString

open SourceGroup

theorem entry_multiples {G F : Type} [SourceGroup G F] {scalars : List Fr} {i : Nat} {k : Fr}
    (h : scalars[i]? = some k) :
    entry (multiples scalars : List G) i = .ok (smul k generator) := by
  rw [entry, multiples, List.getElem?_map, h]
  rfl

theorem getElem?_powers (x : Fr) {d i : Nat} (hi : i ≤ d) : (powers x d)[i]? = some (x ^ i) := by
  rw [powers, List.getElem?_map, List.getElem?_range (Nat.lt_succ_of_le hi)]
  rfl

theorem getElem?_map_powers (alpha x : Fr) {d i : Nat} (hi : i ≤ d) :
    ((powers x d).map (alpha * ·))[i]? = some (alpha * x ^ i) := by
  rw [List.getElem?_map, getElem?_powers x hi]
  rfl

theorem getElem?_tail_powers (alpha x : Fr) {d i : Nat} (hi : i < d) :
    ((powers x d).tail.map (alpha * ·))[i]? = some (alpha * x ^ (i + 1)) := by
  rw [List.getElem?_map, List.getElem?_tail, getElem?_powers x hi]
  rfl

variable {G₁ G₂ F₁ F₂ : Type} [SourceGroup G₁ F₁] [SourceGroup G₂ F₂]

/-- What the tables hold that commitments and batches read. -/
structure Tables (d : Int) (x alpha : Fr) (srs : ReferenceString G₁ G₂) : Prop where
  degree_eq : srs.degree = d
  one_le : 1 ≤ d
  secret_ne_zero : x ≠ 0
  gPositive : ∀ {i}, i ≤ d.toNat → entry srs.gPositive i = .ok (smul (x ^ i) generator)
  gNegative : ∀ {i}, i ≤ d.toNat → entry srs.gNegative i = .ok (smul (x⁻¹ ^ i) generator)
  gPositiveAlpha : ∀ {i}, i < d.toNat →
    entry srs.gPositiveAlpha i = .ok (smul (alpha * x ^ (i + 1)) generator)
  gNegativeAlpha : ∀ {i}, i < d.toNat →
    entry srs.gNegativeAlpha i = .ok (smul (alpha * x⁻¹ ^ (i + 1)) generator)
  hNegative : ∀ {i}, i ≤ d.toNat → entry srs.hNegative i = .ok (smul (x⁻¹ ^ i) generator)
  hPositiveAlpha : ∀ {i}, i ≤ d.toNat →
    entry srs.hPositiveAlpha i = .ok (smul (alpha * x ^ i) generator)

theorem exists_ofSecrets {d : Int} (hd : 1 ≤ d) {x : Fr} (hx : x ≠ 0) (alpha : Fr) :
    ∃ srs : ReferenceString G₁ G₂, ofSecrets d x alpha = .ok srs := by
  rw [ofSecrets, if_neg (not_lt.2 hd), if_neg hx]
  exact ⟨_, rfl⟩

theorem tables_of_ofSecrets {d : Int} {x alpha : Fr} {srs : ReferenceString G₁ G₂}
    (h : ofSecrets d x alpha = .ok srs) : srs.Tables d x alpha := by
  unfold ofSecrets at h
  by_cases hd : d < 1
  · rw [if_pos hd] at h
    cases h
  by_cases hx : x = 0
  · rw [if_neg hd, if_pos hx] at h
    cases h
  rw [if_neg hd, if_neg hx] at h
  cases h
  exact {
    degree_eq := rfl
    one_le := not_lt.1 hd
    secret_ne_zero := hx
    gPositive := fun hi => entry_multiples (getElem?_powers x hi)
    gNegative := fun hi => entry_multiples (getElem?_powers x⁻¹ hi)
    gPositiveAlpha := fun hi => entry_multiples (getElem?_tail_powers alpha x hi)
    gNegativeAlpha := fun hi => entry_multiples (getElem?_tail_powers alpha x⁻¹ hi)
    hNegative := fun hi => entry_multiples (getElem?_powers x⁻¹ hi)
    hPositiveAlpha := fun hi => entry_multiples (getElem?_map_powers alpha x hi) }

/-! ## Exponents -/

section

variable {d : Int} {x alpha : Fr} {srs : ReferenceString G₁ G₂}

theorem zpow_natAbs {e : Int} (he : 0 ≤ e) : x ^ e.natAbs = x ^ e := by
  rw [← zpow_natCast, Int.natAbs_of_nonneg he]

theorem inv_zpow_natAbs {e : Int} (he : e ≤ 0) : x⁻¹ ^ e.natAbs = x ^ e := by
  rw [← zpow_natCast, inv_zpow', Int.ofNat_natAbs_of_nonpos he, neg_neg]

theorem Tables.gAt_eq (h : srs.Tables d x alpha) {e : Int} (hlow : -d ≤ e) (hhigh : e ≤ d) :
    srs.gAt e = .ok (smul (x ^ e) generator) := by
  have hd := h.degree_eq
  rw [gAt, if_neg (by omega)]
  by_cases he : 0 ≤ e
  · rw [if_pos he, h.gPositive (by omega), zpow_natAbs he]
  · rw [if_neg he, h.gNegative (by omega), inv_zpow_natAbs (by omega)]

theorem Tables.gAt_error (h : srs.Tables d x alpha) {e : Int} (he : d < e.natAbs) :
    srs.gAt e = .error (.degreeTooLarge e d) := by
  rw [gAt, h.degree_eq, if_pos he]

theorem Tables.gAlphaAt_eq (h : srs.Tables d x alpha) {e : Int} (hlow : -d ≤ e) (hhigh : e ≤ d)
    (hne : e ≠ 0) : srs.gAlphaAt e = .ok (smul (alpha * x ^ e) generator) := by
  have hd := h.degree_eq
  rw [gAlphaAt, if_neg hne, if_neg (by omega)]
  by_cases he : 0 < e
  · rw [if_pos he, h.gPositiveAlpha (by omega), Nat.sub_add_cancel (by omega), zpow_natAbs he.le]
  · rw [if_neg he, h.gNegativeAlpha (by omega), Nat.sub_add_cancel (by omega),
      inv_zpow_natAbs (by omega)]

/-- The tables of degree `d` hold no `α · x^e`. -/
def Uncovered (d e : Int) : Prop := e = 0 ∨ d < e.natAbs

instance (d e : Int) : Decidable (Uncovered d e) := inferInstanceAs (Decidable (_ ∨ _))

/-- What is wrong with an exponent that is not covered. -/
def exponentFault (d e : Int) : Fault := if e = 0 then .constantTerm else .degreeTooLarge e d

theorem exponentFault_category (d e : Int) : (exponentFault d e).category = .argument := by
  unfold exponentFault
  split <;> rfl

theorem Tables.gAlphaAt_error (h : srs.Tables d x alpha) {e : Int} (he : Uncovered d e) :
    srs.gAlphaAt e = .error (exponentFault d e) := by
  unfold gAlphaAt exponentFault
  split
  · rfl
  · rename_i hne
    rw [h.degree_eq, if_pos (he.resolve_left hne)]

theorem Tables.gAt_gives (h : srs.Tables d x alpha) (e : Int) :
    Gives (IsMultiple · (x ^ e)) (srs.gAt e) := by
  have hd := h.degree_eq
  by_cases he : e.natAbs > srs.degree
  · rw [gAt, if_pos he]
    exact .error _
  · rw [h.gAt_eq (by omega) (by omega)]
    exact .pure (isMultiple_smul_generator _)

theorem Tables.gAlphaAt_gives (h : srs.Tables d x alpha) (e : Int) :
    Gives (IsMultiple · (alpha * x ^ e)) (srs.gAlphaAt e) := by
  have hd := h.degree_eq
  by_cases hzero : e = 0
  · rw [gAlphaAt, if_pos hzero]
    exact .error _
  by_cases he : e.natAbs > srs.degree
  · rw [gAlphaAt, if_neg hzero, if_pos he]
    exact .error _
  · rw [h.gAlphaAt_eq (by omega) (by omega) hzero]
    exact .pure (isMultiple_smul_generator _)

end

end SnarkBatch.ReferenceString
