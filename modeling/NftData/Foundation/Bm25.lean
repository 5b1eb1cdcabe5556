import Mathlib

namespace NftData.Bm25

open Finset

/-! # Pairwise BM25

Two documents are compared by the cosine of their BM25 weights, where the two documents are the
whole collection. A term that both have weighs less than a term that only one has, and by the
same factor everywhere, so that the cosine needs the common terms and one norm of each document
alone. Logarithms and roots make the numbers real. -/

open List

noncomputable section

instance atLeastTwo2 : Nat.AtLeastTwo 2 := ⟨by decide⟩

instance atLeastTwo4 : Nat.AtLeastTwo 4 := ⟨by decide⟩

instance atLeastTwo16 : Nat.AtLeastTwo 16 := ⟨by decide⟩

instance atLeastTwo64 : Nat.AtLeastTwo 64 := ⟨by decide⟩

def k1 : ℝ := 6 / 5

def b : ℝ := 3 / 4

def lengthNorm (length : Nat) (average : ℝ) : ℝ :=
  if average = 0 then k1 else k1 * (1 - b + b * length / average)

def weight (frequency : Nat) (norm idf : ℝ) : ℝ :=
  idf * frequency * (k1 + 1) / (frequency + norm)

def inverseDocumentFrequency (holders : Nat) : ℝ :=
  Real.log (1 + (2 - holders + 1 / 2) / (holders + 1 / 2))

def idfOnce : ℝ := Real.log 2

def idfShared : ℝ := Real.log (6 / 5)

def idfRatioSquared : ℝ := idfShared / idfOnce * (idfShared / idfOnce)

section Documents

variable {Term : Type*}

def averageLength (left right : List Term) : ℝ := ((left.length : ℝ) + right.length) / 2

def termNorm (document other : List Term) : ℝ :=
  lengthNorm document.length (averageLength document other)

variable [DecidableEq Term]

def holders (left right : List Term) (term : Term) : Nat :=
  (if term ∈ left then 1 else 0) + (if term ∈ right then 1 else 0)

def termWeight (document other : List Term) (term : Term) : ℝ :=
  weight (document.count term) (termNorm document other)
    (inverseDocumentFrequency (holders document other term))

def allTerms (left right : List Term) : Finset Term := left.toFinset ∪ right.toFinset

def squaredNorm (document other : List Term) : ℝ :=
  ∑ term ∈ allTerms document other, termWeight document other term ^ 2

def cosine (left right : List Term) : ℝ :=
  (∑ term ∈ allTerms left right, termWeight left right term * termWeight right left term) /
    (√(squaredNorm left right) * √(squaredNorm right left))

theorem idfShared_pos : 0 < idfShared := Real.log_pos (by norm_num)

theorem idfOnce_pos : 0 < idfOnce := Real.log_pos (by norm_num)

theorem idfRatioSquared_pos : 0 < idfRatioSquared := by
  have ratio : 0 < idfShared / idfOnce := div_pos idfShared_pos idfOnce_pos
  exact mul_pos ratio ratio

theorem inverseDocumentFrequency_one : inverseDocumentFrequency 1 = idfOnce := by
  rw [inverseDocumentFrequency, idfOnce]
  norm_num

theorem inverseDocumentFrequency_two : inverseDocumentFrequency 2 = idfShared := by
  rw [inverseDocumentFrequency, idfShared]
  norm_num

theorem lengthNorm_pos (length : Nat) {average : ℝ} (nonneg : 0 ≤ average) :
    0 < lengthNorm length average := by
  unfold lengthNorm k1 b
  split
  · norm_num
  · positivity

omit [DecidableEq Term] in
theorem termNorm_pos (document other : List Term) : 0 < termNorm document other :=
  lengthNorm_pos _ (by unfold averageLength; positivity)

theorem weight_zero (norm idf : ℝ) : weight 0 norm idf = 0 := by
  rw [weight, Nat.cast_zero, mul_zero, zero_mul, zero_div]

variable {norm idf : ℝ}

theorem weight_pos {frequency : Nat} (occurs : 0 < frequency) (norms : 0 < norm) (counts : 0 < idf)
    : 0 < weight frequency norm idf := by
  have cast : (0 : ℝ) < frequency := Nat.cast_pos.mpr occurs
  unfold weight k1
  positivity

theorem weight_nonneg (frequency : Nat) (norms : 0 < norm) (counts : 0 < idf) :
    0 ≤ weight frequency norm idf := by
  cases frequency with
  | zero => exact (weight_zero norm idf).ge
  | succ frequency => exact (weight_pos (Nat.succ_pos _) norms counts).le

theorem weight_idf (frequency : Nat) (norm idf factor : ℝ) :
    weight frequency norm (factor * idf) = factor * weight frequency norm idf := by
  unfold weight
  ring

theorem weight_shared (frequency : Nat) (norm : ℝ) :
    weight frequency norm idfShared =
      idfShared / idfOnce * weight frequency norm idfOnce := by
  rw [← weight_idf, div_mul_cancel₀ _ idfOnce_pos.ne']

def commonTerms (left right : List Term) : Finset Term := left.toFinset ∩ right.toFinset

/-- The weight that a term would have if the other document did not have it. -/
def weightOnce (document other : List Term) (term : Term) : ℝ :=
  weight (document.count term) (termNorm document other) idfOnce

def dotOnce (left right : List Term) : ℝ :=
  ∑ term ∈ commonTerms left right, weightOnce left right term * weightOnce right left term

def ownNormOnce (document other : List Term) : ℝ :=
  ∑ term ∈ document.toFinset, weightOnce document other term ^ 2

def commonNormOnce (document other : List Term) : ℝ :=
  ∑ term ∈ commonTerms document other, weightOnce document other term ^ 2

variable {right left : List Term} {term : Term}

theorem mem_commonTerms :
    term ∈ commonTerms left right ↔ term ∈ left ∧ term ∈ right := by
  rw [commonTerms, mem_inter, mem_toFinset, mem_toFinset]

theorem commonTerms_comm (left right : List Term) :
    commonTerms left right = commonTerms right left := inter_comm _ _

variable {document other : List Term}

theorem weightOnce_pos (member : term ∈ document) :
    0 < weightOnce document other term :=
  weight_pos (count_pos_iff.mpr member) (termNorm_pos document other) idfOnce_pos

theorem termWeight_of_common (inDocument : term ∈ document) (inOther : term ∈ other) :
    termWeight document other term =
      idfShared / idfOnce * weightOnce document other term := by
  rw [termWeight, holders, if_pos inDocument, if_pos inOther, inverseDocumentFrequency_two,
    weight_shared, weightOnce]

theorem termWeight_of_own (inDocument : term ∈ document) (missing : term ∉ other) :
    termWeight document other term = weightOnce document other term := by
  rw [termWeight, holders, if_pos inDocument, if_neg missing, inverseDocumentFrequency_one,
    weightOnce]

theorem termWeight_of_missing (missing : term ∉ document) : termWeight document other term = 0 := by
  rw [termWeight, count_eq_zero_of_not_mem missing, weight_zero]

/-- Only common terms contribute to the product. -/
theorem dot_eq (left right : List Term) :
    ∑ term ∈ allTerms left right, termWeight left right term * termWeight right left term =
      idfRatioSquared * dotOnce left right := by
  have inside : commonTerms left right ⊆ allTerms left right :=
    inter_subset_left.trans subset_union_left
  rw [← sum_subset inside, dotOnce, mul_sum]
  · refine sum_congr rfl fun term member => ?_
    rw [mem_commonTerms] at member
    rw [termWeight_of_common member.1 member.2, termWeight_of_common member.2 member.1,
      idfRatioSquared]
    ring
  · intro term _ missing
    rw [mem_commonTerms, not_and_or] at missing
    cases missing with
    | inl notLeft => rw [termWeight_of_missing notLeft, zero_mul]
    | inr notRight => rw [termWeight_of_missing notRight, mul_zero]

theorem squaredNorm_eq (document other : List Term) :
    squaredNorm document other =
      ownNormOnce document other - (1 - idfRatioSquared) * commonNormOnce document other := by
  have own : squaredNorm document other =
      ∑ term ∈ document.toFinset, termWeight document other term ^ 2 := by
    refine (sum_subset subset_union_left fun term _ missing => ?_).symm
    rw [mem_toFinset] at missing
    rw [termWeight_of_missing missing, sq, mul_zero]
  have common : commonTerms document other ⊆ document.toFinset := inter_subset_left
  rw [own, ownNormOnce, commonNormOnce, ← sum_sdiff common, ← sum_sdiff common]
  have alone : ∑ term ∈ document.toFinset \ commonTerms document other,
      termWeight document other term ^ 2 =
        ∑ term ∈ document.toFinset \ commonTerms document other,
          weightOnce document other term ^ 2 := by
    refine sum_congr rfl fun term member => ?_
    rw [mem_sdiff, mem_commonTerms, mem_toFinset] at member
    rw [termWeight_of_own member.1 fun inOther => member.2 ⟨member.1, inOther⟩]
  have shared : ∑ term ∈ commonTerms document other, termWeight document other term ^ 2 =
      idfRatioSquared *
        ∑ term ∈ commonTerms document other, weightOnce document other term ^ 2 := by
    rw [mul_sum]
    refine sum_congr rfl fun term member => ?_
    rw [mem_commonTerms] at member
    rw [termWeight_of_common member.1 member.2, idfRatioSquared]
    ring
  rw [alone, shared]
  ring

theorem squaredNorm_pos (member : term ∈ document) :
    0 < squaredNorm document other := by
  refine sum_pos' (fun _ _ => sq_nonneg _)
    ⟨term, mem_union_left _ (mem_toFinset.mpr member), ?_⟩
  have positive : 0 < weightOnce document other term := weightOnce_pos member
  by_cases inOther : term ∈ other
  · rw [termWeight_of_common member inOther]
    have ratio : 0 < idfShared / idfOnce := div_pos idfShared_pos idfOnce_pos
    positivity
  · rw [termWeight_of_own member inOther]
    positivity

theorem cosine_of_disjoint (disjoint : commonTerms left right = ∅) :
    cosine left right = 0 := by
  rw [cosine, dot_eq, dotOnce, disjoint, sum_empty, mul_zero, zero_div]

theorem dotOnce_pos_iff :
    0 < dotOnce left right ↔ (commonTerms left right).Nonempty := by
  constructor
  · intro positive
    by_contra empty
    rw [dotOnce, not_nonempty_iff_eq_empty.mp empty, sum_empty] at positive
    exact lt_irrefl _ positive
  · intro common
    refine sum_pos (fun term member => ?_) common
    rw [mem_commonTerms] at member
    exact mul_pos (weightOnce_pos member.1) (weightOnce_pos member.2)

/-- Documents are similar at all exactly when they have a term in common. -/
theorem cosine_pos_iff :
    0 < cosine left right ↔ (commonTerms left right).Nonempty := by
  constructor
  · intro positive
    by_contra empty
    rw [cosine_of_disjoint (not_nonempty_iff_eq_empty.mp empty)] at positive
    exact lt_irrefl _ positive
  · intro common
    rcases common with ⟨term, member⟩
    have inBoth := mem_commonTerms.mp member
    rw [cosine, dot_eq]
    have leftRoot : 0 < √(squaredNorm left right) :=
      Real.sqrt_pos.mpr (squaredNorm_pos inBoth.1)
    have rightRoot : 0 < √(squaredNorm right left) :=
      Real.sqrt_pos.mpr (squaredNorm_pos inBoth.2)
    exact div_pos (mul_pos idfRatioSquared_pos (dotOnce_pos_iff.mpr ⟨term, member⟩))
      (mul_pos leftRoot rightRoot)

theorem cosine_eq (left right : List Term) :
    cosine left right =
      idfRatioSquared * dotOnce left right /
        (√(squaredNorm left right) * √(squaredNorm right left)) := by
  rw [cosine, dot_eq]

theorem cosine_nonneg (left right : List Term) : 0 ≤ cosine left right := by
  by_cases common : (commonTerms left right).Nonempty
  · exact (cosine_pos_iff.mpr common).le
  · rw [cosine_of_disjoint (not_nonempty_iff_eq_empty.mp common)]

theorem cosine_self (nonempty : document ≠ []) :
    cosine document document = 1 := by
  rcases exists_mem_of_ne_nil document nonempty with ⟨term, member⟩
  have positive : 0 < squaredNorm document document := squaredNorm_pos member
  have squares : ∑ term ∈ allTerms document document,
      termWeight document document term * termWeight document document term =
        squaredNorm document document :=
    sum_congr rfl fun _ _ => (sq _).symm
  rw [cosine, squares, Real.mul_self_sqrt positive.le, div_self positive.ne']

/-- The order of the terms does not matter. -/
theorem cosine_of_perm (same : left.Perm right) (nonempty : left ≠ []) :
    cosine left right = 1 := by
  have average : ∀ document : List Term, averageLength document right =
      averageLength document left := by
    intro document
    rw [averageLength, averageLength, same.length_eq]
  have average' : ∀ document : List Term, averageLength right document =
      averageLength left document := by
    intro document
    rw [averageLength, averageLength, same.length_eq]
  have weights : termWeight left right = termWeight left left := by
    funext term
    rw [termWeight, termWeight, holders, holders, termNorm, termNorm, average]
    simp only [same.mem_iff]
  have weights' : termWeight right left = termWeight left left := by
    funext term
    rw [termWeight, termWeight, holders, holders, termNorm, termNorm, average',
      same.length_eq, same.count_eq]
    simp only [same.mem_iff]
  have terms : allTerms left right = allTerms left left := by
    rw [allTerms, allTerms, toFinset_eq_of_perm _ _ same]
  have terms' : allTerms right left = allTerms left left := by
    rw [allTerms, allTerms, toFinset_eq_of_perm _ _ same]
  rw [← cosine_self nonempty, cosine, cosine, squaredNorm, squaredNorm, squaredNorm, weights,
    weights', terms, terms']

end Documents

end

end NftData.Bm25
