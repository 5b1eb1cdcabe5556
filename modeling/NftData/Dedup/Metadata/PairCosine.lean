import NftData.Foundation.Bm25
import NftData.Foundation.Occurrences

namespace NftData.Dedup.Bm25

open List
open NftData.Bm25 (k1 b weight idfOnce idfShared idfRatioSquared)

/-! # The cosine of two documents

Two documents are compared by their BM25 weights, where the two are the whole collection. The
numbers are real, and `IDF_ONCE` and `IDF_SHARED` are the logarithms that they round. -/

/-- The term numbers of a document in their order with their frequencies, and the length of the
document. -/
structure PreparedDocument where
  terms : List (Nat × Nat)
  length : Nat
  sorted : KeySorted terms
  occurs : ∀ entry ∈ terms, 0 < entry.2
  fits : terms.length < 2 ^ 32

noncomputable section

def lengthNorm (documentLength : Nat) (avgdl : ℝ) : ℝ :=
  k1 * (1 - b + b * documentLength / max avgdl 1)

/-- `f64::from(left.length + right.length) / 2.0`, with lengths of 32 bits. -/
def averageLength (left right : PreparedDocument) : ℝ :=
  ((left.length + right.length) % 2 ^ 32 : Nat) / 2

def legacyWeight (frequency documentLength : Nat) (avgdl : ℝ) (documentFrequency : Nat) : ℝ :=
  let idf := Real.log ((2 - documentFrequency + 1 / 2) / (documentFrequency + 1 / 2) + 1)
  let tfNorm := frequency * (k1 + 1) /
    (frequency + k1 * (1 - b + b * documentLength / max avgdl 1))
  idf * tfNorm

structure CosineSums where
  dot : ℝ
  leftNormSquared : ℝ
  rightNormSquared : ℝ

section Loop

variable (leftWeight rightWeight : Nat → Nat → ℝ)

def CosineSums.addLeft (sums : CosineSums) (leftTf : Nat) : CosineSums :=
  { sums with
    leftNormSquared := sums.leftNormSquared + leftWeight leftTf 1 * leftWeight leftTf 1 }

def CosineSums.addRight (sums : CosineSums) (rightTf : Nat) : CosineSums :=
  { sums with
    rightNormSquared := sums.rightNormSquared + rightWeight rightTf 1 * rightWeight rightTf 1 }

def CosineSums.addBoth (sums : CosineSums) (leftTf rightTf : Nat) : CosineSums where
  dot := sums.dot + leftWeight leftTf 2 * rightWeight rightTf 2
  leftNormSquared := sums.leftNormSquared + leftWeight leftTf 2 * leftWeight leftTf 2
  rightNormSquared := sums.rightNormSquared + rightWeight rightTf 2 * rightWeight rightTf 2

def legacySums : List (Nat × Nat) → List (Nat × Nat) → CosineSums → CosineSums
  | (leftTerm, leftTf) :: left, (rightTerm, rightTf) :: right, sums =>
      if leftTerm = rightTerm then
        legacySums left right (sums.addBoth leftWeight rightWeight leftTf rightTf)
      else if leftTerm < rightTerm then
        legacySums left ((rightTerm, rightTf) :: right) (sums.addLeft leftWeight leftTf)
      else
        legacySums ((leftTerm, leftTf) :: left) right (sums.addRight rightWeight rightTf)
  | (_, leftTf) :: left, [], sums => legacySums left [] (sums.addLeft leftWeight leftTf)
  | [], (_, rightTf) :: right, sums => legacySums [] right (sums.addRight rightWeight rightTf)
  | [], [], sums => sums
termination_by left right => left.length + right.length

end Loop

def pairCosine (avgdl : ℝ) (left right : PreparedDocument) : ℝ :=
  let sums := legacySums (fun frequency => legacyWeight frequency left.length avgdl)
    (fun frequency => legacyWeight frequency right.length avgdl) left.terms right.terms ⟨0, 0, 0⟩
  if sums.dot = 0 then 0
  else
    let leftNorm := √sums.leftNormSquared
    let rightNorm := √sums.rightNormSquared
    if leftNorm ≤ 0 ∨ rightNorm ≤ 0 then 0 else sums.dot / (leftNorm * rightNorm)

def legacyCosineSimilarity (left right : PreparedDocument) : ℝ :=
  pairCosine (averageLength left right) left right

theorem k1_pos : 0 < k1 := by norm_num [k1]

theorem idfRatioSquared_lt_one : idfRatioSquared < 1 := by
  have less : idfShared < idfOnce := Real.log_lt_log (by norm_num) (by norm_num)
  have ratio : idfShared / idfOnce < 1 := (div_lt_one NftData.Bm25.idfOnce_pos).mpr less
  have positive : 0 < idfShared / idfOnce :=
    div_pos NftData.Bm25.idfShared_pos NftData.Bm25.idfOnce_pos
  rw [idfRatioSquared]
  nlinarith

theorem lengthNorm_pos (documentLength : Nat) (avgdl : ℝ) : 0 < lengthNorm documentLength avgdl := by
  have average : 0 < max avgdl 1 := lt_max_of_lt_right one_pos
  unfold lengthNorm k1 b
  positivity

theorem legacyWeight_one (frequency documentLength : Nat) (avgdl : ℝ) :
    legacyWeight frequency documentLength avgdl 1 =
      weight frequency (lengthNorm documentLength avgdl) idfOnce := by
  have idf : (2 - ((1 : Nat) : ℝ) + 1 / 2) / (((1 : Nat) : ℝ) + 1 / 2) + 1 = 2 := by norm_num
  simp only [legacyWeight]
  rw [idf, weight, idfOnce, lengthNorm]
  ring

theorem legacyWeight_two (frequency documentLength : Nat) (avgdl : ℝ) :
    legacyWeight frequency documentLength avgdl 2 =
      idfShared / idfOnce * weight frequency (lengthNorm documentLength avgdl) idfOnce := by
  have idf : (2 - ((2 : Nat) : ℝ) + 1 / 2) / (((2 : Nat) : ℝ) + 1 / 2) + 1 = 6 / 5 := by norm_num
  rw [← NftData.Bm25.weight_shared]
  simp only [legacyWeight]
  rw [idf, weight, idfShared, lengthNorm]
  ring

/-! ## Sums over common terms -/

/-- What the frequencies of the common terms add up to, with the weights of terms that only one
document has. -/
structure SharedSums where
  leftNorm : ℝ
  rightNorm : ℝ
  dot : ℝ

def squaredNorm (once : Nat → ℝ) (frequencies : List Nat) : ℝ :=
  (frequencies.map fun frequency => once frequency ^ 2).sum

def sharedSums (leftOnce rightOnce : Nat → ℝ) (pairs : List (Nat × Nat)) : SharedSums where
  leftNorm := squaredNorm leftOnce (pairs.map Prod.fst)
  rightNorm := squaredNorm rightOnce (pairs.map Prod.snd)
  dot := (pairs.map fun pair => leftOnce pair.1 * rightOnce pair.2).sum

def sharedFrequencies (left right : List (Nat × Nat)) : List (Nat × Nat) :=
  (mergeJoin left right).map Prod.snd

@[simp] theorem sharedFrequencies_nil_left (right : List (Nat × Nat)) :
    sharedFrequencies [] right = [] := by
  rw [sharedFrequencies, mergeJoin_nil_left, map_nil]

@[simp] theorem sharedFrequencies_nil_right (left : List (Nat × Nat)) :
    sharedFrequencies left [] = [] := by
  rw [sharedFrequencies, mergeJoin_nil_right, map_nil]

def scoreOf (leftBase rightBase : ℝ) (shared : SharedSums) : ℝ :=
  idfRatioSquared * shared.dot /
    (√(leftBase - (1 - idfRatioSquared) * shared.leftNorm) *
      √(rightBase - (1 - idfRatioSquared) * shared.rightNorm))

theorem sharedSums_cons (leftOnce rightOnce : Nat → ℝ) (leftTf rightTf : Nat)
    (pairs : List (Nat × Nat)) :
    sharedSums leftOnce rightOnce ((leftTf, rightTf) :: pairs) =
      ⟨leftOnce leftTf ^ 2 + (sharedSums leftOnce rightOnce pairs).leftNorm,
        rightOnce rightTf ^ 2 + (sharedSums leftOnce rightOnce pairs).rightNorm,
        leftOnce leftTf * rightOnce rightTf + (sharedSums leftOnce rightOnce pairs).dot⟩ := by
  simp only [sharedSums, squaredNorm, map_cons, sum_cons]

theorem squaredNorm_map_cons (once : Nat → ℝ) (entry : Nat × Nat) (terms : List (Nat × Nat)) :
    squaredNorm once ((entry :: terms).map Prod.snd) =
      once entry.2 ^ 2 + squaredNorm once (terms.map Prod.snd) := by
  simp only [squaredNorm, map_cons, sum_cons]

/-- The walk adds up the norms of the documents alone, less what the common terms weigh less. -/
theorem legacySums_eq {leftWeight rightWeight : Nat → Nat → ℝ} {leftOnce rightOnce : Nat → ℝ}
    (leftAlone : ∀ frequency, leftWeight frequency 1 = leftOnce frequency)
    (rightAlone : ∀ frequency, rightWeight frequency 1 = rightOnce frequency)
    (leftBoth : ∀ frequency, leftWeight frequency 2 = idfShared / idfOnce * leftOnce frequency)
    (rightBoth : ∀ frequency, rightWeight frequency 2 = idfShared / idfOnce * rightOnce frequency)
    (left right : List (Nat × Nat)) (sums : CosineSums) :
    let shared := sharedSums leftOnce rightOnce (sharedFrequencies left right)
    legacySums leftWeight rightWeight left right sums =
      ⟨sums.dot + idfRatioSquared * shared.dot,
        sums.leftNormSquared +
          (squaredNorm leftOnce (left.map Prod.snd) - (1 - idfRatioSquared) * shared.leftNorm),
        sums.rightNormSquared +
          (squaredNorm rightOnce (right.map Prod.snd) - (1 - idfRatioSquared) * shared.rightNorm)⟩ := by
  fun_induction legacySums leftWeight rightWeight left right sums with
  | case1 leftTf left rightTerm rightTf right sums induction =>
      rw [sharedFrequencies, mergeJoin, if_pos rfl, map_cons, sharedSums_cons,
        ← sharedFrequencies, induction, squaredNorm_map_cons,
        squaredNorm_map_cons, CosineSums.addBoth, leftBoth, rightBoth, idfRatioSquared]
      simp only [CosineSums.mk.injEq]
      refine ⟨?_, ?_, ?_⟩ <;> ring
  | case2 leftTerm leftTf left rightTerm rightTf right sums different less induction =>
      rw [sharedFrequencies, mergeJoin, if_neg different, if_pos less, ← sharedFrequencies,
        induction, squaredNorm_map_cons leftOnce, CosineSums.addLeft, leftAlone]
      simp only [CosineSums.mk.injEq, true_and, and_true]
      ring
  | case3 leftTerm leftTf left rightTerm rightTf right sums different notLess induction =>
      rw [sharedFrequencies, mergeJoin, if_neg different, if_neg notLess, ← sharedFrequencies,
        induction, squaredNorm_map_cons rightOnce, CosineSums.addRight, rightAlone]
      simp only [CosineSums.mk.injEq, true_and]
      ring
  | case4 leftTerm leftTf left sums induction =>
      rw [sharedFrequencies_nil_right, induction, sharedFrequencies_nil_right, squaredNorm_map_cons, CosineSums.addLeft, leftAlone]
      simp only [CosineSums.mk.injEq, true_and, and_true]
      ring
  | case5 rightTerm rightTf right sums induction =>
      rw [sharedFrequencies_nil_left, induction, sharedFrequencies_nil_left, squaredNorm_map_cons rightOnce, CosineSums.addRight, rightAlone]
      simp only [CosineSums.mk.injEq, true_and]
      ring
  | case6 sums =>
      simp [sharedSums, squaredNorm]

/-- The weight of a term that only one document has. -/
def onceWeight (documentLength : Nat) (avgdl : ℝ) (frequency : Nat) : ℝ :=
  weight frequency (lengthNorm documentLength avgdl) idfOnce

theorem onceWeight_pos {frequency : Nat} (occurs : 0 < frequency) (documentLength : Nat)
    (avgdl : ℝ) : 0 < onceWeight documentLength avgdl frequency :=
  NftData.Bm25.weight_pos occurs (lengthNorm_pos documentLength avgdl) NftData.Bm25.idfOnce_pos

theorem onceWeight_nonneg (documentLength : Nat) (avgdl : ℝ) (frequency : Nat) :
    0 ≤ onceWeight documentLength avgdl frequency :=
  NftData.Bm25.weight_nonneg frequency (lengthNorm_pos documentLength avgdl)
    NftData.Bm25.idfOnce_pos

def pairSums (avgdl : ℝ) (left right : PreparedDocument) : SharedSums :=
  sharedSums (onceWeight left.length avgdl) (onceWeight right.length avgdl)
    (sharedFrequencies left.terms right.terms)

def ownNorm (avgdl : ℝ) (document : PreparedDocument) : ℝ :=
  squaredNorm (onceWeight document.length avgdl) (document.terms.map Prod.snd)

theorem pairCosine_eq (avgdl : ℝ) (left right : PreparedDocument) :
    pairCosine avgdl left right =
      scoreOf (ownNorm avgdl left) (ownNorm avgdl right) (pairSums avgdl left right) := by
  have sums := @legacySums_eq _ _ (onceWeight left.length avgdl) (onceWeight right.length avgdl)
    (fun frequency => legacyWeight_one frequency left.length avgdl)
    (fun frequency => legacyWeight_one frequency right.length avgdl)
    (fun frequency => legacyWeight_two frequency left.length avgdl)
    (fun frequency => legacyWeight_two frequency right.length avgdl)
    left.terms right.terms ⟨0, 0, 0⟩
  simp only [zero_add] at sums
  rw [pairCosine, sums, scoreOf]
  simp only [← pairSums.eq_def, ← ownNorm.eq_def]
  split
  · next noDot => rw [noDot, zero_div]
  · split
    · next flat =>
        rcases flat with leftFlat | rightFlat
        · rw [le_antisymm leftFlat (Real.sqrt_nonneg _), zero_mul, div_zero]
        · rw [le_antisymm rightFlat (Real.sqrt_nonneg _), mul_zero, div_zero]
    · rfl

theorem pairCosine_self (avgdl : ℝ) {document : PreparedDocument}
    (nonempty : document.terms ≠ []) : pairCosine avgdl document document = 1 := by
  have frequencies : sharedFrequencies document.terms document.terms =
      (document.terms.map Prod.snd).map fun frequency => (frequency, frequency) := by
    rw [sharedFrequencies, mergeJoin_self, map_map, map_map]
    rfl
  have sums : pairSums avgdl document document =
      ⟨ownNorm avgdl document, ownNorm avgdl document, ownNorm avgdl document⟩ := by
    rw [pairSums, frequencies, sharedSums, ownNorm]
    simp only [map_map, Function.comp_def, squaredNorm, sq]
  have positive : 0 < ownNorm avgdl document := by
    rcases exists_mem_of_ne_nil _ nonempty with ⟨entry, member⟩
    have occurs := onceWeight_pos (document.occurs entry member) document.length avgdl
    have single := single_le_sum (l := (document.terms.map Prod.snd).map fun frequency =>
      onceWeight document.length avgdl frequency ^ 2)
      (by
        intro value inValues
        rcases mem_map.mp inValues with ⟨frequency, _, rfl⟩
        exact sq_nonneg _) _ (mem_map_of_mem (mem_map_of_mem member))
    exact (pow_pos occurs 2).trans_le single
  have norm : ownNorm avgdl document - (1 - idfRatioSquared) * ownNorm avgdl document =
      idfRatioSquared * ownNorm avgdl document := by ring
  have scaled := mul_pos NftData.Bm25.idfRatioSquared_pos positive
  rw [pairCosine_eq, sums, scoreOf, norm, Real.mul_self_sqrt scaled.le, div_self scaled.ne']

/-! ## Bounds of the score -/

theorem sharedSums_dot_sq_le (leftOnce rightOnce : Nat → ℝ) (pairs : List (Nat × Nat)) :
    (sharedSums leftOnce rightOnce pairs).dot ^ 2 ≤
      (sharedSums leftOnce rightOnce pairs).leftNorm *
        (sharedSums leftOnce rightOnce pairs).rightNorm := by
  simp only [sharedSums, squaredNorm, map_map, ← Fin.sum_univ_fun_getElem]
  exact Finset.sum_mul_sq_le_sq_mul_sq Finset.univ
    (fun index : Fin pairs.length => leftOnce pairs[index].1) fun index => rightOnce pairs[index].2

theorem squaredNorm_nonneg (once : Nat → ℝ) (frequencies : List Nat) :
    0 ≤ squaredNorm once frequencies := by
  apply sum_nonneg
  intro value member
  rcases mem_map.mp member with ⟨frequency, _, rfl⟩
  exact sq_nonneg _

theorem squaredNorm_le_of_subperm {first second : List Nat} (once : Nat → ℝ)
    (isPart : first.Subperm second) : squaredNorm once first ≤ squaredNorm once second := by
  rcases isPart with ⟨part, perm, sublist⟩
  rw [squaredNorm, squaredNorm, ← (perm.map _).sum_eq]
  apply (sublist.map _).sum_le_sum
  intro value member
  rcases mem_map.mp member with ⟨frequency, _, rfl⟩
  exact sq_nonneg _

theorem sharedSums_dot_nonneg {leftOnce rightOnce : Nat → ℝ}
    (leftNonneg : ∀ frequency, 0 ≤ leftOnce frequency)
    (rightNonneg : ∀ frequency, 0 ≤ rightOnce frequency) (pairs : List (Nat × Nat)) :
    0 ≤ (sharedSums leftOnce rightOnce pairs).dot := by
  apply sum_nonneg
  intro value member
  rcases mem_map.mp member with ⟨pair, _, rfl⟩
  exact mul_nonneg (leftNonneg _) (rightNonneg _)

theorem sharedFrequencies_left_sublist (left right : List (Nat × Nat)) :
    ((sharedFrequencies left right).map Prod.fst).Sublist (left.map Prod.snd) := by
  have sublist := (mergeJoin_left_sublist left right).map Prod.snd
  rw [map_map] at sublist
  rw [sharedFrequencies, map_map]
  exact sublist

theorem sharedFrequencies_right_sublist (left right : List (Nat × Nat)) :
    ((sharedFrequencies left right).map Prod.snd).Sublist (right.map Prod.snd) := by
  have sublist := (mergeJoin_right_sublist left right).map Prod.snd
  rw [map_map] at sublist
  rw [sharedFrequencies, map_map]
  exact sublist

theorem pairSums_leftNorm_le (avgdl : ℝ) (left right : PreparedDocument) :
    (pairSums avgdl left right).leftNorm ≤ ownNorm avgdl left :=
  squaredNorm_le_of_subperm _ (sharedFrequencies_left_sublist left.terms right.terms).subperm

theorem pairSums_rightNorm_le (avgdl : ℝ) (left right : PreparedDocument) :
    (pairSums avgdl left right).rightNorm ≤ ownNorm avgdl right :=
  squaredNorm_le_of_subperm _ (sharedFrequencies_right_sublist left.terms right.terms).subperm

variable {shared : SharedSums}

theorem scoreOf_nonneg (leftBase rightBase : ℝ) (dotNonneg : 0 ≤ shared.dot) :
    0 ≤ scoreOf leftBase rightBase shared :=
  div_nonneg (mul_nonneg NftData.Bm25.idfRatioSquared_pos.le dotNonneg)
    (mul_nonneg (Real.sqrt_nonneg _) (Real.sqrt_nonneg _))

variable {rightBase leftBase : ℝ}

theorem scoreOf_lt {threshold numerator leftMinimum rightMinimum : ℝ} (dotNonneg : 0 ≤ shared.dot)
    (positive : 0 < threshold) (leftPositive : 0 < leftMinimum) (rightPositive : 0 < rightMinimum)
    (leftAtLeast : leftMinimum ≤ leftBase - (1 - idfRatioSquared) * shared.leftNorm)
    (rightAtLeast : rightMinimum ≤ rightBase - (1 - idfRatioSquared) * shared.rightNorm)
    (atMost : idfRatioSquared * shared.dot ≤ numerator)
    (below : numerator ^ 2 < threshold ^ 2 * (leftMinimum * rightMinimum)) :
    scoreOf leftBase rightBase shared < threshold := by
  have leftNorm := leftPositive.trans_le leftAtLeast
  have rightNorm := rightPositive.trans_le rightAtLeast
  have roots := mul_pos (Real.sqrt_pos.mpr leftNorm) (Real.sqrt_pos.mpr rightNorm)
  have product := mul_le_mul leftAtLeast rightAtLeast rightPositive.le leftNorm.le
  have numeratorNonneg := mul_nonneg NftData.Bm25.idfRatioSquared_pos.le dotNonneg
  rw [scoreOf, div_lt_iff₀ roots]
  apply lt_of_pow_lt_pow_left₀ 2 (mul_pos positive roots).le
  rw [mul_pow threshold, mul_pow √_, Real.sq_sqrt leftNorm.le, Real.sq_sqrt rightNorm.le]
  calc (idfRatioSquared * shared.dot) ^ 2
      ≤ numerator ^ 2 := pow_le_pow_left₀ numeratorNonneg atMost 2
    _ < threshold ^ 2 * (leftMinimum * rightMinimum) := below
    _ ≤ _ := mul_le_mul_of_nonneg_left product (sq_nonneg threshold)

/-- When the common terms of the left document weigh little beside its other terms, the score is
small, whatever the right document is. -/
theorem scoreOf_le_sqrt {shareable unique : ℝ}
    (dotSq : shared.dot ^ 2 ≤ shared.leftNorm * shared.rightNorm) (leftNonneg : 0 ≤ shared.leftNorm)
    (rightNonneg : 0 ≤ shared.rightNorm) (rightAtMost : shared.rightNorm ≤ rightBase)
    (sharedAtMost : idfRatioSquared * shared.leftNorm ≤ shareable) (uniqueNonneg : 0 ≤ unique)
    (uniqueAtMost : unique ≤ leftBase - shared.leftNorm) :
    scoreOf leftBase rightBase shared ≤ √(shareable / (unique + shareable)) := by
  have ratio := NftData.Bm25.idfRatioSquared_pos
  have common := mul_nonneg ratio.le leftNonneg
  have leftEq : leftBase - (1 - idfRatioSquared) * shared.leftNorm =
      leftBase - shared.leftNorm + idfRatioSquared * shared.leftNorm := by ring
  have rightAtLeast : idfRatioSquared * shared.rightNorm ≤
      rightBase - (1 - idfRatioSquared) * shared.rightNorm := by linarith
  rw [scoreOf, leftEq]
  generalize rightBase - (1 - idfRatioSquared) * shared.rightNorm = rightNorm at rightAtLeast ⊢
  generalize leftBase - shared.leftNorm = rest at uniqueAtMost ⊢
  have restNonneg := uniqueNonneg.trans uniqueAtMost
  have numerator : (idfRatioSquared * shared.dot) ^ 2 ≤
      idfRatioSquared * shared.leftNorm * rightNorm :=
    calc (idfRatioSquared * shared.dot) ^ 2 = idfRatioSquared ^ 2 * shared.dot ^ 2 := mul_pow _ _ _
      _ ≤ idfRatioSquared ^ 2 * (shared.leftNorm * shared.rightNorm) :=
        mul_le_mul_of_nonneg_left dotSq (sq_nonneg _)
      _ = idfRatioSquared * shared.leftNorm * (idfRatioSquared * shared.rightNorm) := by ring
      _ ≤ _ := mul_le_mul_of_nonneg_left rightAtLeast common
  generalize idfRatioSquared * shared.leftNorm = share at *
  have rightNormNonneg : 0 ≤ rightNorm := (mul_nonneg ratio.le rightNonneg).trans rightAtLeast
  apply Real.le_sqrt_of_sq_le
  rw [div_pow, mul_pow √_, Real.sq_sqrt (add_nonneg restNonneg common),
    Real.sq_sqrt rightNormNonneg]
  have byRight : (idfRatioSquared * shared.dot) ^ 2 / ((rest + share) * rightNorm) ≤
      share / (rest + share) := by
    rcases rightNormNonneg.eq_or_lt with flat | rightPositive
    · rw [← flat, mul_zero, div_zero]
      exact div_nonneg common (add_nonneg restNonneg common)
    · rw [← mul_div_mul_right share (rest + share) rightPositive.ne']
      exact div_le_div_of_nonneg_right numerator
        (mul_nonneg (add_nonneg restNonneg common) rightPositive.le)
  refine byRight.trans ?_
  rcases (add_nonneg restNonneg common).eq_or_lt with flat | positive
  · rw [← flat, div_zero]
    exact div_nonneg (common.trans sharedAtMost) (add_nonneg uniqueNonneg
      (common.trans sharedAtMost))
  · rcases (add_nonneg uniqueNonneg (common.trans sharedAtMost)).eq_or_lt with empty | total
    · have nothing : share = 0 := by linarith
      rw [nothing, zero_div, ← empty, div_zero]
    · rw [div_le_div_iff₀ positive total]
      nlinarith [mul_le_mul sharedAtMost uniqueAtMost uniqueNonneg (common.trans sharedAtMost)]

end

end NftData.Dedup.Bm25
