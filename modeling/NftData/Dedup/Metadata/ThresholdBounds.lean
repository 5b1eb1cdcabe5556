import NftData.Dedup.Metadata.PairWeights

namespace NftData.Dedup.Bm25

open NftData.Bm25 (k1 b weight idfOnce idfShared idfRatioSquared)

/-! # Bounds against a threshold

Pairs are rejected early when a bound of their score is below the threshold. Products of bounds are
rounded so that only more pairs are kept. No real number is a NaN. -/

noncomputable section

structure UnitWeights where
  leftSquared : ℝ
  rightSquared : ℝ
  dot : ℝ

structure SharedWeights where
  leftNorm : ℝ
  rightNorm : ℝ
  dot : ℝ
  count : Nat

namespace SharedWeights

def empty : SharedWeights := ⟨0, 0, 0, 0⟩

def addUnit (shared : SharedWeights) (unit : UnitWeights) : SharedWeights :=
  ⟨shared.leftNorm + unit.leftSquared, shared.rightNorm + unit.rightSquared,
    shared.dot + unit.dot, shared.count + 1⟩

def add (shared : SharedWeights) (leftOnce rightOnce : ℝ) : SharedWeights :=
  ⟨shared.leftNorm + leftOnce * leftOnce, shared.rightNorm + rightOnce * rightOnce,
    shared.dot + leftOnce * rightOnce, shared.count + 1⟩

end SharedWeights

structure IterativeBound where
  leftFullNormUpper : ℝ
  rightFullNormUpper : ℝ
  thresholdSquared : ℝ

def terminalNegativeBelowThreshold (rounding : Widening)
    (numerator denominatorSquared threshold roundingMargin : ℝ) : Bool :=
  if !rounding.isFinite numerator || decide (numerator < 0) ||
      !rounding.isNormal denominatorSquared || !rounding.isNormal threshold then
    false
  else
    let guardedThreshold := rounding.nextDown
      ((threshold - upperBoundEpsilon - roundingMargin) * (1 - 16 * epsilon))
    if !rounding.isNormal guardedThreshold || decide (guardedThreshold ≤ 0) then
      false
    else
      let numeratorUpper := rounding.nextUp numerator
      let numeratorSquaredUpper := rounding.nextUp (numeratorUpper * numeratorUpper)
      let thresholdSquaredLower := rounding.nextDown (guardedThreshold * guardedThreshold)
      let denominatorSquaredLower := rounding.nextDown denominatorSquared
      let rejectionBoundary := rounding.nextDown (thresholdSquaredLower * denominatorSquaredLower)
      rounding.isFinite numeratorSquaredUpper && rounding.isFinite rejectionBoundary &&
        decide (numeratorSquaredUpper < rejectionBoundary)

def fullNormUpper (rounding : Widening) (baseNorm : ℝ) (termLen : Nat) : ℝ :=
  let roundingFactor := rounding.nextUp (1 + 8 * (termLen + 1) * epsilon)
  rounding.nextUp (baseNorm * roundingFactor)

namespace PairWeights

variable (rounding : Widening) (weights : PairWeights)

def unitWeights : UnitWeights where
  leftSquared := weights.leftUnitWeight * weights.leftUnitWeight
  rightSquared := weights.rightUnitWeight * weights.rightUnitWeight
  dot := weights.leftUnitWeight * weights.rightUnitWeight

def scoreAtLeast (shared : SharedWeights) (threshold : ℝ) : Bool :=
  if shared.count = 0 then
    decide (threshold ≤ 0)
  else
    let reduction := 1 - idfRatioSquared
    let leftNormSquared := max (weights.leftBaseNorm - reduction * shared.leftNorm) 0
    let rightNormSquared := max (weights.rightBaseNorm - reduction * shared.rightNorm) 0
    let denominatorSquared := leftNormSquared * rightNormSquared
    let numerator := idfRatioSquared * shared.dot
    if terminalNegativeBelowThreshold rounding numerator denominatorSquared threshold
        weights.boundRoundingMargin then
      false
    else
      let denominator := √denominatorSquared
      let score := if denominator ≤ 0 then 0 else numerator / denominator
      decide (threshold ≤ score)

def initialUpperBoundBelowThreshold (threshold : ℝ) : Bool :=
  let rejectionThreshold := threshold - upperBoundEpsilon - weights.boundRoundingMargin
  if rejectionThreshold ≤ 0 then
    false
  else
    let rejectionThreshold := rounding.nextDown rejectionThreshold
    let leftShared := weights.leftSharedNormUpper
    let rightShared := weights.rightSharedNormUpper
    if leftShared ≤ 0 ∨ rightShared ≤ 0 then
      false
    else
      let reduction := 1 - idfRatioSquared
      let leftReduction := rounding.nextUp (reduction * leftShared)
      let rightReduction := rounding.nextUp (reduction * rightShared)
      let minimumLeftNorm := rounding.nextDown (weights.leftBaseNorm - leftReduction)
      let minimumRightNorm := rounding.nextDown (weights.rightBaseNorm - rightReduction)
      if minimumLeftNorm ≤ 0 ∨ minimumRightNorm ≤ 0 then
        false
      else
        let ratioFourth := rounding.nextUp (idfRatioSquared * idfRatioSquared)
        let sharedNormProduct := rounding.nextUp (leftShared * rightShared)
        let numeratorSquared := rounding.nextUp (ratioFourth * sharedNormProduct)
        let denominatorSquared := rounding.nextDown (minimumLeftNorm * minimumRightNorm)
        let thresholdSquared := rounding.nextDown (rejectionThreshold * rejectionThreshold)
        if denominatorSquared ≤ 0 ∨ thresholdSquared ≤ 0 then
          false
        else
          decide (numeratorSquared < rounding.nextDown (thresholdSquared * denominatorSquared))

def iterativeBound (threshold : ℝ) : Option IterativeBound :=
  let rejectionThreshold := threshold - upperBoundEpsilon - weights.boundRoundingMargin
  if !rounding.isFinite rejectionThreshold || decide (rejectionThreshold ≤ 0) then
    none
  else
    let thresholdSquared := rounding.nextDown (rejectionThreshold * rejectionThreshold)
    if !rounding.isFinite thresholdSquared || decide (thresholdSquared ≤ 0) then
      none
    else
      some
        { leftFullNormUpper := fullNormUpper rounding weights.leftBaseNorm weights.leftTermLen
          rightFullNormUpper := fullNormUpper rounding weights.rightBaseNorm weights.rightTermLen
          thresholdSquared }

def upperBoundBelowThreshold (bound : IterativeBound) (shared : SharedWeights)
    (processedLeftNorm processedRightNorm : ℝ) : Bool :=
  let remainingLeft := rounding.nextUp (max (bound.leftFullNormUpper - processedLeftNorm) 0)
  let remainingRight := rounding.nextUp (max (bound.rightFullNormUpper - processedRightNorm) 0)
  let remainingDot := rounding.nextUp √(remainingLeft * remainingRight)
  let maximumDot := rounding.nextUp (shared.dot + remainingDot)
  let reduction := 1 - idfRatioSquared
  let minimumLeftNorm := rounding.nextDown
    (max (weights.leftBaseNorm - reduction * (shared.leftNorm + remainingLeft)) 0)
  let minimumRightNorm := rounding.nextDown
    (max (weights.rightBaseNorm - reduction * (shared.rightNorm + remainingRight)) 0)
  if minimumLeftNorm ≤ 0 ∨ minimumRightNorm ≤ 0 then
    false
  else
    let numerator := rounding.nextUp (idfRatioSquared * maximumDot)
    let numeratorSquared := rounding.nextUp (numerator * numerator)
    let denominatorSquared := rounding.nextDown (minimumLeftNorm * minimumRightNorm)
    if denominatorSquared ≤ 0 then
      false
    else
      decide (numeratorSquared < rounding.nextDown (bound.thresholdSquared * denominatorSquared))

end PairWeights

variable {rounding : Widening}

/-- A rejected quotient is below the threshold. -/
theorem sq_lt_of_terminalNegative {numerator denominatorSquared threshold roundingMargin : ℝ}
    (margin : 0 ≤ roundingMargin) (denominatorNonneg : 0 ≤ denominatorSquared)
    (below : terminalNegativeBelowThreshold rounding numerator denominatorSquared threshold
      roundingMargin = true) :
    numerator ^ 2 < threshold ^ 2 * denominatorSquared := by
  rw [terminalNegativeBelowThreshold] at below
  split at below
  · cases below
  · next ordinary =>
      simp only [Bool.or_eq_true, not_or, decide_eq_true_eq, not_lt] at ordinary
      have numeratorNonneg := ordinary.1.1.2
      simp only at below
      split at below
      · cases below
      · next guarded =>
          simp only [Bool.or_eq_true, not_or, decide_eq_true_eq, not_le] at guarded
          simp only [Bool.and_eq_true, decide_eq_true_eq] at below
          have positive := guarded.2
          have less := below.2
          have guard : (0 : ℝ) < upperBoundEpsilon := by norm_num [upperBoundEpsilon]
          have factor : (0 : ℝ) ≤ 1 - 16 * epsilon ∧ 1 - 16 * epsilon ≤ 1 := by
            norm_num [epsilon]
          have product := positive.trans_le (rounding.nextDown_le _)
          have inner : 0 < threshold - upperBoundEpsilon - roundingMargin := by
            by_contra notPositive
            exact absurd product (mul_nonpos_of_nonpos_of_nonneg (not_lt.mp notPositive)
              factor.1).not_gt
          have guardedAtMost := (rounding.nextDown_le _).trans
            (mul_le_of_le_one_right inner.le factor.2)
          generalize rounding.nextDown ((threshold - upperBoundEpsilon - roundingMargin) *
            (1 - 16 * epsilon)) = guardedThreshold at positive less guardedAtMost
          have atMost : guardedThreshold ≤ threshold := by linarith
          have squareNonneg := rounding.nextDown_nonneg _ (mul_pos positive positive)
          have numeratorUpper := rounding.le_nextUp numerator
          calc numerator ^ 2 ≤ rounding.nextUp numerator * rounding.nextUp numerator := by
                rw [sq]
                exact mul_le_mul numeratorUpper numeratorUpper numeratorNonneg
                  (numeratorNonneg.trans numeratorUpper)
            _ ≤ rounding.nextUp (rounding.nextUp numerator * rounding.nextUp numerator) :=
                rounding.le_nextUp _
            _ < rounding.nextDown (rounding.nextDown (guardedThreshold * guardedThreshold) *
                rounding.nextDown denominatorSquared) := less
            _ ≤ rounding.nextDown (guardedThreshold * guardedThreshold) *
                rounding.nextDown denominatorSquared := rounding.nextDown_le _
            _ ≤ rounding.nextDown (guardedThreshold * guardedThreshold) * denominatorSquared :=
                mul_le_mul_of_nonneg_left (rounding.nextDown_le _) squareNonneg
            _ ≤ threshold ^ 2 * denominatorSquared := by
                apply mul_le_mul_of_nonneg_right _ denominatorNonneg
                rw [sq]
                exact (rounding.nextDown_le _).trans
                  (mul_le_mul atMost atMost positive.le (positive.le.trans atMost))

/-! ## Rejected pairs -/

/-- What the common terms of a pair add up to. -/
def SharedWeights.ofPairs (leftOnce rightOnce : Nat → ℝ) (pairs : List (Nat × Nat)) :
    SharedWeights :=
  let sums := sharedSums leftOnce rightOnce pairs
  ⟨sums.leftNorm, sums.rightNorm, sums.dot, pairs.length⟩

section Sound

variable {weights : PairWeights} {left right : PreparedDocument} {threshold : ℝ}

/-- The common terms of two documents. -/
def pairShared (left right : PreparedDocument) : SharedWeights :=
  .ofPairs (onceWeight left.length (averageLength left right))
    (onceWeight right.length (averageLength left right))
    (sharedFrequencies left.terms right.terms)

theorem legacyCosineSimilarity_eq (left right : PreparedDocument) :
    legacyCosineSimilarity left right =
      scoreOf (ownNorm (averageLength left right) left) (ownNorm (averageLength left right) right)
        (pairSums (averageLength left right) left right) :=
  pairCosine_eq _ left right

theorem pairSums_dot_nonneg (avgdl : ℝ) (left right : PreparedDocument) :
    0 ≤ (pairSums avgdl left right).dot :=
  sharedSums_dot_nonneg (onceWeight_nonneg _ _) (onceWeight_nonneg _ _) _

theorem pairSums_dot_sq_le (avgdl : ℝ) (left right : PreparedDocument) :
    (pairSums avgdl left right).dot ^ 2 ≤
      (pairSums avgdl left right).leftNorm * (pairSums avgdl left right).rightNorm :=
  sharedSums_dot_sq_le _ _ _

/-- The norm with common terms is not negative. -/
theorem reduced_nonneg {base shared : ℝ} (sharedNonneg : 0 ≤ shared) (atMost : shared ≤ base) :
    0 ≤ base - (1 - idfRatioSquared) * shared := by
  have ratio := mul_nonneg NftData.Bm25.idfRatioSquared_pos.le sharedNonneg
  linarith

theorem leftReduced_nonneg (avgdl : ℝ) (left right : PreparedDocument) :
    0 ≤ ownNorm avgdl left - (1 - idfRatioSquared) * (pairSums avgdl left right).leftNorm :=
  reduced_nonneg (squaredNorm_nonneg _ _) (pairSums_leftNorm_le avgdl left right)

theorem rightReduced_nonneg (avgdl : ℝ) (left right : PreparedDocument) :
    0 ≤ ownNorm avgdl right - (1 - idfRatioSquared) * (pairSums avgdl left right).rightNorm :=
  reduced_nonneg (squaredNorm_nonneg _ _) (pairSums_rightNorm_le avgdl left right)

theorem scoreAtLeast_iff (rounding : Widening) (describes : weights.Describes left right)
    (positive : 0 < threshold) :
    weights.scoreAtLeast rounding (pairShared left right) threshold = true ↔
      threshold ≤ legacyCosineSimilarity left right := by
  have leftNonneg := leftReduced_nonneg (averageLength left right) left right
  have rightNonneg := rightReduced_nonneg (averageLength left right) left right
  have dotNonneg := pairSums_dot_nonneg (averageLength left right) left right
  rw [legacyCosineSimilarity_eq, PairWeights.scoreAtLeast]
  split
  · next none =>
      have noPairs : sharedFrequencies left.terms right.terms = [] :=
        List.length_eq_zero_iff.mp none
      have noDot : (pairSums (averageLength left right) left right).dot = 0 := by
        rw [pairSums, noPairs]
        rfl
      rw [scoreOf, noDot, mul_zero, zero_div, decide_eq_true_iff]
  · have sums : (pairShared left right).leftNorm =
        (pairSums (averageLength left right) left right).leftNorm ∧
        (pairShared left right).rightNorm =
          (pairSums (averageLength left right) left right).rightNorm ∧
        (pairShared left right).dot =
          (pairSums (averageLength left right) left right).dot := ⟨rfl, rfl, rfl⟩
    simp only [sums.1, sums.2.1, sums.2.2, describes.leftBaseNorm, describes.rightBaseNorm,
      max_eq_left leftNonneg, max_eq_left rightNonneg]
    split
    · next below =>
        have squares := sq_lt_of_terminalNegative describes.margin_nonneg
          (mul_nonneg leftNonneg rightNonneg) below
        have product := pos_of_mul_pos_right ((sq_nonneg _).trans_lt squares)
          (sq_nonneg threshold)
        have leftPositive := lt_of_le_of_ne leftNonneg (left_ne_zero_of_mul product.ne').symm
        have rightPositive := lt_of_le_of_ne rightNonneg (right_ne_zero_of_mul product.ne').symm
        have less := scoreOf_lt dotNonneg positive leftPositive rightPositive le_rfl le_rfl le_rfl
          squares
        exact iff_of_false Bool.false_ne_true less.not_ge
    · rw [decide_eq_true_iff, Real.sqrt_mul leftNonneg, scoreOf]
      split
      · next flat =>
          have zero := le_antisymm flat (mul_nonneg (Real.sqrt_nonneg _) (Real.sqrt_nonneg _))
          rw [zero, div_zero]
      · rfl

theorem threshold_le {margin : ℝ} (marginNonneg : 0 ≤ margin) :
    threshold - upperBoundEpsilon - margin ≤ threshold := by
  have guard : (0 : ℝ) < upperBoundEpsilon := by norm_num [upperBoundEpsilon]
  linarith

theorem initialUpperBound_sound (describes : weights.Describes left right)
    (leftShared : (pairSums (averageLength left right) left right).leftNorm ≤
      weights.leftSharedNormUpper)
    (rightShared : (pairSums (averageLength left right) left right).rightNorm ≤
      weights.rightSharedNormUpper)
    (below : weights.initialUpperBoundBelowThreshold rounding threshold = true) :
    legacyCosineSimilarity left right < threshold := by
  have dotNonneg := pairSums_dot_nonneg (averageLength left right) left right
  have dotSq := pairSums_dot_sq_le (averageLength left right) left right
  have leftNonneg : 0 ≤ (pairSums (averageLength left right) left right).leftNorm :=
    squaredNorm_nonneg _ _
  have rightNonneg : 0 ≤ (pairSums (averageLength left right) left right).rightNorm :=
    squaredNorm_nonneg _ _
  have atMost := @threshold_le threshold _ describes.margin_nonneg
  rw [legacyCosineSimilarity_eq, ← describes.leftBaseNorm, ← describes.rightBaseNorm]
  generalize pairSums (averageLength left right) left right = sums at *
  rw [PairWeights.initialUpperBoundBelowThreshold] at below
  simp only at below
  split at below
  · cases below
  next rejects =>
  split at below
  · cases below
  next uppers =>
  split at below
  · cases below
  next norms =>
  split at below
  · cases below
  next squares =>
  rw [decide_eq_true_iff] at below
  rw [not_or, not_le, not_le] at uppers norms squares
  have reduction : 0 ≤ 1 - idfRatioSquared := sub_nonneg.mpr idfRatioSquared_lt_one.le
  have rejectionNonneg := rounding.nextDown_nonneg _ (not_le.mp rejects)
  have rejectionAtMost := (rounding.nextDown_le _).trans atMost
  have leftAtLeast : rounding.nextDown (weights.leftBaseNorm -
      rounding.nextUp ((1 - idfRatioSquared) * weights.leftSharedNormUpper)) ≤
        weights.leftBaseNorm - (1 - idfRatioSquared) * sums.leftNorm :=
    (rounding.nextDown_le _).trans (sub_le_sub_left
      ((mul_le_mul_of_nonneg_left leftShared reduction).trans (rounding.le_nextUp _)) _)
  have rightAtLeast : rounding.nextDown (weights.rightBaseNorm -
      rounding.nextUp ((1 - idfRatioSquared) * weights.rightSharedNormUpper)) ≤
        weights.rightBaseNorm - (1 - idfRatioSquared) * sums.rightNorm :=
    (rounding.nextDown_le _).trans (sub_le_sub_left
      ((mul_le_mul_of_nonneg_left rightShared reduction).trans (rounding.le_nextUp _)) _)
  apply scoreOf_lt dotNonneg ((not_le.mp rejects).trans_le atMost) norms.1 norms.2 leftAtLeast
    rightAtLeast le_rfl
  generalize rounding.nextDown (weights.leftBaseNorm - _) = leftMinimum at *
  generalize rounding.nextDown (weights.rightBaseNorm - _) = rightMinimum at *
  generalize rounding.nextDown (threshold - _ - _) = rejection at *
  have ratioNonneg := mul_self_nonneg idfRatioSquared
  have product : sums.dot ^ 2 ≤ weights.leftSharedNormUpper * weights.rightSharedNormUpper :=
    dotSq.trans (mul_le_mul leftShared rightShared rightNonneg (leftNonneg.trans leftShared))
  calc (idfRatioSquared * sums.dot) ^ 2
      = idfRatioSquared * idfRatioSquared * sums.dot ^ 2 := by ring
    _ ≤ rounding.nextUp (idfRatioSquared * idfRatioSquared) *
          rounding.nextUp (weights.leftSharedNormUpper * weights.rightSharedNormUpper) :=
        mul_le_mul (rounding.le_nextUp _) (product.trans (rounding.le_nextUp _)) (sq_nonneg _)
          (ratioNonneg.trans (rounding.le_nextUp _))
    _ ≤ _ := rounding.le_nextUp _
    _ < _ := below
    _ ≤ _ := rounding.nextDown_le _
    _ ≤ threshold ^ 2 * (leftMinimum * rightMinimum) := by
        apply mul_le_mul _ (rounding.nextDown_le _) squares.1.le (sq_nonneg _)
        rw [sq]
        exact (rounding.nextDown_le _).trans (mul_le_mul rejectionAtMost rejectionAtMost
          rejectionNonneg (rejectionNonneg.trans rejectionAtMost))

/-- What is left to walk over: the common terms that are left, and the norms of all terms that
are. -/
structure Remaining (left right : PreparedDocument) (shared : SharedWeights)
    (processedLeftNorm processedRightNorm : ℝ) (rest : SharedSums) : Prop where
  leftNorm : shared.leftNorm + rest.leftNorm = (pairShared left right).leftNorm
  rightNorm : shared.rightNorm + rest.rightNorm = (pairShared left right).rightNorm
  dot : shared.dot + rest.dot = (pairShared left right).dot
  leftNonneg : 0 ≤ rest.leftNorm
  rightNonneg : 0 ≤ rest.rightNorm
  dotSq : rest.dot ^ 2 ≤ rest.leftNorm * rest.rightNorm
  left_le : processedLeftNorm + rest.leftNorm ≤ ownNorm (averageLength left right) left
  right_le : processedRightNorm + rest.rightNorm ≤ ownNorm (averageLength left right) right

theorem le_fullNormUpper (rounding : Widening) {baseNorm : ℝ} (nonneg : 0 ≤ baseNorm)
    (termLen : Nat) : baseNorm ≤ fullNormUpper rounding baseNorm termLen := by
  have margin : (0 : ℝ) ≤ 8 * (termLen + 1) * epsilon := by
    unfold epsilon
    positivity
  have factor := rounding.le_nextUp (1 + 8 * (termLen + 1) * epsilon)
  exact (le_mul_of_one_le_right nonneg (by linarith)).trans (rounding.le_nextUp _)

variable {bound : IterativeBound}

theorem iterativeBound_spec (describes : weights.Describes left right)
    (isBound : weights.iterativeBound rounding threshold = some bound) :
    ownNorm (averageLength left right) left ≤ bound.leftFullNormUpper ∧
      ownNorm (averageLength left right) right ≤ bound.rightFullNormUpper ∧
      0 < threshold ∧ bound.thresholdSquared ≤ threshold ^ 2 := by
  have atMost := @threshold_le threshold _ describes.margin_nonneg
  rw [PairWeights.iterativeBound] at isBound
  simp only at isBound
  split at isBound
  · cases isBound
  next rejects =>
  split at isBound
  · cases isBound
  rw [Bool.or_eq_true, not_or, decide_eq_true_iff, not_le] at rejects
  cases isBound
  refine ⟨?_, ?_, rejects.2.trans_le atMost, ?_⟩
  · rw [describes.leftBaseNorm]
    exact le_fullNormUpper rounding (squaredNorm_nonneg _ _) _
  · rw [describes.rightBaseNorm]
    exact le_fullNormUpper rounding (squaredNorm_nonneg _ _) _
  · rw [sq]
    exact (rounding.nextDown_le _).trans
      (mul_le_mul atMost atMost rejects.2.le (rejects.2.le.trans atMost))

/-- A norm that stays positive after rounding bounds what it was rounded from. -/
theorem lt_of_nextDown_max {number : ℝ} (positive : 0 < rounding.nextDown (max number 0)) :
    rounding.nextDown (max number 0) ≤ number := by
  have larger := positive.trans_le (rounding.nextDown_le _)
  rcases lt_max_iff.mp larger with numberPositive | impossible
  · exact (rounding.nextDown_le _).trans_eq (max_eq_left numberPositive.le)
  · exact absurd impossible (lt_irrefl 0)

/-- The iterative bound holds at every point of the walk. -/
theorem upperBound_sound {shared : SharedWeights} {processedLeftNorm processedRightNorm : ℝ}
    {rest : SharedSums} (describes : weights.Describes left right)
    (isBound : weights.iterativeBound rounding threshold = some bound)
    (remaining : Remaining left right shared processedLeftNorm processedRightNorm rest)
    (below : weights.upperBoundBelowThreshold rounding bound shared processedLeftNorm
      processedRightNorm = true) :
    legacyCosineSimilarity left right < threshold := by
  have dotNonneg := pairSums_dot_nonneg (averageLength left right) left right
  rcases iterativeBound_spec describes isBound with ⟨leftFull, rightFull, positive, squared⟩
  have leftRest : rest.leftNorm ≤ rounding.nextUp
      (max (bound.leftFullNormUpper - processedLeftNorm) 0) := by
    have difference : rest.leftNorm ≤ bound.leftFullNormUpper - processedLeftNorm := by
      linarith [remaining.left_le]
    exact (difference.trans (le_max_left _ _)).trans (rounding.le_nextUp _)
  have rightRest : rest.rightNorm ≤ rounding.nextUp
      (max (bound.rightFullNormUpper - processedRightNorm) 0) := by
    have difference : rest.rightNorm ≤ bound.rightFullNormUpper - processedRightNorm := by
      linarith [remaining.right_le]
    exact (difference.trans (le_max_left _ _)).trans (rounding.le_nextUp _)
  rw [PairWeights.upperBoundBelowThreshold] at below
  simp only at below
  generalize rounding.nextUp (max (bound.leftFullNormUpper - processedLeftNorm) 0) =
    remainingLeft at *
  generalize rounding.nextUp (max (bound.rightFullNormUpper - processedRightNorm) 0) =
    remainingRight at *
  split at below
  · cases below
  next norms =>
  split at below
  · cases below
  next squares =>
  rw [decide_eq_true_iff] at below
  rw [not_or, not_le, not_le] at norms
  rw [not_le] at squares
  have reduction : 0 ≤ 1 - idfRatioSquared := sub_nonneg.mpr idfRatioSquared_lt_one.le
  have leftAtLeast := (lt_of_nextDown_max norms.1).trans (sub_le_sub_left
    (mul_le_mul_of_nonneg_left (add_le_add_right leftRest shared.leftNorm) reduction)
    weights.leftBaseNorm)
  have rightAtLeast := (lt_of_nextDown_max norms.2).trans (sub_le_sub_left
    (mul_le_mul_of_nonneg_left (add_le_add_right rightRest shared.rightNorm) reduction)
    weights.rightBaseNorm)
  rw [remaining.leftNorm, describes.leftBaseNorm] at leftAtLeast
  rw [remaining.rightNorm, describes.rightBaseNorm] at rightAtLeast
  rw [describes.leftBaseNorm] at below norms squares
  rw [describes.rightBaseNorm] at below norms squares
  have restDot : rest.dot ≤ rounding.nextUp √(remainingLeft * remainingRight) := by
    have product := remaining.dotSq.trans (mul_le_mul leftRest rightRest remaining.rightNonneg
      (remaining.leftNonneg.trans leftRest))
    exact (Real.le_sqrt_of_sq_le product).trans (rounding.le_nextUp _)
  have maximum : (pairSums (averageLength left right) left right).dot ≤
      rounding.nextUp (shared.dot + rounding.nextUp √(remainingLeft * remainingRight)) :=
    (remaining.dot.symm.trans_le (add_le_add_right restDot _)).trans (rounding.le_nextUp _)
  have numerator := (mul_le_mul_of_nonneg_left maximum
    NftData.Bm25.idfRatioSquared_pos.le).trans (rounding.le_nextUp _)
  rw [legacyCosineSimilarity_eq]
  apply scoreOf_lt dotNonneg positive norms.1 norms.2 leftAtLeast rightAtLeast numerator
  rw [sq]
  refine (rounding.le_nextUp _).trans_lt (below.trans_le ((rounding.nextDown_le _).trans ?_))
  exact mul_le_mul squared (rounding.nextDown_le _) squares.le (sq_nonneg _)

end Sound

end

end NftData.Dedup.Bm25
