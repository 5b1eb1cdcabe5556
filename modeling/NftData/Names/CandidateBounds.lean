import NftData.Foundation.JaroWinkler

namespace NftData.Names

/-! # Candidate bounds

What the lengths of two names, and the characters they share, allow their Jaro-Winkler
similarity to be at most. The name indexes look only at candidates within these bounds. Each of
them has its own copy, in fractions or percentages, with or without slack for rounding. -/

/-- The similarity of equal names, and how far a bound may stay below the threshold. -/
structure BoundScale where
  top : ℚ
  slack : ℚ
  topPositive : 0 < top
  slackNonneg : 0 ≤ slack

/-- Find the least overlap that reaches, in the window from `low` to `high`. -/
def leastReaching (reaches : Nat → Bool) : Nat → Nat → Nat → Nat
  | 0, low, _ => low
  | fuel + 1, low, high =>
      if low < high then
        let middle := low + (high - low) / 2
        if reaches middle then
          leastReaching reaches fuel low middle
        else
          leastReaching reaches fuel (middle + 1) high
      else
        low

namespace BoundScale

variable (scale : BoundScale)

def reachesThreshold (upperBound threshold : ℚ) : Bool :=
  decide (threshold ≤ upperBound) || decide (threshold - upperBound ≤ scale.slack)

def optimisticFromOverlap (leftLength rightLength overlap : Nat) : ℚ :=
  if leftLength = 0 ∨ rightLength = 0 ∨ overlap = 0 then
    0
  else
    let overlap := min (min overlap leftLength) rightLength
    let similarity := withPrefix (jaroBound leftLength rightLength overlap)
      (min overlap (min (min leftLength rightLength) 4))
    min similarity 1 * scale.top

def upperBoundFromLengths (leftLength rightLength : Nat) : ℚ :=
  if leftLength = 0 ∨ rightLength = 0 then
    if leftLength = rightLength then scale.top else 0
  else
    let shorter : ℚ := min leftLength rightLength
    let longer : ℚ := max leftLength rightLength
    let maxJaro := (1 + shorter / longer + 1) / 3
    let maxPrefix : ℚ := min (min leftLength rightLength) 4
    min (maxJaro + 1 / 10 * maxPrefix * (1 - maxJaro)) 1 * scale.top

def lengthsCanReach (leftLength rightLength : Nat) (threshold : ℚ) : Bool :=
  scale.reachesThreshold (scale.upperBoundFromLengths leftLength rightLength) threshold

def minimumMultisetOverlap (leftLength rightLength : Nat) (threshold : ℚ) : Nat :=
  if leftLength = 0 ∧ rightLength = 0 then
    0
  else if scale.top < threshold then
    min leftLength rightLength + 1
  else if threshold ≤ 0 then
    0
  else
    let maxOverlap := min leftLength rightLength
    leastReaching
      (fun overlap => scale.reachesThreshold
        (scale.optimisticFromOverlap leftLength rightLength overlap) threshold)
      (maxOverlap + 1) 0 (maxOverlap + 1)

end BoundScale

variable {high low : Nat}

theorem leastReaching_le_high (reaches : Nat → Bool) (fuel : Nat) (window : low ≤ high) :
    leastReaching reaches fuel low high ≤ high := by
  induction fuel generalizing low high with
  | zero => exact window
  | succ fuel induction =>
      rw [leastReaching]
      split
      · dsimp only
        split
        · exact (induction (Nat.le_add_right _ _)).trans (by omega)
        · exact induction (by omega)
      · exact window

variable {overlap : Nat}

/-- The search does not pass an overlap that reaches. -/
theorem leastReaching_le {reaches : Nat → Bool}
    (monotone : ∀ less more, less ≤ more → reaches less = true → reaches more = true)
    (reached : reaches overlap = true) (fuel : Nat) (above : low ≤ overlap) :
    leastReaching reaches fuel low high ≤ overlap := by
  induction fuel generalizing low high with
  | zero => exact above
  | succ fuel induction =>
      rw [leastReaching]
      split
      · dsimp only
        split
        · by_cases inside : overlap < low + (high - low) / 2
          · exact induction above
          · exact (leastReaching_le_high reaches fuel (Nat.le_add_right _ _)).trans
              (Nat.le_of_not_lt inside)
        · next missed =>
            refine induction ?_
            by_contra below
            exact missed (monotone overlap _ (by omega) reached)
      · exact above

namespace BoundScale

variable (scale : BoundScale) {threshold : ℚ}

theorem reachesThreshold_mono {lower upper : ℚ} (below : lower ≤ upper)
    (reached : scale.reachesThreshold lower threshold = true) :
    scale.reachesThreshold upper threshold = true := by
  simp only [reachesThreshold, Bool.or_eq_true, decide_eq_true_eq] at reached ⊢
  rcases reached with least | near
  · exact .inl (least.trans below)
  · exact .inr ((sub_le_sub_left below threshold).trans near)

variable {leftLength rightLength : Nat}

theorem optimisticFromOverlap_mono {less more : Nat} (overlaps : less ≤ more) :
    scale.optimisticFromOverlap leftLength rightLength less ≤
      scale.optimisticFromOverlap leftLength rightLength more := by
  have topNonneg := scale.topPositive.le
  unfold optimisticFromOverlap
  split
  · split
    · exact le_rfl
    · refine mul_nonneg (le_min ?_ zero_le_one) topNonneg
      have nonneg : (0 : ℚ) ≤ jaroBound leftLength rightLength
          (min (min more leftLength) rightLength) := by
        unfold jaroBound
        positivity
      have least : withPrefix 0 0 ≤ withPrefix (jaroBound leftLength rightLength
          (min (min more leftLength) rightLength)) (min (min (min more leftLength) rightLength)
            (min (min leftLength rightLength) 4)) :=
        withPrefix_mono nonneg (jaroBound_le_one (by omega) (by omega)) (Nat.zero_le _)
          (by omega)
      refine le_trans (le_of_eq ?_) least
      rw [withPrefix, if_neg (by norm_num)]
  · next some =>
      rw [if_neg (by omega)]
      refine mul_le_mul_of_nonneg_right (min_le_min_right 1 ?_) topNonneg
      exact withPrefix_mono (jaroBound_mono (by omega))
        (jaroBound_le_one (by omega) (by omega)) (by omega) (by omega)

/-! ## Bounds from lengths -/

theorem jaroBound_min (left : 0 < leftLength) (right : 0 < rightLength) :
    (1 + ((min leftLength rightLength : Nat) : ℚ) / ((max leftLength rightLength : Nat) : ℚ) +
      1) / 3 = jaroBound leftLength rightLength (min leftLength rightLength) := by
  have leftPositive : (0 : ℚ) < leftLength := Nat.cast_pos.mpr left
  have rightPositive : (0 : ℚ) < rightLength := Nat.cast_pos.mpr right
  unfold jaroBound
  rcases Nat.le_total leftLength rightLength with shorter | longer
  · rw [Nat.min_eq_left shorter, Nat.max_eq_right shorter, div_self leftPositive.ne']
  · rw [Nat.min_eq_right longer, Nat.max_eq_left longer, div_self rightPositive.ne']
    ring

theorem upperBound_of_positive (left : 0 < leftLength) (right : 0 < rightLength) :
    scale.upperBoundFromLengths leftLength rightLength =
      min (jaroBound leftLength rightLength (min leftLength rightLength) +
        1 / 10 * ((min (min leftLength rightLength) 4 : Nat) : ℚ) *
          (1 - jaroBound leftLength rightLength (min leftLength rightLength))) 1 *
        scale.top := by
  rw [upperBoundFromLengths, if_neg (by omega), ← jaroBound_min left right]
  push_cast
  rfl

theorem upperBoundFromLengths_nonneg (leftLength rightLength : Nat) :
    0 ≤ scale.upperBoundFromLengths leftLength rightLength := by
  have topNonneg := scale.topPositive.le
  by_cases empty : leftLength = 0 ∨ rightLength = 0
  · rw [upperBoundFromLengths, if_pos empty]
    split
    · exact topNonneg
    · exact le_rfl
  · rw [scale.upperBound_of_positive (by omega) (by omega)]
    refine mul_nonneg (le_min ?_ zero_le_one) topNonneg
    have limited := jaroBound_le_one (Nat.min_le_left leftLength rightLength)
      (Nat.min_le_right leftLength rightLength)
    have nonneg : 0 ≤ jaroBound leftLength rightLength (min leftLength rightLength) := by
      unfold jaroBound
      positivity
    exact add_nonneg nonneg (mul_nonneg (by positivity) (by linarith))

theorem optimisticFromOverlap_le (leftLength rightLength overlap : Nat) :
    scale.optimisticFromOverlap leftLength rightLength overlap ≤
      scale.upperBoundFromLengths leftLength rightLength := by
  have topNonneg := scale.topPositive.le
  unfold optimisticFromOverlap
  split
  · exact scale.upperBoundFromLengths_nonneg leftLength rightLength
  · next some =>
      rw [scale.upperBound_of_positive (by omega) (by omega)]
      refine mul_le_mul_of_nonneg_right (min_le_min_right 1 ?_) topNonneg
      refine (withPrefix_le_raise (jaroBound_le_one (by omega) (by omega)) _).trans ?_
      refine raise_mono (jaroBound_mono (by omega))
        (jaroBound_le_one (by omega) (by omega)) (Nat.cast_le.mpr (by omega)) ?_
      have limited : min (min (min overlap leftLength) rightLength)
          (min (min leftLength rightLength) 4) ≤ 10 := by omega
      exact_mod_cast limited

theorem upperBound_mono_of {otherLeft otherRight : Nat} (left : 0 < leftLength)
    (right : 0 < rightLength) (positiveLeft : 0 < otherLeft) (positiveRight : 0 < otherRight)
    (jaro : jaroBound leftLength rightLength (min leftLength rightLength) ≤
      jaroBound otherLeft otherRight (min otherLeft otherRight))
    (shorter : min leftLength rightLength ≤ min otherLeft otherRight) :
    scale.upperBoundFromLengths leftLength rightLength ≤
      scale.upperBoundFromLengths otherLeft otherRight := by
  rw [scale.upperBound_of_positive left right,
    scale.upperBound_of_positive positiveLeft positiveRight]
  refine mul_le_mul_of_nonneg_right (min_le_min_right 1 ?_) scale.topPositive.le
  refine raise_mono jaro (jaroBound_le_one (by omega) (by omega))
    (Nat.cast_le.mpr (by omega)) ?_
  have limited : min (min leftLength rightLength) 4 ≤ 10 := by omega
  exact_mod_cast limited

variable {shorter longer : Nat}

/-- Shorter names than the left one have lower bounds. -/
theorem upperBound_mono_below (less : shorter ≤ longer) (below : longer ≤ leftLength) :
    scale.upperBoundFromLengths leftLength shorter ≤
      scale.upperBoundFromLengths leftLength longer := by
  by_cases empty : shorter = 0
  · by_cases same : longer = 0
    · rw [empty, same]
    · rw [empty, upperBoundFromLengths, if_pos (.inr rfl), if_neg (by omega)]
      exact scale.upperBoundFromLengths_nonneg leftLength longer
  · refine scale.upperBound_mono_of (by omega) (by omega) (by omega) (by omega) ?_ (by omega)
    have cast : (shorter : ℚ) ≤ longer := Nat.cast_le.mpr less
    have ratio : (shorter : ℚ) / leftLength ≤ longer / leftLength := by gcongr
    rw [← jaroBound_min (by omega) (by omega), ← jaroBound_min (by omega) (by omega),
      Nat.min_eq_right (by omega), Nat.min_eq_right below, Nat.max_eq_left (by omega),
      Nat.max_eq_left below]
    linarith

/-- Longer names than the left one have lower bounds. -/
theorem upperBound_mono_above (positive : 0 < leftLength) (above : leftLength ≤ shorter)
    (less : shorter ≤ longer) :
    scale.upperBoundFromLengths leftLength longer ≤
      scale.upperBoundFromLengths leftLength shorter := by
  refine scale.upperBound_mono_of positive (by omega) positive (by omega) ?_ (by omega)
  have cast : (shorter : ℚ) ≤ longer := Nat.cast_le.mpr less
  have shorterPositive : (0 : ℚ) < shorter := Nat.cast_pos.mpr (by omega)
  have ratio : (leftLength : ℚ) / longer ≤ leftLength / shorter := by gcongr
  rw [← jaroBound_min positive (by omega), ← jaroBound_min positive (by omega),
    Nat.min_eq_left (by omega), Nat.min_eq_left above, Nat.max_eq_right (by omega),
    Nat.max_eq_right above]
  linarith

theorem minimumMultisetOverlap_le (limited : threshold ≤ scale.top)
    (reached : scale.reachesThreshold
      (scale.optimisticFromOverlap leftLength rightLength overlap) threshold = true) :
    scale.minimumMultisetOverlap leftLength rightLength threshold ≤ overlap := by
  unfold minimumMultisetOverlap
  split
  · exact Nat.zero_le _
  · rw [if_neg (not_lt.mpr limited)]
    split
    · exact Nat.zero_le _
    · refine leastReaching_le (fun less more overlaps => ?_) reached _ (Nat.zero_le _)
      exact scale.reachesThreshold_mono (scale.optimisticFromOverlap_mono overlaps)

variable {α : Type*} [DecidableEq α] {right left : List α}

theorem jaroWinkler_le_optimistic (nonempty : ¬(left = [] ∧ right = [])) :
    jaroWinkler left right * scale.top ≤
      scale.optimisticFromOverlap left.length right.length (multisetOverlap left right) := by
  have inLeft := multisetOverlap_le_left left right
  have inRight := multisetOverlap_le_right left right
  have bound := jaroWinkler_le nonempty
  unfold optimisticFromOverlap
  split at bound
  · next none =>
      rw [if_pos (.inr (.inr none))]
      exact mul_nonpos_of_nonpos_of_nonneg bound scale.topPositive.le
  · next some =>
      rw [if_neg (by omega)]
      dsimp only
      have same : min (min (multisetOverlap left right) left.length) right.length =
          multisetOverlap left right := by omega
      have samePrefix : min (multisetOverlap left right)
          (min (min left.length right.length) 4) = min (multisetOverlap left right) 4 := by omega
      rw [same, samePrefix]
      exact mul_le_mul_of_nonneg_right (le_min bound (jaroWinkler_le_one left right))
        scale.topPositive.le

theorem lossless (limited : threshold ≤ scale.top)
    (similar : scale.reachesThreshold (jaroWinkler left right * scale.top) threshold = true) :
    scale.lengthsCanReach left.length right.length threshold = true ∧
      scale.minimumMultisetOverlap left.length right.length threshold ≤
        multisetOverlap left right := by
  by_cases empty : left = [] ∧ right = []
  · rw [empty.1, empty.2, jaroWinkler_self, one_mul] at similar
    rw [empty.1, empty.2]
    exact ⟨similar, Nat.zero_le _⟩
  · have reached := scale.reachesThreshold_mono (scale.jaroWinkler_le_optimistic empty) similar
    exact ⟨scale.reachesThreshold_mono (scale.optimisticFromOverlap_le _ _ _) reached,
      scale.minimumMultisetOverlap_le limited reached⟩

end BoundScale

end NftData.Names
