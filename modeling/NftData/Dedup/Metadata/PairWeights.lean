import NftData.Foundation.Accumulation
import NftData.Dedup.Metadata.FrequencyHistogram
import NftData.Dedup.Metadata.LosslessPrefix

namespace NftData.Dedup.Bm25

open List
open FrequencyHistogram (expand expand_cons)
open NftData.Bm25 (k1 b weight idfOnce idfShared idfRatioSquared)

/-! # Weights of a pair

What two documents weigh alone, and at most what their common terms can weigh. -/

/-- `next_up` and `next_down` widen a number. Which numbers are normal or finite is left open. -/
structure Widening where
  nextUp : ℝ → ℝ
  nextDown : ℝ → ℝ
  isNormal : ℝ → Bool
  isFinite : ℝ → Bool
  le_nextUp : ∀ number, number ≤ nextUp number
  nextDown_le : ∀ number, nextDown number ≤ number
  nextDown_nonneg : ∀ number, 0 < number → 0 ≤ nextDown number

namespace PreparedDocument

variable (document : PreparedDocument)

def termLen : Nat := document.terms.length

def frequencyHistogram : FrequencyHistogram := .fromTerms document.terms

def allUnitFrequencies : Bool :=
  match document.frequencyHistogram.asSlice with
  | [(1, count)] => count == document.termLen
  | _ => false

end PreparedDocument

noncomputable section

section Histogram

variable (rounding : Widening)

def histogramWeight (lengthNorm unitWeight : ℝ) (frequency : Nat) : ℝ :=
  if frequency = 1 then unitWeight else weight frequency lengthNorm idfOnce

def histogramBaseNorm (histogram : List (Nat × Nat)) (lengthNorm unitWeight : ℝ) : ℝ :=
  histogram.foldl
    (fun baseNorm entry =>
      let weighted := histogramWeight lengthNorm unitWeight entry.1
      baseNorm + weighted * weighted * entry.2)
    0

def unitHistogramBaseNorm (unitWeight : ℝ) (termLen : Nat) : ℝ :=
  unitWeight * unitWeight * termLen

/-- The bound of a sum, against the rounding of its steps. -/
def inflate (sharedTermLimit : Nat) (topNormUpper : ℝ) : ℝ :=
  let summationInflation := rounding.nextUp (1 + 4 * (sharedTermLimit + 1) * epsilon)
  rounding.nextUp (topNormUpper * summationInflation)

def unitHistogramNorms (unitWeight : ℝ) (termLen sharedTermLimit : Nat) : ℝ × ℝ :=
  let squared := unitWeight * unitWeight
  let topNormUpper :=
    if 0 < sharedTermLimit then
      rounding.nextUp (0 + rounding.nextUp (rounding.nextUp squared * sharedTermLimit))
    else 0
  (squared * termLen, inflate rounding sharedTermLimit topNormUpper)

structure NormState where
  baseNorm : ℝ
  topNormUpper : ℝ
  skippedLowFrequencyTerms : Nat

def histogramNormsStep (lengthNorm unitWeight : ℝ) (state : NormState) (entry : Nat × Nat) :
    NormState :=
  let weighted := histogramWeight lengthNorm unitWeight entry.1
  let squared := weighted * weighted
  let skipped := min state.skippedLowFrequencyTerms entry.2
  let selected := entry.2 - skipped
  { baseNorm := state.baseNorm + squared * entry.2
    topNormUpper :=
      if 0 < selected then
        rounding.nextUp (state.topNormUpper +
          rounding.nextUp (rounding.nextUp squared * selected))
      else state.topNormUpper
    skippedLowFrequencyTerms := state.skippedLowFrequencyTerms - skipped }

def histogramNorms (histogram : List (Nat × Nat)) (lengthNorm unitWeight : ℝ)
    (skippedLowFrequencyTerms sharedTermLimit : Nat) : ℝ × ℝ :=
  let state := histogram.foldl (histogramNormsStep rounding lengthNorm unitWeight)
    ⟨0, 0, skippedLowFrequencyTerms⟩
  (state.baseNorm, inflate rounding sharedTermLimit state.topNormUpper)

/-- The base norm of a document, and the bound for its common terms. -/
def documentNorms (document : PreparedDocument) (lengthNorm unitWeight : ℝ)
    (sharedTermLimit : Nat) (includeBounds allUnitFrequencies : Bool) : ℝ × ℝ :=
  if includeBounds && allUnitFrequencies then
    unitHistogramNorms rounding unitWeight document.termLen sharedTermLimit
  else if includeBounds then
    histogramNorms rounding document.frequencyHistogram.asSlice lengthNorm unitWeight
      (document.termLen - sharedTermLimit) sharedTermLimit
  else if allUnitFrequencies then
    (unitHistogramBaseNorm unitWeight document.termLen, 0)
  else
    (histogramBaseNorm document.frequencyHistogram.asSlice lengthNorm unitWeight, 0)

end Histogram

structure PairWeights where
  leftLengthNorm : ℝ
  rightLengthNorm : ℝ
  leftUnitWeight : ℝ
  rightUnitWeight : ℝ
  leftBaseNorm : ℝ
  rightBaseNorm : ℝ
  leftSharedNormUpper : ℝ
  rightSharedNormUpper : ℝ
  leftTermLen : Nat
  rightTermLen : Nat
  boundRoundingMargin : ℝ

namespace PairWeights

def newWithBounds (rounding : Widening) (left right : PreparedDocument)
    (includeBounds allUnitFrequencies : Bool) : PairWeights :=
  let avgdl := averageLength left right
  let leftLengthNorm := lengthNorm left.length avgdl
  let rightLengthNorm := lengthNorm right.length avgdl
  let leftUnitWeight := weight 1 leftLengthNorm idfOnce
  let rightUnitWeight := weight 1 rightLengthNorm idfOnce
  let sharedTermLimit := min left.termLen right.termLen
  let leftNorms := documentNorms rounding left leftLengthNorm leftUnitWeight sharedTermLimit
    includeBounds allUnitFrequencies
  let rightNorms := documentNorms rounding right rightLengthNorm rightUnitWeight sharedTermLimit
    includeBounds allUnitFrequencies
  { leftLengthNorm, rightLengthNorm, leftUnitWeight, rightUnitWeight
    leftBaseNorm := leftNorms.1
    rightBaseNorm := rightNorms.1
    leftSharedNormUpper := leftNorms.2
    rightSharedNormUpper := rightNorms.2
    leftTermLen := left.termLen
    rightTermLen := right.termLen
    boundRoundingMargin := 64 * epsilon * (left.termLen + right.termLen + 16) }

variable (weights : PairWeights)

def leftOnce (frequency : Nat) : ℝ :=
  histogramWeight weights.leftLengthNorm weights.leftUnitWeight frequency

def rightOnce (frequency : Nat) : ℝ :=
  histogramWeight weights.rightLengthNorm weights.rightUnitWeight frequency

end PairWeights

/-! ## Norms are sums over the terms -/

theorem weight_mono {frequency larger : Nat} (atMost : frequency ≤ larger) {norm : ℝ}
    (positive : 0 < norm) : weight frequency norm idfOnce ≤ weight larger norm idfOnce := by
  have casted : (frequency : ℝ) ≤ larger := Nat.cast_le.mpr atMost
  have first : (0 : ℝ) ≤ frequency := Nat.cast_nonneg _
  have factor := mul_pos NftData.Bm25.idfOnce_pos (add_pos k1_pos one_pos)
  rw [weight, weight, div_le_div_iff₀ (by linarith) (by linarith)]
  nlinarith [mul_le_mul_of_nonneg_left (mul_le_mul_of_nonneg_right casted positive.le) factor.le]

theorem squaredNorm_append (once : Nat → ℝ) (first second : List Nat) :
    squaredNorm once (first ++ second) = squaredNorm once first + squaredNorm once second := by
  simp only [squaredNorm, map_append, sum_append]

theorem squaredNorm_replicate (once : Nat → ℝ) (count frequency : Nat) :
    squaredNorm once (List.replicate count frequency) =
      once frequency * once frequency * count := by
  simp only [squaredNorm, map_replicate, sum_replicate, nsmul_eq_mul, sq]
  ring

theorem histogramWeight_eq (lengthNorm : ℝ) (frequency : Nat) :
    histogramWeight lengthNorm (weight 1 lengthNorm idfOnce) frequency =
      weight frequency lengthNorm idfOnce := by
  rw [histogramWeight]
  split
  · next isOne => rw [isOne]
  · rfl

theorem le_inflate (rounding : Widening) (sharedTermLimit : Nat) {topNormUpper : ℝ}
    (nonneg : 0 ≤ topNormUpper) : topNormUpper ≤ inflate rounding sharedTermLimit topNormUpper := by
  have margin : (0 : ℝ) ≤ 4 * (sharedTermLimit + 1) * epsilon := by
    unfold epsilon
    positivity
  have factor := rounding.le_nextUp (1 + 4 * (sharedTermLimit + 1) * epsilon)
  exact (le_mul_of_one_le_right nonneg (by linarith)).trans (rounding.le_nextUp _)

section Histogram

variable {lengthNorm unitWeight : ℝ} {histogram : List (Nat × Nat)}

theorem histogramBaseNorm_foldl (baseNorm : ℝ) :
    histogram.foldl
        (fun baseNorm entry =>
          let weighted := histogramWeight lengthNorm unitWeight entry.1
          baseNorm + weighted * weighted * entry.2)
        baseNorm =
      baseNorm + squaredNorm (histogramWeight lengthNorm unitWeight)
        (expand histogram) := by
  induction histogram generalizing baseNorm with
  | nil => simp [expand, squaredNorm]
  | cons head rest induction =>
      rw [foldl_cons, induction, expand_cons, squaredNorm_append,
        squaredNorm_replicate, add_assoc]

/-- What is selected of one entry is counted at least. -/
theorem histogramNormsStep_top (rounding : Widening) (state : NormState) (entry : Nat × Nat) :
    state.topNormUpper + histogramWeight lengthNorm unitWeight entry.1 *
        histogramWeight lengthNorm unitWeight entry.1 *
          ((entry.2 - state.skippedLowFrequencyTerms : Nat) : ℝ) ≤
      (histogramNormsStep rounding lengthNorm unitWeight state entry).topNormUpper := by
  have selected : entry.2 - min state.skippedLowFrequencyTerms entry.2 =
      entry.2 - state.skippedLowFrequencyTerms := by omega
  simp only [histogramNormsStep, selected]
  split
  · have squared := rounding.le_nextUp (histogramWeight lengthNorm unitWeight entry.1 *
      histogramWeight lengthNorm unitWeight entry.1)
    have contribution := (mul_le_mul_of_nonneg_right squared
      (Nat.cast_nonneg (entry.2 - state.skippedLowFrequencyTerms))).trans (rounding.le_nextUp _)
    exact (add_le_add_right contribution _).trans (rounding.le_nextUp _)
  · next nothing =>
      rw [Nat.eq_zero_of_not_pos nothing, Nat.cast_zero, mul_zero, add_zero]

theorem histogramNorms_foldl (rounding : Widening) (state : NormState) :
    let final := histogram.foldl (histogramNormsStep rounding lengthNorm unitWeight) state
    final.baseNorm = state.baseNorm + squaredNorm (histogramWeight lengthNorm unitWeight)
        (expand histogram) ∧
      state.topNormUpper + squaredNorm (histogramWeight lengthNorm unitWeight)
        ((expand histogram).drop state.skippedLowFrequencyTerms) ≤
          final.topNormUpper := by
  induction histogram generalizing state with
  | nil => simp [expand, squaredNorm]
  | cons head rest induction =>
      rcases head with ⟨frequency, count⟩
      have step := @histogramNormsStep_top lengthNorm unitWeight rounding state (frequency, count)
      have next := induction
        (histogramNormsStep rounding lengthNorm unitWeight state (frequency, count))
      have skipped : (histogramNormsStep rounding lengthNorm unitWeight state
          (frequency, count)).skippedLowFrequencyTerms =
          state.skippedLowFrequencyTerms - count := by
        simp only [histogramNormsStep]
        omega
      rw [skipped] at next
      rw [foldl_cons, expand_cons, drop_append, drop_replicate,
        length_replicate, squaredNorm_append, squaredNorm_append, squaredNorm_replicate,
        squaredNorm_replicate]
      refine ⟨next.1.trans ?_, le_trans ?_ next.2⟩
      · simp only [histogramNormsStep]
        ring
      · linarith

end Histogram

namespace PreparedDocument

variable (document : PreparedDocument)

def sortedFrequencies : List Nat :=
  expand document.frequencyHistogram.asSlice

theorem sortedFrequencies_perm :
    document.sortedFrequencies.Perm (document.terms.map Prod.snd) :=
  FrequencyHistogram.expand_fromTerms_perm document.terms

theorem length_sortedFrequencies : document.sortedFrequencies.length = document.termLen := by
  rw [document.sortedFrequencies_perm.length_eq, length_map, termLen]

theorem squaredNorm_sortedFrequencies (once : Nat → ℝ) :
    squaredNorm once document.sortedFrequencies =
      squaredNorm once (document.terms.map Prod.snd) :=
  (document.sortedFrequencies_perm.map _).sum_eq

variable {document}

theorem sortedFrequencies_of_allUnit (allUnit : document.allUnitFrequencies = true) :
    document.sortedFrequencies = List.replicate document.termLen 1 := by
  rw [allUnitFrequencies] at allUnit
  split at allUnit
  · next count isSlice =>
      have isCount : count = document.termLen := beq_iff_eq.mp allUnit
      rw [sortedFrequencies, isSlice, isCount]
      simp [expand]
  · cases allUnit

theorem frequency_of_allUnit (allUnit : document.allUnitFrequencies = true) {entry : Nat × Nat}
    (member : entry ∈ document.terms) : entry.2 = 1 := by
  have inSorted := document.sortedFrequencies_perm.mem_iff.mpr (mem_map_of_mem member)
  rw [sortedFrequencies_of_allUnit allUnit] at inSorted
  exact eq_of_mem_replicate inSorted

end PreparedDocument

/-- So many common terms weigh no more than the most frequent terms. -/
theorem squaredNorm_le_top (document : PreparedDocument) (avgdl : ℝ) {shared : List Nat}
    {limit : Nat} (isPart : shared.Sublist (document.terms.map Prod.snd))
    (few : shared.length ≤ limit) :
    squaredNorm (onceWeight document.length avgdl) shared ≤
      squaredNorm (onceWeight document.length avgdl)
        (document.sortedFrequencies.drop (document.termLen - limit)) := by
  have positive := lengthNorm_pos document.length avgdl
  rcases isPart.subperm.trans document.sortedFrequencies_perm.symm.subperm with
    ⟨part, perm, sublist⟩
  have sorted : (document.sortedFrequencies.map fun frequency =>
      onceWeight document.length avgdl frequency ^ 2).Pairwise (· ≤ ·) := by
    rw [pairwise_map]
    refine (FrequencyHistogram.expand_fromTerms_sorted document.terms).imp fun atMost => ?_
    exact pow_le_pow_left₀ (onceWeight_nonneg _ _ _) (weight_mono atMost positive) 2
  have bound := @sum_le_sum_drop _ _ _ _ _ _ limit sorted
    (by
      intro value member
      rcases mem_map.mp member with ⟨frequency, _, rfl⟩
      exact sq_nonneg _)
    (sublist.map _) (by rwa [length_map, perm.length_eq])
  rw [length_map, document.length_sortedFrequencies, ← map_drop] at bound
  rw [squaredNorm, ← (perm.map _).sum_eq]
  exact bound

variable {allUnit : Bool}

/-- The base norm is the norm of the document alone, and the bound covers the most frequent
terms. -/
theorem documentNorms_spec (rounding : Widening) (document : PreparedDocument) (avgdl : ℝ)
    {sharedTermLimit : Nat} (atMost : sharedTermLimit ≤ document.termLen) (includeBounds : Bool)
    (unit : allUnit = true → document.allUnitFrequencies = true) :
    let norms := documentNorms rounding document (lengthNorm document.length avgdl)
      (weight 1 (lengthNorm document.length avgdl) idfOnce) sharedTermLimit includeBounds allUnit
    norms.1 = ownNorm avgdl document ∧
      (includeBounds = true →
        squaredNorm (onceWeight document.length avgdl)
          (document.sortedFrequencies.drop (document.termLen - sharedTermLimit)) ≤ norms.2) := by
  have once : histogramWeight (lengthNorm document.length avgdl)
      (weight 1 (lengthNorm document.length avgdl) idfOnce) = onceWeight document.length avgdl :=
    funext (histogramWeight_eq _)
  have own : ownNorm avgdl document =
      squaredNorm (onceWeight document.length avgdl) document.sortedFrequencies :=
    (document.squaredNorm_sortedFrequencies _).symm
  have unitNorm : allUnit = true → ∀ count,
      squaredNorm (onceWeight document.length avgdl) (List.replicate count 1) =
        weight 1 (lengthNorm document.length avgdl) idfOnce *
          weight 1 (lengthNorm document.length avgdl) idfOnce * count :=
    fun _ count => squaredNorm_replicate _ count 1
  rw [documentNorms]
  cases includeBounds with
  | true =>
      cases allUnit with
      | true =>
          have frequencies := PreparedDocument.sortedFrequencies_of_allUnit (unit rfl)
          have selected : document.termLen - (document.termLen - sharedTermLimit) =
              sharedTermLimit := by omega
          rw [own, frequencies, drop_replicate, selected, unitNorm rfl, unitNorm rfl]
          refine ⟨rfl, fun _ => ?_⟩
          have squared := rounding.le_nextUp (weight 1 (lengthNorm document.length avgdl) idfOnce *
            weight 1 (lengthNorm document.length avgdl) idfOnce)
          have nonneg := mul_nonneg (mul_self_nonneg (weight 1 (lengthNorm document.length avgdl)
            idfOnce)) (Nat.cast_nonneg (α := ℝ) sharedTermLimit)
          simp only [Bool.and_self, if_true, unitHistogramNorms]
          split
          · have product := mul_le_mul_of_nonneg_right squared
              (Nat.cast_nonneg (α := ℝ) sharedTermLimit)
            have upper := (product.trans (rounding.le_nextUp _)).trans_eq (zero_add _).symm
            have top := upper.trans (rounding.le_nextUp _)
            exact top.trans (le_inflate rounding sharedTermLimit (nonneg.trans top))
          · next nothing =>
              rw [Nat.eq_zero_of_not_pos nothing, Nat.cast_zero, mul_zero]
              exact le_inflate rounding 0 le_rfl
      | false =>
          have sums := @histogramNorms_foldl (lengthNorm document.length avgdl)
            (weight 1 (lengthNorm document.length avgdl) idfOnce)
            document.frequencyHistogram.asSlice rounding
            ⟨0, 0, document.termLen - sharedTermLimit⟩
          simp only [once, zero_add] at sums
          refine ⟨sums.1.trans own.symm, fun _ => sums.2.trans ?_⟩
          exact le_inflate rounding sharedTermLimit ((squaredNorm_nonneg _ _).trans sums.2)
  | false =>
      refine ⟨?_, fun impossible => absurd impossible Bool.false_ne_true⟩
      cases allUnit with
      | true =>
          have frequencies := PreparedDocument.sortedFrequencies_of_allUnit (unit rfl)
          rw [own, frequencies, unitNorm rfl]
          rfl
      | false =>
          have base := @histogramBaseNorm_foldl (lengthNorm document.length avgdl)
            (weight 1 (lengthNorm document.length avgdl) idfOnce)
            document.frequencyHistogram.asSlice 0
          rw [zero_add] at base
          refine base.trans ?_
          rw [once]
          exact own.symm

structure PairWeights.Describes (weights : PairWeights) (left right : PreparedDocument) :
    Prop where
  leftOnce : weights.leftOnce = onceWeight left.length (averageLength left right)
  rightOnce : weights.rightOnce = onceWeight right.length (averageLength left right)
  leftBaseNorm : weights.leftBaseNorm = ownNorm (averageLength left right) left
  rightBaseNorm : weights.rightBaseNorm = ownNorm (averageLength left right) right
  margin_nonneg : 0 ≤ weights.boundRoundingMargin

theorem PairWeights.describes_newWithBounds (rounding : Widening) (left right : PreparedDocument)
    (includeBounds : Bool)
    (unit : allUnit = true → left.allUnitFrequencies = true ∧ right.allUnitFrequencies = true) :
    (newWithBounds rounding left right includeBounds allUnit).Describes left right := by
  have leftNorms := documentNorms_spec rounding left (averageLength left right)
    (min_le_left left.termLen right.termLen) includeBounds fun isUnit => (unit isUnit).1
  have rightNorms := documentNorms_spec rounding right (averageLength left right)
    (min_le_right left.termLen right.termLen) includeBounds fun isUnit => (unit isUnit).2
  refine ⟨funext (histogramWeight_eq _), funext (histogramWeight_eq _), leftNorms.1, rightNorms.1,
    ?_⟩
  simp only [newWithBounds, epsilon]
  positivity

/-- The bounds hold for the common terms. -/
theorem PairWeights.shared_le_newWithBounds (rounding : Widening) (left right : PreparedDocument)
    (unit : allUnit = true → left.allUnitFrequencies = true ∧ right.allUnitFrequencies = true) :
    let sums := pairSums (averageLength left right) left right
    let weights := newWithBounds rounding left right true allUnit
    sums.leftNorm ≤ weights.leftSharedNormUpper ∧
      sums.rightNorm ≤ weights.rightSharedNormUpper := by
  have leftNorms := documentNorms_spec rounding left (averageLength left right)
    (min_le_left left.termLen right.termLen) true fun isUnit => (unit isUnit).1
  have rightNorms := documentNorms_spec rounding right (averageLength left right)
    (min_le_right left.termLen right.termLen) true fun isUnit => (unit isUnit).2
  have leftPart := sharedFrequencies_left_sublist left.terms right.terms
  have rightPart := sharedFrequencies_right_sublist left.terms right.terms
  have few : (sharedFrequencies left.terms right.terms).length ≤
      min left.termLen right.termLen := by
    have leftFew := leftPart.length_le
    have rightFew := rightPart.length_le
    rw [length_map, length_map] at leftFew rightFew
    exact le_min leftFew rightFew
  exact ⟨(squaredNorm_le_top left _ leftPart (by rwa [length_map])).trans (leftNorms.2 rfl),
    (squaredNorm_le_top right _ rightPart (by rwa [length_map])).trans (rightNorms.2 rfl)⟩

end

end NftData.Dedup.Bm25
