import NftData.Dedup.Metadata.SharedTerms
import NftData.Dedup.Metadata.ThresholdBounds

namespace NftData.Dedup.Bm25

open List
open NftData.Bm25 (k1 b weight idfOnce idfShared idfRatioSquared)

/-! # Threshold decisions

Whether two documents are at least as similar as a threshold, without the plain score where a
filter or a bound decides. -/

inductive UpperBoundPrune where
  | none
  | initial
  | iterative
  deriving DecidableEq, Repr

structure ThresholdDecision where
  matched : Bool
  zeroOverlapPruned : Bool
  upperBoundPrune : UpperBoundPrune
  deriving DecidableEq, Repr

def matchedDecision : ThresholdDecision := ⟨true, false, .none⟩

def zeroOverlapPrunedDecision : ThresholdDecision := ⟨false, true, .none⟩

def initialUpperBoundPrunedDecision : ThresholdDecision := ⟨false, false, .initial⟩

def iterativeUpperBoundPrunedDecision : ThresholdDecision := ⟨false, false, .iterative⟩

def termBit (term : Nat) : Nat := term * 0x9e3779b97f4a7c15 % 2 ^ 64 >>> 57

def addTermBit (mask : List Nat) (term : Nat) : List Nat :=
  mask.modify (termBit term / 64) fun word => word ||| 1 <<< (termBit term % 64)

def PreparedDocument.termMask (document : PreparedDocument) : List Nat :=
  document.terms.foldl (fun mask entry => addTermBit mask entry.1) [0, 0]

def termRangesAreDisjoint (left right : List (Nat × Nat)) : Bool :=
  match left.head?, left.getLast?, right.head?, right.getLast? with
  | some leftFirst, some leftLast, some rightFirst, some rightLast =>
      decide (leftLast.1 < rightFirst.1) || decide (rightLast.1 < leftFirst.1)
  | _, _, _, _ => true

def mayShareTerm (left right : PreparedDocument) : Bool :=
  if termRangesAreDisjoint left.terms right.terms then
    false
  else
    !(left.termMask.zip right.termMask).all fun words => words.1 &&& words.2 == 0

/-! ## Decisions -/

noncomputable section

variable (rounding : Widening)

def decisionAtLeast (weights : PairWeights) (shared : SharedWeights) (threshold : ℝ)
    (upperBoundPruned : Bool) : ThresholdDecision :=
  let zeroOverlap := decide (shared.count = 0)
  if zeroOverlap && decide (threshold ≤ 0) then
    matchedDecision
  else
    { matched := weights.scoreAtLeast rounding shared threshold
      zeroOverlapPruned := zeroOverlap && decide (0 < threshold)
      upperBoundPrune := if upperBoundPruned then .initial else .none }

structure IterationState where
  processedLeftNorm : ℝ
  processedRightNorm : ℝ
  shared : SharedWeights
  comparisons : Nat
  iterativeBound : Option (Option IterativeBound)
  nextBoundCheck : Nat

namespace IterationState

def initial : IterationState := ⟨0, 0, .empty, 0, none, 8⟩

def compared (state : IterationState) (unit : UnitWeights) : Ordering → IterationState
  | .eq =>
      { state with
        processedLeftNorm := state.processedLeftNorm + unit.leftSquared
        processedRightNorm := state.processedRightNorm + unit.rightSquared
        shared := state.shared.addUnit unit }
  | .lt => { state with processedLeftNorm := state.processedLeftNorm + unit.leftSquared }
  | .gt => { state with processedRightNorm := state.processedRightNorm + unit.rightSquared }

/-- Count a comparison. From time to time the bound is checked: whether it rejects the pair. -/
def checked (state : IterationState) (weights : PairWeights) (threshold : ℝ) :
    IterationState × Bool :=
  let comparisons := (state.comparisons + 1) % 2 ^ 32
  if comparisons = state.nextBoundCheck then
    let bound := state.iterativeBound.getD (weights.iterativeBound rounding threshold)
    ({ state with
        comparisons := comparisons
        iterativeBound := some bound
        nextBoundCheck :=
          if state.nextBoundCheck < 64 then state.nextBoundCheck * 2
          else min (state.nextBoundCheck + 32) (2 ^ 32 - 1) },
      bound.any fun bound => weights.upperBoundBelowThreshold rounding bound state.shared
        state.processedLeftNorm state.processedRightNorm)
  else
    ({ state with comparisons := comparisons }, false)

end IterationState

/-- The loop of `similarity_at_least_unit_iterative`, over the terms that are left. -/
def unitIterative (weights : PairWeights) (threshold : ℝ) :
    List (Nat × Nat) → List (Nat × Nat) → IterationState → ThresholdDecision
  | (leftTerm, leftTf) :: left, (rightTerm, rightTf) :: right, state =>
      let order := compare leftTerm rightTerm
      let step := (state.compared weights.unitWeights order).checked rounding weights threshold
      if step.2 then
        iterativeUpperBoundPrunedDecision
      else
        match order with
        | .eq => unitIterative weights threshold left right step.1
        | .lt => unitIterative weights threshold left ((rightTerm, rightTf) :: right) step.1
        | .gt => unitIterative weights threshold ((leftTerm, leftTf) :: left) right step.1
  | _, _, state => decisionAtLeast rounding weights state.shared threshold false
termination_by left right => left.length + right.length

def similarityAtLeastImpl (left right : PreparedDocument) (threshold : ℝ)
    (overlapFilterPassed : Bool) : ThresholdDecision :=
  if threshold ≤ 0 then
    matchedDecision
  else if !overlapFilterPassed && !mayShareTerm left right then
    zeroOverlapPrunedDecision
  else
    let shortPair := decide (min (left.termLen + right.termLen) (2 ^ 32 - 1) ≤ 24)
    let allUnitFrequencies := left.allUnitFrequencies && right.allUnitFrequencies
    let weights := PairWeights.newWithBounds rounding left right (!shortPair) allUnitFrequencies
    if !shortPair && weights.initialUpperBoundBelowThreshold rounding threshold then
      initialUpperBoundPrunedDecision
    else
      let imbalanced := decide (min (left.termLen * 4) (2 ^ 32 - 1) < right.termLen) ||
        decide (min (right.termLen * 4) (2 ^ 32 - 1) < left.termLen)
      let checkIterativeBound := decide (16 ≤ min left.termLen right.termLen)
      if !allUnitFrequencies || imbalanced || !checkIterativeBound then
        let visits := forEachSharedTerm left.terms right.terms
        let shared :=
          if allUnitFrequencies then
            visits.foldl (fun shared _ => shared.addUnit weights.unitWeights) .empty
          else
            visits.foldl
              (fun shared visit => shared.add (weights.leftOnce visit.1) (weights.rightOnce visit.2))
              .empty
        decisionAtLeast rounding weights shared threshold false
      else
        unitIterative rounding weights threshold left.terms right.terms .initial

def similarityAtLeast (left right : PreparedDocument) (threshold : ℝ) : ThresholdDecision :=
  similarityAtLeastImpl rounding left right threshold false

def similarityAtLeastAfterOverlapFilter (left right : PreparedDocument) (threshold : ℝ) :
    ThresholdDecision :=
  similarityAtLeastImpl rounding left right threshold true

end

def HasBit (mask : List Nat) (bit : Nat) : Prop :=
  ∃ word, mask[bit / 64]? = some word ∧ word.testBit (bit % 64) = true

theorem termBit_lt (term : Nat) : termBit term < 128 := by
  rw [termBit, Nat.shiftRight_eq_div_pow]
  have less := Nat.mod_lt (term * 0x9e3779b97f4a7c15) (Nat.two_pow_pos 64)
  omega

theorem HasBit.addTermBit {mask : List Nat} {bit : Nat} (has : HasBit mask bit) (term : Nat) :
    HasBit (addTermBit mask term) bit := by
  rcases has with ⟨word, isWord, isSet⟩
  rw [HasBit, Bm25.addTermBit, List.getElem?_modify, isWord]
  by_cases same : termBit term / 64 = bit / 64
  · refine ⟨word ||| 1 <<< (termBit term % 64), ?_, ?_⟩
    · simp [same]
    · rw [Nat.testBit_or, isSet, Bool.true_or]
  · exact ⟨word, by simp [same], isSet⟩

theorem hasBit_addTermBit {mask : List Nat} (length : mask.length = 2) (term : Nat) :
    HasBit (addTermBit mask term) (termBit term) := by
  have inside : termBit term / 64 < mask.length := by
    have less := termBit_lt term
    omega
  refine ⟨mask[termBit term / 64] ||| 1 <<< (termBit term % 64), ?_, ?_⟩
  · rw [addTermBit, List.getElem?_modify, List.getElem?_eq_getElem inside]
    simp
  · rw [Nat.testBit_or, Nat.one_shiftLeft, Nat.testBit_two_pow_self, Bool.or_true]

theorem foldl_addTermBit (terms : List (Nat × Nat)) {mask : List Nat} (length : mask.length = 2) :
    let final := terms.foldl (fun mask entry => addTermBit mask entry.1) mask
    final.length = 2 ∧ (∀ bit, HasBit mask bit → HasBit final bit) ∧
      ∀ entry ∈ terms, HasBit final (termBit entry.1) := by
  induction terms generalizing mask with
  | nil => exact ⟨length, fun _ has => has, fun _ member => absurd member not_mem_nil⟩
  | cons head tail induction =>
      have next : (addTermBit mask head.1).length = 2 := by
        rw [addTermBit, length_modify, length]
      rcases induction next with ⟨finalLength, kept, added⟩
      refine ⟨finalLength, fun bit has => kept bit (has.addTermBit head.1), ?_⟩
      intro entry member
      rcases mem_cons.mp member with rfl | inTail
      · exact kept _ (hasBit_addTermBit length entry.1)
      · exact added entry inTail

theorem hasBit_termMask (document : PreparedDocument) {entry : Nat × Nat}
    (member : entry ∈ document.terms) : HasBit document.termMask (termBit entry.1) :=
  (foldl_addTermBit document.terms rfl).2.2 entry member

theorem bounds_of_mem {terms : List (Nat × Nat)} (sorted : KeySorted terms) {entry : Nat × Nat}
    (member : entry ∈ terms) :
    ∃ first last, terms.head? = some first ∧ terms.getLast? = some last ∧
      first.1 ≤ entry.1 ∧ entry.1 ≤ last.1 := by
  have nonempty := ne_nil_of_mem member
  refine ⟨terms.head nonempty, terms.getLast nonempty, List.head?_eq_some_head nonempty,
    List.getLast?_eq_some_getLast nonempty, ?_, ?_⟩
  · rcases mem_iff_getElem.mp member with ⟨index, inside, rfl⟩
    rw [head_eq_getElem]
    rcases Nat.eq_zero_or_pos index with rfl | positive
    · exact le_rfl
    · exact (pairwise_iff_getElem.mp sorted 0 index _ inside positive).le
  · rcases mem_iff_getElem.mp member with ⟨index, inside, rfl⟩
    rw [getLast_eq_getElem]
    rcases Nat.lt_or_ge index (terms.length - 1) with before | atLast
    · exact (pairwise_iff_getElem.mp sorted index _ inside _ before).le
    · have same : index = terms.length - 1 := by omega
      subst same
      exact le_rfl

/-- Documents that the filter rejects have no term in common. -/
theorem sharedFrequencies_of_not_mayShareTerm {left right : PreparedDocument}
    (rejected : mayShareTerm left right = false) :
    sharedFrequencies left.terms right.terms = [] := by
  rw [sharedFrequencies, map_eq_nil_iff, eq_nil_iff_forall_not_mem]
  intro entry member
  rcases (mem_mergeJoin left.sorted right.sorted).mp member with ⟨inLeft, inRight⟩
  rcases bounds_of_mem left.sorted inLeft with ⟨leftFirst, leftLast, isFirst, isLast, above, below⟩
  rcases bounds_of_mem right.sorted inRight with
    ⟨rightFirst, rightLast, isRightFirst, isRightLast, rightAbove, rightBelow⟩
  rw [mayShareTerm] at rejected
  split at rejected
  · next disjoint =>
      rw [termRangesAreDisjoint, isFirst, isLast, isRightFirst, isRightLast] at disjoint
      simp only [Bool.or_eq_true, decide_eq_true_eq] at disjoint
      simp only at above below rightAbove rightBelow
      omega
  · rw [Bool.not_eq_false', all_eq_true] at rejected
    rcases hasBit_termMask left inLeft with ⟨leftWord, isLeftWord, leftSet⟩
    rcases hasBit_termMask right inRight with ⟨rightWord, isRightWord, rightSet⟩
    have inZip : (leftWord, rightWord) ∈ left.termMask.zip right.termMask := by
      apply mem_of_getElem? (i := termBit entry.1 / 64)
      rw [List.getElem?_zip_eq_some]
      exact ⟨isLeftWord, isRightWord⟩
    have nothing := beq_iff_eq.mp (rejected _ inZip)
    have set := Nat.testBit_and leftWord rightWord (termBit entry.1 % 64)
    simp only at nothing leftSet rightSet
    rw [nothing, leftSet, rightSet, Nat.zero_testBit] at set
    cases set

noncomputable section

variable {rounding : Widening} {weights : PairWeights} {left right : PreparedDocument}
  {threshold : ℝ}

namespace SharedWeights

def append (first second : SharedWeights) : SharedWeights :=
  ⟨first.leftNorm + second.leftNorm, first.rightNorm + second.rightNorm, first.dot + second.dot,
    first.count + second.count⟩

theorem empty_append (shared : SharedWeights) : empty.append shared = shared := by
  simp only [append, empty, zero_add]

theorem append_ofPairs_nil (leftOnce rightOnce : Nat → ℝ) (shared : SharedWeights) :
    shared.append (ofPairs leftOnce rightOnce []) = shared := by
  simp [append, ofPairs, sharedSums, squaredNorm]

theorem append_ofPairs_cons (leftOnce rightOnce : Nat → ℝ) (shared : SharedWeights)
    (pair : Nat × Nat) (pairs : List (Nat × Nat)) :
    shared.append (ofPairs leftOnce rightOnce (pair :: pairs)) =
      (shared.add (leftOnce pair.1) (rightOnce pair.2)).append
        (ofPairs leftOnce rightOnce pairs) := by
  rcases pair with ⟨leftTf, rightTf⟩
  simp only [append, ofPairs, sharedSums_cons, add, length_cons, SharedWeights.mk.injEq]
  refine ⟨?_, ?_, ?_, ?_⟩ <;> ring

theorem foldl_add (leftOnce rightOnce : Nat → ℝ) (pairs : List (Nat × Nat))
    (shared : SharedWeights) :
    pairs.foldl (fun shared pair => shared.add (leftOnce pair.1) (rightOnce pair.2)) shared =
      shared.append (ofPairs leftOnce rightOnce pairs) := by
  induction pairs generalizing shared with
  | nil => rw [foldl_nil, append_ofPairs_nil]
  | cons pair pairs induction => rw [foldl_cons, induction, append_ofPairs_cons]

theorem addUnit_unitWeights (weights : PairWeights) (shared : SharedWeights) :
    shared.addUnit weights.unitWeights = shared.add (weights.leftOnce 1) (weights.rightOnce 1) := by
  simp only [addUnit, add, PairWeights.unitWeights, PairWeights.leftOnce, PairWeights.rightOnce,
    histogramWeight, if_true]

theorem foldl_addUnit (weights : PairWeights) {pairs : List (Nat × Nat)}
    (units : ∀ pair ∈ pairs, pair = (1, 1)) (shared : SharedWeights) :
    pairs.foldl (fun shared _ => shared.addUnit weights.unitWeights) shared =
      shared.append (ofPairs weights.leftOnce weights.rightOnce pairs) := by
  rw [← foldl_add]
  apply foldl_ext
  intro shared pair member
  rw [units pair member, addUnit_unitWeights]

end SharedWeights

theorem unit_of_sharedFrequencies {leftTerms rightTerms : List (Nat × Nat)}
    (leftUnit : ∀ entry ∈ leftTerms, entry.2 = 1) (rightUnit : ∀ entry ∈ rightTerms, entry.2 = 1) :
    ∀ pair ∈ sharedFrequencies leftTerms rightTerms, pair = (1, 1) := by
  intro pair member
  have inLeft := (sharedFrequencies_left_sublist leftTerms rightTerms).mem
    (mem_map_of_mem member)
  have inRight := (sharedFrequencies_right_sublist leftTerms rightTerms).mem
    (mem_map_of_mem member)
  rcases mem_map.mp inLeft with ⟨leftEntry, leftMember, isLeft⟩
  rcases mem_map.mp inRight with ⟨rightEntry, rightMember, isRight⟩
  exact Prod.ext (isLeft.symm.trans (leftUnit _ leftMember))
    (isRight.symm.trans (rightUnit _ rightMember))

theorem decisionAtLeast_matched_iff (describes : weights.Describes left right)
    (positive : 0 < threshold) (upperBoundPruned : Bool) :
    (decisionAtLeast rounding weights (pairShared left right) threshold
      upperBoundPruned).matched = true ↔ threshold ≤ legacyCosineSimilarity left right := by
  rw [decisionAtLeast, decide_eq_false positive.not_ge]
  simp only [Bool.and_false, Bool.false_eq_true, if_false]
  exact scoreAtLeast_iff rounding describes positive

/-! ## The walk with bounds -/

/-- In the middle of the walk, what is added up and what is left make up the documents. -/
structure IterationState.Walks (left right : PreparedDocument) (bound : Option IterativeBound)
    (leftRest rightRest : List (Nat × Nat)) (state : IterationState) : Prop where
  leftUnit : ∀ entry ∈ leftRest, entry.2 = 1
  rightUnit : ∀ entry ∈ rightRest, entry.2 = 1
  shared : state.shared.append (.ofPairs (onceWeight left.length (averageLength left right))
    (onceWeight right.length (averageLength left right)) (sharedFrequencies leftRest rightRest)) =
      pairShared left right
  processedLeft : state.processedLeftNorm +
    squaredNorm (onceWeight left.length (averageLength left right)) (leftRest.map Prod.snd) =
      ownNorm (averageLength left right) left
  processedRight : state.processedRightNorm +
    squaredNorm (onceWeight right.length (averageLength left right)) (rightRest.map Prod.snd) =
      ownNorm (averageLength left right) right
  cached : ∀ cache, state.iterativeBound = some cache → cache = bound

namespace IterationState

variable {bound : Option IterativeBound} {leftRest rightRest : List (Nat × Nat)}
  {state : IterationState}

theorem initial_walks (leftUnit : ∀ entry ∈ left.terms, entry.2 = 1)
    (rightUnit : ∀ entry ∈ right.terms, entry.2 = 1) (bound : Option IterativeBound) :
    Walks left right bound left.terms right.terms initial where
  leftUnit := leftUnit
  rightUnit := rightUnit
  shared := SharedWeights.empty_append _
  processedLeft := zero_add _
  processedRight := zero_add _
  cached := by
    intro cache isCache
    cases isCache

/-- The norms of what is left bound the common terms that are left. -/
theorem Walks.remaining (walks : Walks left right bound leftRest rightRest state) :
    Remaining left right state.shared state.processedLeftNorm state.processedRightNorm
      (sharedSums (onceWeight left.length (averageLength left right))
        (onceWeight right.length (averageLength left right))
        (sharedFrequencies leftRest rightRest)) where
  leftNorm := congrArg SharedWeights.leftNorm walks.shared
  rightNorm := congrArg SharedWeights.rightNorm walks.shared
  dot := congrArg SharedWeights.dot walks.shared
  leftNonneg := squaredNorm_nonneg _ _
  rightNonneg := squaredNorm_nonneg _ _
  dotSq := sharedSums_dot_sq_le _ _ _
  left_le := by
    rw [← walks.processedLeft]
    exact add_le_add_right (squaredNorm_le_of_subperm _
      (sharedFrequencies_left_sublist leftRest rightRest).subperm) _
  right_le := by
    rw [← walks.processedRight]
    exact add_le_add_right (squaredNorm_le_of_subperm _
      (sharedFrequencies_right_sublist leftRest rightRest).subperm) _

section

variable (describes : weights.Describes left right)
include describes

theorem unitWeights_leftSquared :
    weights.unitWeights.leftSquared =
      onceWeight left.length (averageLength left right) 1 ^ 2 := by
  rw [← describes.leftOnce, sq]
  simp only [PairWeights.unitWeights, PairWeights.leftOnce, histogramWeight, if_true]

theorem unitWeights_rightSquared :
    weights.unitWeights.rightSquared =
      onceWeight right.length (averageLength left right) 1 ^ 2 := by
  rw [← describes.rightOnce, sq]
  simp only [PairWeights.unitWeights, PairWeights.rightOnce, histogramWeight, if_true]

/-- A term that both documents have is processed on both sides. -/
theorem Walks.eq {term leftTf rightTf : Nat}
    (walks : Walks left right bound ((term, leftTf) :: leftRest) ((term, rightTf) :: rightRest)
      state) :
    Walks left right bound leftRest rightRest (state.compared weights.unitWeights .eq) := by
  have leftOne : leftTf = 1 := walks.leftUnit _ mem_cons_self
  have rightOne : rightTf = 1 := walks.rightUnit _ mem_cons_self
  have shared := walks.shared
  have processedLeft := walks.processedLeft
  have processedRight := walks.processedRight
  rw [sharedFrequencies, mergeJoin, if_pos rfl, map_cons, ← sharedFrequencies,
    SharedWeights.append_ofPairs_cons, leftOne, rightOne] at shared
  rw [squaredNorm_map_cons, leftOne, ← add_assoc] at processedLeft
  rw [squaredNorm_map_cons, rightOne, ← add_assoc] at processedRight
  refine ⟨fun entry member => walks.leftUnit entry (mem_cons_of_mem _ member),
    fun entry member => walks.rightUnit entry (mem_cons_of_mem _ member), ?_, ?_, ?_,
    walks.cached⟩
  · rw [compared, SharedWeights.addUnit_unitWeights, describes.leftOnce, describes.rightOnce]
    exact shared
  · rw [compared, unitWeights_leftSquared describes]
    exact processedLeft
  · rw [compared, unitWeights_rightSquared describes]
    exact processedRight

theorem Walks.lt {leftTerm leftTf : Nat} {right' : Nat × Nat} (less : leftTerm < right'.1)
    (walks : Walks left right bound ((leftTerm, leftTf) :: leftRest) (right' :: rightRest) state) :
    Walks left right bound leftRest (right' :: rightRest)
      (state.compared weights.unitWeights .lt) := by
  have leftOne : leftTf = 1 := walks.leftUnit _ mem_cons_self
  have shared := walks.shared
  have processedLeft := walks.processedLeft
  rw [sharedFrequencies, mergeJoin, if_neg less.ne, if_pos less, ← sharedFrequencies] at shared
  rw [squaredNorm_map_cons, leftOne, ← add_assoc] at processedLeft
  refine ⟨fun entry member => walks.leftUnit entry (mem_cons_of_mem _ member),
    walks.rightUnit, shared, ?_, walks.processedRight, walks.cached⟩
  rw [compared, unitWeights_leftSquared describes]
  exact processedLeft

theorem Walks.gt {rightTerm rightTf : Nat} {left' : Nat × Nat} (less : rightTerm < left'.1)
    (walks : Walks left right bound (left' :: leftRest) ((rightTerm, rightTf) :: rightRest) state) :
    Walks left right bound (left' :: leftRest) rightRest
      (state.compared weights.unitWeights .gt) := by
  have rightOne : rightTf = 1 := walks.rightUnit _ mem_cons_self
  have shared := walks.shared
  have processedRight := walks.processedRight
  rw [sharedFrequencies, mergeJoin, if_neg less.ne', if_neg less.not_gt, ← sharedFrequencies]
    at shared
  rw [squaredNorm_map_cons, rightOne, ← add_assoc] at processedRight
  refine ⟨walks.leftUnit,
    fun entry member => walks.rightUnit entry (mem_cons_of_mem _ member), shared,
    walks.processedLeft, ?_, walks.cached⟩
  rw [compared, unitWeights_rightSquared describes]
  exact processedRight

end

/-- A check of the bound changes no sum. -/
theorem Walks.checked
    (walks : Walks left right (weights.iterativeBound rounding threshold) leftRest rightRest
      state) :
    Walks left right (weights.iterativeBound rounding threshold) leftRest rightRest
      (state.checked rounding weights threshold).1 := by
  rw [IterationState.checked]
  simp only
  split
  · refine ⟨walks.leftUnit, walks.rightUnit, walks.shared, walks.processedLeft,
      walks.processedRight, ?_⟩
    intro cache isCache
    rw [← Option.some.inj isCache]
    cases isBound : state.iterativeBound with
    | none => rfl
    | some cached => exact walks.cached cached isBound
  · exact ⟨walks.leftUnit, walks.rightUnit, walks.shared, walks.processedLeft,
      walks.processedRight, walks.cached⟩

/-- A pair that a check rejects is not similar enough. -/
theorem Walks.rejected (describes : weights.Describes left right)
    (walks : Walks left right (weights.iterativeBound rounding threshold) leftRest rightRest state)
    (rejects : (state.checked rounding weights threshold).2 = true) :
    legacyCosineSimilarity left right < threshold := by
  rw [IterationState.checked] at rejects
  simp only at rejects
  split at rejects
  · have isBound : state.iterativeBound.getD (weights.iterativeBound rounding threshold) =
        weights.iterativeBound rounding threshold := by
      cases isCached : state.iterativeBound with
      | none => rfl
      | some cached => exact walks.cached cached isCached
    rw [isBound, Option.any_eq_true] at rejects
    rcases rejects with ⟨found, isFound, below⟩
    exact upperBound_sound describes isFound walks.remaining below
  · cases rejects

/-- One comparison: what is left afterwards. -/
theorem Walks.compared (describes : weights.Describes left right)
    {leftTerm leftTf rightTerm rightTf : Nat}
    (walks : Walks left right bound ((leftTerm, leftTf) :: leftRest)
      ((rightTerm, rightTf) :: rightRest) state) :
    ∃ nextLeft nextRight, Walks left right bound nextLeft nextRight
      (state.compared weights.unitWeights (compare leftTerm rightTerm)) := by
  cases isOrder : compare leftTerm rightTerm with
  | eq =>
      rw [compare_eq_iff_eq] at isOrder
      rw [isOrder] at walks
      exact ⟨_, _, walks.eq describes⟩
  | lt => exact ⟨_, _, walks.lt describes (compare_lt_iff_lt.mp isOrder)⟩
  | gt => exact ⟨_, _, walks.gt describes (compare_gt_iff_gt.mp isOrder)⟩

end IterationState

theorem unitIterative_matched_iff (describes : weights.Describes left right)
    (positive : 0 < threshold) (leftRest rightRest : List (Nat × Nat)) (state : IterationState)
    (walks : state.Walks left right (weights.iterativeBound rounding threshold) leftRest
      rightRest) :
    (unitIterative rounding weights threshold leftRest rightRest state).matched = true ↔
      threshold ≤ legacyCosineSimilarity left right := by
  fun_induction unitIterative rounding weights threshold leftRest rightRest state with
  | case1 leftTerm leftTf leftRest rightTerm rightTf rightRest state order step rejects =>
      rcases walks.compared describes with ⟨nextLeft, nextRight, compared⟩
      exact iff_of_false Bool.false_ne_true (compared.rejected describes rejects).not_ge
  | case2 leftTerm leftTf leftRest rightTerm rightTf rightRest state order step keeps isOrder
      induction =>
      apply induction
      have same : leftTerm = rightTerm := compare_eq_iff_eq.mp isOrder
      subst same
      simp only [step, isOrder]
      exact (walks.eq describes).checked
  | case3 leftTerm leftTf leftRest rightTerm rightTf rightRest state order step keeps isOrder
      induction =>
      apply induction
      simp only [step, isOrder]
      exact (walks.lt describes (compare_lt_iff_lt.mp isOrder)).checked
  | case4 leftTerm leftTf leftRest rightTerm rightTf rightRest state order step keeps isOrder
      induction =>
      apply induction
      simp only [step, isOrder]
      exact (walks.gt describes (compare_gt_iff_gt.mp isOrder)).checked
  | case5 leftRest rightRest state ends =>
      have noPairs : sharedFrequencies leftRest rightRest = [] := by
        cases leftRest with
        | nil => exact sharedFrequencies_nil_left rightRest
        | cons leftHead leftTail =>
            cases rightRest with
            | nil => exact sharedFrequencies_nil_right _
            | cons rightHead rightTail => exact (ends _ _ _ _ _ _ rfl rfl).elim
      have shared := walks.shared
      rw [noPairs, SharedWeights.append_ofPairs_nil] at shared
      rw [shared]
      exact decisionAtLeast_matched_iff describes positive false

theorem legacyCosineSimilarity_nonneg (left right : PreparedDocument) :
    0 ≤ legacyCosineSimilarity left right := by
  rw [legacyCosineSimilarity_eq]
  exact scoreOf_nonneg _ _ (pairSums_dot_nonneg _ left right)

theorem similarityAtLeastImpl_matched_iff (rounding : Widening) (left right : PreparedDocument)
    (threshold : ℝ) (overlapFilterPassed : Bool) :
    (similarityAtLeastImpl rounding left right threshold overlapFilterPassed).matched = true ↔
      threshold ≤ legacyCosineSimilarity left right := by
  rw [similarityAtLeastImpl]
  split
  · next low => exact iff_of_true rfl (low.trans (legacyCosineSimilarity_nonneg left right))
  next high =>
  have positive := not_le.mp high
  split
  · next filtered =>
      have noPairs := sharedFrequencies_of_not_mayShareTerm
        (by simpa using (Bool.and_eq_true_iff.mp filtered).2)
      have noScore : legacyCosineSimilarity left right = 0 := by
        rw [legacyCosineSimilarity_eq, scoreOf, pairSums, noPairs]
        simp [sharedSums]
      rw [noScore]
      exact iff_of_false Bool.false_ne_true positive.not_ge
  simp only
  generalize isUnit : (left.allUnitFrequencies && right.allUnitFrequencies) = allUnit
  have unit : allUnit = true →
      left.allUnitFrequencies = true ∧ right.allUnitFrequencies = true := by
    rintro rfl
    exact Bool.and_eq_true_iff.mp isUnit
  generalize decide (min (left.termLen + right.termLen) (2 ^ 32 - 1) ≤ 24) = shortPair
  have describes := PairWeights.describes_newWithBounds rounding left right (!shortPair) unit
  split
  · next below =>
      rcases Bool.and_eq_true_iff.mp below with ⟨long, below⟩
      have uppers := PairWeights.shared_le_newWithBounds rounding left right unit
      rw [long] at below describes
      exact iff_of_false Bool.false_ne_true
        (initialUpperBound_sound describes uppers.1 uppers.2 below).not_ge
  generalize PairWeights.newWithBounds rounding left right (!shortPair) allUnit = weights at *
  split
  · have visits : (if allUnit = true then
        (forEachSharedTerm left.terms right.terms).foldl
          (fun shared _ => shared.addUnit weights.unitWeights) SharedWeights.empty
        else
          (forEachSharedTerm left.terms right.terms).foldl
            (fun shared visit => shared.add (weights.leftOnce visit.1) (weights.rightOnce visit.2))
            SharedWeights.empty) = pairShared left right := by
      rw [forEachSharedTerm_eq left.sorted right.sorted]
      split
      · next allOne =>
          rw [SharedWeights.foldl_addUnit weights
            (unit_of_sharedFrequencies (fun entry => left.frequency_of_allUnit (unit allOne).1)
              fun entry => right.frequency_of_allUnit (unit allOne).2),
            SharedWeights.empty_append, describes.leftOnce, describes.rightOnce, pairShared]
      · rw [SharedWeights.foldl_add, SharedWeights.empty_append, describes.leftOnce,
          describes.rightOnce, pairShared]
    rw [visits]
    exact decisionAtLeast_matched_iff describes positive false
  · next iterates =>
      have allOne : allUnit = true := by
        cases allUnit with
        | true => rfl
        | false => exact absurd rfl iterates
      exact unitIterative_matched_iff describes positive _ _ _
        (IterationState.initial_walks (fun entry => left.frequency_of_allUnit (unit allOne).1)
          (fun entry => right.frequency_of_allUnit (unit allOne).2) _)

theorem legacyCosineSimilarity_comm (left right : PreparedDocument) :
    legacyCosineSimilarity left right = legacyCosineSimilarity right left := by
  have lengths : averageLength left right = averageLength right left := by
    rw [averageLength, averageLength, Nat.add_comm]
  rw [legacyCosineSimilarity_eq, legacyCosineSimilarity_eq, scoreOf, scoreOf, mul_comm √_, lengths]
  simp only [pairSums, sharedSums, ← sharedFrequencies_swap left.terms, map_map,
    Function.comp_def, Prod.fst_swap, Prod.snd_swap, mul_comm]

end

end NftData.Dedup.Bm25
