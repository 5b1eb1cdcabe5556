import NftData.Dedup.Metadata.PairCosine

namespace NftData.Dedup.Bm25

open List
open Prod (fst snd)
open NftData.Bm25 (k1 b weight idfOnce idfShared idfRatioSquared)

/-! # Lossless prefixes

A document is looked up by its rarest terms only. They are so many that a document with none of
them is not similar enough, whatever its other terms are. -/

noncomputable section

/-- `f64::EPSILON`. -/
def epsilon : ℝ := 1 / 2 ^ 52

def upperBoundEpsilon : ℝ := 1 / 10 ^ 12

def minLengthNorm : ℝ := k1 * (1 - b)

def maxLengthNorm : ℝ := k1 * (1 - b + 2 * b)

def losslessPrefixLoop (threshold roundingMargin : ℝ) : Nat → List Nat → ℝ → ℝ → Nat
  | index, [], _, _ => index
  | index, frequency :: rest, suffixSharedMax, prefixUniqueMin =>
      let shared := weight frequency minLengthNorm idfShared
      let suffixSharedMax := max (suffixSharedMax - shared * shared) 0
      let unique := weight frequency maxLengthNorm idfOnce
      let prefixUniqueMin := prefixUniqueMin + unique * unique
      let denominator := prefixUniqueMin + suffixSharedMax
      let upperBound := if denominator ≤ 0 then 0 else √(suffixSharedMax / denominator)
      if upperBound + upperBoundEpsilon + roundingMargin < threshold then
        index + 1
      else
        losslessPrefixLoop threshold roundingMargin (index + 1) rest suffixSharedMax
          prefixUniqueMin

def losslessPrefixLen (frequencies : List Nat) (threshold : ℝ) : Nat :=
  if frequencies = [] ∨ 1 < threshold then 0
  else if threshold ≤ 0 then frequencies.length
  else
    let roundingMargin := 64 * epsilon * frequencies.length
    let suffixSharedMax := (frequencies.map fun frequency =>
      let weighted := weight frequency minLengthNorm idfShared
      weighted * weighted).sum
    losslessPrefixLoop threshold roundingMargin 0 frequencies suffixSharedMax 0

/-- What `build_document_prefixes` keeps of one document. -/
def documentPrefix {Rank : Type*} [LinearOrder Rank] (termRanks : Nat → Rank)
    (terms : List (Nat × Nat)) (threshold : ℝ) : List Nat :=
  let ranked := terms.insertionSort fun left right => termRanks left.1 ≤ termRanks right.1
  let len := losslessPrefixLen (ranked.map snd) threshold
  ((ranked.take len).insertionSort fun left right => left.1 ≤ right.1).map fst

def meanLength (left right : PreparedDocument) : ℝ := (left.length + right.length) / 2

/-- What terms weigh at most when both documents have them. -/
def sharedMax (frequencies : List Nat) : ℝ :=
  squaredNorm (fun frequency => weight frequency minLengthNorm idfShared) frequencies

/-- What terms weigh at least when only one document has them. -/
def uniqueMin (frequencies : List Nat) : ℝ :=
  squaredNorm (fun frequency => weight frequency maxLengthNorm idfOnce) frequencies

theorem sharedMax_cons (frequency : Nat) (rest : List Nat) :
    sharedMax (frequency :: rest) =
      weight frequency minLengthNorm idfShared * weight frequency minLengthNorm idfShared +
        sharedMax rest := by
  simp only [sharedMax, squaredNorm, map_cons, sum_cons, sq]

theorem uniqueMin_concat (processed : List Nat) (frequency : Nat) :
    uniqueMin (processed ++ [frequency]) =
      uniqueMin processed +
        weight frequency maxLengthNorm idfOnce * weight frequency maxLengthNorm idfOnce := by
  simp only [uniqueMin, squaredNorm, map_append, sum_append, map_cons,
    map_nil, sum_cons, sum_nil, add_zero, sq]

/-- The bound of the score when the terms behind the first ones are all that is shared. -/
def prefixBound (frequencies : List Nat) (len : Nat) : ℝ :=
  √(sharedMax (frequencies.drop len) /
    (uniqueMin (frequencies.take len) + sharedMax (frequencies.drop len)))

theorem guarded_sqrt {numerator denominator : ℝ} (nonneg : 0 ≤ denominator) :
    (if denominator ≤ 0 then 0 else √(numerator / denominator)) =
      √(numerator / denominator) := by
  split
  · next empty => rw [le_antisymm empty nonneg, div_zero, Real.sqrt_zero]
  · rfl

theorem losslessPrefixLoop_spec {threshold roundingMargin : ℝ} (margin : 0 ≤ roundingMargin)
    (processed rest : List Nat) {len : Nat}
    (isLen : losslessPrefixLoop threshold roundingMargin processed.length rest (sharedMax rest)
      (uniqueMin processed) = len) :
    len = (processed ++ rest).length ∨ prefixBound (processed ++ rest) len < threshold := by
  induction rest generalizing processed with
  | nil =>
      rw [losslessPrefixLoop] at isLen
      rw [append_nil, isLen]
      exact .inl rfl
  | cons frequency rest induction =>
      have suffix : max (sharedMax (frequency :: rest) -
          weight frequency minLengthNorm idfShared * weight frequency minLengthNorm idfShared) 0 =
          sharedMax rest := by
        rw [sharedMax_cons, add_sub_cancel_left]
        exact max_eq_left (squaredNorm_nonneg _ _)
      have total : 0 ≤ uniqueMin (processed ++ [frequency]) + sharedMax rest :=
        add_nonneg (squaredNorm_nonneg _ _) (squaredNorm_nonneg _ _)
      have split : processed ++ frequency :: rest = (processed ++ [frequency]) ++ rest := by simp
      have length : processed.length + 1 = (processed ++ [frequency]).length := by simp
      simp only [losslessPrefixLoop, suffix, ← uniqueMin_concat] at isLen
      rw [length, guarded_sqrt total] at isLen
      rw [split]
      split at isLen
      · next below =>
          have guard : 0 < upperBoundEpsilon := by norm_num [upperBoundEpsilon]
          rw [prefixBound, ← isLen, drop_left, take_left]
          right
          linarith
      · exact induction _ isLen

theorem prefixBound_length (frequencies : List Nat) :
    prefixBound frequencies frequencies.length = 0 := by
  rw [prefixBound, drop_length, sharedMax, squaredNorm, map_nil, sum_nil, zero_div,
    Real.sqrt_zero]

theorem prefixBound_losslessPrefixLen {frequencies : List Nat} {threshold : ℝ}
    (positive : 0 < threshold) (atMostOne : threshold ≤ 1) :
    prefixBound frequencies (losslessPrefixLen frequencies threshold) < threshold := by
  by_cases empty : frequencies = []
  · have bound := prefixBound_length []
    rw [losslessPrefixLen, if_pos (.inl empty), empty]
    rwa [← length_nil, bound]
  · have inside : ¬ (frequencies = [] ∨ 1 < threshold) := by
      rintro (nothing | above)
      · exact empty nothing
      · exact absurd above atMostOne.not_gt
    have margin : 0 ≤ 64 * epsilon * frequencies.length := by
      unfold epsilon
      positivity
    have start : (frequencies.map fun frequency =>
        weight frequency minLengthNorm idfShared * weight frequency minLengthNorm idfShared).sum =
          sharedMax frequencies := by
      simp only [sharedMax, squaredNorm, sq]
    rw [losslessPrefixLen, if_neg inside, if_neg positive.not_ge, start]
    rcases @losslessPrefixLoop_spec threshold _ margin [] frequencies _ rfl with all | below
    · rw [nil_append] at all
      have bound := prefixBound_length frequencies
      rw [← all] at bound
      exact bound.trans_lt positive
    · exact below

theorem weight_antitone (frequency : Nat) {norm larger idf : ℝ} (positive : 0 < norm)
    (atMost : norm ≤ larger) (idfNonneg : 0 ≤ idf) :
    weight frequency larger idf ≤ weight frequency norm idf := by
  have k1Pos := k1_pos
  rw [weight, weight]
  gcongr

theorem minLengthNorm_le (documentLength : Nat) (avgdl : ℝ) :
    minLengthNorm ≤ lengthNorm documentLength avgdl := by
  have average : 0 < max avgdl 1 := lt_max_of_lt_right one_pos
  have share : 0 ≤ b * documentLength / max avgdl 1 := by
    unfold b
    positivity
  exact mul_le_mul_of_nonneg_left (by linarith) k1_pos.le

theorem lengthNorm_le_max {documentLength : Nat} {avgdl : ℝ} (atMost : documentLength ≤ 2 * avgdl) :
    lengthNorm documentLength avgdl ≤ maxLengthNorm := by
  have average : 0 < max avgdl 1 := lt_max_of_lt_right one_pos
  have share : b * documentLength / max avgdl 1 ≤ 2 * b := by
    rw [div_le_iff₀ average]
    have bPos : 0 < b := by norm_num [b]
    nlinarith [le_max_left avgdl 1]
  exact mul_le_mul_of_nonneg_left (by linarith) k1_pos.le

theorem squaredNorm_mono {once larger : Nat → ℝ} (nonneg : ∀ frequency, 0 ≤ once frequency)
    (atMost : ∀ frequency, once frequency ≤ larger frequency) (frequencies : List Nat) :
    squaredNorm once frequencies ≤ squaredNorm larger frequencies :=
  sum_le_sum fun frequency _ => pow_le_pow_left₀ (nonneg frequency) (atMost frequency) 2

theorem squaredNorm_smul (once : Nat → ℝ) (factor : ℝ) (frequencies : List Nat) :
    squaredNorm (fun frequency => factor * once frequency) frequencies =
      factor * factor * squaredNorm once frequencies := by
  rw [squaredNorm, squaredNorm, ← sum_map_mul_left]
  congr 1
  apply map_congr_left
  intro frequency _
  ring

/-- When no term of the first ones is in the right document, the common terms are among the
others. -/
theorem shared_subperm_drop {ranked left right : List (Nat × Nat)} (perm : ranked.Perm left)
    (leftSorted : KeySorted left) (rightSorted : KeySorted right) (len : Nat)
    (missing : ∀ entry ∈ ranked.take len, entry.1 ∉ right.map fst) :
    ((sharedFrequencies left right).map fst).Subperm ((ranked.map snd).drop len) := by
  have isPart := mergeJoin_left_sublist left right
  have behind : ((mergeJoin left right).map fun entry => (entry.1, entry.2.1)) ⊆
      ranked.drop len := by
    intro entry member
    rcases mem_map.mp member with ⟨common, inCommon, rfl⟩
    rcases (mem_mergeJoin leftSorted rightSorted).mp inCommon with ⟨inLeft, inRight⟩
    have inRanked := perm.mem_iff.mpr inLeft
    rw [← take_append_drop len ranked, mem_append] at inRanked
    rcases inRanked with inPrefix | inRest
    · have inTerms : common.1 ∈ right.map fst := mem_map_of_mem inRight
      exact absurd inTerms (missing _ inPrefix)
    · exact inRest
  rcases (leftSorted.nodup.sublist isPart).subperm behind with ⟨part, partPerm, sublist⟩
  refine ⟨part.map snd, ?_, ?_⟩
  · have mapped := partPerm.map snd
    rw [map_map] at mapped
    rw [sharedFrequencies, map_map]
    exact mapped
  · rw [← map_drop]
    exact sublist.map _

theorem exists_common_of_similar {ranked : List (Nat × Nat)} {left right : PreparedDocument}
    {threshold : ℝ} (perm : ranked.Perm left.terms) (positive : 0 < threshold)
    (atMostOne : threshold ≤ 1) (similar : threshold ≤ pairCosine (meanLength left right) left right) :
    ∃ entry ∈ ranked.take (losslessPrefixLen (ranked.map snd) threshold),
      entry.1 ∈ right.terms.map fst := by
  by_contra none
  push Not at none
  have behind := shared_subperm_drop perm left.sorted right.sorted _ none
  have below := @prefixBound_losslessPrefixLen (ranked.map snd) _ positive atMostOne
  rw [pairCosine_eq] at similar
  refine absurd (similar.trans ?_) below.not_ge
  generalize losslessPrefixLen (ranked.map snd) threshold = len at behind
  have norms : ∀ frequency, 0 ≤ weight frequency (lengthNorm left.length
      (meanLength left right)) idfShared := fun frequency =>
    NftData.Bm25.weight_nonneg frequency (lengthNorm_pos _ _) NftData.Bm25.idfShared_pos
  have lengthAtMost : (left.length : ℝ) ≤ 2 * meanLength left right := by
    have rightNonneg : (0 : ℝ) ≤ right.length := Nat.cast_nonneg _
    rw [meanLength]
    linarith
  have maxPos : 0 < maxLengthNorm := by norm_num [maxLengthNorm, k1, b]
  have minPos : 0 < minLengthNorm := by norm_num [minLengthNorm, k1, b]
  apply scoreOf_le_sqrt (sharedSums_dot_sq_le _ _ _) (squaredNorm_nonneg _ _)
    (squaredNorm_nonneg _ _) (pairSums_rightNorm_le _ _ _)
  · -- The common terms weigh at most what the terms behind the prefix do with the least norm.
    have scaled := squaredNorm_smul (onceWeight left.length (meanLength left right))
      (idfShared / idfOnce) ((sharedFrequencies left.terms right.terms).map fst)
    simp only [onceWeight, ← NftData.Bm25.weight_shared] at scaled
    rw [idfRatioSquared]
    refine scaled.symm.le.trans ((squaredNorm_mono norms (fun frequency =>
      weight_antitone frequency minPos (minLengthNorm_le _ _) NftData.Bm25.idfShared_pos.le) _).trans
      (squaredNorm_le_of_subperm _ behind))
  · exact squaredNorm_nonneg _ _
  · -- The terms of the prefix weigh at least what they do with the greatest norm.
    have total : ownNorm (meanLength left right) left =
        squaredNorm (onceWeight left.length (meanLength left right))
            ((ranked.map snd).take len) +
          squaredNorm (onceWeight left.length (meanLength left right))
            ((ranked.map snd).drop len) := by
      rw [squaredNorm, squaredNorm, ← sum_append, ← map_append, take_append_drop,
        ownNorm, squaredNorm, ((perm.map snd).map _).sum_eq]
    have unique := squaredNorm_mono (fun frequency => NftData.Bm25.weight_nonneg frequency maxPos
      NftData.Bm25.idfOnce_pos) (fun frequency => weight_antitone frequency (lengthNorm_pos _ _)
        (lengthNorm_le_max lengthAtMost) NftData.Bm25.idfOnce_pos.le) ((ranked.map snd).take len)
    have shared := squaredNorm_le_of_subperm (onceWeight left.length (meanLength left right)) behind
    rw [total]
    exact le_sub_iff_add_le.mpr (add_le_add unique shared)

/-- A document that is similar enough has a term of the prefix. -/
theorem documentPrefix_witness {Rank : Type*} [LinearOrder Rank] (termRanks : Nat → Rank)
    (left right : PreparedDocument) (threshold : ℝ) (positive : 0 < threshold)
    (atMostOne : threshold ≤ 1) (similar : threshold ≤ pairCosine (meanLength left right) left right) :
    ∃ term ∈ documentPrefix termRanks left.terms threshold, term ∈ right.terms.map fst := by
  have perm := perm_insertionSort
    (fun first second : Nat × Nat => termRanks first.1 ≤ termRanks second.1) left.terms
  rcases exists_common_of_similar perm positive atMostOne similar with ⟨entry, inPrefix, inRight⟩
  refine ⟨entry.1, mem_map.mpr ⟨entry, ?_, rfl⟩, inRight⟩
  exact (mem_insertionSort _).mpr inPrefix

def pairDocument : PreparedDocument where
  terms := [(0, 2), (3, 1)]
  length := 3
  sorted := by simp [KeySorted]
  occurs := by decide
  fits := by decide

theorem documentPrefix_witness_pair :
    ∃ term ∈ documentPrefix (fun term => term) pairDocument.terms (3 / 5),
      term ∈ pairDocument.terms.map fst :=
  documentPrefix_witness (fun term => term) pairDocument pairDocument (3 / 5) (by norm_num)
    (by norm_num)
    (by
      rw [pairCosine_self _ (by decide)]
      norm_num)

end

end NftData.Dedup.Bm25
