import NftData.Analysis.Reporting.AggregateBuckets

namespace NftData.Analysis

/-! # Runs of the aggregate

A candidate whose id was merged before is rejected and changes nothing, so the state after any
calls of `merge_once` is made of the first delta for each candidate. -/

open List
open AggregateDelta (allChainsShare candidateId)

theorem DenseIdSet.insert_eq_self {set : DenseIdSet} {id : Nat} (member : id ∈ set.ids) :
    set.insert id = (set, false) := by
  have inside : id / 64 < set.words.length := by
    by_contra outside
    have isSet : (set.words.getD (id / 64) 0).getLsbD (id % 64) = true := mem_idsOf.mp member
    rw [getD_eq_default _ _ (by omega)] at isSet
    simp at isSet
  have resized : resize set.words (id / 64 + 1) = set.words := by
    rw [resize, Nat.sub_eq_zero_of_le inside, replicate_zero, append_nil]
  rw [insert_of_mem member, resized]

namespace AggregateState

/-- The state after calls of `merge_once`. -/
def mergeAll (calls : List AggregateDelta) : AggregateState :=
  calls.foldl (fun state delta => (state.mergeOnce delta).2) empty

/-- The first delta for each candidate. -/
def accepted (calls : List AggregateDelta) : List AggregateDelta :=
  calls.foldl (fun kept delta =>
    if delta.candidateId ∈ kept.map candidateId then kept else kept ++ [delta]) []

def absorbAll (deltas : List AggregateDelta) : AggregateState := deltas.foldl absorb empty

variable {delta : AggregateDelta} {state : AggregateState}

theorem mergeOnce_of_mem (member : delta.candidateId ∈ state.merged.ids) :
    state.mergeOnce delta = (.error (mergedTwiceError delta.candidateId), state) := by
  rw [mergeOnce, DenseIdSet.insert_eq_self member]
  rfl

theorem mergeOnce_of_notMem (fresh : delta.candidateId ∉ state.merged.ids)
    :
    state.mergeOnce delta = (.ok (), state.absorb delta) := by
  have inserted : (state.merged.insert delta.candidateId).2 = true := by
    rw [DenseIdSet.snd_insert, decide_eq_true fresh]
  rw [mergeOnce, if_pos inserted]

theorem merged_absorbAll (deltas : List AggregateDelta) :
    (absorbAll deltas).merged.Valid ∧
      (absorbAll deltas).merged.ids =
        (deltas.map candidateId).toFinset := by
  have merged : (absorbAll deltas).merged =
      DenseIdSet.empty.insertAll (deltas.map candidateId) := by
    rw [DenseIdSet.insertAll, foldl_map]
    exact (foldl_hom merged fun _ _ => rfl).symm
  have spec := DenseIdSet.insertAll_spec .empty (deltas.map candidateId)
  rw [merged]
  exact ⟨spec.2 DenseIdSet.valid_empty, spec.1.trans (Finset.empty_union _)⟩

theorem absorbAll_append (deltas : List AggregateDelta) (delta : AggregateDelta) :
    absorbAll (deltas ++ [delta]) = (absorbAll deltas).absorb delta := by
  rw [absorbAll, List.foldl_append]
  rfl

theorem accepted_append (calls : List AggregateDelta) (delta : AggregateDelta) :
    accepted (calls ++ [delta]) =
      if delta.candidateId ∈ (accepted calls).map candidateId then accepted calls
      else accepted calls ++ [delta] := by
  rw [accepted, List.foldl_append]
  rfl

/-- Calls leave what their accepted deltas make, each candidate once. -/
theorem mergeAll_eq (calls : List AggregateDelta) :
    mergeAll calls = absorbAll (accepted calls) ∧
      ((accepted calls).map candidateId).Nodup ∧
      ∀ id, id ∈ (accepted calls).map candidateId ↔
        id ∈ calls.map candidateId := by
  induction calls using List.reverseRecOn with
  | nil => exact ⟨rfl, nodup_nil, fun _ => Iff.rfl⟩
  | append_singleton calls delta induction =>
      rcases induction with ⟨state, distinct, same⟩
      have merged : ∀ id, id ∈ (mergeAll calls).merged.ids ↔
          id ∈ (accepted calls).map candidateId := by
        intro id
        rw [state, (merged_absorbAll _).2, mem_toFinset]
      have lastState : mergeAll (calls ++ [delta]) = ((mergeAll calls).mergeOnce delta).2 := by
        rw [mergeAll, List.foldl_append]
        rfl
      by_cases known : delta.candidateId ∈ (accepted calls).map candidateId
      · rw [lastState, accepted_append, if_pos known, mergeOnce_of_mem ((merged _).mpr known)]
        refine ⟨state, distinct, fun id => ?_⟩
        rw [same, map_append, mem_append, map_singleton, mem_singleton]
        exact ⟨Or.inl, fun member => member.elim (fun before => before) fun equal =>
          equal ▸ (same _).mp known⟩
      · rw [lastState, accepted_append, if_neg known,
          mergeOnce_of_notMem fun member => known ((merged _).mp member), absorbAll_append,
          ← state]
        refine ⟨rfl, ?_, fun id => ?_⟩
        · rw [map_append, map_singleton]
          exact nodup_append.mpr ⟨distinct, nodup_singleton _, by
            intro id member other isOther equal
            rw [mem_singleton.mp isOther] at equal
            exact known (equal ▸ member)⟩
        · rw [map_append, mem_append, same, map_append, mem_append]

theorem mem_of_mem_accepted {calls : List AggregateDelta} (member : delta ∈ accepted calls) :
    delta ∈ calls := by
  induction calls using List.reverseRecOn with
  | nil => exact member
  | append_singleton calls last induction =>
      rw [accepted_append] at member
      split at member
      · exact mem_append_left _ (induction member)
      · rcases mem_append.mp member with before | isLast
        · exact mem_append_left _ (induction before)
        · exact mem_append_right _ isLast

def cellShares (cell : ChainId × ChainId) (includeNative : Bool) (deltas : List AggregateDelta) :
    List ScopeBucket.CandidateShare :=
  (deltas.filter fun delta => cell ∈ delta.matrixKeys).map fun delta =>
    delta.cellShare cell includeNative

theorem nodup_matrixKeys (delta : AggregateDelta) : delta.matrixKeys.Nodup :=
  List.Nodup.filter _ (by decide)

theorem absorbCell_foldl (delta : AggregateDelta) (cell : ChainId × ChainId)
    {keys : List (ChainId × ChainId)} (distinct : keys.Nodup)
    (matrix : ChainId × ChainId → ScopeBucket) :
    keys.foldl (absorbCell delta) matrix cell =
      if cell ∈ keys then
        (matrix cell).absorbCandidate (delta.cellShare cell (cell.1 = cell.2))
      else matrix cell := by
  induction keys generalizing matrix with
  | nil => rfl
  | cons key keys induction =>
      rw [foldl_cons, induction (nodup_cons.mp distinct).2]
      by_cases here : cell = key
      · subst here
        rw [if_neg (nodup_cons.mp distinct).1, if_pos mem_cons_self, absorbCell,
          Function.update_self]
      · have unchanged : absorbCell delta matrix key cell = matrix cell :=
          Function.update_of_ne here _ _
        rw [unchanged]
        simp [here]

theorem matrix_absorbAll (deltas : List AggregateDelta) (cell : ChainId × ChainId) :
    (absorbAll deltas).matrix cell =
      ScopeBucket.absorbAll (cellShares cell (cell.1 = cell.2) deltas) := by
  rw [ScopeBucket.absorbAll, cellShares, foldl_map, foldl_filter]
  rw [absorbAll, ← foldl_hom (fun state : AggregateState => state.matrix cell)]
  · rfl
  · intro state delta
    simp only [decide_eq_true_eq]
    exact (absorbCell_foldl delta cell (nodup_matrixKeys delta) state.matrix).symm

def failuresContent (delta : AggregateDelta) : QualityContent :=
  { (0 : QualityContent) with
    failureRecordsByChain := fun chain =>
      if delta.candidateChain = some chain then delta.candidateQuality.failures.length else 0
    failureRecordsBySeed := fun seed =>
      if ∃ relation ∈ delta.relationDeltas, relation.seedId = seed then
        delta.candidateQuality.failures.length
      else 0 }

theorem content_annotateFailures (quality : QualityAccumulator) (delta : AggregateDelta) :
    (annotateFailures quality delta).content = quality.content + failuresContent delta := by
  unfold annotateFailures
  dsimp only
  split
  case isTrue some =>
    apply QualityContent.ext
    case failureRecordsByChain =>
      funext chain
      change (if _ then _ else _) = quality.failureRecordsByChain chain + if _ then _ else _
      split <;> rfl
    case failureRecordsBySeed =>
      funext seed
      change (if _ then _ else _) = quality.failureRecordsBySeed seed + if _ then _ else _
      split <;> rfl
    all_goals exact (add_zero _).symm
  case isFalse none =>
    have isZero : delta.candidateQuality.failures.length = 0 := Nat.eq_zero_of_not_pos none
    have failures : failuresContent delta = 0 := by
      apply QualityContent.ext
      case failureRecordsByChain =>
        funext chain
        simp only [failuresContent, isZero, ite_self]
        rfl
      case failureRecordsBySeed =>
        funext seed
        simp only [failuresContent, isZero, ite_self]
        rfl
      all_goals rfl
    rw [failures, add_zero]

theorem holds_allChains {deltas : List AggregateDelta}
    (distinct : (deltas.map candidateId).Nodup) :
    (absorbAll deltas).allChains.Holds (deltas.map allChainsShare)
      (deltas.map failuresContent).sum := by
  induction deltas using List.reverseRecOn with
  | nil => exact ScopeBucket.holds_empty
  | append_singleton deltas delta induction =>
      rw [map_append, map_singleton] at distinct
      have parts := nodup_append.mp distinct
      have fresh : delta.allChainsShare.candidateId ∉
          (deltas.map allChainsShare).map
            ScopeBucket.CandidateShare.candidateId := by
        rw [map_map]
        intro member
        exact parts.2.2 _ member _ (mem_singleton_self _) rfl
      have absorbed := (induction parts.1).absorbCandidate fresh
      rw [absorbAll_append, map_append, map_append, sum_append,
        map_singleton, map_singleton, sum_singleton]
      constructor
      · exact { absorbed.valid with }
      · rw [BucketContent.ofFailures_add, ← add_assoc, ← absorbed.content]
        apply BucketContent.ext
        case quality => exact content_annotateFailures _ delta
        all_goals exact (add_zero _).symm

end AggregateState

end NftData.Analysis
