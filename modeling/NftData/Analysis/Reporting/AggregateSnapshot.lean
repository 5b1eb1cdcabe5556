import NftData.Analysis.Reporting.AggregateRuns
import NftData.Foundation.Selecting

namespace NftData.Analysis

open Function
open ChainId (all mem_all)
open List

namespace AggregateState

/-! # Snapshots of runs

The snapshot does not depend on the order of the deltas, and the cross-chain rows are those of
buckets that absorbed their candidates directly. -/

/-- The candidates of the cross-chain cells of a primary chain, without native amounts. -/
def crossShares (primary : ChainId) (deltas : List AggregateDelta) :
    List ScopeBucket.CandidateShare :=
  deltas.flatMap fun delta =>
    ((all.filter fun candidate => candidate ≠ primary).filter fun candidate =>
      (primary, candidate) ∈ delta.matrixKeys).map fun candidate =>
        delta.cellShare (primary, candidate) false

/-- A bucket into which the candidates of the cross-chain cells were absorbed directly. -/
def directCrossBucket (primary : ChainId) (deltas : List AggregateDelta) : ScopeBucket :=
  ScopeBucket.absorbAll (crossShares primary deltas)

variable {deltas : List AggregateDelta}

theorem nodup_cellShares (distinct : (deltas.map AggregateDelta.candidateId).Nodup)
    (cell : ChainId × ChainId) (includeNative : Bool) :
    ((cellShares cell includeNative deltas).map
      ScopeBucket.CandidateShare.candidateId).Nodup := by
  rw [cellShares, map_map]
  exact distinct.sublist (filter_sublist.map _)

theorem holds_matrix (distinct : (deltas.map AggregateDelta.candidateId).Nodup)
    (cell : ChainId × ChainId) :
    ((absorbAll deltas).matrix cell).Holds (cellShares cell (cell.1 = cell.2) deltas) 0 := by
  rw [matrix_absorbAll]
  exact ScopeBucket.holds_absorbAll (nodup_cellShares distinct cell _)

variable {cell : ChainId × ChainId}

theorem includeNative_of_mem_cellShares {includeNative : Bool} {share : ScopeBucket.CandidateShare}
    (member : share ∈ cellShares cell includeNative deltas) :
    share.includeNative = includeNative := by
  rcases mem_map.mp member with ⟨_, _, rfl⟩
  rfl

theorem holds_mergeCells (distinct : (deltas.map AggregateDelta.candidateId).Nodup)
    (primary : ChainId) {candidates : List ChainId}
    (offDiagonal : ∀ candidate ∈ candidates, candidate ≠ primary) {bucket : ScopeBucket}
    {before : List ScopeBucket.CandidateShare} (holds : bucket.Holds before 0) :
    (candidates.foldl (fun bucket candidate =>
        bucket.mergeCrossCell ((absorbAll deltas).matrix (primary, candidate))) bucket).Holds
      (before ++ candidates.flatMap fun candidate =>
        cellShares (primary, candidate) false deltas) 0 := by
  induction candidates generalizing bucket before with
  | nil =>
      rw [flatMap_nil, append_nil]
      exact holds
  | cons candidate candidates induction =>
      have apart : decide (primary = candidate) = false :=
        decide_eq_false (offDiagonal candidate mem_cons_self).symm
      have cell := holds_matrix distinct (primary, candidate)
      rw [apart] at cell
      have merged := holds.mergeCrossCell cell fun share member =>
        includeNative_of_mem_cellShares member
      rw [add_zero] at merged
      rw [foldl_cons, flatMap_cons, ← List.append_assoc]
      exact induction (fun other member => offDiagonal other (mem_cons_of_mem _ member))
        merged

theorem holds_crossBucket (distinct : (deltas.map AggregateDelta.candidateId).Nodup)
    (primary : ChainId) :
    ((absorbAll deltas).crossBucket primary).Holds (crossShares primary deltas) 0 := by
  have offDiagonal : ∀ candidate ∈ all.filter (fun candidate => candidate ≠ primary),
      candidate ≠ primary := by
    intro candidate member
    simpa using (mem_filter.mp member).2
  have merged := holds_mergeCells distinct primary offDiagonal ScopeBucket.holds_empty
  apply merged.perm
  rw [nil_append]
  exact flatMap_swap deltas _ (fun delta candidate => (primary, candidate) ∈ delta.matrixKeys)
    fun delta candidate => delta.cellShare (primary, candidate) false

theorem mem_matrixKeys {delta : AggregateDelta} :
    cell ∈ delta.matrixKeys ↔
      ∃ relation ∈ delta.relationDeltas, (relation.seedChain, relation.candidate.chain) = cell := by
  rw [AggregateDelta.matrixKeys, mem_filter, any_eq_true]
  simp only [decide_eq_true_eq, and_iff_right_iff_imp]
  intro _
  exact pair_mem_product.mpr ⟨mem_all _, mem_all _⟩

theorem nodup_crossShares (distinct : (deltas.map AggregateDelta.candidateId).Nodup)
    (oneCandidate : ∀ delta ∈ deltas, delta.OneCandidate) (primary : ChainId) :
    ((crossShares primary deltas).map ScopeBucket.CandidateShare.candidateId).Nodup := by
  rw [crossShares, map_flatMap, nodup_flatMap]
  constructor
  · intro delta isDelta
    rw [map_map]
    have chains : ((all.filter fun candidate => candidate ≠ primary).filter
        fun candidate => (primary, candidate) ∈ delta.matrixKeys).Nodup :=
      ((by decide : all.Nodup).filter _).filter _
    apply chains.map_on
    intro first isFirst second isSecond _
    have firstKey : (primary, first) ∈ delta.matrixKeys := by
      simpa using (mem_filter.mp isFirst).2
    have secondKey : (primary, second) ∈ delta.matrixKeys := by
      simpa using (mem_filter.mp isSecond).2
    rcases mem_matrixKeys.mp firstKey with ⟨relation, isRelation, cell⟩
    rcases mem_matrixKeys.mp secondKey with ⟨other, isOther, otherCell⟩
    calc first = relation.candidate.chain := (Prod.ext_iff.mp cell).2.symm
      _ = other.candidate.chain := by
        rw [oneCandidate delta isDelta relation isRelation other isOther]
      _ = second := (Prod.ext_iff.mp otherCell).2
  · apply (pairwise_map.mp distinct).imp
    intro left right apart
    rw [Function.onFun, disjoint_left]
    intro id inLeft inRight
    simp only [map_map, mem_map, comp_apply] at inLeft inRight
    rcases inLeft with ⟨_, _, rfl⟩
    rcases inRight with ⟨_, _, same⟩
    exact apart same.symm

variable {others : List AggregateDelta}

/-- A field that deltas change in any order. -/
theorem field_perm {Field : Type} (field : AggregateState → Field)
    (step : Field → AggregateDelta → Field)
    (steps : ∀ state delta, field (state.absorb delta) = step (field state) delta)
    (commute : ∀ value first second,
      step (step value first) second = step (step value second) first) (same : deltas.Perm others) :
    field (absorbAll deltas) = field (absorbAll others) := by
  rw [absorbAll, absorbAll,
    ← foldl_hom field fun state delta => (steps state delta).symm,
    ← foldl_hom field fun state delta => (steps state delta).symm]
  exact same.foldl_eq' (fun first _ second _ value => commute value first second) _

theorem field_perm_union {Id : Type} [DecidableEq Id] (field : AggregateState → Finset Id)
    {ids : AggregateDelta → Finset Id}
    (steps : ∀ state delta, field (state.absorb delta) = field state ∪ ids delta)
    (same : deltas.Perm others) :
    field (absorbAll deltas) = field (absorbAll others) :=
  field_perm field (fun value delta => value ∪ ids delta) steps
    (fun value _ _ => Finset.union_right_comm value _ _) same

theorem addEconomicsByChain_cases (delta : AggregateDelta) :
    (∀ known, addEconomicsByChain known delta = known) ∨
      ∃ chain, ∀ known, addEconomicsByChain known delta = Function.update known chain
        (some ((known chain).getD .empty + delta.suspectedEconomics)) := by
  unfold addEconomicsByChain
  cases delta.anySuspected with
  | false => exact Or.inl fun known => rfl
  | true =>
      cases delta.candidateChain with
      | none => exact Or.inl fun known => rfl
      | some chain => exact Or.inr ⟨chain, fun known => rfl⟩

theorem addEconomicsByChain_comm (known : ChainId → Option EconomicFacts)
    (first second : AggregateDelta) :
    addEconomicsByChain (addEconomicsByChain known first) second =
      addEconomicsByChain (addEconomicsByChain known second) first := by
  rcases addEconomicsByChain_cases first with firstAdds | ⟨chain, firstAdds⟩
  · rw [firstAdds, firstAdds]
  · rcases addEconomicsByChain_cases second with secondAdds | ⟨other, secondAdds⟩
    · rw [secondAdds, secondAdds]
    · simp only [firstAdds, secondAdds]
      by_cases same : chain = other
      · subst same
        simp only [update_self, update_idem, Option.getD_some, add_right_comm]
      · rw [update_of_ne (Ne.symm same), update_of_ne same,
          update_comm same]

theorem snapshot_perm {Ratio : Type} (divide : Int → Int → Ratio)
    (distinct : (deltas.map AggregateDelta.candidateId).Nodup) (same : deltas.Perm others) :
    (absorbAll deltas).snapshot divide = (absorbAll others).snapshot divide := by
  have otherDistinct : (others.map AggregateDelta.candidateId).Nodup :=
    (same.map _).nodup_iff.mp distinct
  have seedIds : (absorbAll deltas).seedIds = (absorbAll others).seedIds :=
    field_perm_union _ (fun _ _ => rfl) same
  have nfts : (absorbAll deltas).observedNfts = (absorbAll others).observedNfts :=
    field_perm_union _ (fun _ _ => rfl) same
  have transactions :
      (absorbAll deltas).observedTransactions = (absorbAll others).observedTransactions :=
    field_perm_union _ (fun _ _ => rfl) same
  have economics : (absorbAll deltas).economicsByChain = (absorbAll others).economicsByChain :=
    field_perm _ addEconomicsByChain (fun _ _ => rfl) addEconomicsByChain_comm same
  have merged : (absorbAll deltas).merged.len = (absorbAll others).merged.len := by
    rw [(merged_absorbAll deltas).1, (merged_absorbAll others).1, (merged_absorbAll deltas).2,
      (merged_absorbAll others).2, toFinset_eq_of_perm _ _ (same.map _)]
  have cells (cell : ChainId × ChainId) : (cellShares cell (cell.1 = cell.2) deltas).Perm
      (cellShares cell (cell.1 = cell.2) others) :=
    (same.filter _).map _
  have matrixRows : (absorbAll deltas).matrixRows divide = (absorbAll others).matrixRows divide := by
    apply flatMap_congr
    intro primary _
    apply map_congr_left
    intro candidate _
    exact (holds_matrix distinct _).scopedMetric_eq divide (holds_matrix otherDistinct _)
      (cells _) _ _ _
  have crossRow : (absorbAll deltas).crossRow divide = (absorbAll others).crossRow divide := by
    funext primary
    exact (holds_crossBucket distinct primary).scopedMetric_eq divide
      (holds_crossBucket otherDistinct primary) (same.flatMap_right _) _ _ _
  have failures : (deltas.map failuresContent).sum = (others.map failuresContent).sum :=
    (same.map _).sum_eq
  have allChains := holds_allChains distinct
  rw [failures] at allChains
  have allRow : (absorbAll deltas).allChainsRow divide = (absorbAll others).allChainsRow divide := by
    rw [allChainsRow, allChainsRow,
      allChains.scopedMetric_eq divide (holds_allChains otherDistinct) (same.map _) _ _ _, seedIds,
      nfts, transactions, merged]
  simp only [snapshot, intraRows, matrixRows, crossRow, allRow, seedIds, nfts, transactions,
    economics, merged]

theorem accepted_eq_self {calls : List AggregateDelta}
    (distinct : (calls.map AggregateDelta.candidateId).Nodup) : accepted calls = calls := by
  induction calls using List.reverseRecOn with
  | nil => rfl
  | append_singleton calls delta induction =>
      rw [map_append, map_singleton] at distinct
      have parts := nodup_append.mp distinct
      have fresh : delta.candidateId ∉ calls.map AggregateDelta.candidateId := fun member =>
        parts.2.2 _ member _ (mem_singleton_self _) rfl
      have before : accepted calls = calls := induction parts.1
      rw [accepted_append, before, if_neg fresh]

/-- The snapshot after any calls of `merge_once`. -/
structure DirectUnions {Ratio : Type} (divide : Int → Int → Ratio)
    (calls : List AggregateDelta) : Prop where
  orderFree : ∀ others, calls.Perm others → (calls.map AggregateDelta.candidateId).Nodup →
    (mergeAll others).snapshot divide = (mergeAll calls).snapshot divide
  repeated : ∀ delta, delta.candidateId ∈ calls.map AggregateDelta.candidateId →
    ((mergeAll calls).mergeOnce delta).1 = .error (mergedTwiceError delta.candidateId) ∧
      ((mergeAll calls).mergeOnce delta).2.snapshot divide = (mergeAll calls).snapshot divide
  fresh : ∀ delta, delta.candidateId ∉ calls.map AggregateDelta.candidateId →
    ((mergeAll calls).mergeOnce delta).1 = .ok ()
  crossRows : ∀ primary, (mergeAll calls).crossRow divide primary =
    (directCrossBucket primary (accepted calls)).scopedMetric divide .crossChainSummary
      (some primary) none
  cells : ∀ cell, ((mergeAll calls).matrix cell).CountsOnce
    (cellShares cell (cell.1 = cell.2) (accepted calls))
  crossBuckets : ∀ primary, ((mergeAll calls).crossBucket primary).CountsOnce
    (crossShares primary (accepted calls))
  allChains : (mergeAll calls).allChains.CountsOnce
    ((accepted calls).map AggregateDelta.allChainsShare)
  merged : (mergeAll calls).merged.len =
    (calls.map AggregateDelta.candidateId).toFinset.card

/-- Snapshots are free of order, and their derived rows are direct unions; the lengths of sets
of ids are the numbers of ids put in. -/
theorem snapshot_directUnions {Ratio : Type} (divide : Int → Int → Ratio)
    (calls : List AggregateDelta) (oneCandidate : ∀ delta ∈ calls, delta.OneCandidate) :
    DirectUnions divide calls ∧
      ∀ set ids, DenseIdSet.Built set ids → set.ids = ids ∧ set.len = ids.card := by
  rcases mergeAll_eq calls with ⟨state, distinct, same⟩
  have mergedIds : (mergeAll calls).merged.ids =
      (calls.map AggregateDelta.candidateId).toFinset := by
    rw [state, (merged_absorbAll _).2]
    ext id
    rw [mem_toFinset, mem_toFinset, same]
  constructor
  · constructor
    case orderFree =>
      intro others reordered callsDistinct
      have othersDistinct := (reordered.map _).nodup_iff.mp callsDistinct
      rw [(mergeAll_eq others).1, state, accepted_eq_self othersDistinct,
        accepted_eq_self callsDistinct]
      exact snapshot_perm divide othersDistinct reordered.symm
    case repeated =>
      intro delta known
      rw [mergeOnce_of_mem (by rwa [mergedIds, mem_toFinset])]
      exact ⟨rfl, rfl⟩
    case fresh =>
      intro delta unknown
      rw [mergeOnce_of_notMem (by rwa [mergedIds, mem_toFinset])]
    case crossRows =>
      intro primary
      have direct := ScopeBucket.holds_absorbAll (nodup_crossShares distinct
        (fun delta member => oneCandidate delta (mem_of_mem_accepted member)) primary)
      rw [state]
      exact (holds_crossBucket distinct primary).scopedMetric_eq divide direct (List.Perm.refl _)
        _ _ _
    case cells =>
      intro cell
      rw [state]
      exact (holds_matrix distinct cell).countsOnce (nodup_cellShares distinct cell _)
    case crossBuckets =>
      intro primary
      rw [state]
      exact (holds_crossBucket distinct primary).countsOnce (nodup_crossShares distinct
        (fun delta member => oneCandidate delta (mem_of_mem_accepted member)) primary)
    case allChains =>
      rw [state]
      apply (holds_allChains distinct).countsOnce
      rw [map_map]
      exact distinct
    case merged =>
      rw [← mergedIds, state]
      exact (merged_absorbAll _).1
  · intro set ids built
    exact built.len_eq

def polygonDelta : AggregateDelta where
  candidateId := 70
  analysisComplete := true
  relationDeltas := [
    ⟨1, .ethereum, 70, ⟨.polygon, "0x70".toList⟩, .allInContract ⟨.polygon, "0x70".toList⟩ 5,
      true⟩,
    ⟨2, .base, 70, ⟨.polygon, "0x70".toList⟩, .allInContract ⟨.polygon, "0x70".toList⟩ 5, false⟩]
  suspectedEconomics := ⟨fun _ => 3, fun _ => 4, 1, 10, 20⟩
  suspectedBehaviors := fun _ => 1
  behaviorEntities := [⟨.poisoning, [8, 130], [4], [], 6, 7⟩]
  matrixSuspected := fun _ => some
    ⟨⟨fun _ => 3, fun _ => 4, 1, 10, 20⟩, fun _ => 1, [⟨.poisoning, [8, 130], [4], [], 6, 7⟩],
      [(8, .suspectedOperator), (9, .likelyVictim)]⟩
  candidateQuality := ⟨fun _ => some .complete, fun _ => 1, ["timeout".toList]⟩
  globalAddressRoles := [(8, .suspectedOperator), (9, .likelyVictim)]
  globalNftIds := [4, 5]
  globalTransactionIds := [11]

def solanaDelta : AggregateDelta where
  candidateId := 3
  analysisComplete := false
  relationDeltas := [⟨1, .ethereum, 3, ⟨.solana, "mint".toList⟩,
    .allInContract ⟨.solana, "mint".toList⟩ 2, false⟩]
  suspectedEconomics := .empty
  suspectedBehaviors := fun _ => 0
  behaviorEntities := []
  matrixSuspected := fun _ => none
  candidateQuality := ⟨fun _ => none, fun _ => 0, []⟩
  globalAddressRoles := []
  globalNftIds := []
  globalTransactionIds := []

theorem snapshot_directUnions_twoCandidates :
    (mergeAll [solanaDelta, polygonDelta]).snapshot (fun part whole => (part / whole : ℚ)) =
        (mergeAll [polygonDelta, solanaDelta]).snapshot (fun part whole => (part / whole : ℚ)) ∧
      ((mergeAll [polygonDelta, solanaDelta]).crossBucket .ethereum).attributed.len = 2 ∧
      ((mergeAll [polygonDelta, solanaDelta]).crossBucket .ethereum).legitCandidates.len = 1 := by
  have oneCandidate : ∀ delta ∈ [polygonDelta, solanaDelta], delta.OneCandidate := by
    intro delta isDelta first isFirst second isSecond
    fin_cases isDelta <;> fin_cases isFirst <;> fin_cases isSecond <;> rfl
  have unions := (snapshot_directUnions (fun part whole => (part / whole : ℚ))
    [polygonDelta, solanaDelta] oneCandidate).1
  exact ⟨unions.orderFree _ (List.Perm.swap _ _ _) (by decide),
    (unions.crossBuckets .ethereum).attributedLen.trans (by decide),
    (unions.crossBuckets .ethereum).legitLen.trans (by decide)⟩

end AggregateState

end NftData.Analysis
