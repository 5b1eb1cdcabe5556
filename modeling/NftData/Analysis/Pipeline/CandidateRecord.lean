import NftData.Analysis.Model.Matching
import NftData.Foundation.Outcome

namespace NftData.Analysis

/-! # Candidate records

All relations of one candidate contract, as they travel through the stages of the pipeline,
and when evidence fetched for one record is good enough for another. -/

open List

inductive PipelineError where
  | emptyRelations
  | inconsistentKeys (candidate : CandidateId)
  | arrivedTwice (candidate : CandidateId)
  | prefetchOutsideActive (candidate : CandidateId)
  | analysisTwice (candidate : CandidateId)
  | compressionTwice (candidate : CandidateId)
  | unknownAnalysis
  | unknownCompression
  | memoryBudget (required limit : Nat)
  /-- A task failed with a message of its own. -/
  | task (message : String)
  /-- `expect` on a merged prefetch without a record. -/
  | noMergedRecord
  deriving DecidableEq

def stateError (message : String) : String := "state transition rejected: " ++ message

def PipelineError.message : PipelineError → String
  | .emptyRelations => stateError "candidate record cannot be built from empty relations"
  | .inconsistentKeys candidate => stateError
      ("candidate " ++ toString candidate ++
        " relation group contains inconsistent contract keys")
  | .arrivedTwice candidate => stateError
      ("candidate " ++ toString candidate ++
        " arrived more than once after its owner shard was sealed")
  | .prefetchOutsideActive candidate => stateError
      ("candidate " ++ toString candidate ++ " completed prefetch outside the active stage")
  | .analysisTwice candidate => stateError
      ("candidate " ++ toString candidate ++ " was queued for analysis twice")
  | .compressionTwice candidate => stateError
      ("candidate " ++ toString candidate ++ " was queued for compression twice")
  | .unknownAnalysis => stateError "unknown analysis completion"
  | .unknownCompression => stateError "unknown compression completion"
  | .memoryBudget required limit =>
      "memory budget exceeded: required " ++ toString required ++ " bytes, limit " ++
        toString limit ++ " bytes"
  | .task message => message
  | .noMergedRecord => "merged prefetch contains one candidate"

structure CandidateRecord where
  id : CandidateId
  key : ContractKey
  relations : List SeedCandidateRelation
  selection : NftSelection
  seedIds : List SeedId
  deriving DecidableEq

def unionSelections : List SeedCandidateRelation → NftSelection → NftSelection
  | [], selection => selection
  | relation :: rest, selection =>
      unionSelections rest (selection.unionAssign relation.selection)

/-- `CandidateRecord::new`. -/
def newRecord (id : CandidateId) (key : ContractKey) (relations : List SeedCandidateRelation) :
    Except PipelineError CandidateRecord :=
  match relations with
  | [] => .error .emptyRelations
  | first :: rest =>
      if (first :: rest).any fun relation => relation.candidate ≠ key then
        .error (.inconsistentKeys id)
      else
        .ok {
          id := id
          key := key
          relations := first :: rest
          selection := (unionSelections rest first.selection).normalize
          seedIds := sortDedup compare ((first :: rest).map SeedCandidateRelation.seedId) }

/-- The ids of the groups of a `BTreeMap` by candidate. -/
def candidateIds (relations : List SeedCandidateRelation) : List CandidateId :=
  (relations.map SeedCandidateRelation.candidateId).dedup.insertionSort (· ≤ ·)

def groupOf (relations : List SeedCandidateRelation) (id : CandidateId) :
    List SeedCandidateRelation :=
  (relations.filter fun relation => relation.candidateId = id).insertionSort
    fun left right => left.seedId ≤ right.seedId

/-- The record of one group, whose key is that of its first relation. -/
def recordOf (relations : List SeedCandidateRelation) (id : CandidateId) :
    Except PipelineError CandidateRecord :=
  match groupOf relations id with
  | [] => .error .emptyRelations
  | first :: rest => newRecord id first.candidate (first :: rest)

def prefetchRecords (relations : List SeedCandidateRelation) :
    Except PipelineError (List CandidateRecord) :=
  (candidateIds relations).mapM (recordOf relations)

def mergeRelation (existing relation : SeedCandidateRelation) : SeedCandidateRelation :=
  { existing with
    dimensions := existing.dimensions ||| relation.dimensions
    selection := existing.selection.unionAssign relation.selection
    evidence := existing.evidence ++ relation.evidence
    incomplete := existing.incomplete || relation.incomplete }

def normalizeRelation (relation : SeedCandidateRelation) : SeedCandidateRelation :=
  { relation with
    selection := relation.selection.normalize
    evidence := sortDedup compareEvidence relation.evidence }

/-- The relations of one seed, merged into the first of them. -/
def mergedOf (relations : List SeedCandidateRelation) (seed : SeedId) :
    Option SeedCandidateRelation :=
  match relations.filter fun relation => relation.seedId = seed with
  | [] => none
  | first :: rest => some (normalizeRelation (rest.foldl mergeRelation first))

def mergePrefetchRelations (left right : List SeedCandidateRelation) :
    List SeedCandidateRelation :=
  let seeds := ((left ++ right).map SeedCandidateRelation.seedId).dedup.insertionSort (· ≤ ·)
  seeds.filterMap (mergedOf (left ++ right))

def sortedSliceCovers {α : Type} (order : α → α → Ordering) : List α → List α → Bool
  | _, [] => true
  | [], _ :: _ => false
  | available :: more, required :: rest =>
      match order available required with
      | .lt => sortedSliceCovers order more (required :: rest)
      | .eq => sortedSliceCovers order more rest
      | .gt => false

def selectionCovers : NftSelection → NftSelection → Bool
  | .allInContract prefetched prefetchedCount, .allInContract required requiredCount =>
      decide (prefetched = required) && decide (requiredCount ≤ prefetchedCount)
  | .allInContract contract _, .explicit nfts =>
      nfts.all fun nft => nft.contractKey = contract
  | .explicit prefetched, .explicit required => sortedSliceCovers compare prefetched required
  | .explicit _, .allInContract _ _ => false

def prefetchCanFinalize (succeeded : Bool) (prefetched required : NftSelection)
    (prefetchedSeeds requiredSeeds : List SeedId) : Bool :=
  succeeded && selectionCovers prefetched required &&
    sortedSliceCovers compare prefetchedSeeds requiredSeeds

example : selectionCovers (.explicit [⟨.base, [], []⟩]) (.explicit []) = true := rfl

theorem subset_of_sortedSliceCovers {α : Type} {order : α → α → Ordering}
    (lawful : ∀ left right, order left right = .eq → left = right) {available required : List α}
    (covers : sortedSliceCovers order available required = true) : required ⊆ available := by
  fun_induction sortedSliceCovers order available required with
  | case1 => exact nil_subset _
  | case2 => cases covers
  | case3 available more required rest isLess induction =>
      exact fun _ member => mem_cons_of_mem _ (induction covers member)
  | case4 available more required rest isEqual induction =>
      rw [lawful available required isEqual]
      exact cons_subset_cons _ (induction covers)
  | case5 => cases covers

theorem selects_of_selectionCovers {prefetched required : NftSelection}
    (covers : selectionCovers prefetched required = true) (nft : NftKey)
    (selected : required.Selects nft) : prefetched.Selects nft := by
  cases prefetched with
  | allInContract contract prefetchedCount =>
      cases required with
      | allInContract other requiredCount =>
          rw [selectionCovers, Bool.and_eq_true, decide_eq_true_eq] at covers
          rw [covers.1]
          exact selected
      | explicit nfts =>
          rw [selectionCovers, all_eq_true] at covers
          have same : nft.contractKey = contract := of_decide_eq_true (covers nft selected)
          exact same
  | explicit nfts =>
      cases required with
      | allInContract other requiredCount => cases covers
      | explicit others =>
          exact subset_of_sortedSliceCovers (fun _ _ => NftKey.eq_of_compare) covers selected

theorem seeds_of_sortedSliceCovers {prefetched required : List SeedId}
    (covers : sortedSliceCovers compare prefetched required = true) : required ⊆ prefetched :=
  subset_of_sortedSliceCovers (fun _ _ => Std.LawfulEqOrd.eq_of_compare) covers

def CandidateRecord.Grouped (record : CandidateRecord) : Prop :=
  ∀ relation ∈ record.relations, relation.candidateId = record.id

variable {relations : List SeedCandidateRelation} {id : CandidateId} {record : CandidateRecord}

theorem newRecord_eq_ok {key : ContractKey} (made : newRecord id key relations = .ok record) :
    record.id = id ∧ record.relations = relations := by
  unfold newRecord at made
  split at made
  · cases made
  · split at made
    · cases made
    · cases made
      exact ⟨rfl, rfl⟩

theorem recordOf_eq_ok (made : recordOf relations id = .ok record) :
    record.id = id ∧ record.Grouped := by
  unfold recordOf at made
  split at made
  · cases made
  · next first rest group =>
      have known := newRecord_eq_ok made
      refine ⟨known.1, fun relation member => ?_⟩
      rw [known.2, ← group, groupOf, mem_insertionSort] at member
      rw [known.1]
      exact of_decide_eq_true (mem_filter.mp member).2

variable {records : List CandidateRecord}

theorem prefetchRecords_eq_ok (made : prefetchRecords relations = .ok records) :
    records.map CandidateRecord.id = candidateIds relations ∧
      ∀ record ∈ records, record.Grouped := by
  rw [prefetchRecords] at made
  generalize candidateIds relations = ids at made ⊢
  induction ids generalizing records with
  | nil =>
      cases made
      exact ⟨rfl, fun _ member => (nomatch member)⟩
  | cons id ids induction =>
      rw [mapM_cons] at made
      rcases bind_eq_ok made with ⟨record, isRecord, later⟩
      rcases bind_eq_ok later with ⟨rest, isRest, final⟩
      cases final
      have head := recordOf_eq_ok isRecord
      have tail := induction isRest
      exact ⟨by rw [map_cons, head.1, tail.1], forall_mem_cons.mpr ⟨head.2, tail.2⟩⟩

theorem nodup_candidateIds (relations : List SeedCandidateRelation) :
    (candidateIds relations).Nodup :=
  (perm_insertionSort _ _).nodup_iff.mpr (nodup_dedup _)

theorem mem_candidateIds :
    id ∈ candidateIds relations ↔ ∃ relation ∈ relations, relation.candidateId = id := by
  rw [candidateIds, mem_insertionSort, mem_dedup, mem_map]

theorem candidateId_foldl_mergeRelation (rest : List SeedCandidateRelation)
    (first : SeedCandidateRelation) :
    (rest.foldl mergeRelation first).candidateId = first.candidateId := by
  induction rest generalizing first with
  | nil => rfl
  | cons relation rest induction => exact induction (mergeRelation first relation)

variable {right left : List SeedCandidateRelation}

theorem candidateId_of_mem_mergePrefetchRelations
    (same : ∀ relation ∈ left ++ right, relation.candidateId = id) :
    ∀ relation ∈ mergePrefetchRelations left right, relation.candidateId = id := by
  intro relation member
  rcases mem_filterMap.mp member with ⟨seed, _, merged⟩
  unfold mergedOf at merged
  split at merged
  · cases merged
  · next first rest group =>
      have inGroup : first ∈ (left ++ right).filter fun relation => relation.seedId = seed := by
        rw [group]
        exact mem_cons_self
      cases merged
      change (rest.foldl mergeRelation first).candidateId = id
      rw [candidateId_foldl_mergeRelation]
      exact same first (mem_filter.mp inGroup).1

/-- Merged relations of one candidate make records of that candidate. -/
theorem record_of_merged (same : ∀ relation ∈ left ++ right, relation.candidateId = id)
    (made : prefetchRecords (mergePrefetchRelations left right) = .ok records) :
    ∀ record ∈ records, record.id = id ∧ record.Grouped := by
  have known := prefetchRecords_eq_ok made
  intro record member
  refine ⟨?_, known.2 record member⟩
  have inIds := mem_map_of_mem (f := CandidateRecord.id) member
  rw [known.1, mem_candidateIds] at inIds
  rcases inIds with ⟨relation, inMerged, isId⟩
  rw [← isId]
  exact candidateId_of_mem_mergePrefetchRelations same relation inMerged

end NftData.Analysis
