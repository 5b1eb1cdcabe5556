import NftData.Analysis.Pipeline.CandidateRecord
import NftData.Foundation.KeyedMap

namespace NftData.Analysis

/-! # Prefetch coordinator

Candidates are fetched before all their matches are known. A candidate is queued, fetched and
kept until its matches freeze, and may be queued again when its selection grows. -/

structure RelationVerification where
  seedId : SeedId
  officialControllerContinuity : Bool
  authorizedReissue : Bool
  verifiedMigration : Bool
  officialCollectionRelation : Bool
  complete : Bool
  evidenceKeys : List Text
  failures : List String
  deriving DecidableEq

/-- What is known of a candidate. The facts of the chain are not looked into here. -/
structure EvidenceBundle where
  candidate : ContractKey
  facts : Text
  relationVerifications : List RelationVerification
  failures : List String
  supplementalQueryFailures : Nat
  deriving DecidableEq

inductive FetchKind where
  | prefetch
  | final
  deriving DecidableEq

structure NetworkCompletion where
  candidate : CandidateRecord
  evidence : EvidenceBundle
  succeeded : Bool
  fetchKind : FetchKind
  deriving DecidableEq

structure PrefetchResult where
  evidence : EvidenceBundle
  succeeded : Bool
  selection : NftSelection
  seedIds : List SeedId
  deriving DecidableEq

def PrefetchResult.ofCompletion (completion : NetworkCompletion) : PrefetchResult where
  evidence := completion.evidence
  succeeded := completion.succeeded
  selection := completion.candidate.selection
  seedIds := completion.candidate.seedIds

inductive PrefetchStage where
  | queued (candidate : CandidateRecord)
  | active (upgrade frozen : Option CandidateRecord)
  | complete (result : PrefetchResult)
  deriving DecidableEq

structure PrefetchEntry where
  relations : List SeedCandidateRelation
  stage : PrefetchStage
  deriving DecidableEq

namespace PrefetchEntry

def isQueued (entry : PrefetchEntry) : Bool :=
  match entry.stage with
  | .queued _ => true
  | _ => false

def isActive (entry : PrefetchEntry) : Bool :=
  match entry.stage with
  | .active _ _ => true
  | _ => false

def isComplete (entry : PrefetchEntry) : Bool :=
  match entry.stage with
  | .complete _ => true
  | _ => false

def isFrozen (entry : PrefetchEntry) : Bool :=
  match entry.stage with
  | .active _ (some _) => true
  | _ => false

def isReserved (entry : PrefetchEntry) : Bool := entry.isActive || entry.isComplete

/-- Entries that are not frozen yet. -/
def isPlanned (entry : PrefetchEntry) : Bool := !entry.isFrozen

end PrefetchEntry

structure PrefetchCoordinator where
  order : List CandidateId
  entries : KeyedMap CandidateId PrefetchEntry
  queuedCount : Nat
  reservedCount : Nat
  planCount : Nat

inductive FrozenPrefetch where
  | complete (candidate : CandidateRecord) (result : PrefetchResult)
  | active
  | final (candidate : CandidateRecord)

inductive PrefetchFinish where
  | deferred
  | frozen (candidate : CandidateRecord) (result : PrefetchResult)

namespace PrefetchCoordinator

def empty : PrefetchCoordinator := ⟨[], ∅, 0, 0, 0⟩

def setEntry (coordinator : PrefetchCoordinator) (id : CandidateId) (entry : PrefetchEntry) :
    PrefetchCoordinator :=
  { coordinator with entries := coordinator.entries.insert id entry }

def requeue (coordinator : PrefetchCoordinator) (id : CandidateId) (entry : PrefetchEntry) :
    PrefetchCoordinator :=
  { coordinator with
    order := id :: coordinator.order
    entries := coordinator.entries.insert id entry
    queuedCount := coordinator.queuedCount + 1
    reservedCount := coordinator.reservedCount - 1 }

/-- The entry of a known candidate takes in a record with all relations so far. -/
def upgradeEntry (coordinator : PrefetchCoordinator) (id : CandidateId) (stage : PrefetchStage)
    (upgraded : CandidateRecord) : PrefetchCoordinator :=
  match stage with
  | .queued _ => coordinator.setEntry id ⟨upgraded.relations, .queued upgraded⟩
  | .active _ frozen =>
      coordinator.setEntry id ⟨upgraded.relations, .active (some upgraded) frozen⟩
  | .complete result =>
      if selectionCovers result.selection upgraded.selection then
        coordinator.setEntry id ⟨upgraded.relations, .complete result⟩
      else
        coordinator.requeue id ⟨upgraded.relations, .queued upgraded⟩

def addEntry (coordinator : PrefetchCoordinator) (candidate : CandidateRecord) :
    PrefetchCoordinator where
  order := coordinator.order ++ [candidate.id]
  entries := coordinator.entries.insert candidate.id ⟨candidate.relations, .queued candidate⟩
  queuedCount := coordinator.queuedCount + 1
  reservedCount := coordinator.reservedCount
  planCount := coordinator.planCount + 1

def offer (coordinator : PrefetchCoordinator) (candidate : CandidateRecord) (capacity : Nat) :
    Except PipelineError (Bool × PrefetchCoordinator) :=
  match coordinator.entries.lookup candidate.id with
  | some entry =>
      -- the frozen record is authoritative
      if entry.isFrozen then
        .ok (true, coordinator)
      else
        match prefetchRecords (mergePrefetchRelations entry.relations candidate.relations) with
        | .error error => .error error
        | .ok [] => .error .noMergedRecord
        | .ok (upgraded :: _) =>
            .ok (true, coordinator.upgradeEntry candidate.id entry.stage upgraded)
  | none =>
      if capacity ≤ coordinator.planCount then
        .ok (false, coordinator)
      else
        .ok (true, coordinator.addEntry candidate)

def activate (coordinator : PrefetchCoordinator) (id : CandidateId)
    (relations : List SeedCandidateRelation) (order : List CandidateId) :
    PrefetchCoordinator where
  order := order
  entries := coordinator.entries.insert id ⟨relations, .active none none⟩
  queuedCount := coordinator.queuedCount - 1
  reservedCount := coordinator.reservedCount + 1
  planCount := coordinator.planCount

def popFrom (coordinator : PrefetchCoordinator) :
    List CandidateId → Option CandidateRecord × PrefetchCoordinator
  | [] => (none, { coordinator with order := [] })
  | id :: rest =>
      match coordinator.entries.lookup id with
      | some ⟨relations, .queued candidate⟩ =>
          (some candidate, coordinator.activate id relations rest)
      | _ => coordinator.popFrom rest

def popQueued (coordinator : PrefetchCoordinator) :
    Option CandidateRecord × PrefetchCoordinator :=
  coordinator.popFrom coordinator.order

def freeze (coordinator : PrefetchCoordinator) (candidate : CandidateRecord) :
    FrozenPrefetch × PrefetchCoordinator :=
  match coordinator.entries.lookup candidate.id with
  | none => (.final candidate, coordinator)
  | some ⟨_, .complete result⟩ =>
      (.complete candidate result,
        { coordinator with
          entries := coordinator.entries.erase candidate.id
          reservedCount := coordinator.reservedCount - 1
          planCount := coordinator.planCount - 1 })
  | some ⟨_, .queued _⟩ =>
      (.final candidate,
        { coordinator with
          entries := coordinator.entries.erase candidate.id
          queuedCount := coordinator.queuedCount - 1
          planCount := coordinator.planCount - 1 })
  | some ⟨relations, .active _ _⟩ =>
      (.active,
        { coordinator with
          entries := coordinator.entries.insert candidate.id
            ⟨relations, .active none (some candidate)⟩
          planCount := coordinator.planCount - 1 })

def finish (coordinator : PrefetchCoordinator) (completion : NetworkCompletion) :
    Except PipelineError (PrefetchFinish × PrefetchCoordinator) :=
  let id := completion.candidate.id
  let result := PrefetchResult.ofCompletion completion
  match coordinator.entries.lookup id with
  | none => .ok (.deferred, coordinator)
  | some ⟨_, .active _ (some candidate)⟩ =>
      .ok (.frozen candidate result,
        { coordinator with
          entries := coordinator.entries.erase id
          reservedCount := coordinator.reservedCount - 1 })
  | some ⟨relations, .active (some upgrade) none⟩ =>
      if selectionCovers result.selection upgrade.selection then
        .ok (.deferred, coordinator.setEntry id ⟨relations, .complete result⟩)
      else
        .ok (.deferred, coordinator.requeue id ⟨relations, .queued upgrade⟩)
  | some ⟨relations, .active none none⟩ =>
      .ok (.deferred, coordinator.setEntry id ⟨relations, .complete result⟩)
  | some _ => .error (.prefetchOutsideActive id)

def hasQueued (coordinator : PrefetchCoordinator) : Bool := decide (0 < coordinator.queuedCount)

def queuedIds (coordinator : PrefetchCoordinator) : List CandidateId :=
  keysWhere PrefetchEntry.isQueued coordinator.entries

def activeIds (coordinator : PrefetchCoordinator) : List CandidateId :=
  keysWhere PrefetchEntry.isActive coordinator.entries

def reservedIds (coordinator : PrefetchCoordinator) : List CandidateId :=
  keysWhere PrefetchEntry.isReserved coordinator.entries

def plannedIds (coordinator : PrefetchCoordinator) : List CandidateId :=
  keysWhere PrefetchEntry.isPlanned coordinator.entries

def frozenIds (coordinator : PrefetchCoordinator) : List CandidateId :=
  keysWhere PrefetchEntry.isFrozen coordinator.entries

def Waits (coordinator : PrefetchCoordinator) (record : CandidateRecord) : Prop :=
  ∃ id relations upgrade,
    coordinator.entries.lookup id = some ⟨relations, .active upgrade (some record)⟩

def BelongsTo (id : CandidateId) (entry : PrefetchEntry) : Prop :=
  (∀ relation ∈ entry.relations, relation.candidateId = id) ∧
    match entry.stage with
    | .queued candidate => candidate.id = id
    | .active upgrade frozen =>
        (∀ candidate ∈ upgrade, candidate.id = id) ∧ ∀ candidate ∈ frozen, candidate.id = id
    | .complete _ => True

/-- The counters count what they are named for, and every queued id is in the order. -/
structure Accounted (coordinator : PrefetchCoordinator) (capacity : Nat) : Prop where
  queued : coordinator.queuedCount = coordinator.queuedIds.length
  reserved : coordinator.reservedCount = coordinator.reservedIds.length
  planned : coordinator.planCount = coordinator.plannedIds.length
  bound : coordinator.planCount ≤ capacity
  ordered : ∀ id ∈ coordinator.queuedIds, id ∈ coordinator.order
  belongs : ∀ id entry, coordinator.entries.lookup id = some entry → BelongsTo id entry

theorem accounted_empty (capacity : Nat) : empty.Accounted capacity :=
  ⟨rfl, rfl, rfl, Nat.zero_le _, fun _ member => (nomatch member), fun _ _ found => by
    cases found⟩

variable {coordinator next : PrefetchCoordinator} {capacity : Nat} {id : CandidateId}
  {old new : Option PrefetchEntry}

/-- The counters follow a change of one entry, if each is adjusted by that entry. -/
theorem Accounted.replace (accounted : coordinator.Accounted capacity)
    (replaced : Replaced coordinator.entries next.entries id old new)
    (queued : (keyIf PrefetchEntry.isQueued id old).length + next.queuedCount =
      (keyIf PrefetchEntry.isQueued id new).length + coordinator.queuedCount)
    (reserved : (keyIf PrefetchEntry.isReserved id old).length + next.reservedCount =
      (keyIf PrefetchEntry.isReserved id new).length + coordinator.reservedCount)
    (planned : (keyIf PrefetchEntry.isPlanned id old).length + next.planCount =
      (keyIf PrefetchEntry.isPlanned id new).length + coordinator.planCount)
    (bound : next.planCount ≤ capacity)
    (ordered : ∀ other ∈ coordinator.queuedIds, other ≠ id → other ∈ coordinator.order →
      other ∈ next.order)
    (own : ∀ entry ∈ new, entry.isQueued = true → id ∈ next.order)
    (belongs : ∀ entry ∈ new, BelongsTo id entry) : next.Accounted capacity := by
  have queuedLength := replaced.length PrefetchEntry.isQueued
  have reservedLength := replaced.length PrefetchEntry.isReserved
  have plannedLength := replaced.length PrefetchEntry.isPlanned
  have counts := (⟨accounted.queued, accounted.reserved, accounted.planned⟩ : _ ∧ _ ∧ _)
  unfold queuedIds reservedIds plannedIds at counts
  constructor
  · unfold queuedIds
    omega
  · unfold reservedIds
    omega
  · unfold plannedIds
    omega
  · exact bound
  · intro other member
    rcases replaced.mem_keysWhere_next member with known | isOwn
    · exact ordered other known.2 known.1 (accounted.ordered other known.2)
    · rcases isOwn with ⟨same, entry, isNew, isQueued⟩
      exact same ▸ own entry isNew isQueued
  · intro other entry found
    by_cases same : other = id
    · rw [same, replaced.lookup_self] at found
      exact same ▸ belongs entry found
    · rw [replaced.lookup_ne same] at found
      exact accounted.belongs other entry found

variable {record : CandidateRecord}

theorem Waits.of_replaced (replaced : Replaced coordinator.entries next.entries id old new)
    (waits : next.Waits record) :
    coordinator.Waits record ∨
      ∃ relations upgrade, new = some ⟨relations, .active upgrade (some record)⟩ := by
  rcases waits with ⟨other, relations, upgrade, found⟩
  by_cases same : other = id
  · rw [same, replaced.lookup_self] at found
    exact .inr ⟨relations, upgrade, found⟩
  · rw [replaced.lookup_ne same] at found
    exact .inl ⟨other, relations, upgrade, found⟩

theorem Waits.of_unfrozen (replaced : Replaced coordinator.entries next.entries id old new)
    (unfrozen : keyIf PrefetchEntry.isFrozen id new = []) (waits : next.Waits record) :
    coordinator.Waits record := by
  rcases waits.of_replaced replaced with before | own
  · exact before
  · rcases own with ⟨relations, upgrade, isNew⟩
    rw [isNew] at unfrozen
    cases unfrozen

end PrefetchCoordinator

end NftData.Analysis
