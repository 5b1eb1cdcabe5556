import NftData.TopContracts.Batch.Files

namespace NftData.TopContracts

/-! # Runs and seed attempts

A run has an identity of its own, which later batches resume as long as they do the same
work. Within a run every attempt at a seed has an identity, which its reports and its
completion marker carry. -/

open Text (ofNat)

/-- `Display` of an integer. -/
def integerText (value : Int) : Text := (toString value).toList

section Identities

variable {Stats : Type} (libraries : BatchLibraries Stats)

def barred (parts : List Text) : Text := List.intercalate "|".toList parts

def newSeedAttemptId (runId : Text) (seed : ContractId) (nanos : Int) (pid : Nat) : Text :=
  libraries.digest (barred ["v1".toList, runId, seed.chain.asStr, seed.address,
    integerText nanos, ofNat pid])

def analysisFingerprint (runId : Text) (seed : ContractId) (secondaryChain : Chain) : Text :=
  libraries.digest (barred ["v5".toList, runId, seed.chain.asStr, seed.address,
    secondaryChain.asStr])

def expectedScopeFingerprints (runId : Text) (seed : ContractId) : List (Text × Text) :=
  Chain.all.map fun chain => (chain.asStr, analysisFingerprint libraries runId seed chain)

end Identities

section Runs

/-- The fields of `MultiChainBatchRequest` that a run depends on. Fractions are recorded as
their bits. -/
structure MultiChainBatchRequest where
  alchemyNetworks : List (Chain × Text)
  nameThreshold : Nat
  metadataThreshold : Nat
  maxTokensPerContract : Nat
  maxRecallRows : Nat
  maxHistoryTransactionsPerAsset : Nat
  maxHistoryTransactionsPerCollection : Nat
  maxHeliusAssetsPerCollection : Nat
  minCycleSize : Nat
  minPathLength : Nat
  centerFanoutThreshold : Nat
  concentrationTopPct : Nat
  analysisTimestamp : Int
  refreshScopedCache : Bool

variable {Stats : Type} (libraries : BatchLibraries Stats)

def ContractId.text (seed : ContractId) : Text := seed.chain.asStr ++ ":".toList ++ seed.address

def seedSetIdentity (seeds : List ContractId) : Text :=
  libraries.digest (List.intercalate "\n".toList
    ((seeds.map ContractId.text).mergeSort fun left right => decide (left ≤ right)))

def batchConfigFingerprint (request : MultiChainBatchRequest) (seedSetIdentity : Text) : Text :=
  let networks := List.intercalate ",".toList
    (request.alchemyNetworks.map fun (chain, network) => chain.asStr ++ "=".toList ++ network)
  libraries.digest (barred ["v2".toList, seedSetIdentity, ofNat request.nameThreshold,
    ofNat request.metadataThreshold, ofNat request.maxTokensPerContract,
    ofNat request.maxRecallRows, ofNat request.maxHistoryTransactionsPerAsset,
    ofNat request.maxHistoryTransactionsPerCollection,
    ofNat request.maxHeliusAssetsPerCollection, networks, ofNat request.minCycleSize,
    ofNat request.minPathLength, ofNat request.centerFanoutThreshold,
    ofNat request.concentrationTopPct, integerText request.analysisTimestamp])

/-- The conditions under which `resolve_run_manifest` resumes a run. -/
def RunManifest.Resumable (existing : RunManifest)
    (configFingerprint seedSetIdentity : Text) (snapshotIdentities : List (Text × Text)) : Prop :=
  existing.schemaVersion = runManifestSchemaVersion ∧
    existing.status = .incomplete ∧
    existing.configFingerprint = configFingerprint ∧
    existing.seedSetIdentity = seedSetIdentity ∧
    existing.snapshotIdentities = snapshotIdentities

instance (existing : RunManifest) (configFingerprint seedSetIdentity : Text)
    (snapshotIdentities : List (Text × Text)) :
    Decidable (existing.Resumable configFingerprint seedSetIdentity snapshotIdentities) :=
  inferInstanceAs (Decidable (_ ∧ _))

def newRunManifest (request : MultiChainBatchRequest) (configFingerprint seedSetIdentity : Text)
    (snapshotIdentities : List (Text × Text)) (now nanos : Int) (pid : Nat) : RunManifest :=
  let analysisTimestamp :=
    if 0 < request.analysisTimestamp then request.analysisTimestamp else now
  { schemaVersion := runManifestSchemaVersion
    runId := libraries.digest (barred [integerText nanos, ofNat pid, configFingerprint,
      seedSetIdentity, integerText analysisTimestamp])
    analysisTimestamp := analysisTimestamp
    configFingerprint := configFingerprint
    seedSetIdentity := seedSetIdentity
    snapshotIdentities := snapshotIdentities
    startedAt := now
    updatedAt := now
    status := .incomplete }

def resolveRunManifest (directory : OutputDirectory Stats) (request : MultiChainBatchRequest)
    (configFingerprint seedSetIdentity : Text) (snapshotIdentities : List (Text × Text))
    (now nanos : Int) (pid : Nat) : RunManifest :=
  let fresh := newRunManifest libraries request configFingerprint seedSetIdentity
    snapshotIdentities now nanos pid
  if request.refreshScopedCache then fresh
  else
    match directory.read .manifest with
    | some (.manifest existing) =>
        if existing.Resumable configFingerprint seedSetIdentity snapshotIdentities then existing
        else fresh
    | _ => fresh

end Runs

section Reports

variable {Stats : Type} (libraries : BatchLibraries Stats) (directory : OutputDirectory Stats)

def scopedSeedReport (seed : ContractId) (secondaryChain : Chain)
    (fingerprint seedAttemptId : Text) (report : SingleReportPayload Stats) :
    ScopedSeedReport Stats where
  schemaVersion := scopedSeedReportSchemaVersion
  analysisFingerprint := fingerprint
  seedAttemptId := seedAttemptId
  scope := if seed.chain = secondaryChain then "intra_chain".toList else "chain_matrix".toList
  primaryChain := seed.chain.asStr
  secondaryChain := secondaryChain.asStr
  report := report

/-- The conditions of `load_cached_seed_report`. -/
def ScopedSeedReport.IsFor (cached : ScopedSeedReport Stats) (seed : ContractId)
    (secondaryChain : Chain) (fingerprint seedAttemptId : Text) : Prop :=
  cached.schemaVersion = scopedSeedReportSchemaVersion ∧
    cached.analysisFingerprint = fingerprint ∧
    cached.seedAttemptId = seedAttemptId ∧
    cached.primaryChain = seed.chain.asStr ∧
    cached.secondaryChain = secondaryChain.asStr ∧
    cached.report.seedContract.chain.equalsIgnoringAsciiCase seed.chain.asStr ∧
    cached.report.seedContract.contractAddress = seed.address

instance (cached : ScopedSeedReport Stats) (seed : ContractId) (secondaryChain : Chain)
    (fingerprint seedAttemptId : Text) :
    Decidable (cached.IsFor seed secondaryChain fingerprint seedAttemptId) :=
  inferInstanceAs (Decidable (_ ∧ _))

def loadCachedSeedReport (seed : ContractId) (secondaryChain : Chain)
    (fingerprint seedAttemptId : Text) : Option Stats :=
  match directory.read (.report seed secondaryChain) with
  | some (.report cached) =>
      match libraries.readBack cached.report.paperStats with
      | some paperStats =>
          if cached.IsFor seed secondaryChain fingerprint seedAttemptId then some paperStats
          else none
      | none => none
  | _ => none

def AllLoad (runId : Text) (seed : ContractId) (seedAttemptId : Text) : Prop :=
  ∀ chain ∈ Chain.all, (loadCachedSeedReport libraries directory seed chain
    (analysisFingerprint libraries runId seed chain) seedAttemptId).isSome

instance (runId : Text) (seed : ContractId) (seedAttemptId : Text) :
    Decidable (AllLoad libraries directory runId seed seedAttemptId) :=
  inferInstanceAs (Decidable (∀ chain ∈ Chain.all, _))

def seedCompletionMarker (runId : Text) (seed : ContractId) (seedAttemptId : Text) :
    SeedCompletionMarker where
  schemaVersion := seedCompletionSchemaVersion
  runId := runId
  seedAttemptId := seedAttemptId
  primaryChain := seed.chain.asStr
  seedAddress := seed.address
  scopeFingerprints := expectedScopeFingerprints libraries runId seed

/-- The conditions of `committed_seed_attempt` on the marker. -/
def SeedCompletionMarker.IsFor (marker : SeedCompletionMarker) (runId : Text)
    (seed : ContractId) : Prop :=
  marker.schemaVersion = seedCompletionSchemaVersion ∧
    marker.runId = runId ∧
    marker.primaryChain = seed.chain.asStr ∧
    marker.seedAddress = seed.address ∧
    marker.seedAttemptId ≠ [] ∧
    marker.scopeFingerprints = expectedScopeFingerprints libraries runId seed

instance (marker : SeedCompletionMarker) (runId : Text) (seed : ContractId) :
    Decidable (marker.IsFor libraries runId seed) :=
  inferInstanceAs (Decidable (_ ∧ _))

def committedSeedAttempt (seed : ContractId) (runId : Text) : Option Text :=
  match directory.read (.marker seed) with
  | some (.marker marker) =>
      if marker.IsFor libraries runId seed ∧
          AllLoad libraries directory runId seed marker.seedAttemptId then
        some marker.seedAttemptId
      else none
  | _ => none

def seedScopesToProcess (seed : ContractId) (runId : Text) : List (Chain × Text) :=
  if (committedSeedAttempt libraries directory seed runId).isSome then []
  else Chain.all.map fun chain => (chain, analysisFingerprint libraries runId seed chain)

variable {libraries directory} {seed : ContractId} {runId : Text}

theorem seedScopesToProcess_eq_nil_iff :
    seedScopesToProcess libraries directory seed runId = [] ↔
      (committedSeedAttempt libraries directory seed runId).isSome := by
  simp [seedScopesToProcess, Chain.all, Option.isSome_iff_ne_none]

variable {seedAttemptId : Text}

theorem loadCachedSeedReport_eq_some_iff {chain : Chain} {fingerprint : Text} {stats : Stats} :
    loadCachedSeedReport libraries directory seed chain fingerprint seedAttemptId = some stats ↔
      ∃ cached, directory.read (.report seed chain) = some (.report cached) ∧
        libraries.readBack cached.report.paperStats = some stats ∧
        cached.IsFor seed chain fingerprint seedAttemptId := by
  rw [loadCachedSeedReport]
  split
  · next cached found =>
      rw [found]
      split
      · next paperStats isRead =>
          simp [isRead, and_comm]
      · next notRead => simp [notRead]
  · next other =>
      constructor
      · intro impossible
        cases impossible
      · rintro ⟨cached, found, _⟩
        exact absurd found (other cached)

theorem committedSeedAttempt_eq_some_iff :
    committedSeedAttempt libraries directory seed runId = some seedAttemptId ↔
      ∃ marker, directory.read (.marker seed) = some (.marker marker) ∧
        marker.IsFor libraries runId seed ∧ marker.seedAttemptId = seedAttemptId ∧
        AllLoad libraries directory runId seed seedAttemptId := by
  rw [committedSeedAttempt]
  split
  · next marker found =>
      rw [found]
      constructor
      · intro committed
        rw [Option.ite_none_right_eq_some, Option.some.injEq] at committed
        rcases committed with ⟨⟨isFor, loads⟩, rfl⟩
        exact ⟨marker, rfl, isFor, rfl, loads⟩
      · rintro ⟨other, same, isFor, rfl, loads⟩
        cases same
        rw [if_pos ⟨isFor, loads⟩]
  · next other =>
      constructor
      · intro impossible
        cases impossible
      · rintro ⟨marker, found, _⟩
        exact absurd found (other marker)

end Reports

end NftData.TopContracts
