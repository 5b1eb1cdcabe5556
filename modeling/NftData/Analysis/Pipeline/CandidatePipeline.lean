import NftData.Analysis.Pipeline.PrefetchCoordinator
import NftData.Foundation.Machine

namespace NftData.Analysis

/-! # Candidate pipeline

`process_candidates` takes batches of relations from the dedup task, fetches evidence for their
candidates, and has each candidate analysed, compressed and written. A turn of any of its inner
loops is one step here, and so is everything it waits for. -/

structure ProviderConcurrency where
  alchemy : Nat
  helius : Nat
  other : Nat

/-- What `validate` accepts is positive. -/
structure PipelineConfig where
  memoryLimit : Nat
  networkQueueCapacity : Nat
  analysisQueueCapacity : Nat
  compressionConcurrency : Nat
  writerThreads : Nat
  writerQueueBytes : Nat
  providerConcurrency : ProviderConcurrency
  networkQueuePositive : 0 < networkQueueCapacity
  analysisQueuePositive : 0 < analysisQueueCapacity
  compressionPositive : 0 < compressionConcurrency
  writerPositive : 0 < writerThreads
  writerQueuePositive : 0 < writerQueueBytes
  alchemyPositive : 0 < providerConcurrency.alchemy
  heliusPositive : 0 < providerConcurrency.helius
  otherPositive : 0 < providerConcurrency.other

namespace PipelineConfig

def networkLimit (config : PipelineConfig) : Nat :=
  min config.networkQueueCapacity
    (config.providerConcurrency.alchemy + config.providerConcurrency.helius +
      config.providerConcurrency.other)

def candidateBatchCapacity : Nat := 32

def candidateBacklogLimit (config : PipelineConfig) : Nat :=
  max config.networkQueueCapacity 1 * candidateBatchCapacity

theorem networkLimit_positive (config : PipelineConfig) : 0 < config.networkLimit := by
  have queue := config.networkQueuePositive
  have alchemy := config.alchemyPositive
  unfold networkLimit
  omega

end PipelineConfig

structure NetworkTask where
  candidate : CandidateRecord
  fetchKind : FetchKind
  base : Option (EvidenceBundle × Bool)
  deriving DecidableEq

/-- How a fetch ends. Relations are only verified for a base. -/
inductive FetchOutcome where
  | fetched (bundle : EvidenceBundle)
  | verified (verifications : List RelationVerification)
  | verificationFailed (failure : String)
  | failed (error : String)
  | panicked (payload : String)

def debugKey (key : ContractKey) : String :=
  let chain := match key.chain with
    | .base => "Base"
    | .ethereum => "Ethereum"
    | .polygon => "Polygon"
    | .solana => "Solana"
  "ContractKey \x7b chain: " ++ chain ++ ", contract_address: \"" ++
    String.ofList key.contractAddress ++ "\" \x7d"

def providerError (message : String) : String := "provider error: " ++ message

def failedEvidence (candidate : CandidateRecord) (error : String) : EvidenceBundle where
  candidate := candidate.key
  facts := []
  relationVerifications := []
  failures := [error]
  supplementalQueryFailures := 1

def failedVerification (failure : String) (relation : SeedCandidateRelation) :
    RelationVerification where
  seedId := relation.seedId
  officialControllerContinuity := false
  authorizedReissue := false
  verifiedMigration := false
  officialCollectionRelation := false
  complete := false
  evidenceKeys := []
  failures := [failure]

/-- `sort_by_key` and `dedup_by_key` by seed. -/
def dedupVerifications (verifications : List RelationVerification) :
    List RelationVerification :=
  (verifications.insertionSort fun left right => left.seedId ≤ right.seedId).destutter
    fun left right => left.seedId ≠ right.seedId

def fetchOrExtend (task : NetworkTask) (outcome : FetchOutcome) :
    Option (Except String EvidenceBundle) :=
  match task.base, outcome with
  | none, .fetched bundle => some (.ok bundle)
  | some (evidence, _), .verified verifications =>
      some (.ok { evidence with relationVerifications := dedupVerifications verifications })
  | some (evidence, _), .verificationFailed failure =>
      some (.ok { evidence with
        relationVerifications := task.candidate.relations.map (failedVerification failure)
        failures := evidence.failures ++ ["relation_verification: " ++ failure]
        supplementalQueryFailures := evidence.supplementalQueryFailures + 1 })
  | _, .failed error => some (.error error)
  | _, .panicked payload =>
      some (.error (providerError ("network evidence task panicked: " ++ payload)))
  | _, _ => none

def completionOf (task : NetworkTask) : Except String EvidenceBundle → NetworkCompletion
  | .ok bundle =>
      if bundle.candidate = task.candidate.key then
        ⟨task.candidate, bundle, true, task.fetchKind⟩
      else
        ⟨task.candidate,
          failedEvidence task.candidate (providerError
            ("evidence identity mismatch: expected " ++ debugKey task.candidate.key ++
              ", received " ++ debugKey bundle.candidate)),
          false, task.fetchKind⟩
  | .error error => ⟨task.candidate, failedEvidence task.candidate error, false, task.fetchKind⟩

/-! ## State -/

inductive CpuTaskKind where
  | analysis
  | compress
  deriving DecidableEq

structure CpuTask where
  kind : CpuTaskKind
  candidateId : CandidateId
  deriving DecidableEq

structure PreparedCandidate where
  candidateId : CandidateId
  compressedBytes : Nat
  deriving DecidableEq

/-- Merging the aggregate of a compressed candidate is part of its result. -/
inductive CpuCompletion where
  | analysis (candidate : CandidateId) (result : Except String Unit)
  | compression (candidate : CandidateId) (result : Except String Nat)

def CpuCompletion.task : CpuCompletion → CpuTask
  | .analysis candidate _ => ⟨.analysis, candidate⟩
  | .compression candidate _ => ⟨.compress, candidate⟩

/-- A write in flight has no result yet. -/
structure WriteTask where
  prepared : PreparedCandidate
  result : Option (Except String Unit)

structure AnalysisRequest where
  candidate : CandidateRecord
  evidence : EvidenceBundle
  fetchSucceeded : Bool
  deriving DecidableEq

/-- The last fields remember every frozen record, every completed fetch and every requested
analysis. -/
structure PipelineState where
  finalFetches : List CandidateRecord
  finalBases : KeyedMap CandidateId (EvidenceBundle × Bool)
  prefetch : PrefetchCoordinator
  candidateStreamOpen : Bool
  seen : List CandidateId
  network : List NetworkTask
  jobs : List CpuTask
  activeAnalyses : List CandidateId
  activeCompressions : List CandidateId
  compressionReady : List CandidateId
  admissionReady : List PreparedCandidate
  budgetUsed : Nat
  writeReady : List PreparedCandidate
  writes : List WriteTask
  written : List CandidateId
  memoryUsage : Option Nat
  frozenRecords : List CandidateRecord
  completions : List (NetworkTask × NetworkCompletion)
  analyses : List AnalysisRequest

namespace PipelineState

def initial : PipelineState where
  finalFetches := []
  finalBases := ∅
  prefetch := .empty
  candidateStreamOpen := true
  seen := []
  network := []
  jobs := []
  activeAnalyses := []
  activeCompressions := []
  compressionReady := []
  admissionReady := []
  budgetUsed := 0
  writeReady := []
  writes := []
  written := []
  memoryUsage := none
  frozenRecords := []
  completions := []
  analyses := []

end PipelineState

inductive CandidateRelationsEvent where
  | prefetch (relations : List SeedCandidateRelation)
  | frozen (relations : List SeedCandidateRelation)

inductive PipelineEvent where
  | launch
  | submitCompression
  | admitPrepared
  | startWrite
  | receive (batch : CandidateRelationsEvent)
  /-- Every sender of the channel is gone. -/
  | close
  | network (index : Nat) (outcome : FetchOutcome)
  /-- The task itself could not be joined. -/
  | networkLost (index : Nat) (error : String)
  | cpu (index : Nat) (completion : CpuCompletion)
  | finishWrite (index : Nat) (result : Except String Unit)
  | joinWrite (index : Nat)
  | telemetry (usage : Except String (Option Nat))
  | checkMemory

namespace PipelineState

variable (config : PipelineConfig)

def working (state : PipelineState) : Bool :=
  state.candidateStreamOpen || !state.finalFetches.isEmpty || state.prefetch.hasQueued ||
    !state.network.isEmpty || !state.activeAnalyses.isEmpty ||
    !state.activeCompressions.isEmpty || !state.compressionReady.isEmpty ||
    !state.admissionReady.isEmpty || !state.writeReady.isEmpty || !state.writes.isEmpty

def memoryPressure (state : PipelineState) : Bool :=
  state.memoryUsage.any fun bytes => decide (config.memoryLimit < bytes)

def activeCandidates (state : PipelineState) : Nat :=
  state.network.length + state.activeAnalyses.length + state.activeCompressions.length +
    state.compressionReady.length + state.admissionReady.length + state.writeReady.length +
    state.writes.length

def mayLaunch (state : PipelineState) : Bool :=
  !state.memoryPressure config && decide (state.network.length < config.networkLimit) &&
    decide (state.activeCandidates < config.analysisQueueCapacity)

def maySubmit (state : PipelineState) : Bool :=
  decide (state.activeCompressions.length + state.admissionReady.length <
    config.compressionConcurrency)

def mayReceive (state : PipelineState) : Bool :=
  state.candidateStreamOpen && !state.memoryPressure config &&
    decide (state.finalFetches.length + state.prefetch.planCount <
      config.candidateBacklogLimit)

def launchFinal (state : PipelineState) (candidate : CandidateRecord)
    (rest : List CandidateRecord) : PipelineState :=
  { state with
    finalFetches := rest
    finalBases := state.finalBases.erase candidate.id
    network := state.network ++
      [⟨candidate, .final, state.finalBases.lookup candidate.id⟩] }

def launchPrefetch (state : PipelineState) (candidate : CandidateRecord)
    (prefetch : PrefetchCoordinator) : PipelineState :=
  { state with
    prefetch := prefetch
    network := state.network ++ [⟨candidate, .prefetch, none⟩] }

def launch (state : PipelineState) : Option PipelineState :=
  if state.mayLaunch config then
    match state.finalFetches with
    | candidate :: rest => some (state.launchFinal candidate rest)
    | [] =>
        if state.prefetch.reservedCount < config.networkLimit then
          match state.prefetch.popQueued with
          | (some candidate, prefetch) => some (state.launchPrefetch candidate prefetch)
          | (none, prefetch) => some { state with prefetch := prefetch }
        else
          none
  else
    none

def submitCompression (state : PipelineState) : Option (Except PipelineError PipelineState) :=
  if state.maySubmit config then
    match state.compressionReady with
    | [] => none
    | id :: rest =>
        if id ∈ state.activeCompressions then
          some (.error (.compressionTwice id))
        else
          some (.ok { state with
            compressionReady := rest
            activeCompressions := id :: state.activeCompressions
            jobs := state.jobs ++ [⟨.compress, id⟩] })
  else
    none

def admitPrepared (state : PipelineState) : Option (Except PipelineError PipelineState) :=
  match state.admissionReady with
  | [] => none
  | prepared :: rest =>
      if config.writerQueueBytes < prepared.compressedBytes then
        some (.error (.memoryBudget prepared.compressedBytes config.writerQueueBytes))
      else if config.writerQueueBytes < state.budgetUsed + prepared.compressedBytes then
        some (.ok { state with admissionReady := rest ++ [prepared] })
      else
        some (.ok { state with
          admissionReady := rest
          budgetUsed := state.budgetUsed + prepared.compressedBytes
          writeReady := state.writeReady ++ [prepared] })

def startWrite (state : PipelineState) : Option PipelineState :=
  if state.writes.length < config.writerThreads then
    match state.writeReady with
    | [] => none
    | prepared :: rest =>
        some { state with
          writeReady := rest
          writes := state.writes ++ [⟨prepared, none⟩] }
  else
    none

def queueCandidateAnalysis (state : PipelineState) (candidate : CandidateRecord)
    (evidence : EvidenceBundle) (fetchSucceeded : Bool) : Except PipelineError PipelineState :=
  if candidate.id ∈ state.activeAnalyses then
    .error (.analysisTwice candidate.id)
  else
    .ok { state with
      activeAnalyses := candidate.id :: state.activeAnalyses
      jobs := state.jobs ++ [⟨.analysis, candidate.id⟩]
      analyses := state.analyses ++ [⟨candidate, evidence, fetchSucceeded⟩] }

def pushFinal (state : PipelineState) (candidate : CandidateRecord) : PipelineState :=
  { state with finalFetches := state.finalFetches ++ [candidate] }

def settleFrozen (state : PipelineState) (candidate : CandidateRecord)
    (result : PrefetchResult) : Except PipelineError PipelineState :=
  if selectionCovers result.selection candidate.selection then
    if prefetchCanFinalize result.succeeded result.selection candidate.selection
        result.seedIds candidate.seedIds then
      state.queueCandidateAnalysis candidate result.evidence result.succeeded
    else if result.succeeded then
      .ok ({ state with
        finalBases := state.finalBases.insert candidate.id
          (result.evidence, result.succeeded) }.pushFinal candidate)
    else
      .ok (state.pushFinal candidate)
  else
    .ok (state.pushFinal candidate)

def freezeCandidate (state : PipelineState) (candidate : CandidateRecord) :
    Except PipelineError PipelineState :=
  match state.prefetch.freeze candidate with
  | (.complete candidate result, prefetch) =>
      { state with prefetch := prefetch }.settleFrozen candidate result
  | (.active, prefetch) => .ok { state with prefetch := prefetch }
  | (.final candidate, prefetch) => .ok ({ state with prefetch := prefetch }.pushFinal candidate)

/-- `mark_seen` and the record, for one group after the other. -/
def insertGroups (relations : List SeedCandidateRelation) :
    List CandidateId → List CandidateId →
      Except PipelineError (List CandidateRecord × List CandidateId)
  | [], seen => .ok ([], seen)
  | id :: ids, seen =>
      if id ∈ seen then
        .error (.arrivedTwice id)
      else do
        let record ← recordOf relations id
        let rest ← insertGroups relations ids (seen ++ [id])
        .ok (record :: rest.1, rest.2)

def insertFrozenRelations (seen : List CandidateId) (relations : List SeedCandidateRelation) :
    Except PipelineError (List CandidateRecord × List CandidateId) := do
  let inserted ← insertGroups relations (candidateIds relations) seen
  .ok (inserted.1.insertionSort fun left right => (compare left.key right.key).isLE,
    inserted.2)

def offerCandidate (state : PipelineState) (candidate : CandidateRecord) :
    Except PipelineError PipelineState := do
  let offered ← state.prefetch.offer candidate config.networkQueueCapacity
  .ok { state with prefetch := offered.2 }

def receive (state : PipelineState) : CandidateRelationsEvent →
    Except PipelineError PipelineState
  | .prefetch relations => do
      let candidates ← prefetchRecords relations
      candidates.foldlM (offerCandidate config) state
  | .frozen relations => do
      let inserted ← insertFrozenRelations state.seen relations
      inserted.1.foldlM freezeCandidate { state with
        seen := inserted.2
        frozenRecords := state.frozenRecords ++ inserted.1 }

def finishNetwork (state : PipelineState) (completion : NetworkCompletion) :
    Except PipelineError PipelineState :=
  match completion.fetchKind with
  | .final =>
      state.queueCandidateAnalysis completion.candidate completion.evidence
        completion.succeeded
  | .prefetch =>
      match state.prefetch.finish completion with
      | .error error => .error error
      | .ok (.deferred, prefetch) => .ok { state with prefetch := prefetch }
      | .ok (.frozen candidate result, prefetch) =>
          { state with prefetch := prefetch }.settleFrozen candidate result

def completeFetch (state : PipelineState) (index : Nat) (outcome : FetchOutcome) :
    Option (Except PipelineError PipelineState) :=
  match state.network[index]? with
  | none => none
  | some task =>
      (fetchOrExtend task outcome).map fun fetched =>
        let completion := completionOf task fetched
        { state with
          network := state.network.eraseIdx index
          completions := state.completions ++ [(task, completion)] }.finishNetwork completion

def finishCpu (state : PipelineState) : CpuCompletion → Except PipelineError PipelineState
  | .analysis id result =>
      if id ∈ state.activeAnalyses then
        match result with
        | .error error => .error (.task error)
        | .ok () => .ok { state with
            activeAnalyses := state.activeAnalyses.erase id
            compressionReady := state.compressionReady ++ [id] }
      else
        .error .unknownAnalysis
  | .compression id result =>
      if id ∈ state.activeCompressions then
        match result with
        | .error error => .error (.task error)
        | .ok bytes => .ok { state with
            activeCompressions := state.activeCompressions.erase id
            admissionReady := state.admissionReady ++ [⟨id, bytes⟩] }
      else
        .error .unknownCompression

def completeCpu (state : PipelineState) (index : Nat) (completion : CpuCompletion) :
    Option (Except PipelineError PipelineState) :=
  if state.jobs[index]? = some completion.task ∧
      (!state.activeAnalyses.isEmpty || !state.activeCompressions.isEmpty) then
    some ({ state with jobs := state.jobs.eraseIdx index }.finishCpu completion)
  else
    none

def finishWrite (state : PipelineState) (index : Nat) (result : Except String Unit) :
    Option PipelineState :=
  match state.writes[index]? with
  | some ⟨prepared, none⟩ =>
      some { state with
        writes := state.writes.set index ⟨prepared, some result⟩
        budgetUsed := state.budgetUsed - prepared.compressedBytes }
  | _ => none

def joinWrite (state : PipelineState) (index : Nat) :
    Option (Except PipelineError PipelineState) :=
  match state.writes[index]? with
  | some ⟨prepared, some (.ok ())⟩ =>
      some (.ok { state with
        writes := state.writes.eraseIdx index
        written := state.written ++ [prepared.candidateId] })
  | some ⟨_, some (.error error)⟩ => some (.error (.task error))
  | _ => none

def checkMemory (state : PipelineState) : Option PipelineError :=
  if state.memoryPressure config && state.network.isEmpty && state.activeAnalyses.isEmpty &&
      state.activeCompressions.isEmpty && state.compressionReady.isEmpty &&
      state.admissionReady.isEmpty && state.writeReady.isEmpty && state.writes.isEmpty then
    some (.memoryBudget (state.memoryUsage.getD config.memoryLimit) config.memoryLimit)
  else
    none

def handle (state : PipelineState) : PipelineEvent → Option (Except PipelineError PipelineState)
  | .launch => (state.launch config).map .ok
  | .submitCompression => state.submitCompression config
  | .admitPrepared => state.admitPrepared config
  | .startWrite => (state.startWrite config).map .ok
  | .receive batch =>
      if state.mayReceive config then some (state.receive config batch) else none
  | .close =>
      if state.mayReceive config then
        some (.ok { state with candidateStreamOpen := false })
      else
        none
  | .network index outcome => state.completeFetch index outcome
  | .networkLost index error =>
      if index < state.network.length then
        some (.error (.task ("analysis error: " ++ error)))
      else
        none
  | .cpu index completion => state.completeCpu index completion
  | .finishWrite index result => (state.finishWrite index result).map .ok
  | .joinWrite index => state.joinWrite index
  | .telemetry usage =>
      match usage with
      | .error error => some (.error (.task error))
      | .ok memory => some (.ok { state with memoryUsage := memory })
  | .checkMemory => (state.checkMemory config).map .error

variable {run : Except PipelineError PipelineState} {state : PipelineState}

theorem handle_receive {config : PipelineConfig} {batch : CandidateRelationsEvent}
    (taken : state.handle config (.receive batch) = some run) :
    state.mayReceive config = true ∧ state.receive config batch = run := by
  by_cases gate : state.mayReceive config
  · exact ⟨gate, Option.some.inj ((if_pos gate).symm.trans taken)⟩
  · cases (if_neg gate).symm.trans taken

theorem handle_close {config : PipelineConfig} (taken : state.handle config .close = some run) :
    run = .ok { state with candidateStreamOpen := false } := by
  by_cases gate : state.mayReceive config
  · exact (Option.some.inj ((if_pos gate).symm.trans taken)).symm
  · cases (if_neg gate).symm.trans taken

theorem handle_networkLost {config : PipelineConfig} {index : Nat} {error : String}
    (taken : state.handle config (.networkLost index error) = some run) :
    run = .error (.task ("analysis error: " ++ error)) := by
  by_cases gate : index < state.network.length
  · exact (Option.some.inj ((if_pos gate).symm.trans taken)).symm
  · cases (if_neg gate).symm.trans taken

end PipelineState

/-- The run goes on while the loop has work and no error has ended it. -/
def pipelineStep (config : PipelineConfig) (run : Except PipelineError PipelineState)
    (event : PipelineEvent) : Option (Except PipelineError PipelineState) :=
  match run with
  | .error _ => none
  | .ok state => if state.working then state.handle config event else none

end NftData.Analysis
