import NftData.TopContracts.Batch.Attempts

namespace NftData.TopContracts

/-! # Steps of a batch

A batch process moves the pipelines of its seeds in any order. Every write or removal of a
file is a step of its own, and the process may end between any two steps. A write either
happens or fails and changes nothing. -/

/-- One attempt at a seed within a run. -/
structure SeedAttempt where
  id : Text
  runId : Text
  seed : ContractId
  deriving DecidableEq, Repr

inductive AppError where
  | http (message : Text)
  | duckDb (message : Text)
  | postgres (message : Text)
  | io (message : Text)
  | json (message : Text)
  | invalidData (message : Text)
  | resourceLimit (message : Text)
  | interrupted (message : Text)
  | notImplemented (message : Text)
  deriving DecidableEq, Repr

namespace AppError

def text : AppError → Text
  | .http message => "http error: ".toList ++ message
  | .duckDb message => "duckdb error: ".toList ++ message
  | .postgres message => "postgres error: ".toList ++ message
  | .io message => "io error: ".toList ++ message
  | .json message => "json error: ".toList ++ message
  | .invalidData message => "invalid data: ".toList ++ message
  | .resourceLimit message => "resource limit exceeded: ".toList ++ message
  | .interrupted message => "interrupted: ".toList ++ message
  | .notImplemented message => "not implemented: ".toList ++ message

def isHttp : AppError → Bool
  | .http _ => true
  | _ => false

end AppError

def failure (seed : ContractId) (secondaryChain : Option Chain) (stage : Text)
    (error : AppError) : BatchFailurePayload where
  primaryChain := seed.chain.asStr
  seedAddress := seed.address
  secondaryChain := (secondaryChain.map Chain.asStr).getD []
  stage := stage
  provider :=
    if secondaryChain = some .solana ∨ secondaryChain = none ∧ seed.chain = .solana then
      "helius".toList
    else "alchemy_opensea".toList
  retryable := error.isHttp
  error := error.text

/-- Where the analysis of one secondary chain may fail. -/
inductive AnalysisStage where
  | loadSnapshot
  | compactCandidatePlan
  | analyzeCandidateChain
  deriving DecidableEq, Repr

def AnalysisStage.text : AnalysisStage → Text
  | .loadSnapshot => "load_snapshot".toList
  | .compactCandidatePlan => "compact_candidate_plan".toList
  | .analyzeCandidateChain => "analyze_candidate_chain".toList

structure SeedPipelineOutput where
  failures : List BatchFailurePayload
  cancelled : Bool
  cached : Bool

/-- The variables of a seed pipeline once it has an attempt: the chains that are left, with
their fingerprints, those whose reports are written and the failures. -/
structure SeedRun where
  attempt : SeedAttempt
  missingChains : List (Chain × Text)
  completedChains : Finset Chain
  failures : List BatchFailurePayload

def SeedRun.fail (run : SeedRun) (entry : BatchFailurePayload) : SeedRun :=
  { run with failures := run.failures ++ [entry] }

inductive SeedPipeline (Stats : Type) where
  | waiting
  | invalidating (missingChains : List (Chain × Text))
  | fetching (run : SeedRun)
  | scanning (run : SeedRun)
  | writing (run : SeedRun) (scope : Chain × Text) (report : SingleReportPayload Stats)
  | finished (output : SeedPipelineOutput)
  | collected

def SeedPipeline.isCollected {Stats : Type} : SeedPipeline Stats → Bool
  | .collected => true
  | _ => false

def SeedPipeline.run? {Stats : Type} : SeedPipeline Stats → Option SeedRun
  | .fetching run => some run
  | .scanning run => some run
  | .writing run _ _ => some run
  | _ => none

inductive BatchPhase (Stats : Type) where
  | starting
  | running
  | interrupted
  | aggregated (result : MultiChainBatchResult Stats)
  | summarized (result : MultiChainBatchResult Stats)
  | reported (result : MultiChainBatchResult Stats)

structure BatchProcess (Stats : Type) where
  seeds : List ContractId
  manifest : RunManifest
  phase : BatchPhase Stats
  pipelines : ContractId → SeedPipeline Stats
  failures : List BatchFailurePayload
  cancellationRequested : Bool

/-- What the history of the directory was: the attempts begun, the failures that they
recorded and the attempt that wrote each report last. -/
structure BatchHistory where
  attempts : List SeedAttempt
  failures : List (SeedAttempt × BatchFailurePayload)
  writer : ContractId → Chain → Option SeedAttempt

/-- An output directory, the process that holds its lock and the history. -/
structure BatchWorld (Stats : Type) where
  directory : OutputDirectory Stats
  process : Option (BatchProcess Stats)
  history : BatchHistory

structure BatchLaunch where
  request : MultiChainBatchRequest
  rows : List ContractId
  snapshotIdentities : List (Text × Text)
  now : Int
  nanos : Int
  pid : Nat

inductive SeedAction (Stats : Type) where
  | begin
  | invalidate (nanos : Int) (pid : Nat)
  | fetchContext (error : Option AppError)
  | analyze (result : Except (AnalysisStage × AppError) (SingleReportPayload Stats))
  | writeReport (error : Option AppError)
  | commit (error : Option AppError)

inductive BatchEvent (Stats : Type) where
  | start (launch : BatchLaunch)
  | writeManifest
  | requestCancellation
  | act (seed : ContractId) (action : SeedAction Stats)
  | collect (seed : ContractId)
  | interrupt (now : Int)
  | aggregate
  | writeSummary
  | writeFailures
  | finish (now : Int)
  | crash

/-- The loop of `read_seed_contracts` over the contracts of its rows. -/
def collectSeeds : List ContractId → List ContractId → Option (List ContractId)
  | [], seeds => some seeds
  | seed :: rows, seeds => if seed ∈ seeds then none else collectSeeds rows (seeds ++ [seed])

def readSeedContracts (rows : List ContractId) : Option (List ContractId) :=
  (collectSeeds rows []).bind fun seeds => if seeds = [] then none else some seeds

variable {seeds rows : List ContractId}

theorem nodup_collectSeeds {all : List ContractId} (distinct : seeds.Nodup)
    (collected : collectSeeds rows seeds = some all) : all.Nodup := by
  induction rows generalizing seeds with
  | nil =>
      cases collected
      exact distinct
  | cons seed rows induction =>
      rw [collectSeeds, Option.ite_none_left_eq_some] at collected
      exact induction (List.nodup_append_comm.mp (distinct.cons collected.1)) collected.2

theorem nodup_readSeedContracts (collected : readSeedContracts rows = some seeds) :
    seeds.Nodup := by
  rcases Option.bind_eq_some_iff.mp collected with ⟨all, isAll, rest⟩
  rw [Option.ite_none_left_eq_some, Option.some.injEq] at rest
  exact rest.2 ▸ nodup_collectSeeds List.nodup_nil isAll

namespace BatchWorld

section Seeds

variable {Stats : Type} (libraries : BatchLibraries Stats) (world : BatchWorld Stats)
  (process : BatchProcess Stats) (seed : ContractId)

def withPipeline (pipeline : SeedPipeline Stats) : BatchWorld Stats :=
  { world with
    process := some { process with
      pipelines := Function.update process.pipelines seed pipeline } }

def recordFailure (attempt : SeedAttempt) (entry : BatchFailurePayload) : BatchWorld Stats :=
  { world with
    history := { world.history with
      failures := (attempt, entry) :: world.history.failures } }

def beginSeed : BatchWorld Stats :=
  let missingChains :=
    seedScopesToProcess libraries world.directory seed process.manifest.runId
  if process.cancellationRequested then
    world.withPipeline process seed (.finished ⟨[], true, false⟩)
  else if missingChains = [] then
    world.withPipeline process seed (.finished ⟨[], false, true⟩)
  else world.withPipeline process seed (.invalidating missingChains)

/-- Remove the completion marker and begin an attempt. No two attempts share an identity. -/
def invalidate (missingChains : List (Chain × Text)) (nanos : Int) (pid : Nat) :
    Option (BatchWorld Stats) :=
  let attempt : SeedAttempt :=
    ⟨newSeedAttemptId libraries process.manifest.runId seed nanos pid,
      process.manifest.runId, seed⟩
  if attempt.id ∈ world.history.attempts.map SeedAttempt.id then none
  else
    let begun : BatchWorld Stats :=
      { world with
        directory := world.directory.remove (.marker seed)
        history := { world.history with attempts := attempt :: world.history.attempts } }
    some (begun.withPipeline process seed (.fetching ⟨attempt, missingChains, ∅, []⟩))

def endSeed (run : SeedRun) : BatchWorld Stats :=
  world.withPipeline process seed
    (.finished ⟨run.failures, process.cancellationRequested, false⟩)

def fetchContext (run : SeedRun) : Option AppError → BatchWorld Stats
  | none => world.withPipeline process seed (.scanning run)
  | some error =>
      let entry := failure seed none "fetch_seed_context".toList error
      (world.recordFailure run.attempt entry).endSeed process seed (run.fail entry)

def analyze (run : SeedRun) (scope : Chain × Text) (missingChains : List (Chain × Text))
    (result : Except (AnalysisStage × AppError) (SingleReportPayload Stats)) :
    BatchWorld Stats :=
  if process.cancellationRequested then world.endSeed process seed run
  else
    let next := { run with missingChains := missingChains }
    match result with
    | .ok report => world.withPipeline process seed (.writing next scope report)
    | .error (stage, error) =>
        let entry := failure seed (some scope.1) stage.text error
        (world.recordFailure run.attempt entry).withPipeline process seed
          (.scanning (next.fail entry))

/-- `write_scoped_seed_report`. -/
def writeReport (run : SeedRun) (scope : Chain × Text) (report : SingleReportPayload Stats) :
    Option AppError → BatchWorld Stats
  | none =>
      let written : BatchWorld Stats :=
        { world with
          directory := world.directory.write (.report seed scope.1)
            (.report (scopedSeedReport seed scope.1 scope.2 run.attempt.id report))
          history := { world.history with
            writer := Function.update world.history.writer seed
              (Function.update (world.history.writer seed) scope.1 (some run.attempt)) } }
      written.withPipeline process seed
        (.scanning { run with completedChains := insert scope.1 run.completedChains })
  | some error =>
      let entry := failure seed (some scope.1) "write_report".toList error
      (world.recordFailure run.attempt entry).withPipeline process seed
        (.scanning (run.fail entry))

/-- The error of `write_seed_completion_marker` when a report does not load. -/
def missingScopeError (attempt : SeedAttempt) (secondaryChain : Chain) : AppError :=
  .invalidData ("cannot commit seed attempt ".toList ++ attempt.id ++ ": scope ".toList ++
    seed.text ++ " -> ".toList ++ secondaryChain.asStr ++
    " is missing, stale, or belongs to another attempt".toList)

/-- The first secondary chain whose report does not load. -/
def missingScope? (runId : Text) (attempt : SeedAttempt) : Option Chain :=
  Chain.all.find? fun chain =>
    (loadCachedSeedReport libraries world.directory seed chain
      (analysisFingerprint libraries runId seed chain) attempt.id).isNone

/-- `write_seed_completion_marker` checks the reports before it writes the marker. -/
def commit (run : SeedRun) (writeError : Option AppError) : BatchWorld Stats :=
  if run.failures = [] ∧ run.completedChains.card = Chain.all.length ∧
      process.cancellationRequested = false then
    let commitError :=
      match world.missingScope? libraries seed process.manifest.runId run.attempt with
      | some secondaryChain => some (missingScopeError seed run.attempt secondaryChain)
      | none => writeError
    match commitError with
    | none =>
        let written : BatchWorld Stats :=
          { world with
            directory := world.directory.write (.marker seed)
              (.marker (seedCompletionMarker libraries process.manifest.runId seed
                run.attempt.id)) }
        written.endSeed process seed run
    | some error =>
        let entry := failure seed none "commit_seed_attempt".toList error
        (world.recordFailure run.attempt entry).endSeed process seed (run.fail entry)
  else world.endSeed process seed run

def actSeed (action : SeedAction Stats) : Option (BatchWorld Stats) :=
  match process.pipelines seed, action with
  | .waiting, .begin => some (world.beginSeed libraries process seed)
  | .invalidating missingChains, .invalidate nanos pid =>
      world.invalidate libraries process seed missingChains nanos pid
  | .fetching run, .fetchContext error => some (world.fetchContext process seed run error)
  | .scanning run, .analyze result =>
      match run.missingChains with
      | scope :: missingChains =>
          some (world.analyze process seed run scope missingChains result)
      | [] => none
  | .writing run scope report, .writeReport error =>
      some (world.writeReport process seed run scope report error)
  | .scanning run, .commit error =>
      if run.missingChains = [] then some (world.commit libraries process seed run error)
      else none
  | _, _ => none

end Seeds

section Aggregation

variable {Stats : Type} (libraries : BatchLibraries Stats) (directory : OutputDirectory Stats)
  (seeds : List ContractId) (runId : Text)

def committedStats (primaryChain secondaryChain : Chain) : List (ContractId × Stats) :=
  (seeds.filter fun seed => seed.chain = primaryChain).filterMap fun seed => do
    let attemptId ← committedSeedAttempt libraries directory seed runId
    let paperStats ← loadCachedSeedReport libraries directory seed secondaryChain
      (analysisFingerprint libraries runId seed secondaryChain) attemptId
    return (seed, paperStats)

def committedAnalyses (primaryChain : Chain) : List (Chain × List (ContractId × Stats)) :=
  (Chain.all.map fun secondaryChain =>
    (secondaryChain, committedStats libraries directory seeds runId primaryChain secondaryChain))
    |>.filter fun analysis => ¬ analysis.2.isEmpty

def aggregate : ScopedStats Stats :=
  (Chain.all.map fun primaryChain =>
    (primaryChain, committedAnalyses libraries directory seeds runId primaryChain))
    |>.filter fun analyses => ¬ analyses.2.isEmpty

end Aggregation

def failureKey (entry : BatchFailurePayload) : List Text :=
  [entry.primaryChain, entry.seedAddress, entry.secondaryChain, entry.stage, entry.provider,
    entry.error]

def sortFailures (failures : List BatchFailurePayload) : List BatchFailurePayload :=
  failures.mergeSort fun left right => decide (failureKey left ≤ failureKey right)

section Steps

variable {Stats : Type} (libraries : BatchLibraries Stats) (world : BatchWorld Stats)
  (process : BatchProcess Stats)

def launchManifest (launch : BatchLaunch) (seeds : List ContractId) : RunManifest :=
  let seedSetIdentity := seedSetIdentity libraries seeds
  let configFingerprint := batchConfigFingerprint libraries launch.request seedSetIdentity
  resolveRunManifest libraries world.directory launch.request configFingerprint seedSetIdentity
    launch.snapshotIdentities launch.now launch.nanos launch.pid

def launch (launch : BatchLaunch) : Option (BatchWorld Stats) :=
  match world.process, readSeedContracts launch.rows with
  | none, some seeds =>
      some { world with
        process := some
          { seeds := seeds
            manifest := world.launchManifest libraries launch seeds
            phase := .starting
            pipelines := fun _ => .waiting
            failures := []
            cancellationRequested := false } }
  | _, _ => none

def withPhase (phase : BatchPhase Stats) : BatchWorld Stats :=
  { world with process := some { process with phase := phase } }

def writeFile (file : OutputFile) (content : FileContent Stats) : BatchWorld Stats :=
  { world with directory := world.directory.write file content }

def collect (seed : ContractId) (output : SeedPipelineOutput) : BatchWorld Stats :=
  let phase :=
    if output.cancelled ∨ process.cancellationRequested then .interrupted else process.phase
  { world with
    process := some { process with
      phase := phase
      pipelines := Function.update process.pipelines seed .collected
      failures := process.failures ++ output.failures } }

def result : MultiChainBatchResult Stats where
  scopedStats := aggregate libraries world.directory process.seeds process.manifest.runId
  failures := sortFailures process.failures

def finish (now : Int) (status : RunStatus) : BatchWorld Stats :=
  { world.writeFile .manifest
      (.manifest { process.manifest with updatedAt := now, status := status }) with
    process := none }

def stepProcess : BatchEvent Stats → Option (BatchWorld Stats)
  | .writeManifest =>
      match process.phase with
      | .starting =>
          some ((world.writeFile .manifest (.manifest process.manifest)).withPhase process .running)
      | _ => none
  | .requestCancellation =>
      some { world with process := some { process with cancellationRequested := true } }
  | .act seed action =>
      match process.phase with
      | .running => if seed ∈ process.seeds then world.actSeed libraries process seed action else none
      | _ => none
  | .collect seed =>
      match process.phase, process.pipelines seed with
      | .running, .finished output => some (world.collect process seed output)
      | _, _ => none
  | .interrupt now =>
      match process.phase with
      | .interrupted => some (world.finish process now process.manifest.status)
      | _ => none
  | .aggregate =>
      match process.phase with
      | .running =>
          if ∀ seed ∈ process.seeds, (process.pipelines seed).isCollected then
            some (world.withPhase process (.aggregated (world.result libraries process)))
          else none
      | _ => none
  | .writeSummary =>
      match process.phase with
      | .aggregated result =>
          some ((world.writeFile .summary (.summary result)).withPhase process (.summarized result))
      | _ => none
  | .writeFailures =>
      match process.phase with
      | .summarized result =>
          some ((world.writeFile .failures (.failures result.failures)).withPhase process
            (.reported result))
      | _ => none
  | .finish now =>
      match process.phase with
      | .reported result =>
          some (world.finish process now
            (if result.failures = [] then .complete else .incomplete))
      | _ => none
  | .crash => some { world with process := none }
  | .start _ => none

def step (event : BatchEvent Stats) : Option (BatchWorld Stats) :=
  match world.process, event with
  | none, .start batch => world.launch libraries batch
  | none, _ => none
  | some process, event => world.stepProcess libraries process event

def initial : BatchWorld Stats where
  directory := fun _ => none
  process := none
  history := ⟨[], [], fun _ _ => none⟩

end Steps

end BatchWorld

end NftData.TopContracts
