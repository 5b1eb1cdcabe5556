import NftData.Foundation.Selecting
import NftData.TopContracts.Batch.Recovery

namespace NftData.TopContracts

/-! # What recovery guarantees

A committed attempt wrote all four reports of its seed and recorded no failure, aggregation
uses all reports of such an attempt or none, and resuming a run leaves its committed seeds
alone. -/

open List

variable {Stats : Type}

def ScopedStats.used (scopedStats : ScopedStats Stats) (seed : ContractId)
    (secondaryChain : Chain) : List Stats :=
  scopedStats.flatMap fun analyses =>
    (analyses.2.filter fun analysis => analysis.1 = secondaryChain).flatMap fun analysis =>
      (analysis.2.filter fun entry => entry.1 = seed).map Prod.snd

namespace BatchWorld

/-- Whatever attempt counts as committed, it wrote the four reports and recorded no failure. -/
def NeverMixed (libraries : BatchLibraries Stats) (world : BatchWorld Stats) : Prop :=
  ∀ seed runId attemptId,
    committedSeedAttempt libraries world.directory seed runId = some attemptId →
    ∃ attempt ∈ world.history.attempts,
      attempt.id = attemptId ∧ attempt.runId = runId ∧ attempt.seed = seed ∧
      (∀ chain, world.history.writer seed chain = some attempt ∧
        ∃ report, world.directory.read (.report seed chain) = some (.report report) ∧
          report.seedAttemptId = attemptId) ∧
      ∀ entry, (attempt, entry) ∉ world.history.failures

/-- Aggregation uses each of the four reports of one committed attempt once, or none. -/
def AggregatesWhole (libraries : BatchLibraries Stats) (world : BatchWorld Stats) : Prop :=
  ∀ process result, world.process = some process → process.phase.result? = some result →
    ∀ seed ∈ process.seeds,
      (∃ attempt ∈ world.history.attempts,
        attempt.runId = process.manifest.runId ∧ attempt.seed = seed ∧
        committedSeedAttempt libraries world.directory seed process.manifest.runId =
          some attempt.id ∧
        ∀ chain, world.history.writer seed chain = some attempt ∧
          ∃ report stats, world.directory.read (.report seed chain) = some (.report report) ∧
            libraries.readBack report.report.paperStats = some stats ∧
            result.scopedStats.used seed chain = [stats]) ∨
      ∀ chain, result.scopedStats.used seed chain = []

def Resumes (libraries : BatchLibraries Stats) (runId : Text) (world : BatchWorld Stats)
    (event : BatchEvent Stats) : Prop :=
  ∀ next process, world.step libraries event = some next → next.process = some process →
    process.manifest.runId = runId

/-- As long as only the run goes on, the files of a committed seed stay and no further attempt
at it begins. -/
def KeepsCommitted (libraries : BatchLibraries Stats) (world : BatchWorld Stats) : Prop :=
  ∀ seed runId attemptId,
    committedSeedAttempt libraries world.directory seed runId = some attemptId →
    (∀ process, world.process = some process → process.manifest.runId = runId) →
    ∀ later, Reaches (step libraries) (Resumes libraries runId) world later →
      committedSeedAttempt libraries later.directory seed runId = some attemptId ∧
      later.directory.read (.marker seed) = world.directory.read (.marker seed) ∧
      (∀ chain, later.directory.read (.report seed chain) =
        world.directory.read (.report seed chain)) ∧
      ∀ attempt ∈ later.history.attempts, attempt.seed = seed → attempt ∈ world.history.attempts

variable {libraries : BatchLibraries Stats} {world next : BatchWorld Stats}

theorem Consistent.neverMixed (consistent : Consistent libraries world) :
    world.NeverMixed libraries := by
  intro seed runId attemptId committed
  rcases committedSeedAttempt_eq_some_iff.mp committed with ⟨marker, found, isFor, rfl, loads⟩
  rcases (consistent.seeds seed).marker _ found with ⟨attempt, member, isSeed, isMarker, clean⟩
  cases isMarker
  refine ⟨attempt, member, rfl, isFor.2.1, isSeed, fun chain => ?_, clean⟩
  rcases Option.isSome_iff_exists.mp (loads chain (Chain.mem_all chain)) with ⟨stats, loaded⟩
  rcases loadCachedSeedReport_eq_some_iff.mp loaded with ⟨cached, isReport, _, cachedFor⟩
  rcases (consistent.seeds seed).reports chain _ isReport with
    ⟨writer, writerMember, wrote, report, same, sameId⟩
  cases same
  -- the writer and the attempt of the marker share their identity
  have one : writer = attempt := inj_on_of_nodup_map consistent.identities writerMember
    member (sameId.symm.trans cachedFor.2.2.1)
  exact ⟨one ▸ wrote, cached, isReport, cachedFor.2.2.1⟩

/-! ## Aggregation -/

def committedReport (libraries : BatchLibraries Stats) (directory : OutputDirectory Stats)
    (runId : Text) (seed : ContractId) (secondaryChain : Chain) : Option Stats :=
  (committedSeedAttempt libraries directory seed runId).bind fun attemptId =>
    loadCachedSeedReport libraries directory seed secondaryChain
      (analysisFingerprint libraries runId seed secondaryChain) attemptId

theorem committedStats_eq (directory : OutputDirectory Stats) (seeds : List ContractId)
    (runId : Text) (primaryChain secondaryChain : Chain) :
    committedStats libraries directory seeds runId primaryChain secondaryChain =
      (seeds.filter fun seed => seed.chain = primaryChain).flatMap fun seed =>
        ((committedReport libraries directory runId seed secondaryChain).map
          fun stats => (seed, stats)).toList := by
  rw [committedStats, filterMap_eq_flatMap_toList]
  congr 1
  funext seed
  simp only [committedReport]
  cases committedSeedAttempt libraries directory seed runId with
  | none => rfl
  | some attemptId =>
      cases loaded : loadCachedSeedReport libraries directory seed secondaryChain
          (analysisFingerprint libraries runId seed secondaryChain) attemptId with
      | none | some stats => simp [loaded]

variable {directory : OutputDirectory Stats} {seed : ContractId} {runId : Text}
    {seeds : List ContractId}

theorem committedStats_filter (distinct : seeds.Nodup) (member : seed ∈ seeds)
    (secondaryChain : Chain) :
    ((committedStats libraries directory seeds runId seed.chain secondaryChain).filter
        fun entry => entry.1 = seed).map Prod.snd =
      (committedReport libraries directory runId seed secondaryChain).toList := by
  have inFilter : seed ∈ seeds.filter fun other => other.chain = seed.chain :=
    mem_filter.mpr ⟨member, decide_eq_true rfl⟩
  rw [committedStats_eq, filter_flatMap, map_flatMap,
    flatMap_single (distinct.filter _) inFilter]
  · cases committedReport libraries directory runId seed secondaryChain with
    | none => rfl
    | some stats => simp
  · intro other _ different
    cases committedReport libraries directory runId other secondaryChain with
    | none => rfl
    | some stats => simp [different]

/-- Other primary chains have no reports of the seed. -/
theorem committedStats_filter_of_ne {primaryChain : Chain} (different : primaryChain ≠ seed.chain)
    (secondaryChain : Chain) :
    (committedStats libraries directory seeds runId primaryChain secondaryChain).filter
        (fun entry => entry.1 = seed) = [] := by
  rw [filter_eq_nil_iff, committedStats_eq]
  intro entry member isSeed
  rcases mem_flatMap.mp member with ⟨other, inFilter, isEntry⟩
  rcases Option.map_eq_some_iff.mp (Option.mem_toList.mp isEntry) with ⟨stats, _, rfl⟩
  have isPrimary := of_decide_eq_true (mem_filter.mp inFilter).2
  exact different (isPrimary.symm.trans (congrArg _ (of_decide_eq_true isSeed)))

theorem used_aggregate (distinct : seeds.Nodup) (member : seed ∈ seeds) (secondaryChain : Chain) :
    (aggregate libraries directory seeds runId).used seed secondaryChain =
      (committedReport libraries directory runId seed secondaryChain).toList := by
  have ofPrimary (primaryChain : Chain) :
      ((committedAnalyses libraries directory seeds runId primaryChain).filter
          fun analysis => analysis.1 = secondaryChain).flatMap
        (fun analysis => (analysis.2.filter fun entry => entry.1 = seed).map Prod.snd) =
      ((committedStats libraries directory seeds runId primaryChain secondaryChain).filter
        fun entry => entry.1 = seed).map Prod.snd := by
    have isMap : ((Chain.all.map fun chain =>
          (chain, committedStats libraries directory seeds runId primaryChain chain)).filter
        fun analysis => analysis.1 = secondaryChain) =
        [(secondaryChain,
          committedStats libraries directory seeds runId primaryChain secondaryChain)] := by
      rw [filter_map]
      exact congrArg (List.map _) (Chain.filter_all secondaryChain)
    rw [committedAnalyses, filter_comm, isMap, flatMap_filter_of, flatMap_singleton]
    intro analysis _ empty
    have isEmpty : analysis.2 = [] := by simpa using empty
    rw [isEmpty, filter_nil, map_nil]
  rw [ScopedStats.used, aggregate, flatMap_filter_of, flatMap_map]
  · simp only [ofPrimary]
    rw [flatMap_single Chain.nodup_all (Chain.mem_all seed.chain)]
    · exact committedStats_filter distinct member secondaryChain
    · intro other _ different
      rw [committedStats_filter_of_ne different, map_nil]
  · intro analyses _ empty
    have isEmpty : analyses.2 = [] := by simpa using empty
    rw [isEmpty, filter_nil, flatMap_nil]

def Summarized (libraries : BatchLibraries Stats) (world : BatchWorld Stats) : Prop :=
  ∀ process, world.process = some process → process.seeds.Nodup ∧
    ∀ result, process.phase.result? = some result →
      result.scopedStats = aggregate libraries world.directory process.seeds
        process.manifest.runId

variable {other : OutputDirectory Stats}

theorem committedReport_congr (marker : other.read (.marker seed) = directory.read (.marker seed))
    (reports : ∀ chain, other.read (.report seed chain) = directory.read (.report seed chain))
    (runId : Text) (secondaryChain : Chain) :
    committedReport libraries other runId seed secondaryChain =
      committedReport libraries directory runId seed secondaryChain := by
  simp only [committedReport, committedSeedAttempt_congr marker reports,
    loadCachedSeedReport_congr (reports secondaryChain)]

theorem aggregate_congr (same : ∀ seed, other.read (.marker seed) = directory.read (.marker seed) ∧
      ∀ chain, other.read (.report seed chain) = directory.read (.report seed chain))
    (seeds : List ContractId) (runId : Text) :
    aggregate libraries other seeds runId = aggregate libraries directory seeds runId := by
  have stats (primaryChain secondaryChain : Chain) :
      committedStats libraries other seeds runId primaryChain secondaryChain =
        committedStats libraries directory seeds runId primaryChain secondaryChain := by
    rw [committedStats_eq, committedStats_eq]
    congr 1
    funext seed
    rw [committedReport_congr (same seed).1 (same seed).2]
  simp only [aggregate, committedAnalyses, stats]

variable {event : BatchEvent Stats}

theorem Summarized.step (summarized : Summarized libraries world)
    (taken : world.step libraries event = some next) : Summarized libraries next := by
  intro process isProcess
  rcases batchMove_of_step taken with move | ⟨before, seed, changed, pipeline, isBefore, _,
    noResult, rfl⟩
  · rcases move.summarizes process isProcess with ⟨distinct, noResult⟩ | ⟨before, isBefore,
      seeds, manifest, results⟩
    · refine ⟨distinct, fun result isResult => ?_⟩
      rw [noResult] at isResult
      cases isResult
    · have known := summarized before isBefore
      refine ⟨seeds ▸ known.1, fun result isResult => ?_⟩
      rw [aggregate_congr move.directory]
      rcases results result isResult with fromFiles | held
      · exact fromFiles
      · rw [known.2 result held, seeds, manifest]
  · cases isProcess
    refine ⟨(summarized before isBefore).1, fun result isResult => ?_⟩
    dsimp only at isResult
    rw [noResult] at isResult
    cases isResult

theorem aggregatesWhole (consistent : Consistent libraries world)
    (summarized : Summarized libraries world) : world.AggregatesWhole libraries := by
  intro process result isProcess isResult seed member
  have known := summarized process isProcess
  rw [known.2 result isResult]
  cases committed : committedSeedAttempt libraries world.directory seed
      process.manifest.runId with
  | none =>
      refine .inr fun chain => ?_
      rw [used_aggregate known.1 member, committedReport, committed]
      rfl
  | some attemptId =>
      rcases consistent.neverMixed seed _ attemptId committed with
        ⟨attempt, inAttempts, rfl, sameRun, isSeed, wrote, _⟩
      rcases committedSeedAttempt_eq_some_iff.mp committed with ⟨_, _, _, _, loads⟩
      refine .inl ⟨attempt, inAttempts, sameRun, isSeed, rfl, fun chain => ?_⟩
      rcases Option.isSome_iff_exists.mp (loads chain (Chain.mem_all chain)) with ⟨stats, loaded⟩
      rcases loadCachedSeedReport_eq_some_iff.mp loaded with ⟨cached, isReport, isRead, _⟩
      refine ⟨(wrote chain).1, cached, stats, isReport, isRead, ?_⟩
      rw [used_aggregate known.1 member, committedReport, committed, Option.bind_some, loaded]
      rfl

/-! ## Resumed runs -/

/-- The files of the seed are those from the start, and it is neither being attempted nor
about to be. -/
structure Kept (runId : Text) (seed : ContractId) (start world : BatchWorld Stats) : Prop where
  marker : world.directory.read (.marker seed) = start.directory.read (.marker seed)
  reports : ∀ chain, world.directory.read (.report seed chain) =
    start.directory.read (.report seed chain)
  begun : ∀ attempt ∈ world.history.attempts, attempt.seed = seed →
    attempt ∈ start.history.attempts
  running : ∀ process, world.process = some process →
    process.manifest.runId = runId ∧ (process.pipelines seed).Idle

variable {attemptId : Text}

theorem Kept.refl (consistent : Consistent libraries world)
    (committed : committedSeedAttempt libraries world.directory seed runId = some attemptId)
    (sameRun : ∀ process, world.process = some process → process.manifest.runId = runId) :
    Kept runId seed world world where
  marker := rfl
  reports := fun _ => rfl
  begun := fun _ member _ => member
  running := by
    intro process isProcess
    refine ⟨sameRun process isProcess, ?_⟩
    rcases committedSeedAttempt_eq_some_iff.mp committed with ⟨_, found, _⟩
    have unattempted (run : SeedRun) (isRun : (process.pipelines seed).run? = some run) : False := by
      have active := (consistent.seeds seed).active process run.attempt run.failures isProcess
        (by rw [SeedPipeline.attempt?, isRun, Option.map_some])
      rw [active.2.2.2.1] at found
      cases found
    cases here : process.pipelines seed with
    | waiting | finished output | collected => trivial
    | invalidating missingChains =>
        have none := (consistent.seeds seed).stale process missingChains isProcess here
        rw [sameRun process isProcess, committed] at none
        cases none
    | fetching run | scanning run | writing run scope report =>
        exact (unattempted run (by rw [here]; rfl)).elim

variable {start : BatchWorld Stats}

theorem Kept.of_spares (kept : Kept runId seed start world) (spares : Spares seed world next)
    (leaves : Leaves seed world next)
    (sameRun : ∀ process, next.process = some process → process.manifest.runId = runId) :
    Kept runId seed start next where
  marker := spares.marker.trans kept.marker
  reports := fun chain => (spares.reports chain).trans (kept.reports chain)
  begun := fun attempt member isSeed =>
    kept.begun attempt (spares.begun attempt member isSeed) isSeed
  running := by
    intro process isProcess
    refine ⟨sameRun process isProcess, ?_⟩
    rcases leaves process isProcess with idle | ⟨before, isBefore, same, _⟩
    · exact idle
    · rw [same]
      exact (kept.running before isBefore).2

theorem Kept.step (consistent : Consistent libraries world)
    (committed : committedSeedAttempt libraries start.directory seed runId = some attemptId)
    (kept : Kept runId seed start world) (resumes : world.Resumes libraries runId event)
    (taken : world.step libraries event = some next) : Kept runId seed start next := by
  have sameRun := fun process => resumes next process taken
  rcases batchMove_of_step taken with move | ⟨process, other, changed, pipeline, isProcess, move,
    _, rfl⟩
  · exact kept.of_spares (move.spares seed) (move.leaves seed) sameRun
  · by_cases isSeed : seed = other
    · cases isSeed
      have idle := (kept.running process isProcess).2
      have noAttempt := idle.attempt?_eq
      cases move with
      | rest restIdle =>
          refine ⟨kept.marker, kept.reports, kept.begun, fun after isAfter => ?_⟩
          refine ⟨sameRun after isAfter, ?_⟩
          cases isAfter
          simpa using restIdle
      | stale missingChains uncommitted =>
          rw [committedSeedAttempt_congr kept.marker kept.reports,
            (kept.running process isProcess).1, committed] at uncommitted
          cases uncommitted
      | begun awaited => exact absurd idle awaited
      | moved isActive =>
          rw [noAttempt] at isActive
          cases isActive
      | failed entry had | reported scope report had | committed had =>
          exact nomatch noAttempt.symm.trans had
    · have spares := move.spares isSeed (consistent.owned isProcess other)
      have same : Spares seed world (changed.withPipeline process other pipeline) :=
        ⟨spares.marker, spares.reports, spares.writer, spares.attempts, spares.begun,
          spares.failures⟩
      exact kept.of_spares same (leaves_withPipeline isProcess isSeed) sameRun

theorem keepsCommitted (consistent : Consistent libraries world) :
    world.KeepsCommitted libraries := by
  intro seed runId attemptId committed sameRun later reached
  have kept : Consistent libraries later ∧ Kept runId seed world later := by
    apply reached.invariant fun state => Consistent libraries state ∧ Kept runId seed world state
    · exact ⟨consistent, .refl consistent committed sameRun⟩
    · rintro state event next ⟨stateConsistent, stateKept⟩ resumes taken
      exact ⟨stateConsistent.step taken,
        stateKept.step stateConsistent committed resumes taken⟩
  refine ⟨?_, kept.2.marker, kept.2.reports, kept.2.begun⟩
  rw [committedSeedAttempt_congr kept.2.marker kept.2.reports, committed]

/-- Whatever batches have run on an output directory, ended, failed, been cancelled or crashed
between two writes: committed attempts are whole, aggregation uses whole attempts and a run
that is resumed keeps what it has committed. -/
theorem recovery_wholeSeeds (libraries : BatchLibraries Stats) {world : BatchWorld Stats}
    (reached : Reaches (step libraries) (fun _ _ => True) initial world) :
    world.NeverMixed libraries ∧ world.AggregatesWhole libraries ∧
      world.KeepsCommitted libraries := by
  have holds : Consistent libraries world ∧ Summarized libraries world := by
    apply reached.invariant fun state => Consistent libraries state ∧ Summarized libraries state
    · exact ⟨.initial, fun _ isProcess => nomatch isProcess⟩
    · rintro state event next ⟨consistent, summarized⟩ _ taken
      exact ⟨consistent.step taken, summarized.step taken⟩
  exact ⟨holds.1.neverMixed, aggregatesWhole holds.1 holds.2, keepsCommitted holds.1⟩

/-! ### One seed, a crash after its first report and a second attempt -/

def smallLibraries : BatchLibraries Nat := ⟨id, some⟩

def smallSeed : ContractId := ⟨.base, "0x1".toList⟩

def smallLaunch (pid : Nat) : BatchLaunch where
  request := ⟨[], 0, 0, 0, 0, 0, 0, 0, 0, 0, 0, 0, 1, false⟩
  rows := [smallSeed]
  snapshotIdentities := []
  now := 1
  nanos := 1
  pid := pid

def smallReport : SingleReportPayload Nat := ⟨⟨"base".toList, "0x1".toList⟩, 7⟩

def smallBatch (pid : Nat) : List (BatchEvent Nat) :=
  [.start (smallLaunch pid), .writeManifest, .act smallSeed .begin,
    .act smallSeed (.invalidate 1 pid), .act smallSeed (.fetchContext none)]

def smallScope : List (BatchEvent Nat) :=
  [.act smallSeed (.analyze (.ok smallReport)), .act smallSeed (.writeReport none)]

def smallHistory : List (BatchEvent Nat) :=
  smallBatch 1 ++ smallScope ++ [.crash] ++ smallBatch 2 ++
    (smallScope ++ smallScope ++ smallScope ++ smallScope) ++
    [.act smallSeed (.commit none), .collect smallSeed, .aggregate]

def smallUsed (world : BatchWorld Nat) : Option (List Nat) :=
  (world.process.bind fun process => process.phase.result?).map fun result =>
    result.scopedStats.used smallSeed .solana

theorem recovery_wholeSeeds_smallHistory :
    ∃ world, Reaches (step smallLibraries) (fun _ _ => True) initial world ∧
      smallUsed world = some [7] ∧ world.NeverMixed smallLibraries ∧
      world.AggregatesWhole smallLibraries ∧ world.KeepsCommitted smallLibraries := by
  have ran : ((smallHistory.foldlM (step smallLibraries) initial).bind smallUsed) = some [7] := by
    decide +kernel
  rcases Option.bind_eq_some_iff.mp ran with ⟨world, isWorld, used⟩
  have reached : Reaches (step smallLibraries) (fun _ _ => True) initial world :=
    .of_foldlM smallHistory (fun _ _ _ => trivial) .start isWorld
  exact ⟨world, reached, used, recovery_wholeSeeds smallLibraries reached⟩

end BatchWorld

end NftData.TopContracts
