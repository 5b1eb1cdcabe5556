import NftData.Foundation.Machine
import NftData.TopContracts.Batch.Pipeline

namespace NftData.TopContracts

open Option

/-! # Recovery of whole seeds

What the files of a seed say about its attempts, in every state that batches reach on one
output directory. -/

open List

variable {Stats : Type} {libraries : BatchLibraries Stats}

def SeedPipeline.Idle : SeedPipeline Stats → Prop
  | .waiting => True
  | .finished _ => True
  | .collected => True
  | _ => False

theorem SeedPipeline.idle_finished (output : SeedPipelineOutput) :
    (SeedPipeline.finished output : SeedPipeline Stats).Idle := trivial

def BatchPhase.result? : BatchPhase Stats → Option (MultiChainBatchResult Stats)
  | .aggregated result => some result
  | .summarized result => some result
  | .reported result => some result
  | _ => none

def SeedPipeline.attempt? (pipeline : SeedPipeline Stats) :
    Option (SeedAttempt × List BatchFailurePayload) :=
  pipeline.run?.map fun run => (run.attempt, run.failures)

variable {pipeline : SeedPipeline Stats}

theorem SeedPipeline.Idle.attempt?_eq (idle : pipeline.Idle) :
    pipeline.attempt? = none := by
  cases pipeline <;> first | rfl | cases idle

namespace BatchWorld

variable {world next : BatchWorld Stats} {process : BatchProcess Stats} {seed : ContractId}

/-! ## What one step does for a seed -/

def withAttempt (world : BatchWorld Stats) (attempt : SeedAttempt) : BatchWorld Stats :=
  { world with
    directory := world.directory.remove (.marker attempt.seed)
    history := { world.history with attempts := attempt :: world.history.attempts } }

def withReport (world : BatchWorld Stats) (seed : ContractId) (scope : Chain × Text)
    (attempt : SeedAttempt) (report : SingleReportPayload Stats) : BatchWorld Stats :=
  { world with
    directory := world.directory.write (.report seed scope.1)
      (.report (scopedSeedReport seed scope.1 scope.2 attempt.id report))
    history := { world.history with
      writer := Function.update world.history.writer seed
        (Function.update (world.history.writer seed) scope.1 (some attempt)) } }

def withMarker (libraries : BatchLibraries Stats) (world : BatchWorld Stats) (seed : ContractId)
    (runId attemptId : Text) : BatchWorld Stats :=
  world.writeFile (.marker seed) (.marker (seedCompletionMarker libraries runId seed attemptId))

/-- What a step of a pipeline changes besides the pipeline, which it leaves in the given
state. -/
inductive SeedMove (libraries : BatchLibraries Stats) (world : BatchWorld Stats)
    (process : BatchProcess Stats) (seed : ContractId) :
    BatchWorld Stats → SeedPipeline Stats → Prop where
  | rest {pipeline : SeedPipeline Stats} (idle : pipeline.Idle) :
      SeedMove libraries world process seed world pipeline
  | stale (missingChains : List (Chain × Text))
      (uncommitted :
        committedSeedAttempt libraries world.directory seed process.manifest.runId = none) :
      SeedMove libraries world process seed world (.invalidating missingChains)
  | begun {attempt : SeedAttempt} {pipeline : SeedPipeline Stats}
      (awaited : ¬ (process.pipelines seed).Idle)
      (fresh : attempt.id ∉ world.history.attempts.map SeedAttempt.id)
      (sameRun : attempt.runId = process.manifest.runId) (sameSeed : attempt.seed = seed)
      (has : pipeline.attempt? = some (attempt, [])) :
      SeedMove libraries world process seed (world.withAttempt attempt) pipeline
  | moved {pipeline : SeedPipeline Stats}
      (isActive : (process.pipelines seed).attempt?.isSome)
      (same : pipeline.attempt? = (process.pipelines seed).attempt?) :
      SeedMove libraries world process seed world pipeline
  | failed {attempt : SeedAttempt} {failures : List BatchFailurePayload}
      (entry : BatchFailurePayload) {pipeline : SeedPipeline Stats}
      (had : (process.pipelines seed).attempt? = some (attempt, failures))
      (has : pipeline.Idle ∨ pipeline.attempt? = some (attempt, failures ++ [entry])) :
      SeedMove libraries world process seed (world.recordFailure attempt entry) pipeline
  | reported {attempt : SeedAttempt} {failures : List BatchFailurePayload}
      (scope : Chain × Text) (report : SingleReportPayload Stats) {pipeline : SeedPipeline Stats}
      (had : (process.pipelines seed).attempt? = some (attempt, failures))
      (has : pipeline.attempt? = some (attempt, failures)) :
      SeedMove libraries world process seed (world.withReport seed scope attempt report) pipeline
  | committed {attempt : SeedAttempt} {pipeline : SeedPipeline Stats}
      (had : (process.pipelines seed).attempt? = some (attempt, [])) (idle : pipeline.Idle) :
      SeedMove libraries world process seed
        (world.withMarker libraries seed process.manifest.runId attempt.id) pipeline

/-- The step of a pipeline is a move. -/
theorem seedMove_of_actSeed {action : SeedAction Stats}
    (taken : world.actSeed libraries process seed action = some next) :
    ∃ changed pipeline, SeedMove libraries world process seed changed pipeline ∧
      next = changed.withPipeline process seed pipeline := by
  unfold actSeed at taken
  split at taken
  · -- begin
    cases taken
    unfold beginSeed
    dsimp only
    split
    · exact ⟨_, _, .rest (SeedPipeline.idle_finished _), rfl⟩
    · split
      · exact ⟨_, _, .rest (SeedPipeline.idle_finished _), rfl⟩
      · next missing =>
          rw [seedScopesToProcess_eq_nil_iff, not_isSome_iff_eq_none] at missing
          exact ⟨_, _, .stale _ missing, rfl⟩
  · -- invalidate
    next missingChains nanos pid before =>
      unfold invalidate at taken
      rw [ite_none_left_eq_some, Option.some.injEq] at taken
      have awaited : ¬ (process.pipelines seed).Idle := by
        rw [before]
        exact fun idle => nomatch idle
      exact ⟨_, _, .begun awaited taken.1 rfl rfl rfl, taken.2.symm⟩
  · -- fetchContext
    next run error before =>
      cases taken
      cases error with
      | none => exact ⟨_, _, .moved (by rw [before]; rfl) (by rw [before]; rfl), rfl⟩
      | some error => exact ⟨_, _, .failed _ (by rw [before]; rfl) (.inl (SeedPipeline.idle_finished _)), rfl⟩
  · -- analyze
    next run result before =>
      split at taken
      · cases taken
        unfold analyze
        dsimp only
        split
        · exact ⟨_, _, .rest (SeedPipeline.idle_finished _), rfl⟩
        · cases result with
          | ok report => exact ⟨_, _, .moved (by rw [before]; rfl) (by rw [before]; rfl), rfl⟩
          | error error =>
              exact ⟨_, _, .failed _ (by rw [before]; rfl) (.inr rfl), rfl⟩
      · cases taken
  · -- writeReport
    next run scope report error before =>
      cases taken
      cases error with
      | none => exact ⟨_, _, .reported scope report (by rw [before]; rfl) rfl, rfl⟩
      | some error => exact ⟨_, _, .failed _ (by rw [before]; rfl) (.inr rfl), rfl⟩
  · -- commit
    next run error before =>
      rw [ite_none_right_eq_some, Option.some.injEq] at taken
      rcases taken with ⟨_, rfl⟩
      unfold commit
      split
      · next meets =>
          dsimp only
          split
          · have had : (process.pipelines seed).attempt? = some (run.attempt, []) := by
              rw [before, ← meets.1]
              rfl
            exact ⟨_, _, .committed had (SeedPipeline.idle_finished _), rfl⟩
          · exact ⟨_, _, .failed _ (by rw [before]; rfl) (.inl (SeedPipeline.idle_finished _)), rfl⟩
      · exact ⟨_, _, .rest (SeedPipeline.idle_finished _), rfl⟩
  · cases taken

/-- What a step leaves alone when it is not a step for the seed. -/
structure Spares (seed : ContractId) (world changed : BatchWorld Stats) : Prop where
  marker : changed.directory.read (.marker seed) = world.directory.read (.marker seed)
  reports : ∀ chain, changed.directory.read (.report seed chain) =
    world.directory.read (.report seed chain)
  writer : changed.history.writer seed = world.history.writer seed
  attempts : ∀ attempt ∈ world.history.attempts, attempt ∈ changed.history.attempts
  begun : ∀ attempt ∈ changed.history.attempts, attempt.seed = seed →
    attempt ∈ world.history.attempts
  failures : ∀ attempt entry, (attempt, entry) ∈ changed.history.failures →
    attempt.seed = seed → (attempt, entry) ∈ world.history.failures

def Leaves (seed : ContractId) (world next : BatchWorld Stats) : Prop :=
  ∀ process, next.process = some process → (process.pipelines seed).Idle ∨
    ∃ before, world.process = some before ∧ process.pipelines seed = before.pipelines seed ∧
      process.manifest = before.manifest

theorem Spares.of_same (directory : next.directory = world.directory)
    (history : next.history = world.history) : Spares seed world next := by
  constructor
  all_goals simp only [directory, history]
  · exact fun _ => trivial
  · exact fun _ member => member
  · exact fun _ member _ => member
  · exact fun _ _ member _ => member

variable {changed : BatchWorld Stats}

/-- A move for one seed spares the others. -/
theorem SeedMove.spares {other : ContractId}
    (move : SeedMove libraries world process seed changed pipeline) (different : other ≠ seed)
    (owned : ∀ attempt failures, (process.pipelines seed).attempt? = some (attempt, failures) →
      attempt.seed = seed) : Spares other world changed := by
  cases move with
  | rest idle | stale missingChains uncommitted | moved isActive same => exact .of_same rfl rfl
  | begun awaited fresh sameRun sameSeed has =>
      constructor
      · simp [withAttempt, sameSeed, different]
      · simp [withAttempt]
      · rfl
      · exact fun _ member => mem_cons_of_mem _ member
      · intro attempt member isOther
        rcases mem_cons.mp member with rfl | old
        · exact absurd (isOther.symm.trans sameSeed) different
        · exact old
      · exact fun _ _ member _ => member
  | failed entry had has =>
      constructor
      · rfl
      · exact fun _ => rfl
      · rfl
      · exact fun _ member => member
      · exact fun _ member _ => member
      · intro attempt other member isOther
        rcases mem_cons.mp member with isNew | old
        · cases isNew
          exact absurd (isOther.symm.trans (owned _ _ had)) different
        · exact old
  | reported scope report had has =>
      constructor
      · simp [withReport]
      · simp [withReport, different]
      · exact Function.update_of_ne different _ _
      · exact fun _ member => member
      · exact fun _ member _ => member
      · exact fun _ _ member _ => member
  | committed had idle =>
      constructor
      · simp [withMarker, writeFile, different]
      · simp [withMarker, writeFile]
      · rfl
      · exact fun _ member => member
      · exact fun _ member _ => member
      · exact fun _ _ member _ => member

/-! ## The invariant -/

/-- What the files and the pipeline of a seed say about its attempts. -/
structure SeedConsistent (libraries : BatchLibraries Stats) (world : BatchWorld Stats)
    (seed : ContractId) : Prop where
  reports : ∀ chain content, world.directory.read (.report seed chain) = some content →
    ∃ attempt ∈ world.history.attempts, world.history.writer seed chain = some attempt ∧
      ∃ report, content = .report report ∧ report.seedAttemptId = attempt.id
  marker : ∀ content, world.directory.read (.marker seed) = some content →
    ∃ attempt ∈ world.history.attempts, attempt.seed = seed ∧
      content = .marker (seedCompletionMarker libraries attempt.runId seed attempt.id) ∧
      ∀ entry, (attempt, entry) ∉ world.history.failures
  active : ∀ process attempt failures, world.process = some process →
    (process.pipelines seed).attempt? = some (attempt, failures) →
    attempt ∈ world.history.attempts ∧ attempt.runId = process.manifest.runId ∧
      attempt.seed = seed ∧ world.directory.read (.marker seed) = none ∧
      ∀ entry, (attempt, entry) ∈ world.history.failures → entry ∈ failures
  stale : ∀ process missingChains, world.process = some process →
    process.pipelines seed = .invalidating missingChains →
    committedSeedAttempt libraries world.directory seed process.manifest.runId = none

structure Consistent (libraries : BatchLibraries Stats) (world : BatchWorld Stats) : Prop where
  identities : (world.history.attempts.map SeedAttempt.id).Nodup
  known : ∀ attempt entry, (attempt, entry) ∈ world.history.failures →
    attempt ∈ world.history.attempts
  seeds : ∀ seed, SeedConsistent libraries world seed

variable {directory other : OutputDirectory Stats}

theorem loadCachedSeedReport_congr {chain : Chain}
    (same : other.read (.report seed chain) = directory.read (.report seed chain))
    (fingerprint attemptId : Text) :
    loadCachedSeedReport libraries other seed chain fingerprint attemptId =
      loadCachedSeedReport libraries directory seed chain fingerprint attemptId := by
  rw [loadCachedSeedReport, same, loadCachedSeedReport]

theorem committedSeedAttempt_congr
    (marker : other.read (.marker seed) = directory.read (.marker seed))
    (reports : ∀ chain, other.read (.report seed chain) = directory.read (.report seed chain))
    (runId : Text) :
    committedSeedAttempt libraries other seed runId =
      committedSeedAttempt libraries directory seed runId := by
  have loads (attemptId : Text) : AllLoad libraries other runId seed attemptId ↔
      AllLoad libraries directory runId seed attemptId := by
    simp only [AllLoad, loadCachedSeedReport_congr (reports _)]
  apply Option.ext
  intro attemptId
  simp only [committedSeedAttempt_eq_some_iff, marker, loads]

theorem SeedConsistent.of_spares (consistent : SeedConsistent libraries world seed)
    (spares : Spares seed world next) (leaves : Leaves seed world next) :
    SeedConsistent libraries next seed where
  reports := by
    intro chain content found
    rw [spares.reports] at found
    rcases consistent.reports chain content found with ⟨attempt, member, wrote, isReport⟩
    exact ⟨attempt, spares.attempts _ member, spares.writer ▸ wrote, isReport⟩
  marker := by
    intro content found
    rw [spares.marker] at found
    rcases consistent.marker content found with ⟨attempt, member, isSeed, isMarker, clean⟩
    exact ⟨attempt, spares.attempts _ member, isSeed, isMarker, fun entry inFailures =>
      clean entry (spares.failures _ _ inFailures isSeed)⟩
  active := by
    intro process attempt failures isProcess isActive
    rcases leaves process isProcess with idle | ⟨before, isBefore, same, manifest⟩
    · rw [idle.attempt?_eq] at isActive
      cases isActive
    · rw [same] at isActive
      rcases consistent.active before attempt failures isBefore isActive with
        ⟨member, sameRun, isSeed, unmarked, recorded⟩
      refine ⟨spares.attempts _ member, manifest ▸ sameRun, isSeed, ?_, fun entry inFailures =>
        recorded entry (spares.failures _ _ inFailures isSeed)⟩
      rw [spares.marker, unmarked]
  stale := by
    intro process missingChains isProcess isStale
    rcases leaves process isProcess with idle | ⟨before, isBefore, same, manifest⟩
    · rw [isStale] at idle
      cases idle
    · rw [committedSeedAttempt_congr spares.marker spares.reports, manifest]
      exact consistent.stale before missingChains isBefore (same ▸ isStale)

/-- What has to hold after a move for the seed itself. -/
theorem SeedConsistent.withPipeline
    (reports : ∀ chain content, changed.directory.read (.report seed chain) = some content →
      ∃ attempt ∈ changed.history.attempts, changed.history.writer seed chain = some attempt ∧
        ∃ report, content = .report report ∧ report.seedAttemptId = attempt.id)
    (marker : ∀ content, changed.directory.read (.marker seed) = some content →
      ∃ attempt ∈ changed.history.attempts, attempt.seed = seed ∧
        content = .marker (seedCompletionMarker libraries attempt.runId seed attempt.id) ∧
        ∀ entry, (attempt, entry) ∉ changed.history.failures)
    (active : ∀ attempt failures, pipeline.attempt? = some (attempt, failures) →
      attempt ∈ changed.history.attempts ∧ attempt.runId = process.manifest.runId ∧
        attempt.seed = seed ∧ changed.directory.read (.marker seed) = none ∧
        ∀ entry, (attempt, entry) ∈ changed.history.failures → entry ∈ failures)
    (stale : ∀ missingChains, pipeline = .invalidating missingChains →
      committedSeedAttempt libraries changed.directory seed process.manifest.runId = none) :
    SeedConsistent libraries (changed.withPipeline process seed pipeline) seed where
  reports := reports
  marker := marker
  active := by
    intro after attempt failures isAfter isActive
    cases isAfter
    dsimp only at isActive
    rw [Function.update_self] at isActive
    exact active attempt failures isActive
  stale := by
    intro after missingChains isAfter isStale
    cases isAfter
    dsimp only at isStale
    rw [Function.update_self] at isStale
    exact stale missingChains isStale

open SeedConsistent (withPipeline)

/-- A move for the seed keeps what its files say. -/
theorem SeedConsistent.of_move (consistent : Consistent libraries world)
    (isProcess : world.process = some process)
    (move : SeedMove libraries world process seed changed pipeline) :
    SeedConsistent libraries (changed.withPipeline process seed pipeline) seed := by
  have before := consistent.seeds seed
  have notStale {attempt : SeedAttempt} {failures : List BatchFailurePayload}
      (has : pipeline.Idle ∨ pipeline.attempt? = some (attempt, failures))
      (missingChains : List (Chain × Text)) : pipeline ≠ .invalidating missingChains := by
    rintro rfl
    rcases has with idle | has
    · cases idle
    · cases has
  cases move with
  | rest idle =>
      apply withPipeline before.reports before.marker
      · intro attempt failures isActive
        rw [idle.attempt?_eq] at isActive
        cases isActive
      · rintro missingChains rfl
        cases idle
  | stale missingChains uncommitted =>
      apply withPipeline before.reports before.marker
      · exact fun _ _ isActive => nomatch isActive
      · exact fun _ _ => uncommitted
  | begun awaited fresh sameRun sameSeed has =>
      apply withPipeline
      · intro chain content found
        have old : world.directory.read (.report seed chain) = some content := by
          simpa [withAttempt] using found
        rcases before.reports chain content old with ⟨attempt, member, rest⟩
        exact ⟨attempt, mem_cons_of_mem _ member, rest⟩
      · intro content found
        simp [withAttempt, sameSeed] at found
      · intro attempt failures isActive
        rw [has, Option.some.injEq, Prod.mk.injEq] at isActive
        rcases isActive with ⟨rfl, rfl⟩
        refine ⟨mem_cons_self, sameRun, sameSeed, by simp [withAttempt, sameSeed], ?_⟩
        intro entry inFailures
        exact absurd (mem_map_of_mem (consistent.known _ _ inFailures)) fresh
      · exact fun missingChains isStale => absurd isStale (notStale (.inr has) missingChains)
  | moved isActive same =>
      rcases isSome_iff_exists.mp isActive with ⟨⟨attempt, failures⟩, had⟩
      apply withPipeline before.reports before.marker
      · intro attempt failures isActive
        exact before.active process attempt failures isProcess (same ▸ isActive)
      · exact fun missingChains isStale =>
          absurd isStale (notStale (.inr (same.trans had)) missingChains)
  | @failed attempt failures entry _ had has =>
      have active := before.active process attempt failures isProcess had
      apply withPipeline
      · exact before.reports
      · intro content found
        have marked : world.directory.read (.marker seed) = some content := found
        rw [active.2.2.2.1] at marked
        cases marked
      · intro other entries isActive
        rcases has with idle | has
        · rw [idle.attempt?_eq] at isActive
          cases isActive
        · rw [has, Option.some.injEq, Prod.mk.injEq] at isActive
          rcases isActive with ⟨rfl, rfl⟩
          refine ⟨active.1, active.2.1, active.2.2.1, active.2.2.2.1, ?_⟩
          intro recorded inFailures
          rcases mem_cons.mp inFailures with isNew | old
          · cases isNew
            exact mem_append_right _ mem_cons_self
          · exact mem_append_left _ (active.2.2.2.2 recorded old)
      · exact fun missingChains isStale => absurd isStale (notStale has missingChains)
  | @reported attempt failures scope report _ had has =>
      have active := before.active process attempt failures isProcess had
      apply withPipeline
      · intro chain content found
        by_cases isScope : chain = scope.1
        · refine ⟨attempt, active.1, ?_,
            scopedSeedReport seed scope.1 scope.2 attempt.id report, ?_, ?_⟩
          · simp [withReport, isScope]
          · simp [withReport, isScope] at found
            exact found.symm
          · rfl
        · have old : world.directory.read (.report seed chain) = some content := by
            simpa [withReport, isScope] using found
          rcases before.reports chain content old with ⟨other, member, wrote, rest⟩
          refine ⟨other, member, ?_, rest⟩
          simpa [withReport, isScope] using wrote
      · intro content found
        have marked : world.directory.read (.marker seed) = some content := by
          simpa [withReport] using found
        rw [active.2.2.2.1] at marked
        cases marked
      · intro other entries isActive
        rw [has, Option.some.injEq, Prod.mk.injEq] at isActive
        rcases isActive with ⟨rfl, rfl⟩
        refine ⟨active.1, active.2.1, active.2.2.1, ?_, active.2.2.2.2⟩
        simpa [withReport] using active.2.2.2.1
      · exact fun missingChains isStale => absurd isStale (notStale (.inr has) missingChains)
  | @committed attempt _ had idle =>
      have active := before.active process attempt [] isProcess had
      apply withPipeline
      · intro chain content found
        have old : world.directory.read (.report seed chain) = some content := by
          simpa [withMarker, writeFile] using found
        exact before.reports chain content old
      · intro content found
        refine ⟨attempt, active.1, active.2.2.1, ?_, ?_⟩
        · simp [withMarker, writeFile] at found
          rw [← found, active.2.1]
        · intro entry inFailures
          exact absurd (active.2.2.2.2 entry inFailures) not_mem_nil
      · intro other entries isActive
        rw [idle.attempt?_eq] at isActive
        cases isActive
      · rintro missingChains rfl
        cases idle

/-! ## All steps -/

/-- A batch begins without a result and with distinct seeds. Later its result is that of the
files, or the one from before. -/
def Summarizes (libraries : BatchLibraries Stats) (world next : BatchWorld Stats) : Prop :=
  ∀ process, next.process = some process →
    (process.seeds.Nodup ∧ process.phase.result? = none) ∨
    ∃ before, world.process = some before ∧ before.seeds = process.seeds ∧
      before.manifest = process.manifest ∧
      ∀ result, process.phase.result? = some result →
        result.scopedStats = aggregate libraries world.directory process.seeds
          process.manifest.runId ∨ before.phase.result? = some result

/-- A step is a move of one pipeline or leaves the files and attempts of all seeds alone. -/
structure BatchMove (libraries : BatchLibraries Stats) (world next : BatchWorld Stats) :
    Prop where
  directory : ∀ seed, next.directory.read (.marker seed) = world.directory.read (.marker seed) ∧
    ∀ chain, next.directory.read (.report seed chain) = world.directory.read (.report seed chain)
  history : next.history = world.history
  leaves : ∀ seed, Leaves seed world next
  summarizes : Summarizes libraries world next

theorem BatchMove.spares (move : BatchMove libraries world next) (seed : ContractId) :
    Spares seed world next := by
  constructor
  · exact (move.directory seed).1
  · exact (move.directory seed).2
  all_goals simp only [move.history]
  · exact fun _ member => member
  · exact fun _ member _ => member
  · exact fun _ _ member _ => member

theorem leaves_of_same {process after : BatchProcess Stats} (isProcess : world.process = some process)
    (isAfter : next.process = some after) (manifest : after.manifest = process.manifest)
    (pipelines : after.pipelines = process.pipelines) (seed : ContractId) :
    Leaves seed world next := by
  intro other isOther
  rw [isAfter, Option.some.injEq] at isOther
  exact .inr ⟨process, isProcess, by rw [← isOther, pipelines], by rw [← isOther, manifest]⟩

theorem BatchMove.of_phase {phase : BatchPhase Stats} (isProcess : world.process = some process)
    (directory : ∀ seed, changed.directory.read (.marker seed) =
        world.directory.read (.marker seed) ∧
      ∀ chain, changed.directory.read (.report seed chain) =
        world.directory.read (.report seed chain)) (history : changed.history = world.history)
    (result : ∀ result, phase.result? = some result →
      result.scopedStats = aggregate libraries world.directory process.seeds
        process.manifest.runId ∨ process.phase.result? = some result) :
    BatchMove libraries world (changed.withPhase process phase) where
  directory := directory
  history := history
  leaves := leaves_of_same isProcess rfl rfl rfl
  summarizes := by
    intro after isAfter
    cases isAfter
    exact .inr ⟨process, isProcess, rfl, rfl, result⟩

theorem BatchMove.of_ended (directory : ∀ seed, changed.directory.read (.marker seed) =
        world.directory.read (.marker seed) ∧
      ∀ chain, changed.directory.read (.report seed chain) =
        world.directory.read (.report seed chain)) (history : changed.history = world.history)
    (ended : changed.process = none) :
    BatchMove libraries world changed where
  directory := directory
  history := history
  leaves := fun _ _ isAfter => nomatch ended.symm.trans isAfter
  summarizes := fun _ isAfter => nomatch ended.symm.trans isAfter

variable {event : BatchEvent Stats}

/-- What a step of a running batch is. -/
theorem batchMove_of_stepProcess (isProcess : world.process = some process)
    (taken : world.stepProcess libraries process event = some next) :
    BatchMove libraries world next ∨ ∃ seed changed pipeline,
      SeedMove libraries world process seed changed pipeline ∧
        process.phase.result? = none ∧ next = changed.withPipeline process seed pipeline := by
  cases event with
  | start batch => cases taken
  | writeManifest =>
      rw [stepProcess] at taken
      split at taken
      · cases taken
        refine .inl (.of_phase isProcess ?_ rfl ?_)
        · simp [writeFile]
        · exact fun _ impossible => nomatch impossible
      · cases taken
  | requestCancellation =>
      cases taken
      refine .inl ⟨fun _ => ⟨rfl, fun _ => rfl⟩, rfl, leaves_of_same isProcess rfl rfl rfl, ?_⟩
      intro after isAfter
      cases isAfter
      exact .inr ⟨process, isProcess, rfl, rfl, fun _ isSummary => .inr isSummary⟩
  | act seed action =>
      rw [stepProcess] at taken
      split at taken
      · next isRunning =>
          rw [ite_none_right_eq_some] at taken
          rcases seedMove_of_actSeed taken.2 with ⟨changed, pipeline, move, isNext⟩
          exact .inr ⟨seed, changed, pipeline, move, by rw [isRunning]; rfl, isNext⟩
      · cases taken
  | collect seed =>
      rw [stepProcess] at taken
      split at taken
      · next output isRunning isFinished =>
          cases taken
          refine .inl ⟨fun _ => ⟨rfl, fun _ => rfl⟩, rfl, ?_, ?_⟩
          · intro other after isAfter
            cases isAfter
            by_cases isSeed : other = seed
            · rw [isSeed]
              exact .inl (by simp [SeedPipeline.Idle])
            · exact .inr ⟨process, isProcess, by simp [isSeed], rfl⟩
          · intro after isAfter
            cases isAfter
            refine .inr ⟨process, isProcess, rfl, rfl, fun summary isSummary => ?_⟩
            dsimp only at isSummary
            rw [isRunning] at isSummary
            split at isSummary
            · cases isSummary
            · cases isSummary
      · cases taken
  | interrupt now | finish now =>
      rw [stepProcess] at taken
      split at taken
      · cases taken
        exact .inl (.of_ended (by simp [finish, writeFile]) rfl rfl)
      · cases taken
  | aggregate =>
      rw [stepProcess] at taken
      split at taken
      · rw [ite_none_right_eq_some, Option.some.injEq] at taken
        rcases taken with ⟨_, rfl⟩
        refine .inl (.of_phase isProcess (fun _ => ⟨rfl, fun _ => rfl⟩) rfl ?_)
        intro summary isSummary
        cases isSummary
        exact .inl rfl
      · cases taken
  | writeSummary =>
      rw [stepProcess] at taken
      split at taken
      · next result isAggregated =>
          cases taken
          refine .inl (.of_phase isProcess (by simp [writeFile]) rfl ?_)
          intro summary isSummary
          rw [isAggregated]
          exact .inr isSummary
      · cases taken
  | writeFailures =>
      rw [stepProcess] at taken
      split at taken
      · next result isSummarized =>
          cases taken
          refine .inl (.of_phase isProcess (by simp [writeFile]) rfl ?_)
          intro summary isSummary
          rw [isSummarized]
          exact .inr isSummary
      · cases taken
  | crash =>
      cases taken
      exact .inl (.of_ended (fun _ => ⟨rfl, fun _ => rfl⟩) rfl rfl)

/-- What a step is. -/
theorem batchMove_of_step (taken : world.step libraries event = some next) :
    BatchMove libraries world next ∨ ∃ process seed changed pipeline,
      world.process = some process ∧ SeedMove libraries world process seed changed pipeline ∧
        process.phase.result? = none ∧ next = changed.withPipeline process seed pipeline := by
  unfold BatchWorld.step at taken
  split at taken
  · next batch isIdle =>
      unfold BatchWorld.launch at taken
      split at taken
      · next seeds _ areSeeds =>
          cases taken
          refine .inl ⟨fun _ => ⟨rfl, fun _ => rfl⟩, rfl, ?_, ?_⟩
          · intro seed after isAfter
            cases isAfter
            exact .inl trivial
          · intro after isAfter
            cases isAfter
            exact .inl ⟨nodup_readSeedContracts areSeeds, rfl⟩
      · cases taken
  · cases taken
  · next process isProcess =>
      rcases batchMove_of_stepProcess isProcess taken with move | ⟨seed, changed, pipeline, rest⟩
      · exact .inl move
      · exact .inr ⟨process, seed, changed, pipeline, isProcess, rest⟩

theorem Consistent.initial : Consistent libraries (BatchWorld.initial : BatchWorld Stats) where
  identities := nodup_nil
  known := fun _ _ member => nomatch member
  seeds := fun _ => {
    reports := fun _ _ found => nomatch found
    marker := fun _ found => nomatch found
    active := fun _ _ _ isProcess => nomatch isProcess
    stale := fun _ _ isProcess => nomatch isProcess }

theorem SeedMove.identities (consistent : Consistent libraries world)
    (move : SeedMove libraries world process seed changed pipeline) :
    (changed.history.attempts.map SeedAttempt.id).Nodup := by
  cases move with
  | begun awaited fresh => exact consistent.identities.cons fresh
  | rest | stale | moved | failed | reported | committed => exact consistent.identities

theorem SeedMove.known (consistent : Consistent libraries world)
    (isProcess : world.process = some process)
    (move : SeedMove libraries world process seed changed pipeline) (attempt : SeedAttempt)
    (entry : BatchFailurePayload) (member : (attempt, entry) ∈ changed.history.failures) :
    attempt ∈ changed.history.attempts := by
  cases move with
  | begun awaited fresh => exact mem_cons_of_mem _ (consistent.known _ _ member)
  | failed recorded had =>
      rcases mem_cons.mp member with isNew | old
      · cases isNew
        exact ((consistent.seeds seed).active process _ _ isProcess had).1
      · exact consistent.known _ _ old
  | rest | stale | moved | reported | committed => exact consistent.known _ _ member

theorem leaves_withPipeline {other : ContractId} (isProcess : world.process = some process)
    (different : other ≠ seed) :
    Leaves other world (changed.withPipeline process seed pipeline) := by
  intro after isAfter
  cases isAfter
  exact .inr ⟨process, isProcess, Function.update_of_ne different _ _, rfl⟩

theorem Consistent.owned (consistent : Consistent libraries world)
    (isProcess : world.process = some process) (seed : ContractId) (attempt : SeedAttempt)
    (failures : List BatchFailurePayload)
    (has : (process.pipelines seed).attempt? = some (attempt, failures)) :
    attempt.seed = seed :=
  ((consistent.seeds seed).active process attempt failures isProcess has).2.2.1

theorem Consistent.step (consistent : Consistent libraries world)
    (taken : world.step libraries event = some next) : Consistent libraries next := by
  rcases batchMove_of_step taken with move | ⟨process, seed, changed, pipeline, isProcess, move,
    _, rfl⟩
  · refine ⟨?_, ?_, fun seed =>
      (consistent.seeds seed).of_spares (move.spares seed) (move.leaves seed)⟩
    · rw [move.history]
      exact consistent.identities
    · rw [move.history]
      exact consistent.known
  · have identities := move.identities consistent
    have known := move.known consistent isProcess
    refine ⟨identities, known, fun other => ?_⟩
    by_cases isSeed : other = seed
    · rw [isSeed]
      exact SeedConsistent.of_move consistent isProcess move
    · have spares := move.spares isSeed (consistent.owned isProcess seed)
      exact (consistent.seeds other).of_spares
        ⟨spares.marker, spares.reports, spares.writer, spares.attempts, spares.begun,
          spares.failures⟩ (leaves_withPipeline isProcess isSeed)

end BatchWorld

end NftData.TopContracts
