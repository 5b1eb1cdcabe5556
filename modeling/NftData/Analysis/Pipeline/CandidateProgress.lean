import NftData.Analysis.Pipeline.CandidateProtocol

namespace NftData.Analysis

open Option
open PipelineState (handle)

/-! # Progress of the candidate pipeline

Once the stream of candidates is closed, the loop either ends or has something to wait for other
than its telemetry, provided that the prefetched candidates that nobody froze fit into the
network slots. Each of them keeps its slot for good, and those without a slot keep the loop
going. -/

open List

variable {config : PipelineConfig} {state next : PipelineState}

namespace PipelineState

def canLaunch (config : PipelineConfig) (state : PipelineState) : Bool :=
  state.mayLaunch config && (!state.finalFetches.isEmpty ||
    (decide (state.prefetch.reservedCount < config.networkLimit) &&
      state.prefetch.popQueued.1.isSome))

def canSubmit (config : PipelineConfig) (state : PipelineState) : Bool :=
  state.maySubmit config && !state.compressionReady.isEmpty

def canAdmit (config : PipelineConfig) (state : PipelineState) : Bool :=
  state.admissionReady.head?.any fun prepared =>
    decide (config.writerQueueBytes < prepared.compressedBytes) ||
      decide (state.budgetUsed + prepared.compressedBytes ≤ config.writerQueueBytes)

def canStartWrite (config : PipelineConfig) (state : PipelineState) : Bool :=
  decide (state.writes.length < config.writerThreads) && !state.writeReady.isEmpty

def canMove (config : PipelineConfig) (state : PipelineState) : Bool :=
  state.canLaunch config || !state.network.isEmpty || !state.jobs.isEmpty ||
    state.canSubmit config || state.canAdmit config || state.canStartWrite config ||
    !state.writes.isEmpty

/-! ## Bytes of the writer -/

def queuedBytes (state : PipelineState) : Nat :=
  (state.writeReady.map PreparedCandidate.compressedBytes).sum

def writeBytes (write : WriteTask) : Nat :=
  match write.result with
  | none => write.prepared.compressedBytes
  | some _ => 0

/-- The bytes of writes whose thread has not ended. -/
def writingBytes (state : PipelineState) : Nat := (state.writes.map writeBytes).sum

end PipelineState

/-- The writer budget counts its candidates, and a closed stream left no more candidates to
prefetch than there are slots. -/
structure ProgressAccounts (config : PipelineConfig) (state : PipelineState) : Prop where
  budget : state.budgetUsed = state.queuedBytes + state.writingBytes
  closed : state.candidateStreamOpen = false → state.prefetch.planCount ≤ config.networkLimit

namespace SameWriter

theorem refl (state : PipelineState) : SameWriter state state := ⟨rfl, rfl, rfl, rfl⟩

theorem trans {middle : PipelineState} (first : SameWriter state middle)
    (second : SameWriter middle next) : SameWriter state next :=
  ⟨second.writeReady.trans first.writeReady, second.writes.trans first.writes,
    second.budgetUsed.trans first.budgetUsed,
    second.candidateStreamOpen.trans first.candidateStreamOpen⟩

theorem budget (same : SameWriter state next)
    (known : state.budgetUsed = state.queuedBytes + state.writingBytes) :
    next.budgetUsed = next.queuedBytes + next.writingBytes := by
  rw [PipelineState.queuedBytes, PipelineState.writingBytes, same.writeReady, same.writes,
    same.budgetUsed]
  exact known

end SameWriter

variable {candidate : CandidateRecord} {batch : CandidateRelationsEvent}

theorem sameWriter_receive (received : state.receive config batch = .ok next) :
    SameWriter state next := by
  cases batch with
  | prefetch relations =>
      rcases bind_eq_ok received with ⟨candidates, _, offered⟩
      refine foldlM_induction (SameWriter state) ?_ candidates (.refl state) offered
      intro middle candidate later kept step
      rcases bind_eq_ok step with ⟨offer, _, isLater⟩
      cases isLater
      exact kept.trans ⟨rfl, rfl, rfl, rfl⟩
  | frozen relations =>
      rcases bind_eq_ok received with ⟨inserted, _, froze⟩
      refine foldlM_induction (SameWriter state) ?_ inserted.1 ?_ froze
      · exact fun middle candidate later kept step =>
          kept.trans (PipelineAccounts.freezeCandidate_frame step).2
      · exact ⟨rfl, rfl, rfl, rfl⟩

variable {coordinator later : PrefetchCoordinator} {completion : NetworkCompletion}

theorem planCount_finish {outcome : PrefetchFinish}
    (finished : coordinator.finish completion = .ok (outcome, later)) :
    later.planCount = coordinator.planCount := by
  unfold PrefetchCoordinator.finish at finished
  dsimp only at finished
  split at finished
  · cases finished
    rfl
  · cases finished
    rfl
  · split at finished
    · cases finished
      rfl
    · cases finished
      rfl
  · cases finished
    rfl
  · cases finished

theorem planCount_popQueued {popped : Option CandidateRecord}
    (taken : coordinator.popQueued = (popped, later)) :
    later.planCount = coordinator.planCount := by
  unfold PrefetchCoordinator.popQueued at taken
  generalize coordinator.order = order at taken
  induction order with
  | nil =>
      cases taken
      rfl
  | cons id rest induction =>
      rw [PrefetchCoordinator.popFrom] at taken
      split at taken
      · cases taken
        rfl
      · exact induction taken

theorem sameWriter_finishNetwork (finished : state.finishNetwork completion = .ok next) :
    SameWriter state next ∧ next.prefetch.planCount = state.prefetch.planCount := by
  unfold PipelineState.finishNetwork at finished
  split at finished
  · unfold PipelineState.queueCandidateAnalysis at finished
    split at finished
    · cases finished
    · cases finished
      exact ⟨⟨rfl, rfl, rfl, rfl⟩, rfl⟩
  · split at finished
    · cases finished
    · next prefetch isFinished =>
        cases finished
        exact ⟨⟨rfl, rfl, rfl, rfl⟩, planCount_finish isFinished⟩
    · next candidate result prefetch isFinished =>
        have settled := (PipelineAccounts.settleFrozen_frame finished).2
        refine ⟨⟨settled.1.writeReady, settled.1.writes, settled.1.budgetUsed,
          settled.1.candidateStreamOpen⟩, ?_⟩
        rw [settled.2]
        exact planCount_finish isFinished

/-! ## Steps -/

/-- The candidates that a closed stream leaves behind have slots. -/
def MeetsClose (config : PipelineConfig) (run : Except PipelineError PipelineState)
    (event : PipelineEvent) : Prop :=
  match run, event with
  | .ok state, .close => state.prefetch.planCount ≤ config.networkLimit
  | _, _ => True

namespace ProgressAccounts

section

variable (accounts : ProgressAccounts config state)
include accounts

theorem of_same (same : SameWriter state next)
    (planned : next.prefetch.planCount = state.prefetch.planCount) :
    ProgressAccounts config next where
  budget := same.budget accounts.budget
  closed := fun closed => by
    rw [planned]
    exact accounts.closed (same.candidateStreamOpen.symm.trans closed)

theorem launch (taken : state.launch config = some next) : ProgressAccounts config next := by
  unfold PipelineState.launch at taken
  split at taken
  · split at taken
    · cases taken
      exact accounts.of_same ⟨rfl, rfl, rfl, rfl⟩ rfl
    · split at taken
      · split at taken
        · next candidate prefetch popped =>
            cases taken
            exact accounts.of_same ⟨rfl, rfl, rfl, rfl⟩ (planCount_popQueued popped)
        · next prefetch popped =>
            cases taken
            exact accounts.of_same ⟨rfl, rfl, rfl, rfl⟩ (planCount_popQueued popped)
      · cases taken
  · cases taken

theorem submitCompression (taken : state.submitCompression config = some (.ok next)) :
    ProgressAccounts config next := by
  unfold PipelineState.submitCompression at taken
  split at taken
  · split at taken
    · cases taken
    · split at taken
      · cases taken
      · cases taken
        exact accounts.of_same ⟨rfl, rfl, rfl, rfl⟩ rfl
  · cases taken

theorem admitPrepared
    (taken : state.admitPrepared config = some (.ok next)) : ProgressAccounts config next := by
  unfold PipelineState.admitPrepared at taken
  split at taken
  · cases taken
  · next prepared rest queue =>
      split at taken
      · cases taken
      · split at taken
        · cases taken
          exact accounts.of_same ⟨rfl, rfl, rfl, rfl⟩ rfl
        · cases taken
          refine ⟨?_, accounts.closed⟩
          have budget := accounts.budget
          change state.budgetUsed + prepared.compressedBytes =
            (List.map _ (state.writeReady ++ [prepared])).sum + state.writingBytes
          rw [PipelineState.queuedBytes] at budget
          rw [map_append, sum_append, map_singleton, sum_singleton]
          omega

theorem startWrite
    (taken : state.startWrite config = some next) : ProgressAccounts config next := by
  unfold PipelineState.startWrite at taken
  split at taken
  · split at taken
    · cases taken
    · next prepared rest queue =>
        cases taken
        refine ⟨?_, accounts.closed⟩
        have budget := accounts.budget
        rw [PipelineState.queuedBytes, queue, map_cons, sum_cons,
          PipelineState.writingBytes] at budget
        change state.budgetUsed = (List.map PreparedCandidate.compressedBytes rest).sum +
          (List.map PipelineState.writeBytes (state.writes ++ [⟨prepared, none⟩])).sum
        rw [map_append, sum_append, map_singleton, sum_singleton]
        change _ = _ + (_ + prepared.compressedBytes)
        omega
  · cases taken

end

variable {index : Nat}

section

variable (accounts : ProgressAccounts config state)
include accounts

/-- A thread that ends gives back the bytes it was counted with. -/
theorem finishWrite {result : Except String Unit}
    (taken : state.finishWrite index result = some next) : ProgressAccounts config next := by
  unfold PipelineState.finishWrite at taken
  split at taken
  · next prepared found =>
      cases taken
      refine ⟨?_, accounts.closed⟩
      rcases List.getElem?_eq_some_iff.mp found with ⟨inside, _⟩
      have before := ((perm_cons_eraseIdx found).map PipelineState.writeBytes).sum_eq
      have after := ((set_perm_cons_eraseIdx inside
        (⟨prepared, some result⟩ : WriteTask)).map PipelineState.writeBytes).sum_eq
      have budget := accounts.budget
      rw [map_cons, sum_cons] at before after
      change _ = prepared.compressedBytes + _ at before
      change _ = 0 + _ at after
      rw [PipelineState.writingBytes] at budget
      change state.budgetUsed - prepared.compressedBytes = state.queuedBytes + (List.map _
        (state.writes.set index ⟨prepared, some result⟩)).sum
      omega
  · cases taken

theorem joinWrite
    (taken : state.joinWrite index = some (.ok next)) : ProgressAccounts config next := by
  unfold PipelineState.joinWrite at taken
  split at taken
  · next prepared found =>
      cases taken
      refine ⟨?_, accounts.closed⟩
      have writing := ((perm_cons_eraseIdx found).map PipelineState.writeBytes).sum_eq
      rw [map_cons, sum_cons] at writing
      refine accounts.budget.trans ?_
      change _ + (List.map _ state.writes).sum = _ + (List.map _ (state.writes.eraseIdx index)).sum
      rw [writing]
      exact congrArg _ (Nat.zero_add _)
  · cases taken
  · cases taken

theorem completeCpu {completion : CpuCompletion}
    (taken : state.completeCpu index completion = some (.ok next)) :
    ProgressAccounts config next := by
  unfold PipelineState.completeCpu at taken
  split at taken
  · have finished := Option.some.inj taken
    unfold PipelineState.finishCpu at finished
    split at finished
    · split at finished
      · split at finished
        · cases finished
        · cases finished
          exact accounts.of_same ⟨rfl, rfl, rfl, rfl⟩ rfl
      · cases finished
    · split at finished
      · split at finished
        · cases finished
        · cases finished
          exact accounts.of_same ⟨rfl, rfl, rfl, rfl⟩ rfl
      · cases finished
  · cases taken

theorem completeFetch {outcome : FetchOutcome}
    (taken : state.completeFetch index outcome = some (.ok next)) :
    ProgressAccounts config next := by
  unfold PipelineState.completeFetch at taken
  split at taken
  · cases taken
  · rcases map_eq_some_iff.mp taken with ⟨fetched, _, finished⟩
    have same := sameWriter_finishNetwork finished
    exact accounts.of_same ⟨same.1.writeReady, same.1.writes, same.1.budgetUsed,
      same.1.candidateStreamOpen⟩ same.2

theorem receive (mayReceive : state.mayReceive config = true)
    (received : state.receive config batch = .ok next) : ProgressAccounts config next := by
  have same := sameWriter_receive received
  refine ⟨same.budget accounts.budget, fun closed => ?_⟩
  rw [PipelineState.mayReceive, ← same.candidateStreamOpen, closed] at mayReceive
  cases mayReceive

end

end ProgressAccounts

def InProgress (config : PipelineConfig) : Except PipelineError PipelineState → Prop
  | .ok state => ProgressAccounts config state
  | .error _ => True

theorem inProgress_initial (config : PipelineConfig) : InProgress config (.ok .initial) :=
  ⟨rfl, fun isOpen => (nomatch isOpen)⟩

variable {event : PipelineEvent}

theorem inProgress_step {run later : Except PipelineError PipelineState}
    (inProgress : InProgress config run) (meets : MeetsClose config run event)
    (taken : pipelineStep config run event = some later) : InProgress config later := by
  cases later with
  | error error => trivial
  | ok final =>
      cases run with
      | error error => cases taken
      | ok state =>
          have accounts : ProgressAccounts config state := inProgress
          unfold pipelineStep at taken
          dsimp only at taken
          split at taken
          · cases event with
            | launch =>
                rcases map_eq_some_iff.mp taken with ⟨next, launched, isNext⟩
                cases isNext
                exact accounts.launch launched
            | submitCompression => exact accounts.submitCompression taken
            | admitPrepared => exact accounts.admitPrepared taken
            | startWrite =>
                rcases map_eq_some_iff.mp taken with ⟨next, started, isNext⟩
                cases isNext
                exact accounts.startWrite started
            | receive batch =>
                have received := PipelineState.handle_receive taken
                exact accounts.receive received.1 received.2
            | close =>
                cases PipelineState.handle_close taken
                exact ⟨accounts.budget, fun _ => meets⟩
            | network index outcome => exact accounts.completeFetch taken
            | networkLost index error => cases PipelineState.handle_networkLost taken
            | cpu index completion => exact accounts.completeCpu taken
            | finishWrite index result =>
                rcases map_eq_some_iff.mp taken with ⟨next, finished, isNext⟩
                cases isNext
                exact accounts.finishWrite finished
            | joinWrite index => exact accounts.joinWrite taken
            | telemetry usage =>
                cases usage with
                | error error => cases taken
                | ok memory =>
                    cases taken
                    exact accounts.of_same ⟨rfl, rfl, rfl, rfl⟩ rfl
            | checkMemory =>
                rcases map_eq_some_iff.mp taken with ⟨error, _, isError⟩
                cases isError
          · cases taken

/-! ## Progress -/

theorem PrefetchCoordinator.length_entries (coordinator : PrefetchCoordinator) :
    coordinator.queuedIds.length + coordinator.reservedIds.length =
      coordinator.plannedIds.length + coordinator.frozenIds.length := by
  have slots : coordinator.queuedIds.length + coordinator.reservedIds.length = _ :=
    length_keysWhere_add coordinator.entries fun entry => by
      rcases entry with ⟨relations, stage⟩
      cases stage <;> rfl
  have plans : coordinator.frozenIds.length + coordinator.plannedIds.length = _ :=
    length_keysWhere_add coordinator.entries fun _ => rfl
  omega

/-- Without fetches and jobs, queues that cannot move are empty. -/
structure Idle (state : PipelineState) : Prop where
  network : state.network = []
  activeAnalyses : state.activeAnalyses = []
  activeCompressions : state.activeCompressions = []
  compressionReady : state.compressionReady = []
  admissionReady : state.admissionReady = []
  writeReady : state.writeReady = []
  writes : state.writes = []

theorem idle_of_not_canMove (stages : StageAccounts state)
    (accounts : ProgressAccounts config state) (stuck : state.canMove config = false) :
    Idle state := by
  simp only [PipelineState.canMove, Bool.or_eq_false_iff, Bool.not_eq_false',
    List.isEmpty_iff] at stuck
  rcases stuck with ⟨⟨⟨⟨⟨⟨_, network⟩, jobs⟩, submit⟩, admission⟩, start⟩, writes⟩
  have noJobs := stages.jobs.length_eq
  rw [jobs, PipelineState.jobsOf, length_append, length_map, length_map,
    length_nil] at noJobs
  have activeAnalyses : state.activeAnalyses = [] := eq_nil_of_length_eq_zero (by omega)
  have activeCompressions : state.activeCompressions = [] :=
    eq_nil_of_length_eq_zero (by omega)
  have writerPositive := config.writerPositive
  have compressionPositive := config.compressionPositive
  have writeReady : state.writeReady = [] := by
    rw [PipelineState.canStartWrite, writes, length_nil, decide_eq_true writerPositive,
      Bool.true_and, Bool.not_eq_false', List.isEmpty_iff] at start
    exact start
  have budget := accounts.budget
  rw [PipelineState.queuedBytes, PipelineState.writingBytes, writeReady, writes] at budget
  change state.budgetUsed = 0 at budget
  have admissionReady : state.admissionReady = [] := by
    cases queue : state.admissionReady with
    | nil => rfl
    | cons prepared rest =>
        rw [PipelineState.canAdmit, queue, List.head?_cons, any_some,
          Bool.or_eq_false_iff, decide_eq_false_iff_not, decide_eq_false_iff_not] at admission
        omega
  have compressionReady : state.compressionReady = [] := by
    have maySubmit : state.maySubmit config = true := by
      rw [PipelineState.maySubmit, activeCompressions, admissionReady]
      exact decide_eq_true compressionPositive
    rw [PipelineState.canSubmit, maySubmit, Bool.true_and, Bool.not_eq_false',
      List.isEmpty_iff] at submit
    exact submit
  exact ⟨network, activeAnalyses, activeCompressions, compressionReady, admissionReady,
    writeReady, writes⟩

theorem slots_of_idle (fetches : FetchAccounts config state []) (idle : Idle state)
    (below : state.memoryPressure config = false)
    (noLaunch : state.canLaunch config = false) :
    state.finalFetches = [] ∧
      (0 < state.prefetch.queuedCount → config.networkLimit < state.prefetch.planCount) := by
  have mayLaunch : state.mayLaunch config = true := by
    have positive := config.networkLimit_positive
    have queue := config.analysisQueuePositive
    rw [PipelineState.mayLaunch, PipelineState.activeCandidates, below, idle.network,
      idle.activeAnalyses, idle.activeCompressions, idle.compressionReady,
      idle.admissionReady, idle.writeReady, idle.writes]
    change (decide (0 < config.networkLimit) && decide (0 < config.analysisQueueCapacity)) = true
    rw [decide_eq_true positive, decide_eq_true queue]
    rfl
  rw [PipelineState.canLaunch, mayLaunch, Bool.true_and, Bool.or_eq_false_iff,
    Bool.not_eq_false', List.isEmpty_iff] at noLaunch
  refine ⟨noLaunch.1, fun queued => ?_⟩
  rcases PrefetchCoordinator.exists_popQueued fetches.accounted queued with
    ⟨candidate, later, popped⟩
  have taken : config.networkLimit ≤ state.prefetch.reservedCount := by
    have reserved := noLaunch.2
    rw [popped, isSome_some, Bool.and_true, decide_eq_false_iff_not] at reserved
    exact Nat.le_of_not_lt reserved
  have noActive : state.prefetch.activeIds = [] := by
    refine List.Perm.nil_eq (.trans ?_ fetches.active) |>.symm
    rw [PipelineState.tasksOf, idle.network]
    exact .refl _
  have noFrozen : state.prefetch.frozenIds = [] :=
    eq_nil_of_subset_nil (noActive ▸ state.prefetch.frozenIds_subset)
  have entries := state.prefetch.length_entries
  rw [noFrozen, ← fetches.accounted.queued, ← fetches.accounted.reserved,
    ← fetches.accounted.planned, length_nil] at entries
  omega

/-- When the stream of candidates never closes with more unfrozen prefetches than there are
network slots, a closed pipeline below its memory limit is never stuck. -/
theorem pipeline_moves
    (reached : Reaches (pipelineStep config)
      (fun run event => MeetsFreezeOnce run event ∧ MeetsClose config run event)
      (.ok .initial) (.ok state))
    (closed : state.candidateStreamOpen = false)
    (below : state.memoryPressure config = false) :
    state.working = false ∨ state.canMove config = true := by
  have orderly : Orderly config (.ok state) :=
    reached.invariant (Orderly config) (orderly_initial config)
      fun _ _ _ orderly meets taken => orderly_step orderly meets.1 taken
  have inProgress : InProgress config (.ok state) :=
    reached.invariant (InProgress config) (inProgress_initial config)
      fun _ _ _ inProgress meets taken => inProgress_step inProgress meets.2 taken
  cases move : state.canMove config with
  | true => exact .inr rfl
  | false =>
      refine .inl ?_
      have idle := idle_of_not_canMove orderly.stages inProgress move
      have noLaunch : state.canLaunch config = false := by
        simp only [PipelineState.canMove, Bool.or_eq_false_iff] at move
        exact move.1.1.1.1.1.1
      have slots := slots_of_idle orderly.fetches idle below noLaunch
      have planned := inProgress.closed closed
      have noneQueued : state.prefetch.hasQueued = false := by
        rw [PrefetchCoordinator.hasQueued, decide_eq_false_iff_not]
        exact fun queued => Nat.not_lt_of_le planned (slots.2 queued)
      rw [PipelineState.working, closed, slots.1, noneQueued, idle.network,
        idle.activeAnalyses, idle.activeCompressions, idle.compressionReady,
        idle.admissionReady, idle.writeReady, idle.writes]
      rfl

/-- An idle pipeline that launches nothing can only look at its memory. -/
theorem step_of_idle (idle : Idle state) (jobs : state.jobs = [])
    (closed : state.candidateStreamOpen = false) (below : state.memoryPressure config = false)
    (noLaunch : state.launch config = none) (other : ∀ usage, event ≠ .telemetry usage) :
    pipelineStep config (.ok state) event = none := by
  have mayReceive : state.mayReceive config = false := by
    rw [PipelineState.mayReceive, closed]
    rfl
  have handled : state.handle config event = none := by
    cases event with
    | launch =>
        rw [handle, noLaunch]
        rfl
    | submitCompression =>
        rw [handle, PipelineState.submitCompression, idle.compressionReady]
        exact ite_self none
    | admitPrepared =>
        rw [handle, PipelineState.admitPrepared, idle.admissionReady]
    | startWrite =>
        rw [handle, PipelineState.startWrite, idle.writeReady]
        exact congrArg _ (ite_self none)
    | receive batch | close => exact if_neg (ne_true_of_eq_false mayReceive)
    | network index outcome =>
        rw [handle, PipelineState.completeFetch, idle.network]
        rfl
    | networkLost index error =>
        rw [handle, idle.network]
        exact if_neg (Nat.not_lt_zero index)
    | cpu index completion =>
        rw [handle, PipelineState.completeCpu, jobs]
        exact if_neg fun guard => nomatch guard.1
    | finishWrite index result =>
        rw [handle, PipelineState.finishWrite, idle.writes]
        rfl
    | joinWrite index =>
        rw [handle, PipelineState.joinWrite, idle.writes]
        rfl
    | telemetry usage => exact absurd rfl (other usage)
    | checkMemory =>
        rw [handle, PipelineState.checkMemory, below]
        rfl
  change (if state.working then state.handle config event else none) = none
  rw [handled]
  exact ite_self none

section Example

/-- One prefetch is completed, and its candidate never freezes. -/
def closedHistory : List PipelineEvent :=
  [.receive (.prefetch [smallRelation 1]), .launch, .network 0 (.fetched (smallEvidence 1)),
    .close]

theorem closed_history_moves : ∃ state,
    closedHistory.foldlM (pipelineStep smallPipeline) (.ok .initial) = some (.ok state) ∧
      (state.working = false ∨ state.canMove smallPipeline = true) := by
  have ran : ∃ state,
      closedHistory.foldlM (pipelineStep smallPipeline) (.ok .initial) = some (.ok state) ∧
        state.candidateStreamOpen = false ∧ state.memoryPressure smallPipeline = false :=
    ⟨_, rfl, rfl, rfl⟩
  rcases ran with ⟨state, ran, closed, below⟩
  have reached : Reaches (pipelineStep smallPipeline)
      (fun run event => MeetsFreezeOnce run event ∧ MeetsClose smallPipeline run event)
      (.ok .initial) (.ok state) := by
    refine .of_allMeet closedHistory ?_ .start ran
    refine .cons ⟨fun _ _ => not_mem_nil, trivial⟩ rfl
      (.cons ⟨trivial, trivial⟩ rfl (.cons ⟨trivial, trivial⟩ rfl ?_))
    refine ⟨⟨trivial, ?_⟩, fun _ _ => trivial⟩
    exact Nat.le_of_ble_eq_true rfl
  exact ⟨state, ran, pipeline_moves reached closed below⟩

/-- Four candidates are offered for three slots. Three are fetched, and then the dedup task
fails before it freezes any. -/
def stuckHistory : List PipelineEvent :=
  [.receive (.prefetch [smallRelation 1, smallRelation 2, smallRelation 3, smallRelation 4]),
    .launch, .launch, .launch, .network 0 (.fetched (smallEvidence 1)),
    .network 0 (.fetched (smallEvidence 2)), .network 0 (.fetched (smallEvidence 3)), .close]

theorem stuck_history : ∃ state,
    Reaches (pipelineStep smallPipeline) MeetsFreezeOnce (.ok .initial) (.ok state) ∧
      state.candidateStreamOpen = false ∧ state.memoryPressure smallPipeline = false ∧
      state.working = true ∧ state.canMove smallPipeline = false ∧
      ∀ event, (∀ usage, event ≠ .telemetry usage) →
        pipelineStep smallPipeline (.ok state) event = none := by
  have ran : ∃ state,
      stuckHistory.foldlM (pipelineStep smallPipeline) (.ok .initial) = some (.ok state) ∧
        state.candidateStreamOpen = false ∧ state.memoryPressure smallPipeline = false ∧
        state.working = true ∧ state.canMove smallPipeline = false ∧ Idle state ∧
        state.jobs = [] ∧ state.launch smallPipeline = none :=
    ⟨_, rfl, rfl, rfl, rfl, rfl, ⟨rfl, rfl, rfl, rfl, rfl, rfl, rfl⟩, rfl, rfl⟩
  rcases ran with ⟨state, ran, closed, below, working, stuck, idle, jobs, noLaunch⟩
  have reached : Reaches (pipelineStep smallPipeline) MeetsFreezeOnce (.ok .initial)
      (.ok state) := by
    refine .of_allMeet stuckHistory ?_ .start ran
    refine .cons (fun _ _ => not_mem_nil) rfl (.cons trivial rfl (.cons trivial rfl ?_))
    refine .cons trivial rfl (.cons trivial rfl (.cons trivial rfl (.cons trivial rfl ?_)))
    exact ⟨trivial, fun _ _ => trivial⟩
  exact ⟨state, reached, closed, below, working, stuck,
    fun event other => step_of_idle idle jobs closed below noLaunch other⟩

end Example

end NftData.Analysis
