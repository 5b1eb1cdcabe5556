import NftData.Analysis.Pipeline.CandidateSteps

namespace NftData.Analysis

/-! # Safety of prefetches and freezes

Whatever order batches, launches and completions come in, the counters count their entries, no
work is done twice, and every frozen candidate is analysed once, with evidence for its matches. -/

open List
open PipelineState (freezeCandidate insertFrozenRelations insertGroups)

variable {config : PipelineConfig} {state next : PipelineState}

/-- Work outside its stage, done twice, or done for no candidate at all. -/
def PipelineError.isProtocol : PipelineError → Bool
  | .prefetchOutsideActive _ => true
  | .analysisTwice _ => true
  | .compressionTwice _ => true
  | .unknownAnalysis => true
  | .unknownCompression => true
  | _ => false

variable {relations : List SeedCandidateRelation} {error : PipelineError} {id : CandidateId}

theorem recordOf_error (failed : recordOf relations id = .error error) :
    error.isProtocol = false := by
  unfold recordOf at failed
  split at failed
  · cases failed
    rfl
  · unfold newRecord at failed
    split at failed
    · cases failed
      rfl
    · split at failed
      · cases failed
        rfl
      · cases failed

theorem prefetchRecords_error (failed : prefetchRecords relations = .error error) :
    error.isProtocol = false := by
  rw [prefetchRecords] at failed
  generalize candidateIds relations = ids at failed
  induction ids with
  | nil => cases failed
  | cons id ids induction =>
      rw [mapM_cons] at failed
      rcases error_cases failed with first | ⟨record, _, later⟩
      · exact recordOf_error first
      · rcases error_cases later with rest | ⟨records, _, final⟩
        · exact induction rest
        · cases final

theorem offer_error {coordinator : PrefetchCoordinator} {candidate : CandidateRecord}
    {capacity : Nat} (failed : coordinator.offer candidate capacity = .error error) :
    error.isProtocol = false := by
  unfold PrefetchCoordinator.offer at failed
  split at failed
  · split at failed
    · cases failed
    · split at failed
      · next inner made =>
          cases failed
          exact prefetchRecords_error made
      · cases failed
        rfl
      · cases failed
  · split at failed
    · cases failed
    · cases failed

theorem offerCandidates_error {candidates : List CandidateRecord}
    (failed : candidates.foldlM (PipelineState.offerCandidate config) state = .error error) :
    error.isProtocol = false := by
  induction candidates generalizing state with
  | nil => cases failed
  | cons candidate candidates induction =>
      rw [foldlM_cons] at failed
      rcases error_cases failed with first | ⟨middle, _, rest⟩
      · rcases error_cases first with offered | ⟨_, _, final⟩
        · exact offer_error offered
        · cases final
      · exact induction rest

variable {seen : List CandidateId} {ids : List CandidateId}

theorem insertGroups_error (failed : insertGroups relations ids seen = .error error) :
    error.isProtocol = false := by
  induction ids generalizing seen with
  | nil => cases failed
  | cons id ids induction =>
      unfold insertGroups at failed
      split at failed
      · cases failed
        rfl
      · rcases error_cases failed with first | ⟨record, _, later⟩
        · exact recordOf_error first
        · rcases error_cases later with rest | ⟨_, _, final⟩
          · exact induction rest
          · cases final

variable {inserted : List CandidateRecord × List CandidateId}

theorem insertGroups_eq_ok (ok : insertGroups relations ids seen = .ok inserted) :
    inserted.1.map CandidateRecord.id = ids ∧ inserted.2 = seen ++ ids := by
  induction ids generalizing seen inserted with
  | nil =>
      cases ok
      exact ⟨rfl, (append_nil seen).symm⟩
  | cons id ids induction =>
      unfold insertGroups at ok
      split at ok
      · cases ok
      · rcases bind_eq_ok ok with ⟨record, made, later⟩
        rcases bind_eq_ok later with ⟨rest, isRest, final⟩
        cases final
        have known := induction isRest
        refine ⟨?_, ?_⟩
        · rw [map_cons, (recordOf_eq_ok made).1, known.1]
        · rw [known.2, List.append_assoc]
          rfl

theorem insertFrozenRelations_error
    (failed : insertFrozenRelations seen relations = .error error) :
    error.isProtocol = false := by
  rcases error_cases failed with first | ⟨_, _, final⟩
  · exact insertGroups_error first
  · cases final

theorem insertFrozenRelations_eq_ok
    (ok : insertFrozenRelations seen relations = .ok inserted) :
    (candidateIds relations).Perm (inserted.1.map CandidateRecord.id) ∧
      inserted.2 = seen ++ candidateIds relations := by
  rcases bind_eq_ok ok with ⟨groups, made, final⟩
  cases final
  have known := insertGroups_eq_ok made
  refine ⟨?_, known.2⟩
  rw [← known.1]
  exact (perm_insertionSort _ _).symm.map _

/-! ## Runs -/

/-- The dedup task freezes a candidate at most once, and does not offer it afterwards. -/
def MeetsFreezeOnce (run : Except PipelineError PipelineState) (event : PipelineEvent) : Prop :=
  match run, event with
  | .ok state, .receive (.prefetch relations) =>
      ∀ relation ∈ relations, relation.candidateId ∉ state.seen
  | .ok state, .receive (.frozen relations) =>
      ∀ relation ∈ relations, relation.candidateId ∉ state.seen
  | _, _ => True

def Orderly (config : PipelineConfig) : Except PipelineError PipelineState → Prop
  | .ok state => PipelineAccounts config state []
  | .error error => error.isProtocol = false

theorem orderly_initial (config : PipelineConfig) : Orderly config (.ok .initial) := by
  refine ⟨⟨PrefetchCoordinator.accounted_empty _, nodup_nil, .nil, .nil,
    fun _ member => (nomatch member)⟩, ⟨.nil, .nil⟩, ?_, ?_⟩
  · constructor
    · exact fun _ member => (nomatch member)
    · exact fun _ _ _ found => (nomatch found)
    · exact fun _ _ found => (nomatch found)
    · exact fun _ member => (nomatch member)
    · exact fun _ member => (nomatch member)
    · exact fun _ member => (nomatch member)
  · refine ⟨.nil, fun _ member => (nomatch member), fun _ member => (nomatch member),
      fun record waits => ?_, fun _ member => (nomatch member)⟩
    rcases waits with ⟨_, _, _, found⟩
    cases found

section

variable (accounts : PipelineAccounts config state [])
include accounts

theorem orderly_prefetch (unseen : ∀ relation ∈ relations, relation.candidateId ∉ state.seen) :
    Orderly config (state.receive config (.prefetch relations)) := by
  generalize isRun : state.receive config (.prefetch relations) = run
  cases run with
  | error error =>
      rcases error_cases isRun with records | ⟨candidates, _, offered⟩
      · exact prefetchRecords_error records
      · exact offerCandidates_error offered
  | ok final =>
      rcases bind_eq_ok isRun with ⟨candidates, made, offered⟩
      have known := prefetchRecords_eq_ok made
      refine accounts.offerCandidates known.2 (fun candidate member => ?_) offered
      have isId : candidate.id ∈ candidateIds relations := by
        rw [← known.1]
        exact mem_map_of_mem member
      rcases mem_candidateIds.mp isId with ⟨relation, inBatch, same⟩
      rw [← same]
      exact unseen relation inBatch

theorem orderly_frozen (unseen : ∀ relation ∈ relations, relation.candidateId ∉ state.seen) :
    Orderly config (state.receive config (.frozen relations)) := by
  have isReceive : state.receive config (.frozen relations) =
      (insertFrozenRelations state.seen relations).bind fun inserted =>
        inserted.1.foldlM freezeCandidate { state with
          seen := inserted.2
          frozenRecords := state.frozenRecords ++ inserted.1 } := rfl
  rw [isReceive]
  cases inserts : insertFrozenRelations state.seen relations with
  | error error => exact insertFrozenRelations_error inserts
  | ok inserted =>
      have known := insertFrozenRelations_eq_ok inserts
      have pending := accounts.seeFrozen known.1 (nodup_candidateIds relations)
        fun id isId => by
          rcases mem_candidateIds.mp isId with ⟨relation, inBatch, same⟩
          rw [← same]
          exact unseen relation inBatch
      rw [← known.2] at pending
      rcases pending.freezeCandidates fun _ member => mem_append_right _ member with
        ⟨final, froze, kept⟩
      change Orderly config (inserted.1.foldlM freezeCandidate _)
      rw [froze]
      exact kept

theorem orderly_launch
    (taken : state.launch config = some next) : PipelineAccounts config next [] := by
  unfold PipelineState.launch at taken
  split at taken
  · split at taken
    · next candidate rest queue =>
        cases taken
        exact accounts.launchFinal queue
    · split at taken
      · split at taken
        · next candidate prefetch popped =>
            cases taken
            exact accounts.launchPrefetch popped
        · next prefetch popped =>
            cases taken
            rcases PrefetchCoordinator.popQueued_eq_none accounts.fetches.accounted popped with
              ⟨isNext, accounted⟩
            rw [isNext] at accounted ⊢
            exact accounts.withPrefetch accounted (.refl _) (.refl _) accounts.fetches.unseen
              (fun _ relations _ found => ⟨relations, found⟩) fun _ waits => .inl waits
      · cases taken
  · cases taken

end

/-- Every step that meets the condition keeps the run in order. -/
theorem orderly_step {run later : Except PipelineError PipelineState} {event : PipelineEvent}
    (orderly : Orderly config run) (meets : MeetsFreezeOnce run event)
    (taken : pipelineStep config run event = some later) : Orderly config later := by
  cases run with
  | error error => cases taken
  | ok state =>
      have accounts : PipelineAccounts config state [] := orderly
      have orderly_of : (∃ next, later = .ok next ∧ PipelineAccounts config next []) →
          Orderly config later := by
        intro outcome
        rcases outcome with ⟨next, isNext, kept⟩
        rw [isNext]
        exact kept
      unfold pipelineStep at taken
      dsimp only at taken
      split at taken
      · cases event with
        | launch =>
            rcases Option.map_eq_some_iff.mp taken with ⟨next, launched, isNext⟩
            rw [← isNext]
            exact orderly_launch accounts launched
        | submitCompression => exact orderly_of (accounts.submitCompression taken)
        | admitPrepared =>
            rcases accounts.admitPrepared taken with ⟨required, failed⟩ | kept
            · rw [failed]
              rfl
            · exact orderly_of kept
        | startWrite =>
            rcases Option.map_eq_some_iff.mp taken with ⟨next, started, isNext⟩
            rw [← isNext]
            exact accounts.startWrite started
        | receive batch =>
            rw [← (PipelineState.handle_receive taken).2]
            cases batch with
            | prefetch relations => exact orderly_prefetch accounts meets
            | frozen relations => exact orderly_frozen accounts meets
        | close =>
            rw [PipelineState.handle_close taken]
            exact accounts.of_same ⟨rfl, rfl, rfl, rfl, rfl, rfl, rfl, rfl⟩
              ⟨accounts.stages.staged, accounts.stages.jobs⟩
        | network index outcome => exact orderly_of (accounts.completeFetch taken)
        | networkLost index error =>
            rw [PipelineState.handle_networkLost taken]
            rfl
        | cpu index completion =>
            rcases accounts.completeCpu taken with ⟨error, failed⟩ | kept
            · rw [failed]
              rfl
            · exact orderly_of kept
        | finishWrite index result =>
            rcases Option.map_eq_some_iff.mp taken with ⟨next, finished, isNext⟩
            rw [← isNext]
            exact accounts.finishWrite finished
        | joinWrite index =>
            rcases accounts.joinWrite taken with ⟨error, failed⟩ | kept
            · rw [failed]
              rfl
            · exact orderly_of kept
        | telemetry usage =>
            cases usage with
            | error error =>
                cases taken
                rfl
            | ok memory =>
                cases taken
                exact accounts.of_same ⟨rfl, rfl, rfl, rfl, rfl, rfl, rfl, rfl⟩
                  ⟨accounts.stages.staged, accounts.stages.jobs⟩
        | checkMemory =>
            rcases Option.map_eq_some_iff.mp taken with ⟨error, failed, isError⟩
            rw [← isError]
            unfold PipelineState.checkMemory at failed
            split at failed
            · cases failed
              rfl
            · cases failed
      · cases taken

/-! ## Safety -/

/-- What holds between any two steps. -/
structure ProtocolSafe (config : PipelineConfig) (state : PipelineState) : Prop where
  queued : state.prefetch.queuedCount = state.prefetch.queuedIds.length
  reserved : state.prefetch.reservedCount = state.prefetch.reservedIds.length
  planned : state.prefetch.planCount = state.prefetch.plannedIds.length
  bound : state.prefetch.planCount ≤ config.networkQueueCapacity
  oneFetch : state.networkIds.Nodup
  frozenOnce : (state.frozenRecords.map CandidateRecord.id).Nodup
  analysedOnce : state.analysisIds.Nodup
  analysed : ∀ record ∈ state.frozenRecords, record.id ∉ state.finalIds →
    record.id ∉ state.networkIds → record.id ∈ state.analysisIds
  records : ∀ request ∈ state.analyses, request.candidate ∈ state.frozenRecords
  completed : ∀ entry ∈ state.completions, Completes entry
  justified : ∀ request ∈ state.analyses, Justified state.completions request

theorem PrefetchCoordinator.frozenIds_subset (coordinator : PrefetchCoordinator) :
    coordinator.frozenIds ⊆ coordinator.activeIds := by
  intro id isFrozen
  rcases mem_keysWhere.mp isFrozen with ⟨entry, found, kind⟩
  refine mem_keysWhere.mpr ⟨entry, found, ?_⟩
  rcases entry with ⟨relations, stage⟩
  cases stage with
  | queued => cases kind
  | active => rfl
  | complete => cases kind

section

variable (accounts : PipelineAccounts config state [])
include accounts

theorem PipelineAccounts.mem_activeIds (active : id ∈ state.prefetch.activeIds) :
    id ∈ state.prefetch.frozenIds ∨ id ∉ state.seen := by
  rcases mem_keysWhere.mp active with ⟨entry, found, _⟩
  cases kind : entry.isFrozen with
  | true => exact .inl (mem_keysWhere.mpr ⟨entry, found, kind⟩)
  | false =>
      have planned : id ∈ state.prefetch.plannedIds := by
        refine mem_keysWhere.mpr ⟨entry, found, ?_⟩
        rw [PrefetchEntry.isPlanned, kind]
        rfl
      exact .inr fun seen => not_mem_nil (accounts.fetches.unseen id planned seen)

/-- No candidate is fetched twice at a time. -/
theorem PipelineAccounts.nodup_networkIds :
    state.networkIds.Nodup := by
  have all := accounts.fetches.frozen.nodup_iff.mp accounts.fetches.nodup
  have waiting := all.of_append_right
  refine (taskIds_both state.network).nodup_iff.mp (List.Nodup.append ?_ ?_ ?_)
  · exact accounts.fetches.active.nodup_iff.mpr (nodup_keysWhere _ _)
  · exact waiting.of_append_left.of_append_right
  · intro id isPrefetch isFinal
    rcases accounts.mem_activeIds (accounts.fetches.active.mem_iff.mp isPrefetch) with
      frozen | unseen
    · exact (disjoint_of_nodup_append waiting) (mem_append_right _ isFinal) frozen
    · apply unseen
      rw [accounts.fetches.frozen.mem_iff]
      exact mem_append_right _ (mem_append_left _ (mem_append_right _ isFinal))

theorem PipelineAccounts.mem_analysisIds
    (seen : id ∈ state.seen) (noFinal : id ∉ state.finalIds) (noFetch : id ∉ state.networkIds) :
    id ∈ state.analysisIds := by
  have network : ∀ other, other ∈ state.tasksOf .prefetch ++ state.tasksOf .final →
      other ∈ state.networkIds := fun other => (taskIds_both state.network).mem_iff.mp
  rw [accounts.fetches.frozen.mem_iff, nil_append, mem_append] at seen
  rcases seen with analysed | waits
  · exact analysed
  · rw [PipelineState.waitingIds, mem_append, mem_append] at waits
    rcases waits with ⟨isFinal | isTask⟩ | isFrozen
    · exact absurd isFinal noFinal
    · exact absurd (network id (mem_append_right _ isTask)) noFetch
    · refine absurd (network id (mem_append_left _ ?_)) noFetch
      rw [accounts.fetches.active.mem_iff]
      exact state.prefetch.frozenIds_subset isFrozen

theorem PipelineAccounts.safe :
    ProtocolSafe config state where
  queued := accounts.fetches.accounted.queued
  reserved := accounts.fetches.accounted.reserved
  planned := accounts.fetches.accounted.planned
  bound := accounts.fetches.accounted.bound
  oneFetch := accounts.nodup_networkIds
  frozenOnce := accounts.records.ids.nodup_iff.mp accounts.fetches.nodup
  analysedOnce := accounts.fetches.analysisIds_nodup
  analysed := fun record isFrozen noFinal noFetch => by
    refine accounts.mem_analysisIds ?_ noFinal noFetch
    rw [accounts.records.ids.mem_iff]
    exact mem_map_of_mem isFrozen
  records := accounts.records.analysed
  completed := accounts.evidence.completed
  justified := accounts.evidence.justified

end

/-- In every run in which candidates are frozen once and not offered afterwards, the counters
are right, no candidate is fetched twice at a time, and each frozen candidate is analysed once,
with evidence for its own record. No run ends because work was done twice or out of turn. -/
theorem prefetch_freeze_safe {run : Except PipelineError PipelineState}
    (reached : Reaches (pipelineStep config) MeetsFreezeOnce (.ok .initial) run) :
    match run with
    | .ok state => ProtocolSafe config state
    | .error error => error.isProtocol = false := by
  have orderly : Orderly config run :=
    reached.invariant (Orderly config) (orderly_initial config)
      fun _ _ _ orderly meets taken => orderly_step orderly meets taken
  cases run with
  | ok state => exact PipelineAccounts.safe orderly
  | error error => exact orderly

section Example

def smallPipeline : PipelineConfig where
  memoryLimit := 100
  networkQueueCapacity := 4
  analysisQueueCapacity := 4
  compressionConcurrency := 1
  writerThreads := 1
  writerQueueBytes := 10
  providerConcurrency := ⟨1, 1, 1⟩
  networkQueuePositive := by decide
  analysisQueuePositive := by decide
  compressionPositive := Nat.one_pos
  writerPositive := Nat.one_pos
  writerQueuePositive := by decide
  alchemyPositive := by decide
  heliusPositive := by decide
  otherPositive := by decide

def smallContract (id : CandidateId) : ContractKey := ⟨.base, Text.ofNat id⟩

def smallRelation (id : CandidateId) : SeedCandidateRelation where
  seedId := 0
  seed := ⟨.base, ['s']⟩
  candidateId := id
  candidate := smallContract id
  dimensions := 1
  selection := .allInContract (smallContract id) 3
  evidence := []
  incomplete := false

def smallEvidence (id : CandidateId) : EvidenceBundle := ⟨smallContract id, [], [], [], 0⟩

/-- A candidate is offered, fetched, frozen and analysed with what was fetched. -/
def smallHistory : List PipelineEvent :=
  [.receive (.prefetch [smallRelation 7]), .launch, .network 0 (.fetched (smallEvidence 7)),
    .receive (.frozen [smallRelation 7])]

theorem small_history_safe : ∃ state,
    smallHistory.foldlM (pipelineStep smallPipeline) (.ok .initial) = some (.ok state) ∧
      state.analysisIds = [7] ∧ ProtocolSafe smallPipeline state := by
  have ran : ∃ state,
      smallHistory.foldlM (pipelineStep smallPipeline) (.ok .initial) = some (.ok state) ∧
        state.analysisIds = [7] := ⟨_, rfl, rfl⟩
  rcases ran with ⟨state, ran, analysed⟩
  have reached : Reaches (pipelineStep smallPipeline) MeetsFreezeOnce (.ok .initial)
      (.ok state) := by
    refine .of_allMeet smallHistory ?_ .start ran
    refine .cons (fun _ _ => not_mem_nil) rfl (.cons trivial rfl (.cons trivial rfl ?_))
    exact ⟨fun _ _ => not_mem_nil, fun _ _ => trivial⟩
  exact ⟨state, ran, analysed, prefetch_freeze_safe reached⟩

end Example

end NftData.Analysis
