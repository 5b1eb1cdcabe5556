import NftData.Analysis.Pipeline.CandidatePipeline
import NftData.Analysis.Pipeline.PrefetchSteps

namespace NftData.Analysis

/-! # Accounts of the candidate pipeline

Where every frozen candidate is, and where the evidence of every analysis came from. -/

/-- A successful prefetch of the candidate, for a selection that covers its own. -/
structure PrefetchFor (entry : NetworkTask × NetworkCompletion) (candidate : CandidateRecord)
    (evidence : EvidenceBundle) : Prop where
  kind : entry.1.fetchKind = .prefetch
  sameCandidate : entry.1.candidate.id = candidate.id
  succeeded : entry.2.succeeded = true
  evidence : entry.2.evidence = evidence
  covers : selectionCovers entry.1.candidate.selection candidate.selection = true
  selects : ∀ nft, candidate.selection.Selects nft → entry.1.candidate.selection.Selects nft

def BaseFor (completions : List (NetworkTask × NetworkCompletion))
    (candidate : CandidateRecord) (base : EvidenceBundle × Bool) : Prop :=
  ∃ earlier ∈ completions, PrefetchFor earlier candidate base.1

/-- The evidence of an analysis is that of a prefetch for all its matches, or that of a final
fetch, which may have extended a prefetch. -/
inductive Justified (completions : List (NetworkTask × NetworkCompletion))
    (request : AnalysisRequest) : Prop
  | prefetched (entry : NetworkTask × NetworkCompletion) (member : entry ∈ completions)
      (supplies : PrefetchFor entry request.candidate request.evidence)
      (seeds : request.candidate.seedIds ⊆ entry.1.candidate.seedIds)
      (succeeded : request.fetchSucceeded = true)
  | fetched (entry : NetworkTask × NetworkCompletion) (member : entry ∈ completions)
      (kind : entry.1.fetchKind = .final) (candidate : entry.1.candidate = request.candidate)
      (evidence : entry.2.evidence = request.evidence)
      (succeeded : entry.2.succeeded = request.fetchSucceeded)
      (bases : ∀ base ∈ entry.1.base, BaseFor completions request.candidate base)

def Completes (entry : NetworkTask × NetworkCompletion) : Prop :=
  ∃ outcome fetched, fetchOrExtend entry.1 outcome = some fetched ∧
    entry.2 = completionOf entry.1 fetched

theorem candidate_completionOf (task : NetworkTask) (fetched : Except String EvidenceBundle) :
    (completionOf task fetched).candidate = task.candidate ∧
      (completionOf task fetched).fetchKind = task.fetchKind := by
  unfold completionOf
  split
  · split
    · exact ⟨rfl, rfl⟩
    · exact ⟨rfl, rfl⟩
  · exact ⟨rfl, rfl⟩

def Remembers (completions : List (NetworkTask × NetworkCompletion)) (id : CandidateId)
    (result : PrefetchResult) : Prop :=
  ∃ entry ∈ completions, entry.1.fetchKind = .prefetch ∧ entry.1.candidate.id = id ∧
    entry.2.candidate = entry.1.candidate ∧ result = .ofCompletion entry.2

section Growth

variable {completions later : List (NetworkTask × NetworkCompletion)} {candidate : CandidateRecord}

theorem BaseFor.mono {base : EvidenceBundle × Bool} (kept : completions ⊆ later)
    (isBase : BaseFor completions candidate base) :
    BaseFor later candidate base := by
  rcases isBase with ⟨earlier, member, supplies⟩
  exact ⟨earlier, kept member, supplies⟩

theorem Justified.mono {request : AnalysisRequest} (kept : completions ⊆ later)
    (justified : Justified completions request) : Justified later request := by
  cases justified with
  | prefetched entry member supplies seeds succeeded =>
      exact .prefetched entry (kept member) supplies seeds succeeded
  | fetched entry member kind candidate evidence succeeded bases =>
      exact .fetched entry (kept member) kind candidate evidence succeeded
        fun base known => (bases base known).mono kept

variable {result : PrefetchResult}

theorem Remembers.mono {id : CandidateId} (kept : completions ⊆ later)
    (remembers : Remembers completions id result) :
    Remembers later id result := by
  rcases remembers with ⟨entry, member, rest⟩
  exact ⟨entry, kept member, rest⟩

theorem Remembers.prefetchFor (remembers : Remembers completions candidate.id result)
    (succeeded : result.succeeded = true)
    (covers : selectionCovers result.selection candidate.selection = true) :
    ∃ entry ∈ completions, PrefetchFor entry candidate result.evidence ∧
      entry.1.candidate.seedIds = result.seedIds := by
  rcases remembers with ⟨entry, member, kind, sameCandidate, ofTask, isResult⟩
  rw [isResult] at succeeded covers ⊢
  change selectionCovers entry.2.candidate.selection _ = true at covers
  rw [ofTask] at covers
  refine ⟨entry, member, ⟨kind, sameCandidate, succeeded, rfl, covers,
    selects_of_selectionCovers covers⟩, ?_⟩
  change _ = entry.2.candidate.seedIds
  rw [ofTask]

end Growth

def taskIds (kind : FetchKind) (tasks : List NetworkTask) : List CandidateId :=
  (tasks.filter fun task => task.fetchKind = kind).map fun task => task.candidate.id

theorem taskIds_append (kind : FetchKind) (left right : List NetworkTask) :
    taskIds kind (left ++ right) = taskIds kind left ++ taskIds kind right := by
  rw [taskIds, List.filter_append, List.map_append]
  rfl

variable {task : NetworkTask} {kind : FetchKind}

theorem taskIds_cons_same (same : task.fetchKind = kind) (tasks : List NetworkTask) :
    taskIds kind (task :: tasks) = task.candidate.id :: taskIds kind tasks := by
  rw [taskIds, List.filter_cons, if_pos (decide_eq_true same)]
  rfl

theorem taskIds_cons_other (different : task.fetchKind ≠ kind) (tasks : List NetworkTask) :
    taskIds kind (task :: tasks) = taskIds kind tasks := by
  rw [taskIds, List.filter_cons, if_neg fun same => different (of_decide_eq_true same)]
  rfl

theorem taskIds_perm (kind : FetchKind) {left right : List NetworkTask}
    (same : left.Perm right) : (taskIds kind left).Perm (taskIds kind right) :=
  (same.filter _).map _

theorem taskIds_both (tasks : List NetworkTask) :
    (taskIds .prefetch tasks ++ taskIds .final tasks).Perm
      (tasks.map fun task => task.candidate.id) := by
  rw [taskIds, taskIds, ← List.map_append]
  refine List.Perm.map _ (.trans ?_ (List.filter_append_perm
    (fun task : NetworkTask => decide (task.fetchKind = .prefetch)) tasks))
  refine List.Perm.append_left _ (.of_eq (List.filter_congr fun task _ => ?_))
  cases task.fetchKind <;> rfl

namespace PipelineState

def finalIds (state : PipelineState) : List CandidateId :=
  state.finalFetches.map CandidateRecord.id

def tasksOf (state : PipelineState) (kind : FetchKind) : List CandidateId :=
  taskIds kind state.network

def networkIds (state : PipelineState) : List CandidateId :=
  state.network.map fun task => task.candidate.id

def analysisIds (state : PipelineState) : List CandidateId :=
  state.analyses.map fun request => request.candidate.id

def waitingIds (state : PipelineState) : List CandidateId :=
  state.finalIds ++ state.tasksOf .final ++ state.prefetch.frozenIds

/-- Where the candidates are that were queued for analysis. -/
def stagedIds (state : PipelineState) : List CandidateId :=
  state.activeAnalyses ++ state.compressionReady ++ state.activeCompressions ++
    state.admissionReady.map PreparedCandidate.candidateId ++
    state.writeReady.map PreparedCandidate.candidateId ++
    (state.writes.map fun write => write.prepared.candidateId) ++ state.written

def jobsOf (state : PipelineState) : List CpuTask :=
  state.activeAnalyses.map (CpuTask.mk .analysis) ++
    state.activeCompressions.map (CpuTask.mk .compress)

end PipelineState

/-- Every frozen candidate was queued for analysis or waits for a fetch, or is about to be
dealt with. -/
structure FetchAccounts (config : PipelineConfig) (state : PipelineState)
    (pending : List CandidateId) : Prop where
  accounted : state.prefetch.Accounted config.networkQueueCapacity
  nodup : state.seen.Nodup
  frozen : state.seen.Perm (pending ++ state.analysisIds ++ state.waitingIds)
  active : (state.tasksOf .prefetch).Perm state.prefetch.activeIds
  unseen : ∀ id ∈ state.prefetch.plannedIds, id ∈ state.seen → id ∈ pending

structure StageAccounts (state : PipelineState) : Prop where
  staged : state.analysisIds.Perm state.stagedIds
  jobs : state.jobs.Perm state.jobsOf

structure EvidenceAccounts (state : PipelineState) : Prop where
  completed : ∀ entry ∈ state.completions, Completes entry
  complete : ∀ id relations result,
    state.prefetch.entries.lookup id = some ⟨relations, .complete result⟩ →
      Remembers state.completions id result
  owned : ∀ id base, state.finalBases.lookup id = some base → id ∈ state.finalIds
  bases : ∀ candidate ∈ state.finalFetches, ∀ base,
    state.finalBases.lookup candidate.id = some base → BaseFor state.completions candidate base
  tasks : ∀ task ∈ state.network, ∀ base ∈ task.base,
    BaseFor state.completions task.candidate base
  justified : ∀ request ∈ state.analyses, Justified state.completions request

/-- What goes through the pipeline are the records that were frozen. -/
structure RecordAccounts (state : PipelineState) : Prop where
  ids : state.seen.Perm (state.frozenRecords.map CandidateRecord.id)
  finals : ∀ candidate ∈ state.finalFetches, candidate ∈ state.frozenRecords
  tasks : ∀ task ∈ state.network, task.fetchKind = .final → task.candidate ∈ state.frozenRecords
  waits : ∀ record, state.prefetch.Waits record → record ∈ state.frozenRecords
  analysed : ∀ request ∈ state.analyses, request.candidate ∈ state.frozenRecords

structure PipelineAccounts (config : PipelineConfig) (state : PipelineState)
    (pending : List CandidateId) : Prop where
  fetches : FetchAccounts config state pending
  stages : StageAccounts state
  evidence : EvidenceAccounts state
  records : RecordAccounts state

end NftData.Analysis
