import NftData.Foundation.Chunks
import NftData.Foundation.RunChunks
import NftData.Dedup.Uri.ImageHits

namespace NftData.Dedup

/-! # The URI stage

The postings are divided into chunks for the tasks of a thread pool, and the results of
the tasks are reduced. -/

open LocalUriAccumulator (flush)
open UriPosting (uriId)

def uriTasksPerThread : Nat := 8

def divCeil (count size : Nat) : Nat := (count + size - 1) / size

theorem le_divCeil_mul {size : Nat} (positive : 0 < size) (count : Nat) :
    count ≤ divCeil count size * size := by
  have split := Nat.div_add_mod (count + size - 1) size
  have remainder := Nat.mod_lt (count + size - 1) positive
  rw [divCeil, Nat.mul_comm]
  omega

theorem pred_divCeil_mul_le (count size : Nat) :
    (divCeil count size - 1) * size ≤ count := by
  have whole := Nat.div_mul_le_self (count + size - 1) size
  rw [divCeil, Nat.sub_mul]
  omega

/-- What determines how a run is executed: the threads of the pool, how the results of the
tasks are reduced, and the order of hash maps. -/
structure UriExecution where
  threads : Nat
  tokenSchedule : Schedule
  imageSchedule : Schedule
  iteration : IterationOrder

def uriChunkSize (threads count : Nat) : Nat :=
  max (divCeil count (max (threads * uriTasksPerThread) 1)) 1

theorem uriChunkSize_pos (threads count : Nat) : 0 < uriChunkSize threads count :=
  Nat.lt_of_lt_of_le Nat.zero_lt_one (le_max_right _ _)

def processGroupChunks {Worker : Type} (threads : Nat) (schedule : Schedule)
    (postings : List UriPosting) (newWorker : Worker)
    (process : Worker → List UriPosting → Worker) (merge : Worker → Worker → Worker) :
    Worker :=
  if postings.isEmpty then
    newWorker
  else
    let chunkSize := uriChunkSize threads postings.length
    let taskCount := divCeil postings.length chunkSize
    schedule.reduce newWorker merge ((List.range taskCount).map fun task =>
      (chunkRuns uriId postings chunkSize task).foldl process newWorker)

def uriGroups (postings : List UriPosting) : List (List UriPosting) :=
  (runs uriId postings).map Prod.snd

/-- When merging combines what two lists of groups add, the threads and the schedule do not
matter: every group is processed exactly once. -/
theorem processGroupChunks_eq {Worker : Type} (threads : Nat) (schedule : Schedule)
    (postings : List UriPosting) {newWorker : Worker}
    {process : Worker → List UriPosting → Worker} {merge : Worker → Worker → Worker}
    (append : ∀ first second : List (List UriPosting),
      (first ++ second).foldl process newWorker =
        merge (first.foldl process newWorker) (second.foldl process newWorker)) :
    processGroupChunks threads schedule postings newWorker process merge =
      (uriGroups postings).foldl process newWorker := by
  unfold processGroupChunks
  by_cases empty : postings.isEmpty = true
  · rw [if_pos empty, List.isEmpty_iff.mp empty]
    rfl
  · rw [if_neg empty]
    have covered : (List.range (divCeil postings.length
          (uriChunkSize threads postings.length))).flatMap
        (chunkRuns uriId postings (uriChunkSize threads postings.length)) =
          uriGroups postings :=
      flatMap_chunkRuns_eq_runs (pred_divCeil_mul_le ..)
        (le_divCeil_mul (uriChunkSize_pos ..) _)
    have reduced := @Schedule.reduce_eq _ _ newWorker merge
      (fun groups => groups.foldl process newWorker) rfl append schedule
      ((List.range (divCeil postings.length (uriChunkSize threads postings.length))).map
        (chunkRuns uriId postings (uriChunkSize threads postings.length)))
    rw [List.map_map] at reduced
    rw [← covered]
    exact reduced

def tokenStage (execution : UriExecution) (store : EntityStore) : TokenWorker :=
  processGroupChunks execution.threads execution.tokenSchedule store.tokenUriPostings
    (.new store.chains.length)
    (fun worker members => accumulateTokenScopeHits execution.iteration members worker)
    .merge

def imageStage (execution : UriExecution) (store : EntityStore) (keep : ScopeFilters) :
    LocalUriAccumulator :=
  processGroupChunks execution.threads execution.imageSchedule store.imageUriPostings
    LocalUriAccumulator.empty
    (fun output members =>
      accumulateImageScopeHits execution.iteration store.chains.length keep members output)
    .merge

/-- A run that is not cancelled. -/
def runUri (execution : UriExecution) (store : EntityStore)
    (accumulator : SummaryAccumulator) : SummaryAccumulator :=
  let tokenWorker := tokenStage execution store
  let accumulator := tokenWorker.uri.flush accumulator .tokenUri
  (imageStage execution store tokenWorker.hits.filters).flush accumulator .imageUri

def tokenContributions (iteration : IterationOrder) (store : EntityStore) :
    TokenContributions :=
  .gather ((uriGroups store.tokenUriPostings).map
    (.ofGroup (store.chains.length ≤ compactChains) iteration))

theorem isCompact_new (chainCount : Nat) :
    (TokenWorker.new chainCount).matrix.isCompact = decide (chainCount ≤ compactChains) := by
  by_cases few : chainCount ≤ compactChains
  · simp [TokenWorker.new, few, MatrixWorkerHits.isCompact]
  · simp [TokenWorker.new, few, MatrixWorkerHits.isCompact]

theorem tokenStage_eq (execution : UriExecution) (store : EntityStore) :
    tokenStage execution store =
      (TokenWorker.new store.chains.length).apply
        (tokenContributions execution.iteration store) := by
  have process : ∀ {worker : TokenWorker},
      worker.matrix.isCompact = decide (store.chains.length ≤ compactChains) →
      ∀ groups : List (List UriPosting),
        groups.foldl (fun worker members =>
            accumulateTokenScopeHits execution.iteration members worker) worker =
          worker.apply (.gather (groups.map
            (.ofGroup (store.chains.length ≤ compactChains) execution.iteration))) :=
    fun width groups => TokenWorker.foldl_apply
      (fun worker members width =>
        TokenWorker.accumulateTokenScopeHits_eq width execution.iteration members) width groups
  rw [tokenStage, processGroupChunks_eq, process (isCompact_new _)]
  · rfl
  · intro first second
    have width := (TokenWorker.isCompact_apply (TokenWorker.new store.chains.length)
      (.gather (first.map (.ofGroup (store.chains.length ≤ compactChains)
        execution.iteration)))).trans (isCompact_new _)
    rw [List.foldl_append, process (isCompact_new _), process width, process (isCompact_new _),
      TokenWorker.merge_apply width]

theorem imageStage_eq (execution : UriExecution) (store : EntityStore) (keep : ScopeFilters) :
    imageStage execution store keep =
      (uriGroups store.imageUriPostings).foldl
        (fun output members =>
          accumulateImageScopeHits execution.iteration store.chains.length keep members output)
        .empty :=
  processGroupChunks_eq execution.threads execution.imageSchedule store.imageUriPostings
    (LocalUriAccumulator.Adds.foldl_append fun _ => accumulateImageScopeHits_adds ..)

theorem tokenContributions_rearranged (first second : IterationOrder) (store : EntityStore) :
    (tokenContributions first store).Rearranged (tokenContributions second store) :=
  TokenContributions.Rearranged.gather (.refl _)
    fun members => TokenContributions.ofGroup_rearranged _ first second members

theorem tokenStage_unique (first second : UriExecution) (store : EntityStore) :
    (tokenStage first store).uri = (tokenStage second store).uri ∧
      (tokenStage first store).hits = (tokenStage second store).hits := by
  have rearranged := tokenContributions_rearranged first.iteration second.iteration store
  rw [tokenStage_eq, tokenStage_eq]
  refine ⟨congrArg (LocalUriAccumulator.merge _)
    (LocalUriAccumulator.collect_perm rearranged.uri), ?_⟩
  by_cases few : store.chains.length ≤ compactChains
  · have same : tokenContributions first.iteration store =
        tokenContributions second.iteration store := by
      simp only [tokenContributions, few, decide_true]
      rfl
    rw [same]
  · simp only [TokenWorker.hits, TokenWorker.apply, TokenWorker.new, few, if_false,
      MatrixWorkerHits.extend, List.nil_append,
      List.toFinset_eq_of_perm _ _ rearranged.intra,
      List.toFinset_eq_of_perm _ _ rearranged.crossSummary,
      List.toFinset_eq_of_perm _ _ rearranged.matrix]

theorem runUri_unique (first second : UriExecution) (store : EntityStore)
    (accumulator : SummaryAccumulator) :
    runUri first store accumulator = runUri second store accumulator := by
  rcases tokenStage_unique first second store with ⟨sameUri, sameHits⟩
  have images : ∀ keep : ScopeFilters,
      imageStage first store keep = imageStage second store keep := by
    intro keep
    rw [imageStage_eq, imageStage_eq]
    simp only [accumulateImageScopeHits_iteration first.iteration second.iteration]
  simp only [runUri, sameUri, sameHits, images]

namespace SummaryAccumulator

theorem completed_mergeCompletedDimensionCounts (accumulator : SummaryAccumulator)
    (dimension : Dimension) (totals : ScopeKey → Option ScopeCounts) :
    (accumulator.mergeCompletedDimensionCounts dimension totals).completedBulkDimensions =
      insert dimension accumulator.completedBulkDimensions := by
  rw [mergeCompletedDimensionCounts]
  split
  · next known => exact (Finset.insert_eq_of_mem known).symm
  · rfl

theorem mergeCompletedDimensionCounts_of_mem {accumulator : SummaryAccumulator}
    {dimension : Dimension} (known : dimension ∈ accumulator.completedBulkDimensions)
    (totals : ScopeKey → Option ScopeCounts) :
    accumulator.mergeCompletedDimensionCounts dimension totals = accumulator :=
  if_pos known

end SummaryAccumulator

/-- A second run changes nothing. -/
theorem runUri_again (first second : UriExecution) (store : EntityStore)
    (accumulator : SummaryAccumulator) :
    runUri second store (runUri first store accumulator) = runUri first store accumulator := by
  have completed : (runUri first store accumulator).completedBulkDimensions =
      insert .imageUri (insert .tokenUri accumulator.completedBulkDimensions) := by
    simp only [runUri, flush,
      SummaryAccumulator.completed_mergeCompletedDimensionCounts]
  have tokenDone : Dimension.tokenUri ∈
      (runUri first store accumulator).completedBulkDimensions := by
    simp [completed]
  have imageDone : Dimension.imageUri ∈
      (runUri first store accumulator).completedBulkDimensions := by
    simp [completed]
  rw [runUri, flush, flush,
    SummaryAccumulator.mergeCompletedDimensionCounts_of_mem tokenDone,
    SummaryAccumulator.mergeCompletedDimensionCounts_of_mem imageDone]

end NftData.Dedup
