import NftData.Analysis.Pipeline.CandidateAccounts

namespace NftData.Analysis

/-! # Steps of the candidate pipeline

Every step keeps the accounts, and none is rejected by a check against work done twice. -/

open List
open PipelineState (analysisIds finishNetwork jobsOf stagedIds tasksOf waitingIds)

variable {config : PipelineConfig} {state next : PipelineState} {pending : List CandidateId}
  {candidate : CandidateRecord} {id : CandidateId} {index : Nat}

/-- A list is its entry at an index and the others. -/
theorem perm_cons_eraseIdx {α : Type} {values : List α} {value : α}
    (found : values[index]? = some value) :
    values.Perm (value :: values.eraseIdx index) := by
  rcases List.getElem?_eq_some_iff.mp found with ⟨inside, isValue⟩
  have taken := getElem_cons_eraseIdx_perm inside
  rw [isValue] at taken
  exact taken.symm

theorem set_of_getElem? {α : Type} {values : List α} {value : α}
    (found : values[index]? = some value) : values.set index value = values := by
  rcases List.getElem?_eq_some_iff.mp found with ⟨inside, isValue⟩
  rw [← isValue, set_getElem_self]

namespace FetchAccounts

/-- A candidate that is about to be dealt with is nowhere else. -/
theorem pending_only (accounts : FetchAccounts config state (id :: pending)) :
    id ∉ pending ∧ id ∉ state.analysisIds ∧ id ∉ state.waitingIds := by
  have nodup := accounts.frozen.nodup_iff.mp accounts.nodup
  rw [List.append_assoc, cons_append, nodup_cons, mem_append, mem_append,
    not_or, not_or] at nodup
  exact nodup.1

theorem analysisIds_nodup (accounts : FetchAccounts config state pending) :
    state.analysisIds.Nodup := by
  have nodup := accounts.frozen.nodup_iff.mp accounts.nodup
  exact nodup.of_append_left.of_append_right

/-- One candidate moves from the pending ones to the analyses or to those that wait. -/
theorem settled (accounts : FetchAccounts config state (id :: pending))
    (prefetch : next.prefetch = state.prefetch) (seen : next.seen = state.seen)
    (active : next.tasksOf .prefetch = state.tasksOf .prefetch)
    (moved : ((id :: state.analysisIds) ++ state.waitingIds).Perm
      (next.analysisIds ++ next.waitingIds))
    (unplanned : id ∉ state.prefetch.plannedIds) : FetchAccounts config next pending where
  accounted := prefetch ▸ accounts.accounted
  nodup := seen ▸ accounts.nodup
  frozen := by
    rw [seen]
    refine accounts.frozen.trans ?_
    have front := moved.append_left pending
    rw [← List.append_assoc, ← List.append_assoc] at front
    refine List.Perm.trans (List.Perm.append_right _ ?_) front
    exact perm_middle.symm
  active := by
    rw [prefetch, active]
    exact accounts.active
  unseen := by
    intro other planned member
    rw [prefetch] at planned
    rw [seen] at member
    rcases mem_cons.mp (accounts.unseen other planned member) with same | later
    · exact absurd (same ▸ planned) unplanned
    · exact later

end FetchAccounts

variable {run : Except PipelineError PipelineState}

/-- Batches and completed fetches leave the writer and the stream alone. -/
structure SameWriter (state next : PipelineState) : Prop where
  writeReady : next.writeReady = state.writeReady
  writes : next.writes = state.writes
  budgetUsed : next.budgetUsed = state.budgetUsed
  candidateStreamOpen : next.candidateStreamOpen = state.candidateStreamOpen

namespace PipelineAccounts

/-! ## Analyses and final fetches -/

variable {result : PrefetchResult}

section

variable (accounts : PipelineAccounts config state (candidate.id :: pending))
include accounts

section

variable (unplanned : candidate.id ∉ state.prefetch.plannedIds)
include unplanned

/-- A candidate with justified evidence is queued for analysis. -/
theorem queueCandidateAnalysis {evidence : EvidenceBundle} {succeeded : Bool}
    (known : candidate ∈ state.frozenRecords)
    (justified : Justified state.completions ⟨candidate, evidence, succeeded⟩) :
    ∃ next, state.queueCandidateAnalysis candidate evidence succeeded = .ok next ∧
      PipelineAccounts config next pending := by
  have fresh := accounts.fetches.pending_only
  have inactive : candidate.id ∉ state.activeAnalyses := by
    intro isActive
    apply fresh.2.1
    rw [accounts.stages.staged.mem_iff]
    simp only [stagedIds, mem_append, isActive, true_or]
  refine ⟨_, if_neg inactive, ?_, ⟨?_, ?_⟩, ?_, ?_⟩
  · refine accounts.fetches.settled rfl rfl rfl ?_ unplanned
    change ((candidate.id :: state.analysisIds) ++ state.waitingIds).Perm
      (List.map _ (state.analyses ++ [_]) ++ state.waitingIds)
    rw [map_append]
    exact (perm_append_singleton candidate.id _).symm.append_right _
  · change (List.map _ (state.analyses ++ [_])).Perm (candidate.id :: state.stagedIds)
    rw [map_append]
    exact perm_append_comm.trans (accounts.stages.staged.cons _)
  · change (state.jobs ++ [CpuTask.mk .analysis candidate.id]).Perm
      (CpuTask.mk .analysis candidate.id :: state.jobsOf)
    exact perm_append_comm.trans (accounts.stages.jobs.cons _)
  · constructor
    · exact accounts.evidence.completed
    · exact accounts.evidence.complete
    · exact accounts.evidence.owned
    · exact accounts.evidence.bases
    · exact accounts.evidence.tasks
    · intro request member
      rcases mem_append.mp member with before | new
      · exact accounts.evidence.justified request before
      · rw [mem_singleton.mp new]
        exact justified
  · refine ⟨accounts.records.ids, accounts.records.finals, accounts.records.tasks,
      accounts.records.waits, fun request member => ?_⟩
    rcases mem_append.mp member with before | new
    · exact accounts.records.analysed request before
    · rw [mem_singleton.mp new]
      exact known

/-- A candidate is queued for a final fetch, which may have a base. -/
theorem pushFinal {bases : KeyedMap CandidateId (EvidenceBundle × Bool)}
    (known : candidate ∈ state.frozenRecords)
    (others : ∀ other, other ≠ candidate.id →
      bases.lookup other = state.finalBases.lookup other)
    (own : ∀ base, bases.lookup candidate.id = some base →
      BaseFor state.completions candidate base) :
    PipelineAccounts config ({ state with finalBases := bases }.pushFinal candidate)
      pending := by
  have fresh := accounts.fetches.pending_only
  have finalIds : ({ state with finalBases := bases }.pushFinal candidate).finalIds =
      state.finalIds ++ [candidate.id] := map_append
  have notFinal : candidate.id ∉ state.finalIds := fun isFinal =>
    fresh.2.2 (mem_append_left _ (mem_append_left _ isFinal))
  refine ⟨?_, ⟨accounts.stages.staged, accounts.stages.jobs⟩, ?_, ?_⟩
  · refine accounts.fetches.settled rfl rfl rfl ?_ unplanned
    unfold waitingIds
    rw [finalIds]
    refine perm_iff_count.mpr fun other => ?_
    change List.count other (([candidate.id] ++ state.analysisIds) ++
        (state.finalIds ++ state.tasksOf .final ++ state.prefetch.frozenIds)) =
      List.count other (state.analysisIds ++
        (state.finalIds ++ [candidate.id] ++ state.tasksOf .final ++ state.prefetch.frozenIds))
    simp only [count_append]
    omega
  · constructor
    · exact accounts.evidence.completed
    · exact accounts.evidence.complete
    · intro other base found
      rw [finalIds, mem_append, mem_singleton]
      by_cases same : other = candidate.id
      · exact .inr same
      · exact .inl (accounts.evidence.owned other base ((others other same).symm.trans found))
    · intro other member base found
      rcases mem_append.mp member with before | new
      · have isFinal : other.id ∈ state.finalIds := mem_map_of_mem before
        have different : other.id ≠ candidate.id := fun same => notFinal (same ▸ isFinal)
        exact accounts.evidence.bases other before base
          ((others other.id different).symm.trans found)
      · rw [mem_singleton.mp new] at found ⊢
        exact own base found
    · exact accounts.evidence.tasks
    · exact accounts.evidence.justified
  · refine ⟨accounts.records.ids, fun other member => ?_, accounts.records.tasks,
      accounts.records.waits, accounts.records.analysed⟩
    rcases mem_append.mp member with before | new
    · exact accounts.records.finals other before
    · rw [mem_singleton.mp new]
      exact known

/-- A frozen candidate whose prefetch is complete is analysed, or fetched again. -/
theorem settleFrozen (known : candidate ∈ state.frozenRecords)
    (remembers : Remembers state.completions candidate.id result) :
    ∃ next, state.settleFrozen candidate result = .ok next ∧
      PipelineAccounts config next pending := by
  have fresh := accounts.fetches.pending_only
  have noBase : ∀ base, state.finalBases.lookup candidate.id = some base →
      BaseFor state.completions candidate base := fun base found =>
    absurd (accounts.evidence.owned _ base found) fun isFinal =>
      fresh.2.2 (mem_append_left _ (mem_append_left _ isFinal))
  have refetched : PipelineAccounts config (state.pushFinal candidate) pending :=
    accounts.pushFinal unplanned known (fun _ _ => rfl) noBase
  unfold PipelineState.settleFrozen
  split
  · next covers =>
      split
      · next final =>
          rw [prefetchCanFinalize, Bool.and_eq_true, Bool.and_eq_true] at final
          rcases remembers.prefetchFor final.1.1 covers with ⟨entry, member, supplies, seeds⟩
          refine accounts.queueCandidateAnalysis unplanned known
            (.prefetched entry member supplies ?_ final.1.1)
          rw [seeds]
          exact seeds_of_sortedSliceCovers final.2
      · split
        · next succeeded =>
            rcases remembers.prefetchFor succeeded covers with ⟨entry, member, supplies, _⟩
            refine ⟨_, rfl, accounts.pushFinal unplanned known
              (fun _ different => AList.lookup_insert_ne different) fun base found => ?_⟩
            rw [AList.lookup_insert] at found
            cases found
            exact ⟨entry, member, supplies⟩
        · exact ⟨_, rfl, refetched⟩
  · exact ⟨_, rfl, refetched⟩

end

end

/-! ## Batches -/

variable {prefetch : PrefetchCoordinator}

/-- The coordinator of the prefetches changes, and pending candidates may come to wait there. -/
theorem withPrefetch {later : List CandidateId} (accounts : PipelineAccounts config state pending)
    (accounted : prefetch.Accounted config.networkQueueCapacity)
    (active : prefetch.activeIds.Perm state.prefetch.activeIds)
    (moved : (pending ++ state.prefetch.frozenIds).Perm (later ++ prefetch.frozenIds))
    (unseen : ∀ id ∈ prefetch.plannedIds, id ∈ state.seen → id ∈ later)
    (complete : ∀ id relations result,
      prefetch.entries.lookup id = some ⟨relations, .complete result⟩ →
        ∃ before, state.prefetch.entries.lookup id = some ⟨before, .complete result⟩)
    (waits : ∀ record, prefetch.Waits record →
      state.prefetch.Waits record ∨ record ∈ state.frozenRecords) :
    PipelineAccounts config { state with prefetch := prefetch } later := by
  refine ⟨⟨accounted, accounts.fetches.nodup, ?_, ?_, unseen⟩,
    ⟨accounts.stages.staged, accounts.stages.jobs⟩, ?_, ?_⟩
  · refine perm_iff_count.mpr fun id => ?_
    have before := accounts.fetches.frozen.count_eq id
    have change := moved.count_eq id
    change _ = List.count id (later ++ state.analysisIds ++
      (state.finalIds ++ state.tasksOf .final ++ prefetch.frozenIds))
    simp only [waitingIds, count_append] at before change ⊢
    omega
  · exact accounts.fetches.active.trans active.symm
  · constructor
    · exact accounts.evidence.completed
    · intro id relations result found
      rcases complete id relations result found with ⟨before, known⟩
      exact accounts.evidence.complete id before result known
    · exact accounts.evidence.owned
    · exact accounts.evidence.bases
    · exact accounts.evidence.tasks
    · exact accounts.evidence.justified
  · refine ⟨accounts.records.ids, accounts.records.finals, accounts.records.tasks,
      fun record waiting => ?_, accounts.records.analysed⟩
    rcases waits record waiting with before | known
    · exact accounts.records.waits record before
    · exact known

/-- A frozen candidate is settled, waits for its prefetch or is queued for a final fetch. -/
theorem freezeCandidate (accounts : PipelineAccounts config state (candidate.id :: pending))
    (known : candidate ∈ state.frozenRecords) :
    ∃ next, state.freezeCandidate candidate = .ok next ∧
      PipelineAccounts config next pending := by
  have fresh := accounts.fetches.pending_only
  have unfrozen : candidate.id ∉ state.prefetch.frozenIds := fun isFrozen =>
    fresh.2.2 (mem_append_right _ isFrozen)
  generalize froze : state.prefetch.freeze candidate = outcome
  rcases outcome with ⟨outcome, prefetch⟩
  have spec := PrefetchCoordinator.freeze_spec accounts.fetches.accounted unfrozen froze
  have unseen : (∀ other ∈ prefetch.plannedIds, other ∈ state.prefetch.plannedIds ∧
      other ≠ candidate.id) → ∀ other ∈ prefetch.plannedIds, other ∈ state.seen →
        other ∈ pending := by
    intro planned other isPlanned member
    have before := planned other isPlanned
    exact (mem_cons.mp (accounts.fetches.unseen other before.1 member)).resolve_left
      before.2
  have waits : (∀ record, prefetch.Waits record → state.prefetch.Waits record ∨
      record = candidate) → ∀ record, prefetch.Waits record →
        state.prefetch.Waits record ∨ record ∈ state.frozenRecords := by
    intro moved record waiting
    rcases moved record waiting with before | own
    · exact .inl before
    · exact .inr (own ▸ known)
  have stay : prefetch.Accounted config.networkQueueCapacity →
      PrefetchCoordinator.Freezes state.prefetch prefetch candidate false →
        PipelineAccounts config { state with prefetch := prefetch }
          (candidate.id :: pending) := by
    intro accounted freezes
    exact accounts.withPrefetch accounted freezes.active (freezes.frozen.symm.append_left _)
      (fun other planned member => mem_cons_of_mem _
        (unseen freezes.planned other planned member))
      (fun _ relations _ found => ⟨relations, freezes.complete _ _ _ found⟩)
      (waits freezes.waits)
  rw [PipelineState.freezeCandidate, froze]
  cases outcome with
  | complete other result =>
      rcases spec with ⟨accounted, same, freezes, relations, found⟩
      rw [same]
      exact (stay accounted freezes).settleFrozen
        (fun planned => (freezes.planned _ planned).2 rfl) known
        (accounts.evidence.complete _ _ _ found)
  | active =>
      rcases spec with ⟨accounted, freezes⟩
      refine ⟨_, rfl, accounts.withPrefetch accounted freezes.active ?_
        (unseen freezes.planned) (fun _ relations _ found =>
          ⟨relations, freezes.complete _ _ _ found⟩) (waits freezes.waits)⟩
      refine List.Perm.trans ?_ (freezes.frozen.symm.append_left pending)
      exact perm_middle.symm
  | final other =>
      rcases spec with ⟨accounted, same, freezes⟩
      rw [same]
      have stays := stay accounted freezes
      refine ⟨_, rfl, stays.pushFinal (fun planned => (freezes.planned _ planned).2 rfl) known
        (fun _ _ => rfl) fun base found => ?_⟩
      exact absurd (accounts.evidence.owned _ base found) fun isFinal =>
        fresh.2.2 (mem_append_left _ (mem_append_left _ isFinal))

theorem settleFrozen_frame (settled : state.settleFrozen candidate result = .ok next) :
    next.frozenRecords = state.frozenRecords ∧ SameWriter state next ∧
      next.prefetch = state.prefetch := by
  unfold PipelineState.settleFrozen at settled
  split at settled
  · split at settled
    · unfold PipelineState.queueCandidateAnalysis at settled
      split at settled
      · cases settled
      · cases settled
        exact ⟨rfl, ⟨rfl, rfl, rfl, rfl⟩, rfl⟩
    · split at settled
      · cases settled
        exact ⟨rfl, ⟨rfl, rfl, rfl, rfl⟩, rfl⟩
      · cases settled
        exact ⟨rfl, ⟨rfl, rfl, rfl, rfl⟩, rfl⟩
  · cases settled
    exact ⟨rfl, ⟨rfl, rfl, rfl, rfl⟩, rfl⟩

theorem freezeCandidate_frame (froze : state.freezeCandidate candidate = .ok next) :
    next.frozenRecords = state.frozenRecords ∧ SameWriter state next := by
  unfold PipelineState.freezeCandidate at froze
  split at froze
  · rcases settleFrozen_frame froze with ⟨records, same, _⟩
    exact ⟨records, same.writeReady, same.writes, same.budgetUsed, same.candidateStreamOpen⟩
  · cases froze
    exact ⟨rfl, rfl, rfl, rfl, rfl⟩
  · cases froze
    exact ⟨rfl, rfl, rfl, rfl, rfl⟩

variable {candidates : List CandidateRecord}

theorem freezeCandidates
    (accounts : PipelineAccounts config state (candidates.map CandidateRecord.id))
    (known : ∀ candidate ∈ candidates, candidate ∈ state.frozenRecords) :
    ∃ next, candidates.foldlM PipelineState.freezeCandidate state = .ok next ∧
      PipelineAccounts config next [] := by
  induction candidates generalizing state with
  | nil => exact ⟨state, rfl, accounts⟩
  | cons candidate candidates induction =>
      rcases accounts.freezeCandidate (known candidate mem_cons_self) with
        ⟨next, froze, kept⟩
      have later : ∀ other ∈ candidates, other ∈ next.frozenRecords := by
        intro other member
        rw [(freezeCandidate_frame froze).1]
        exact known other (mem_cons_of_mem _ member)
      rcases induction kept later with ⟨final, rest, keptAll⟩
      exact ⟨final, by rw [foldlM_cons, froze]; exact rest, keptAll⟩

section

variable (accounts : PipelineAccounts config state [])
include accounts

/-- The candidates of a frozen batch become pending. -/
theorem seeFrozen {ids : List CandidateId} {records : List CandidateRecord}
    (sameIds : ids.Perm (records.map CandidateRecord.id)) (nodup : ids.Nodup)
    (unseen : ∀ id ∈ ids, id ∉ state.seen) :
    PipelineAccounts config
      { state with
        seen := state.seen ++ ids
        frozenRecords := state.frozenRecords ++ records }
      (records.map CandidateRecord.id) := by
  refine ⟨⟨accounts.fetches.accounted, ?_, ?_, accounts.fetches.active, ?_⟩,
    ⟨accounts.stages.staged, accounts.stages.jobs⟩, ?_, ?_⟩
  · exact accounts.fetches.nodup.append nodup fun id member new => unseen id new member
  · refine (accounts.fetches.frozen.append sameIds).trans ?_
    rw [nil_append, List.append_assoc (records.map CandidateRecord.id)]
    exact perm_append_comm
  · intro id planned member
    rcases mem_append.mp member with known | new
    · exact absurd (accounts.fetches.unseen id planned known) not_mem_nil
    · exact sameIds.mem_iff.mp new
  · exact ⟨accounts.evidence.completed, accounts.evidence.complete, accounts.evidence.owned,
      accounts.evidence.bases, accounts.evidence.tasks, accounts.evidence.justified⟩
  · refine ⟨?_, fun other member => mem_append_left _ (accounts.records.finals _ member),
      fun task member kind => mem_append_left _ (accounts.records.tasks _ member kind),
      fun record waits => mem_append_left _ (accounts.records.waits _ waits),
      fun request member => mem_append_left _ (accounts.records.analysed _ member)⟩
    change (state.seen ++ ids).Perm (List.map _ (state.frozenRecords ++ records))
    rw [map_append]
    exact accounts.records.ids.append sameIds

theorem offerCandidate (grouped : candidate.Grouped) (unseen : candidate.id ∉ state.seen)
    (offered : state.offerCandidate config candidate = .ok next) :
    PipelineAccounts config next [] ∧ next.seen = state.seen := by
  rcases bind_eq_ok offered with ⟨⟨kept, prefetch⟩, made, isNext⟩
  cases isNext
  have spec := PrefetchCoordinator.offer_spec accounts.fetches.accounted grouped made
  refine ⟨accounts.withPrefetch spec.1 spec.2.active (spec.2.frozen.symm.append_left _) ?_
    spec.2.complete fun record waits => .inl (spec.2.waits record waits), rfl⟩
  intro other planned member
  rcases spec.2.planned other planned with known | new
  · exact accounts.fetches.unseen other known member
  · exact absurd (new ▸ member) unseen

theorem offerCandidates (grouped : ∀ candidate ∈ candidates, candidate.Grouped)
    (unseen : ∀ candidate ∈ candidates, candidate.id ∉ state.seen)
    (offered : candidates.foldlM (PipelineState.offerCandidate config) state = .ok next) :
    PipelineAccounts config next [] := by
  induction candidates generalizing state with
  | nil =>
      cases offered
      exact accounts
  | cons candidate candidates induction =>
      rw [foldlM_cons] at offered
      rcases bind_eq_ok offered with ⟨middle, first, rest⟩
      have kept := accounts.offerCandidate (grouped candidate mem_cons_self)
        (unseen candidate mem_cons_self) first
      refine induction kept.1 (fun other member => grouped other (mem_cons_of_mem _ member))
        (fun other member => ?_) rest
      rw [kept.2]
      exact unseen other (mem_cons_of_mem _ member)

/-- A fetch is launched for the first candidate that was frozen. -/
theorem launchFinal {rest : List CandidateRecord} (queue : state.finalFetches = candidate :: rest) :
    PipelineAccounts config (state.launchFinal candidate rest) [] := by
  have finalIds : state.finalIds = candidate.id :: rest.map CandidateRecord.id := by
    rw [PipelineState.finalIds, queue]
    rfl
  have nodup : state.finalIds.Nodup := by
    have all := accounts.fetches.frozen.nodup_iff.mp accounts.fetches.nodup
    exact all.of_append_right.of_append_left.of_append_left
  have head : candidate ∈ state.finalFetches := by
    rw [queue]
    exact mem_cons_self
  refine ⟨⟨accounts.fetches.accounted, accounts.fetches.nodup, ?_, ?_,
    accounts.fetches.unseen⟩, ⟨accounts.stages.staged, accounts.stages.jobs⟩, ?_, ?_⟩
  · refine perm_iff_count.mpr fun id => ?_
    have before := accounts.fetches.frozen.count_eq id
    change List.count id state.seen = List.count id ([] ++ state.analysisIds ++ (rest.map CandidateRecord.id ++
      taskIds .final (state.network ++ [_]) ++ state.prefetch.frozenIds))
    unfold waitingIds at before
    rw [finalIds, ← singleton_append] at before
    rw [taskIds_append]
    change List.count id state.seen = List.count id ([] ++ state.analysisIds ++ (rest.map CandidateRecord.id ++
      (state.tasksOf .final ++ [candidate.id]) ++ state.prefetch.frozenIds))
    simp only [count_append] at before ⊢
    omega
  · change (taskIds .prefetch (state.network ++ [_])).Perm state.prefetch.activeIds
    rw [taskIds_append]
    change (state.tasksOf .prefetch ++ []).Perm state.prefetch.activeIds
    rw [append_nil]
    exact accounts.fetches.active
  · have later : ∀ other ∈ rest, other.id ≠ candidate.id := by
      intro other member same
      rw [finalIds, nodup_cons] at nodup
      exact nodup.1 (same ▸ mem_map_of_mem member)
    constructor
    · exact accounts.evidence.completed
    · exact accounts.evidence.complete
    · intro id base found
      have different : id ≠ candidate.id := by
        intro same
        rw [same] at found
        cases (AList.lookup_erase candidate.id state.finalBases).symm.trans found
      have owned := accounts.evidence.owned id base
        ((AList.lookup_erase_ne different).symm.trans found)
      rw [finalIds] at owned
      exact (mem_cons.mp owned).resolve_left different
    · intro other member base found
      have known : other ∈ state.finalFetches := by
        rw [queue]
        exact mem_cons_of_mem _ member
      exact accounts.evidence.bases other known base
        ((AList.lookup_erase_ne (later other member)).symm.trans found)
    · intro task member base found
      rcases mem_append.mp member with known | new
      · exact accounts.evidence.tasks task known base found
      · rw [mem_singleton.mp new] at found ⊢
        exact accounts.evidence.bases candidate head base found
    · exact accounts.evidence.justified
  · refine ⟨accounts.records.ids, fun other member => ?_, fun task member kind => ?_,
      accounts.records.waits, accounts.records.analysed⟩
    · refine accounts.records.finals other ?_
      rw [queue]
      exact mem_cons_of_mem _ member
    · rcases mem_append.mp member with known | new
      · exact accounts.records.tasks task known kind
      · rw [mem_singleton.mp new]
        exact accounts.records.finals candidate head

theorem launchPrefetch (popped : state.prefetch.popQueued = (some candidate, prefetch)) :
    PipelineAccounts config (state.launchPrefetch candidate prefetch) [] := by
  have spec := PrefetchCoordinator.popQueued_spec accounts.fetches.accounted popped
  rcases spec with ⟨accounted, launches, _⟩
  refine ⟨⟨accounted, accounts.fetches.nodup, ?_, ?_, ?_⟩,
    ⟨accounts.stages.staged, accounts.stages.jobs⟩, ?_, ?_⟩
  · refine perm_iff_count.mpr fun id => ?_
    have before := accounts.fetches.frozen.count_eq id
    have same := launches.frozen.count_eq id
    change List.count id state.seen = List.count id ([] ++ state.analysisIds ++ (state.finalIds ++
      taskIds .final (state.network ++ [_]) ++ prefetch.frozenIds))
    rw [taskIds_append]
    change List.count id state.seen = List.count id ([] ++ state.analysisIds ++ (state.finalIds ++
      (state.tasksOf .final ++ []) ++ prefetch.frozenIds))
    simp only [waitingIds, count_append, count_nil] at before ⊢
    omega
  · change (taskIds .prefetch (state.network ++ [_])).Perm prefetch.activeIds
    rw [taskIds_append]
    refine List.Perm.trans ?_ launches.active.symm
    exact perm_append_comm.trans (accounts.fetches.active.append_left [candidate.id])
  · exact fun id planned member => accounts.fetches.unseen id (launches.planned id planned) member
  · constructor
    · exact accounts.evidence.completed
    · exact fun id relations result found =>
        accounts.evidence.complete id relations result (launches.complete _ _ _ found)
    · exact accounts.evidence.owned
    · exact accounts.evidence.bases
    · intro task member base found
      rcases mem_append.mp member with known | new
      · exact accounts.evidence.tasks task known base found
      · rw [mem_singleton.mp new] at found
        cases found
    · exact accounts.evidence.justified
  · refine ⟨accounts.records.ids, accounts.records.finals, fun task member kind => ?_,
      fun record waits => accounts.records.waits record (launches.waits record waits),
      accounts.records.analysed⟩
    rcases mem_append.mp member with known | new
    · exact accounts.records.tasks task known kind
    · rw [mem_singleton.mp new] at kind
      cases kind

end

/-! ## Completed fetches -/

def ended (state : PipelineState) (index : Nat) (task : NetworkTask)
    (completion : NetworkCompletion) : PipelineState :=
  { state with
    network := state.network.eraseIdx index
    completions := state.completions ++ [(task, completion)] }

variable {completion : NetworkCompletion} {task : NetworkTask}

theorem evidence_ended (accounts : EvidenceAccounts state)
    (completes : Completes (task, completion)) (complete : ∀ id relations result,
      prefetch.entries.lookup id = some ⟨relations, .complete result⟩ →
        Remembers (state.completions ++ [(task, completion)]) id result) :
    EvidenceAccounts { ended state index task completion with prefetch := prefetch } := by
  have kept : state.completions ⊆ state.completions ++ [(task, completion)] :=
    subset_append_left _ _
  constructor
  · intro entry member
    rcases mem_append.mp member with known | new
    · exact accounts.completed entry known
    · rw [mem_singleton.mp new]
      exact completes
  · exact complete
  · exact accounts.owned
  · exact fun other member base found => (accounts.bases other member base found).mono kept
  · exact fun other member base found =>
      (accounts.tasks other (mem_of_mem_eraseIdx member) base found).mono kept
  · exact fun request member => (accounts.justified request member).mono kept

theorem records_ended (accounts : RecordAccounts state)
    (waits : ∀ record, prefetch.Waits record → state.prefetch.Waits record) :
    RecordAccounts { ended state index task completion with prefetch := prefetch } :=
  ⟨accounts.ids, accounts.finals,
    fun other member kind => accounts.tasks other (mem_of_mem_eraseIdx member) kind,
    fun record waiting => accounts.waits record (waits record waiting), accounts.analysed⟩

section

variable (accounts : PipelineAccounts config state [])
include accounts

/-- A candidate whose final fetch ends is analysed. -/
theorem finishFinal (found : state.network[index]? = some task) (kind : task.fetchKind = .final)
    (completes : Completes (task, completion)) (ofTask : completion.candidate = task.candidate) :
    ∃ next, (ended state index task completion).queueCandidateAnalysis completion.candidate
        completion.evidence completion.succeeded = .ok next ∧
      PipelineAccounts config next [] := by
  have network := perm_cons_eraseIdx found
  have finals : (state.tasksOf .final).Perm
      (task.candidate.id :: (ended state index task completion).tasksOf .final) := by
    refine (taskIds_perm .final network).trans (.of_eq ?_)
    exact taskIds_cons_same kind _
  have prefetches : (state.tasksOf .prefetch).Perm
      ((ended state index task completion).tasksOf .prefetch) := by
    refine (taskIds_perm .prefetch network).trans (.of_eq ?_)
    exact taskIds_cons_other (by rw [kind]; decide) _
  have kept : state.completions ⊆ state.completions ++ [(task, completion)] :=
    subset_append_left _ _
  have isEnded : PipelineAccounts config (ended state index task completion)
      [task.candidate.id] := by
    refine ⟨⟨accounts.fetches.accounted, accounts.fetches.nodup, ?_,
      prefetches.symm.trans accounts.fetches.active, ?_⟩,
      ⟨accounts.stages.staged, accounts.stages.jobs⟩, ?_,
      records_ended accounts.records fun _ waits => waits⟩
    · refine perm_iff_count.mpr fun id => ?_
      have before := accounts.fetches.frozen.count_eq id
      have moved := finals.count_eq id
      rw [← singleton_append] at moved
      change List.count id state.seen = List.count id ([task.candidate.id] ++
        state.analysisIds ++ (state.finalIds ++
          (ended state index task completion).tasksOf .final ++ state.prefetch.frozenIds))
      simp only [waitingIds, count_append, count_nil] at before moved ⊢
      omega
    · intro id planned member
      exact mem_cons_of_mem _ (accounts.fetches.unseen id planned member)
    · exact evidence_ended accounts.evidence completes fun id relations result known =>
        (accounts.evidence.complete id relations result known).mono kept
  rw [ofTask]
  refine isEnded.queueCandidateAnalysis ?_
    (accounts.records.tasks task (mem_of_getElem? found) kind) ?_
  · intro planned
    refine not_mem_nil (accounts.fetches.unseen _ planned ?_)
    rw [accounts.fetches.frozen.mem_iff]
    refine mem_append_right _ (mem_append_left _ (mem_append_right _ ?_))
    exact finals.mem_iff.mpr mem_cons_self
  · refine .fetched (task, completion) (mem_append_right _ (mem_singleton_self _))
      kind rfl rfl rfl fun base known => ?_
    exact (accounts.evidence.tasks task (mem_of_getElem? found) base known).mono kept

/-- A prefetch that ends is kept, asked for again, or settles the candidate it was for. -/
theorem finishPrefetch
    (found : state.network[index]? = some task) (kind : task.fetchKind = .prefetch)
    (completes : Completes (task, completion)) (ofTask : completion.candidate = task.candidate)
    (sameKind : completion.fetchKind = .prefetch) :
    ∃ next, (ended state index task completion).finishNetwork completion = .ok next ∧
      PipelineAccounts config next [] := by
  have network := perm_cons_eraseIdx found
  have finals : (state.tasksOf .final).Perm
      ((ended state index task completion).tasksOf .final) := by
    refine (taskIds_perm .final network).trans (.of_eq ?_)
    exact taskIds_cons_other (by rw [kind]; decide) _
  have prefetches : (state.tasksOf .prefetch).Perm
      (completion.candidate.id :: (ended state index task completion).tasksOf .prefetch) := by
    refine (taskIds_perm .prefetch network).trans (.of_eq ?_)
    rw [ofTask]
    exact taskIds_cons_same kind _
  have inFlight : completion.candidate.id ∈ state.prefetch.activeIds :=
    accounts.fetches.active.mem_iff.mp (prefetches.mem_iff.mpr mem_cons_self)
  rcases PrefetchCoordinator.finish_spec accounts.fetches.accounted inFlight with
    ⟨outcome, prefetch, finished, accounted, finishes, rest⟩
  have kept : state.completions ⊆ state.completions ++ [(task, completion)] :=
    subset_append_left _ _
  have remembered : Remembers (state.completions ++ [(task, completion)])
      completion.candidate.id (.ofCompletion completion) := by
    refine ⟨(task, completion), mem_append_right _ (mem_singleton_self _), kind, ?_,
      ofTask, rfl⟩
    rw [ofTask]
  have after : ∀ pending : List CandidateId,
      (pending ++ prefetch.frozenIds).Perm state.prefetch.frozenIds →
        PipelineAccounts config { ended state index task completion with prefetch := prefetch }
          pending := by
    intro pending moved
    refine ⟨⟨accounted, accounts.fetches.nodup, ?_, ?_, ?_⟩,
      ⟨accounts.stages.staged, accounts.stages.jobs⟩, ?_,
      records_ended accounts.records finishes.waits⟩
    · refine perm_iff_count.mpr fun id => ?_
      have before := accounts.fetches.frozen.count_eq id
      have same := finals.count_eq id
      have change := moved.count_eq id
      change List.count id state.seen = List.count id (pending ++ state.analysisIds ++
        (state.finalIds ++ (ended state index task completion).tasksOf .final ++
          prefetch.frozenIds))
      simp only [waitingIds, count_append, count_nil] at before change ⊢
      omega
    · refine (perm_cons completion.candidate.id).mp ?_
      exact prefetches.symm.trans (accounts.fetches.active.trans finishes.active.symm)
    · intro id planned member
      have known := accounts.fetches.unseen id (finishes.planned id planned) member
      exact absurd known not_mem_nil
    · refine evidence_ended accounts.evidence completes fun id relations result known => ?_
      rcases finishes.complete id relations result known with before | own
      · rcases before with ⟨earlier, isEarlier⟩
        exact (accounts.evidence.complete id earlier result isEarlier).mono kept
      · rw [own.1, own.2]
        exact remembered
  have isFinished : (ended state index task completion).prefetch.finish completion =
      .ok (outcome, prefetch) := finished
  simp only [finishNetwork, sameKind, isFinished]
  cases outcome with
  | deferred => exact ⟨_, rfl, after [] rest⟩
  | frozen candidate result =>
      rcases rest with ⟨waits, sameId, isResult, frozen⟩
      have settled := after [candidate.id] (by rw [sameId]; exact frozen)
      refine settled.settleFrozen ?_ (accounts.records.waits candidate waits) ?_
      · intro planned
        refine not_mem_nil (accounts.fetches.unseen _ (finishes.planned _ planned) ?_)
        rw [accounts.fetches.frozen.mem_iff]
        refine mem_append_right _ (mem_append_right _ ?_)
        rw [sameId]
        exact frozen.mem_iff.mp mem_cons_self
      · rw [sameId, isResult]
        exact remembered

theorem completeFetch {outcome : FetchOutcome}
    (taken : state.completeFetch index outcome = some run) :
    ∃ next, run = .ok next ∧ PipelineAccounts config next [] := by
  unfold PipelineState.completeFetch at taken
  split at taken
  · cases taken
  · next task found =>
      rcases Option.map_eq_some_iff.mp taken with ⟨fetched, isFetched, isRun⟩
      have ofTask := candidate_completionOf task fetched
      have completes : Completes (task, completionOf task fetched) :=
        ⟨outcome, fetched, isFetched, rfl⟩
      rw [← isRun]
      cases kind : task.fetchKind with
      | prefetch =>
          exact accounts.finishPrefetch found kind completes ofTask.1 (ofTask.2.trans kind)
      | final =>
          have finished := accounts.finishFinal found kind completes ofTask.1
          rw [finishNetwork, ofTask.2.trans kind]
          exact finished

end

end PipelineAccounts

/-! ## Stages after the fetch -/

/-- Only the stages after the fetch differ. -/
structure SameFetches (state next : PipelineState) : Prop where
  finalFetches : next.finalFetches = state.finalFetches
  finalBases : next.finalBases = state.finalBases
  prefetch : next.prefetch = state.prefetch
  seen : next.seen = state.seen
  network : next.network = state.network
  frozenRecords : next.frozenRecords = state.frozenRecords
  completions : next.completions = state.completions
  analyses : next.analyses = state.analyses

theorem PipelineAccounts.of_same (accounts : PipelineAccounts config state [])
    (same : SameFetches state next) (stages : StageAccounts next) :
    PipelineAccounts config next [] := by
  refine ⟨?_, stages, ?_, ?_⟩
  · constructor
    · exact same.prefetch ▸ accounts.fetches.accounted
    · exact same.seen ▸ accounts.fetches.nodup
    · rw [same.seen, analysisIds, waitingIds,
        PipelineState.finalIds, tasksOf, same.analyses, same.finalFetches,
        same.network, same.prefetch]
      exact accounts.fetches.frozen
    · rw [tasksOf, same.network, same.prefetch]
      exact accounts.fetches.active
    · rw [same.prefetch, same.seen]
      exact accounts.fetches.unseen
  · constructor
    · exact same.completions ▸ accounts.evidence.completed
    · rw [same.prefetch, same.completions]
      exact accounts.evidence.complete
    · rw [same.finalBases, PipelineState.finalIds, same.finalFetches]
      exact accounts.evidence.owned
    · rw [same.finalFetches, same.finalBases, same.completions]
      exact accounts.evidence.bases
    · rw [same.network, same.completions]
      exact accounts.evidence.tasks
    · rw [same.analyses, same.completions]
      exact accounts.evidence.justified
  · constructor
    · rw [same.seen, same.frozenRecords]
      exact accounts.records.ids
    · rw [same.finalFetches, same.frozenRecords]
      exact accounts.records.finals
    · rw [same.network, same.frozenRecords]
      exact accounts.records.tasks
    · rw [same.prefetch, same.frozenRecords]
      exact accounts.records.waits
    · rw [same.analyses, same.frozenRecords]
      exact accounts.records.analysed

namespace StageAccounts

section

variable (accounts : StageAccounts state)
include accounts

/-- The candidates of the stages change as the lists of the stages do. -/
theorem staged_of_count (analyses : next.analyses = state.analyses)
    (same : ∀ id, next.stagedIds.count id = state.stagedIds.count id) :
    next.analysisIds.Perm next.stagedIds := by
  rw [analysisIds, analyses]
  exact accounts.staged.trans (perm_iff_count.mpr same).symm

/-- A candidate waits for compression only while it is not being compressed. -/
theorem not_compressing {rest : List CandidateId}
    (nodup : state.analysisIds.Nodup) (queue : state.compressionReady = id :: rest) :
    id ∉ state.activeCompressions := by
  intro isActive
  have once := nodup_iff_count_le_one.mp (accounts.staged.nodup_iff.mp nodup) id
  have ready : 0 < state.compressionReady.count id := by
    rw [queue]
    exact count_pos_iff.mpr mem_cons_self
  have active := count_pos_iff.mpr isActive
  simp only [stagedIds, count_append] at once
  omega

theorem mem_activeAnalyses
    (member : CpuTask.mk .analysis id ∈ state.jobs) : id ∈ state.activeAnalyses := by
  rw [accounts.jobs.mem_iff, jobsOf, mem_append, mem_map,
    mem_map] at member
  rcases member with analysis | compression
  · rcases analysis with ⟨other, isActive, same⟩
    cases same
    exact isActive
  · rcases compression with ⟨_, _, same⟩
    cases same

theorem mem_activeCompressions
    (member : CpuTask.mk .compress id ∈ state.jobs) : id ∈ state.activeCompressions := by
  rw [accounts.jobs.mem_iff, jobsOf, mem_append, mem_map,
    mem_map] at member
  rcases member with analysis | compression
  · rcases analysis with ⟨_, _, same⟩
    cases same
  · rcases compression with ⟨other, isActive, same⟩
    cases same
    exact isActive

end

end StageAccounts

namespace PipelineAccounts

section

variable (accounts : PipelineAccounts config state [])
include accounts

theorem submitCompression (taken : state.submitCompression config = some run) :
    ∃ next, run = .ok next ∧ PipelineAccounts config next [] := by
  unfold PipelineState.submitCompression at taken
  split at taken
  · split at taken
    · cases taken
    · next id rest queue =>
        have inactive := accounts.stages.not_compressing accounts.fetches.analysisIds_nodup queue
        rw [if_neg inactive] at taken
        cases taken
        refine ⟨_, rfl, accounts.of_same ⟨rfl, rfl, rfl, rfl, rfl, rfl, rfl, rfl⟩ ⟨?_, ?_⟩⟩
        · refine accounts.stages.staged_of_count rfl fun other => ?_
          simp only [stagedIds, count_append, queue, count_cons]
          omega
        · change (state.jobs ++ [CpuTask.mk .compress id]).Perm
            (_ ++ CpuTask.mk .compress id :: _)
          refine List.Perm.trans ?_ perm_middle.symm
          exact perm_append_comm.trans (accounts.stages.jobs.cons _)
  · cases taken

theorem admitPrepared (taken : state.admitPrepared config = some run) :
    (∃ required, run = .error (.memoryBudget required config.writerQueueBytes)) ∨
      ∃ next, run = .ok next ∧ PipelineAccounts config next [] := by
  unfold PipelineState.admitPrepared at taken
  split at taken
  · cases taken
  · next prepared rest queue =>
      split at taken
      · cases taken
        exact .inl ⟨_, rfl⟩
      · split at taken
        · cases taken
          refine .inr ⟨_, rfl, accounts.of_same ⟨rfl, rfl, rfl, rfl, rfl, rfl, rfl, rfl⟩
            ⟨accounts.stages.staged_of_count rfl fun other => ?_, accounts.stages.jobs⟩⟩
          simp only [stagedIds, count_append, queue, map_append,
            map_cons, map_nil, count_cons, count_nil]
          omega
        · cases taken
          refine .inr ⟨_, rfl, accounts.of_same ⟨rfl, rfl, rfl, rfl, rfl, rfl, rfl, rfl⟩
            ⟨accounts.stages.staged_of_count rfl fun other => ?_, accounts.stages.jobs⟩⟩
          simp only [stagedIds, count_append, queue, map_append,
            map_cons, map_nil, count_cons, count_nil]
          omega

theorem startWrite
    (taken : state.startWrite config = some next) : PipelineAccounts config next [] := by
  unfold PipelineState.startWrite at taken
  split at taken
  · split at taken
    · cases taken
    · next prepared rest queue =>
        cases taken
        refine accounts.of_same ⟨rfl, rfl, rfl, rfl, rfl, rfl, rfl, rfl⟩
          ⟨accounts.stages.staged_of_count rfl fun other => ?_, accounts.stages.jobs⟩
        simp only [stagedIds, count_append, queue, map_append,
          map_cons, map_nil, count_cons, count_nil]
        omega
  · cases taken

theorem completeCpu {completion : CpuCompletion}
    (taken : state.completeCpu index completion = some run) :
    (∃ error, run = .error (.task error)) ∨
      ∃ next, run = .ok next ∧ PipelineAccounts config next [] := by
  unfold PipelineState.completeCpu at taken
  split at taken
  · next guard =>
      have isJob : completion.task ∈ state.jobs := mem_of_getElem? guard.1
      have jobs := accounts.stages.jobs.symm.trans (perm_cons_eraseIdx guard.1)
      cases taken
      cases completion with
      | analysis id result =>
          have isActive := accounts.stages.mem_activeAnalyses isJob
          have erased := perm_cons_erase isActive
          cases result with
          | error error => exact .inl ⟨error, if_pos isActive⟩
          | ok =>
              refine .inr ⟨_, if_pos isActive, accounts.of_same
                ⟨rfl, rfl, rfl, rfl, rfl, rfl, rfl, rfl⟩ ⟨accounts.stages.staged_of_count rfl fun other => ?_, ?_⟩⟩
              · have counts := erased.count_eq other
                rw [← singleton_append] at counts
                simp only [stagedIds, count_append] at counts ⊢
                omega
              · refine (perm_cons (CpuTask.mk .analysis id)).mp (jobs.symm.trans ?_)
                exact (erased.map (CpuTask.mk .analysis)).append_right _
      | compression id result =>
          have isActive := accounts.stages.mem_activeCompressions isJob
          have erased := perm_cons_erase isActive
          cases result with
          | error error => exact .inl ⟨error, if_pos isActive⟩
          | ok bytes =>
              refine .inr ⟨_, if_pos isActive, accounts.of_same
                ⟨rfl, rfl, rfl, rfl, rfl, rfl, rfl, rfl⟩ ⟨accounts.stages.staged_of_count rfl fun other => ?_, ?_⟩⟩
              · have counts := erased.count_eq other
                rw [← singleton_append] at counts
                simp only [stagedIds, count_append, map_append,
                  map_cons, map_nil] at counts ⊢
                omega
              · refine (perm_cons (CpuTask.mk .compress id)).mp (jobs.symm.trans ?_)
                refine List.Perm.trans ?_ perm_middle
                exact (erased.map (CpuTask.mk .compress)).append_left _
  · cases taken

theorem finishWrite {result : Except String Unit}
    (taken : state.finishWrite index result = some next) : PipelineAccounts config next [] := by
  unfold PipelineState.finishWrite at taken
  split at taken
  · next prepared found =>
      cases taken
      refine accounts.of_same ⟨rfl, rfl, rfl, rfl, rfl, rfl, rfl, rfl⟩
        ⟨accounts.stages.staged_of_count rfl fun other => ?_, accounts.stages.jobs⟩
      have same : (state.writes.set index ⟨prepared, some result⟩).map
          (fun write => write.prepared.candidateId) =
            state.writes.map fun write => write.prepared.candidateId := by
        rw [map_set]
        exact set_of_getElem? (by rw [List.getElem?_map, found]; rfl)
      simp only [stagedIds, same]
  · cases taken

theorem joinWrite (taken : state.joinWrite index = some run) :
    (∃ error, run = .error (.task error)) ∨
      ∃ next, run = .ok next ∧ PipelineAccounts config next [] := by
  unfold PipelineState.joinWrite at taken
  split at taken
  · next prepared found =>
      cases taken
      refine .inr ⟨_, rfl, accounts.of_same ⟨rfl, rfl, rfl, rfl, rfl, rfl, rfl, rfl⟩
        ⟨accounts.stages.staged_of_count rfl fun other => ?_, accounts.stages.jobs⟩⟩
      have writes := ((perm_cons_eraseIdx found).map
        fun write => write.prepared.candidateId).count_eq other
      rw [map_cons, ← singleton_append] at writes
      simp only [stagedIds, count_append] at writes ⊢
      omega
  · cases taken
    exact .inl ⟨_, rfl⟩
  · cases taken

end

end PipelineAccounts

end NftData.Analysis
