import NftData.Analysis.Pipeline.PrefetchCoordinator

namespace NftData.Analysis

/-! # Steps of the prefetch coordinator

What each operation does to the entries of each kind, and that the counters follow. -/

open List
open Replaced (erased inserted)
open PrefetchEntry (isActive)

namespace PrefetchCoordinator

variable {coordinator next : PrefetchCoordinator} {capacity : Nat}
  {candidate : CandidateRecord}

/-- No entry is fetched, frozen or completed. Only the candidate may become planned. -/
structure KeepsStages (coordinator next : PrefetchCoordinator) (id : CandidateId) : Prop where
  active : next.activeIds.Perm coordinator.activeIds
  frozen : next.frozenIds.Perm coordinator.frozenIds
  planned : ∀ other ∈ next.plannedIds, other ∈ coordinator.plannedIds ∨ other = id
  waits : ∀ record, next.Waits record → coordinator.Waits record
  complete : ∀ other relations result,
    next.entries.lookup other = some ⟨relations, .complete result⟩ →
      ∃ before, coordinator.entries.lookup other = some ⟨before, .complete result⟩

theorem KeepsStages.refl (coordinator : PrefetchCoordinator) (id : CandidateId) :
    KeepsStages coordinator coordinator id :=
  ⟨.refl _, .refl _, fun _ member => .inl member, fun _ waits => waits,
    fun _ relations _ found => ⟨relations, found⟩⟩

variable {old new : Option PrefetchEntry} {id : CandidateId}

theorem KeepsStages.of_replaced (replaced : Replaced coordinator.entries next.entries id old new)
    (active : keyIf isActive id old = keyIf isActive id new)
    (before : keyIf PrefetchEntry.isFrozen id old = [])
    (after : keyIf PrefetchEntry.isFrozen id new = [])
    (complete : ∀ relations result, new = some ⟨relations, .complete result⟩ →
      ∃ before, old = some ⟨before, .complete result⟩) :
    KeepsStages coordinator next id where
  active := replaced.perm_of_same active
  frozen := replaced.perm_of_same (before.trans after.symm)
  waits := fun _ waits => waits.of_unfrozen replaced after
  planned := by
    intro other member
    rcases replaced.mem_keysWhere_next member with known | own
    · exact .inl known.2
    · exact .inr own.1
  complete := by
    intro other relations result found
    by_cases same : other = id
    · rw [same, replaced.lookup_self] at found
      rcases complete relations result found with ⟨before, isOld⟩
      exact ⟨before, by rw [same, replaced.before, isOld]⟩
    · rw [replaced.lookup_ne same] at found
      exact ⟨relations, found⟩

theorem upgradeEntry_spec {entry : PrefetchEntry} {upgraded : CandidateRecord}
    (accounted : coordinator.Accounted capacity)
    (found : coordinator.entries.lookup id = some entry) (unfrozen : entry.isFrozen = false)
    (sameId : upgraded.id = id) (grouped : upgraded.Grouped) :
    (coordinator.upgradeEntry id entry.stage upgraded).Accounted capacity ∧
      KeepsStages coordinator (coordinator.upgradeEntry id entry.stage upgraded) id := by
  have relations : ∀ relation ∈ upgraded.relations, relation.candidateId = id :=
    fun relation member => (grouped relation member).trans sameId
  rcases entry with ⟨known, stage⟩
  cases stage with
  | queued candidate =>
      have replaced := inserted coordinator.entries id
        (⟨upgraded.relations, .queued upgraded⟩ : PrefetchEntry)
      rw [found] at replaced
      have isQueued : id ∈ coordinator.queuedIds := mem_keysWhere.mpr ⟨_, found, rfl⟩
      constructor
      · exact accounted.replace replaced rfl rfl rfl accounted.bound
          (fun _ _ _ inside => inside)
          (fun _ _ _ => accounted.ordered id isQueued)
          (fun entry isNew => by cases isNew; exact ⟨relations, sameId⟩)
      · exact .of_replaced replaced rfl rfl rfl fun _ _ isNew => by cases isNew
  | active upgrade frozen =>
      cases frozen with
      | some frozen => cases unfrozen
      | none =>
          have replaced := inserted coordinator.entries id
            (⟨upgraded.relations, .active (some upgraded) none⟩ : PrefetchEntry)
          rw [found] at replaced
          constructor
          · exact accounted.replace replaced rfl rfl rfl accounted.bound
              (fun _ _ _ inside => inside)
              (fun entry isNew isQueued => by cases isNew; cases isQueued)
              (fun entry isNew => by
                cases isNew
                refine ⟨relations, fun other isUpgrade => ?_, fun _ none => (nomatch none)⟩
                cases isUpgrade
                exact sameId)
          · exact .of_replaced replaced rfl rfl rfl fun _ _ isNew => by cases isNew
  | complete result =>
      rw [upgradeEntry]
      split
      · have replaced := inserted coordinator.entries id
          (⟨upgraded.relations, .complete result⟩ : PrefetchEntry)
        rw [found] at replaced
        constructor
        · exact accounted.replace replaced rfl rfl rfl accounted.bound
            (fun _ _ _ inside => inside)
            (fun entry isNew isQueued => by cases isNew; cases isQueued)
            (fun entry isNew => by cases isNew; exact ⟨relations, trivial⟩)
        · exact .of_replaced replaced rfl rfl rfl fun _ _ isNew => by
            cases isNew
            exact ⟨known, rfl⟩
      · have replaced := inserted coordinator.entries id
          (⟨upgraded.relations, .queued upgraded⟩ : PrefetchEntry)
        rw [found] at replaced
        have isReserved : id ∈ coordinator.reservedIds := mem_keysWhere.mpr ⟨_, found, rfl⟩
        have positive : 0 < coordinator.reservedCount := by
          rw [accounted.reserved]
          exact length_pos_of_mem isReserved
        constructor
        · refine accounted.replace replaced ?_ ?_ rfl accounted.bound
            (fun _ _ _ => mem_cons_of_mem _)
            (fun _ _ _ => mem_cons_self)
            (fun entry isNew => by cases isNew; exact ⟨relations, sameId⟩)
          · change 0 + (coordinator.queuedCount + 1) = 1 + coordinator.queuedCount
            omega
          · change 1 + (coordinator.reservedCount - 1) = 0 + coordinator.reservedCount
            omega
        · exact .of_replaced replaced rfl rfl rfl fun _ _ isNew => by cases isNew

theorem offer_spec {kept : Bool} (accounted : coordinator.Accounted capacity)
    (grouped : candidate.Grouped)
    (offered : coordinator.offer candidate capacity = .ok (kept, next)) :
    next.Accounted capacity ∧ KeepsStages coordinator next candidate.id := by
  unfold offer at offered
  split at offered
  · next entry found =>
      split at offered
      · cases offered
        exact ⟨accounted, .refl _ _⟩
      · next unfrozen =>
          split at offered
          · cases offered
          · cases offered
          · next upgraded rest made =>
              cases offered
              have both : ∀ relation ∈ entry.relations ++ candidate.relations,
                  relation.candidateId = candidate.id := by
                intro relation member
                rcases mem_append.mp member with known | new
                · exact (accounted.belongs _ _ found).1 relation known
                · exact grouped relation new
              have record := record_of_merged both made upgraded mem_cons_self
              exact upgradeEntry_spec accounted found (eq_false_of_ne_true unfrozen) record.1
                record.2
  · next missing =>
      split at offered
      · cases offered
        exact ⟨accounted, .refl _ _⟩
      · next room =>
          cases offered
          have replaced := inserted coordinator.entries candidate.id
            (⟨candidate.relations, .queued candidate⟩ : PrefetchEntry)
          rw [missing] at replaced
          constructor
          · refine accounted.replace replaced ?_ rfl ?_ (Nat.lt_of_not_le room)
              (fun _ _ _ => mem_append_left _)
              (fun _ _ _ => mem_append_right _ (mem_singleton_self _))
              (fun entry isNew => by cases isNew; exact ⟨grouped, rfl⟩)
            · change 0 + (coordinator.queuedCount + 1) = 1 + coordinator.queuedCount
              omega
            · change 0 + (coordinator.planCount + 1) = 1 + coordinator.planCount
              omega
          · exact .of_replaced replaced rfl rfl rfl fun _ _ isNew => by cases isNew

/-! ## Launches -/

theorem popFrom_eq_some {order : List CandidateId}
    (popped : coordinator.popFrom order = (some candidate, next)) :
    ∃ skipped id rest relations, order = skipped ++ id :: rest ∧
      (∀ other ∈ skipped, other ∉ coordinator.queuedIds) ∧
      coordinator.entries.lookup id = some ⟨relations, .queued candidate⟩ ∧
      next = coordinator.activate id relations rest := by
  induction order with
  | nil => cases popped
  | cons id rest induction =>
      rw [popFrom] at popped
      split at popped
      · next relations queued found =>
          cases popped
          exact ⟨[], id, rest, relations, rfl, fun _ member => (nomatch member), found, rfl⟩
      · next other =>
          rcases induction popped with ⟨skipped, found, later, relations, order, stale, rest⟩
          refine ⟨id :: skipped, found, later, relations, by rw [order]; rfl, ?_, rest⟩
          intro stalled member
          rcases mem_cons.mp member with isId | inSkipped
          · rw [isId]
            intro isQueued
            rcases mem_keysWhere.mp isQueued with ⟨entry, isEntry, kind⟩
            rcases entry with ⟨known, stage⟩
            cases stage with
            | queued candidate => exact other known candidate isEntry
            | active => cases kind
            | complete => cases kind
          · exact stale stalled inSkipped

/-- A launched candidate becomes active, and nothing else changes. -/
structure Launches (coordinator next : PrefetchCoordinator) (id : CandidateId) : Prop where
  active : next.activeIds.Perm (id :: coordinator.activeIds)
  frozen : next.frozenIds.Perm coordinator.frozenIds
  planned : ∀ other ∈ next.plannedIds, other ∈ coordinator.plannedIds
  waits : ∀ record, next.Waits record → coordinator.Waits record
  complete : ∀ other relations result,
    next.entries.lookup other = some ⟨relations, .complete result⟩ →
      coordinator.entries.lookup other = some ⟨relations, .complete result⟩

section

variable (accounted : coordinator.Accounted capacity)
include accounted

theorem popQueued_spec (popped : coordinator.popQueued = (some candidate, next)) :
    next.Accounted capacity ∧ Launches coordinator next candidate.id ∧
      candidate.id ∈ coordinator.queuedIds := by
  rcases popFrom_eq_some popped with
    ⟨skipped, id, rest, relations, order, stale, found, isNext⟩
  have belongs := accounted.belongs _ _ found
  have isQueued : id ∈ coordinator.queuedIds := mem_keysWhere.mpr ⟨_, found, rfl⟩
  have positive : 0 < coordinator.queuedCount := by
    rw [accounted.queued]
    exact length_pos_of_mem isQueued
  have sameId : candidate.id = id := belongs.2
  have replaced : Replaced coordinator.entries (coordinator.activate id relations rest).entries
      id (some ⟨relations, .queued candidate⟩) (some ⟨relations, .active none none⟩) :=
    ⟨found, rfl⟩
  rw [isNext, sameId]
  refine ⟨?_, ?_, isQueued⟩
  · refine Accounted.replace accounted replaced ?_ ?_ rfl accounted.bound ?_
      (fun entry isNew kind => by cases isNew; cases kind)
      (fun entry isNew => by
        cases isNew
        exact ⟨belongs.1, fun _ none => (nomatch none), fun _ none => (nomatch none)⟩)
    · change 1 + (coordinator.queuedCount - 1) = 0 + coordinator.queuedCount
      omega
    · change 0 + (coordinator.reservedCount + 1) = 1 + coordinator.reservedCount
      omega
    · intro other member different inOrder
      rw [order, mem_append, mem_cons] at inOrder
      rcases inOrder with inSkipped | isId | inRest
      · exact absurd member (stale other inSkipped)
      · exact absurd isId different
      · exact inRest
  · constructor
    · exact replaced.perm isActive
    · exact replaced.perm_of_same rfl
    · intro other member
      rcases replaced.mem_keysWhere_next member with known | own
      · exact known.2
      · rw [own.1]
        exact mem_keysWhere.mpr ⟨_, found, rfl⟩
    · exact fun record waits => waits.of_unfrozen replaced rfl
    · intro other known result isComplete
      by_cases same : other = id
      · rw [same, replaced.lookup_self] at isComplete
        cases isComplete
      · rwa [replaced.lookup_ne same] at isComplete

/-- A queued candidate can be launched. -/
theorem exists_popQueued (hasQueued : 0 < coordinator.queuedCount) :
    ∃ candidate next, coordinator.popQueued = (some candidate, next) := by
  rw [accounted.queued] at hasQueued
  rcases exists_mem_of_length_pos hasQueued with ⟨id, isQueued⟩
  have inOrder := accounted.ordered id isQueued
  rcases mem_keysWhere.mp isQueued with ⟨entry, found, kind⟩
  rcases entry with ⟨relations, stage⟩
  have isStage : ∃ candidate, stage = .queued candidate := by
    cases stage with
    | queued candidate => exact ⟨candidate, rfl⟩
    | active => cases kind
    | complete => cases kind
  rcases isStage with ⟨candidate, isStage⟩
  rw [isStage] at found
  unfold popQueued
  generalize coordinator.order = order at inOrder
  induction order with
  | nil => cases inOrder
  | cons head rest induction =>
      rw [popFrom]
      split
      · exact ⟨_, _, rfl⟩
      · next other =>
          rcases mem_cons.mp inOrder with isHead | inRest
          · rw [isHead] at found
            exact absurd found (other relations candidate)
          · exact induction inRest

/-- An order without queued ids is dropped. -/
theorem popQueued_eq_none (popped : coordinator.popQueued = (none, next)) :
    next = { coordinator with order := [] } ∧ next.Accounted capacity := by
  have dropped : ∀ order, coordinator.popFrom order = (none, next) →
      next = { coordinator with order := [] } := by
    intro order
    induction order with
    | nil =>
        intro popped
        cases popped
        rfl
    | cons id rest induction =>
        intro popped
        rw [popFrom] at popped
        split at popped
        · cases popped
        · exact induction popped
  have isNext := dropped coordinator.order popped
  have noneQueued : coordinator.queuedIds = [] := by
    refine eq_nil_of_length_eq_zero ?_
    rw [← accounted.queued]
    refine Nat.eq_zero_of_not_pos fun positive => ?_
    rcases exists_popQueued accounted positive with ⟨candidate, other, found⟩
    rw [popped] at found
    cases found
  refine ⟨isNext, ?_⟩
  rw [isNext]
  refine ⟨accounted.queued, accounted.reserved, accounted.planned, accounted.bound, ?_,
    accounted.belongs⟩
  intro id member
  change id ∈ coordinator.queuedIds at member
  rw [noneQueued] at member
  cases member

end

/-! ## Freezes -/

/-- What a freeze leaves behind. -/
structure Freezes (coordinator next : PrefetchCoordinator) (candidate : CandidateRecord)
    (waits : Bool) : Prop where
  active : next.activeIds.Perm coordinator.activeIds
  frozen : next.frozenIds.Perm
    ((if waits then [candidate.id] else []) ++ coordinator.frozenIds)
  planned : ∀ other ∈ next.plannedIds, other ∈ coordinator.plannedIds ∧ other ≠ candidate.id
  waits : ∀ record, next.Waits record → coordinator.Waits record ∨ record = candidate
  complete : ∀ other relations result,
    next.entries.lookup other = some ⟨relations, .complete result⟩ →
      coordinator.entries.lookup other = some ⟨relations, .complete result⟩

theorem Freezes.of_replaced {waits : Bool}
    (replaced : Replaced coordinator.entries next.entries candidate.id old new)
    (active : keyIf isActive candidate.id old =
      keyIf isActive candidate.id new)
    (before : keyIf PrefetchEntry.isFrozen candidate.id old = [])
    (after : keyIf PrefetchEntry.isFrozen candidate.id new =
      if waits then [candidate.id] else []) (unplanned : ∀ entry ∈ new, entry.isPlanned = false)
    (own : ∀ relations upgrade record,
      new = some ⟨relations, .active upgrade (some record)⟩ → record = candidate)
    (incomplete : ∀ relations result, new ≠ some ⟨relations, .complete result⟩) :
    Freezes coordinator next candidate waits where
  active := replaced.perm_of_same active
  frozen := by
    have frozen := replaced.perm PrefetchEntry.isFrozen
    rwa [before, after] at frozen
  planned := by
    intro other member
    rcases replaced.mem_keysWhere_next member with known | own
    · exact ⟨known.2, known.1⟩
    · rcases own with ⟨_, entry, isNew, kind⟩
      rw [unplanned entry isNew] at kind
      cases kind
  waits := by
    intro record waits
    rcases waits.of_replaced replaced with before | isNew
    · exact .inl before
    · rcases isNew with ⟨relations, upgrade, isNew⟩
      exact .inr (own relations upgrade record isNew)
  complete := by
    intro other relations result found
    by_cases same : other = candidate.id
    · rw [same, replaced.lookup_self] at found
      exact absurd found (incomplete relations result)
    · rwa [replaced.lookup_ne same] at found

/-- A freeze ends the plan of the candidate: its prefetch is handed over, given up or awaited. -/
theorem freeze_spec {outcome : FrozenPrefetch} (accounted : coordinator.Accounted capacity)
    (unfrozen : candidate.id ∉ coordinator.frozenIds)
    (froze : coordinator.freeze candidate = (outcome, next)) :
    next.Accounted capacity ∧
      match outcome with
      | .active => Freezes coordinator next candidate true
      | .final other => other = candidate ∧ Freezes coordinator next candidate false
      | .complete other result => other = candidate ∧
          Freezes coordinator next candidate false ∧
            ∃ relations, coordinator.entries.lookup candidate.id =
              some ⟨relations, .complete result⟩ := by
  have planPositive : ∀ entry, coordinator.entries.lookup candidate.id = some entry →
      entry.isFrozen = false → 0 < coordinator.planCount := by
    intro entry found kind
    rw [accounted.planned]
    refine length_pos_of_mem (a := candidate.id) (mem_keysWhere.mpr ⟨entry, found, ?_⟩)
    rw [PrefetchEntry.isPlanned, kind]
    rfl
  unfold freeze at froze
  split at froze
  · next missing =>
      cases froze
      refine ⟨accounted, rfl, .refl _, .refl _, fun other member => ⟨member, ?_⟩,
        fun _ waits => .inl waits, fun _ _ _ found => found⟩
      intro same
      rcases mem_keysWhere.mp member with ⟨entry, found, _⟩
      rw [same, missing] at found
      cases found
  · next relations result found =>
      cases froze
      have replaced := erased coordinator.entries candidate.id
      rw [found] at replaced
      have isReserved : candidate.id ∈ coordinator.reservedIds :=
        mem_keysWhere.mpr ⟨_, found, rfl⟩
      have reserved : 0 < coordinator.reservedCount := by
        rw [accounted.reserved]
        exact length_pos_of_mem isReserved
      have planned := planPositive _ found rfl
      refine ⟨accounted.replace replaced rfl ?_ ?_
        ((Nat.sub_le _ _).trans accounted.bound)
        (fun _ _ _ inside => inside) (fun _ none => (nomatch none))
        (fun _ none => (nomatch none)), rfl, ?_, relations, found⟩
      · change 1 + (coordinator.reservedCount - 1) = 0 + coordinator.reservedCount
        omega
      · change 1 + (coordinator.planCount - 1) = 0 + coordinator.planCount
        omega
      · exact .of_replaced replaced rfl rfl rfl (fun _ none => (nomatch none))
          (fun _ _ _ none => (nomatch none)) fun _ _ none => (nomatch none)
  · next relations queued found =>
      cases froze
      have replaced := erased coordinator.entries candidate.id
      rw [found] at replaced
      have isQueued : candidate.id ∈ coordinator.queuedIds :=
        mem_keysWhere.mpr ⟨_, found, rfl⟩
      have positive : 0 < coordinator.queuedCount := by
        rw [accounted.queued]
        exact length_pos_of_mem isQueued
      have planned := planPositive _ found rfl
      refine ⟨accounted.replace replaced ?_ rfl ?_
        ((Nat.sub_le _ _).trans accounted.bound)
        (fun _ _ _ inside => inside) (fun _ none => (nomatch none))
        (fun _ none => (nomatch none)), rfl, ?_⟩
      · change 1 + (coordinator.queuedCount - 1) = 0 + coordinator.queuedCount
        omega
      · change 1 + (coordinator.planCount - 1) = 0 + coordinator.planCount
        omega
      · exact .of_replaced replaced rfl rfl rfl (fun _ none => (nomatch none))
          (fun _ _ _ none => (nomatch none)) fun _ _ none => (nomatch none)
  · next relations upgrade frozen found =>
      cases froze
      cases frozen with
      | some frozen => exact absurd (mem_keysWhere.mpr ⟨_, found, rfl⟩) unfrozen
      | none =>
          have replaced := inserted coordinator.entries candidate.id
            (⟨relations, .active none (some candidate)⟩ : PrefetchEntry)
          rw [found] at replaced
          have planned := planPositive _ found rfl
          have belongs := accounted.belongs _ _ found
          refine ⟨accounted.replace replaced rfl rfl ?_
            ((Nat.sub_le _ _).trans accounted.bound)
            (fun _ _ _ inside => inside)
            (fun entry isNew kind => by cases isNew; cases kind)
            (fun entry isNew => by
              cases isNew
              refine ⟨belongs.1, fun _ none => (nomatch none), fun other isFrozen => ?_⟩
              cases isFrozen
              rfl), ?_⟩
          · change 1 + (coordinator.planCount - 1) = 0 + coordinator.planCount
            omega
          · exact .of_replaced replaced rfl rfl rfl (fun entry isNew => by cases isNew; rfl)
              (fun _ _ record isNew => by cases isNew; rfl) fun _ _ isNew => (nomatch isNew)

/-! ## Completions -/

/-- The prefetch in flight ends. -/
structure Finishes (coordinator next : PrefetchCoordinator) (completion : NetworkCompletion) :
    Prop where
  active : (completion.candidate.id :: next.activeIds).Perm coordinator.activeIds
  planned : ∀ other ∈ next.plannedIds, other ∈ coordinator.plannedIds
  waits : ∀ record, next.Waits record → coordinator.Waits record
  complete : ∀ other relations result,
    next.entries.lookup other = some ⟨relations, .complete result⟩ →
      (∃ before, coordinator.entries.lookup other = some ⟨before, .complete result⟩) ∨
        (other = completion.candidate.id ∧ result = .ofCompletion completion)

variable {completion : NetworkCompletion}

theorem Finishes.of_replaced
    (replaced : Replaced coordinator.entries next.entries completion.candidate.id old new)
    (before : keyIf isActive completion.candidate.id old =
      [completion.candidate.id])
    (after : keyIf isActive completion.candidate.id new = [])
    (unfrozen : keyIf PrefetchEntry.isFrozen completion.candidate.id new = [])
    (planned : ∀ entry ∈ new, completion.candidate.id ∈ coordinator.plannedIds)
    (complete : ∀ relations result, new = some ⟨relations, .complete result⟩ →
      result = .ofCompletion completion) :
    Finishes coordinator next completion where
  active := by
    have active := replaced.perm isActive
    rwa [before, after] at active
  planned := by
    intro other member
    rcases replaced.mem_keysWhere_next member with known | own
    · exact known.2
    · rcases own with ⟨same, entry, isNew, _⟩
      exact same ▸ planned entry isNew
  waits := fun _ waits => waits.of_unfrozen replaced unfrozen
  complete := by
    intro other relations result found
    by_cases same : other = completion.candidate.id
    · rw [same, replaced.lookup_self] at found
      exact .inr ⟨same, complete relations result found⟩
    · rw [replaced.lookup_ne same] at found
      exact .inl ⟨relations, found⟩

/-- A prefetch in flight is kept for later, asked for again or handed to its frozen record. -/
theorem finish_spec (accounted : coordinator.Accounted capacity)
    (inFlight : completion.candidate.id ∈ coordinator.activeIds) :
    ∃ outcome next, coordinator.finish completion = .ok (outcome, next) ∧
      next.Accounted capacity ∧ Finishes coordinator next completion ∧
        match outcome with
        | .deferred => next.frozenIds.Perm coordinator.frozenIds
        | .frozen candidate result => coordinator.Waits candidate ∧
            candidate.id = completion.candidate.id ∧ result = .ofCompletion completion ∧
              (completion.candidate.id :: next.frozenIds).Perm coordinator.frozenIds := by
  rcases mem_keysWhere.mp inFlight with ⟨entry, found, kind⟩
  have isReserved : completion.candidate.id ∈ coordinator.reservedIds := by
    refine mem_keysWhere.mpr ⟨_, found, ?_⟩
    rw [PrefetchEntry.isReserved, kind]
    rfl
  have reserved : 0 < coordinator.reservedCount := by
    rw [accounted.reserved]
    exact length_pos_of_mem isReserved
  have belongs := accounted.belongs _ _ found
  rcases entry with ⟨relations, stage⟩
  cases stage with
  | queued => cases kind
  | complete => cases kind
  | active upgrade frozen =>
      cases frozen with
      | some frozen =>
          have replaced := erased coordinator.entries completion.candidate.id
          rw [found] at replaced
          refine ⟨.frozen frozen (.ofCompletion completion), _, by rw [finish, found], ?_, ?_,
            ⟨_, _, _, found⟩, belongs.2.2 frozen rfl, rfl, ?_⟩
          · refine accounted.replace replaced rfl ?_ rfl accounted.bound
              (fun _ _ _ inside => inside)
              (fun _ none => (nomatch none)) (fun _ none => (nomatch none))
            change 1 + (coordinator.reservedCount - 1) = 0 + coordinator.reservedCount
            omega
          · exact .of_replaced replaced rfl rfl rfl (fun _ none => (nomatch none))
              fun _ _ none => (nomatch none)
          · exact replaced.perm PrefetchEntry.isFrozen
      | none =>
          have isPlanned : completion.candidate.id ∈ coordinator.plannedIds :=
            mem_keysWhere.mpr ⟨_, found, rfl⟩
          have completes : ∀ next, next = coordinator.setEntry completion.candidate.id
                ⟨relations, .complete (.ofCompletion completion)⟩ →
              next.Accounted capacity ∧ Finishes coordinator next completion ∧
                next.frozenIds.Perm coordinator.frozenIds := by
            intro next isNext
            rw [isNext]
            have replaced := inserted coordinator.entries completion.candidate.id
              (⟨relations, .complete (.ofCompletion completion)⟩ : PrefetchEntry)
            rw [found] at replaced
            refine ⟨?_, ?_, replaced.perm_of_same rfl⟩
            · exact accounted.replace replaced rfl rfl rfl accounted.bound
                (fun _ _ _ inside => inside)
                (fun entry isNew kind => by cases isNew; cases kind)
                (fun entry isNew => by cases isNew; exact ⟨belongs.1, trivial⟩)
            · exact .of_replaced replaced rfl rfl rfl (fun _ _ => isPlanned)
                fun _ _ isNew => by cases isNew; rfl
          cases upgrade with
          | none => exact ⟨.deferred, _, by rw [finish, found], completes _ rfl⟩
          | some upgrade =>
              by_cases covers : selectionCovers (PrefetchResult.ofCompletion completion).selection
                  upgrade.selection
              · refine ⟨.deferred, _, ?_, completes _ rfl⟩
                rw [finish, found]
                exact if_pos covers
              · refine ⟨.deferred, coordinator.requeue completion.candidate.id
                  ⟨relations, .queued upgrade⟩, ?_, ?_⟩
                · rw [finish, found]
                  exact if_neg covers
                · have replaced := inserted coordinator.entries
                    completion.candidate.id (⟨relations, .queued upgrade⟩ : PrefetchEntry)
                  rw [found] at replaced
                  refine ⟨?_, ?_, replaced.perm_of_same rfl⟩
                  · refine accounted.replace replaced ?_ ?_ rfl accounted.bound
                      (fun _ _ _ => mem_cons_of_mem _)
                      (fun _ _ _ => mem_cons_self)
                      (fun entry isNew => by
                        cases isNew
                        exact ⟨belongs.1, belongs.2.1 upgrade rfl⟩)
                    · change 0 + (coordinator.queuedCount + 1) = 1 + coordinator.queuedCount
                      omega
                    · change 1 + (coordinator.reservedCount - 1) =
                        0 + coordinator.reservedCount
                      omega
                  · exact .of_replaced replaced rfl rfl rfl (fun _ _ => isPlanned)
                      fun _ _ isNew => by cases isNew

end PrefetchCoordinator

end NftData.Analysis
