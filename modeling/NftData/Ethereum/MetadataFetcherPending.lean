import NftData.Ethereum.MetadataFetcher

namespace NftData.Ethereum

/-! # Pending NFTs

No row leaves the temp table without a reason, as long as every row that a worker deletes at
the end of a batch was answered for. -/

open List

namespace FetcherWorld

variable {config : FetcherConfig} {world next : FetcherWorld}

def IsListed (world : FetcherWorld) (contract : Address) : Prop :=
  contract.text ∈ world.listed

def InMain (world : FetcherWorld) (key : Address × Nat) : Prop :=
  key ∈ world.main.map NftRow.key

def WasRejected (world : FetcherWorld) (row : PendingRow) : Prop :=
  ∃ answer, (row, answer) ∈ world.answers ∧ Rejected answer

/-- Every deleted row is in the main table, belongs to a blacklisted contract or was rejected
by its own answer. A failed request is no reason to delete a row. Keys are unique in the main
table. -/
structure KeepsPending (world : FetcherWorld) : Prop where
  reason : ∀ removal ∈ world.removed, world.InMain removal.row.key ∨
    world.IsListed removal.row.contract ∨ world.WasRejected removal.row
  failedStays : ∀ removal ∈ world.removed, removal.requestFailed = true →
    world.IsListed removal.row.contract
  unique : (world.main.map NftRow.key).Nodup

def AnsweredFor (config : FetcherConfig) (batch : Batch) (row : PendingRow) : Prop :=
  row ∉ batch.failedRows config ∧
    ∃ answer, (row, answer) ∈ batch.matched config ∧ (row, answer) ∈ batch.provided config

def DeletesAnswered (config : FetcherConfig) (world : FetcherWorld) (event : FetcherEvent) :
    Prop :=
  match event with
  | .act worker .delete =>
      match world.workers worker with
      | .deleting batch blacklist =>
          ∀ row ∈ batch.remainingRows blacklist, AnsweredFor config batch row
      | _ => True
  | _ => True

/-- Nothing that was remembered is forgotten. A key leaves the main table only with its
contract on the blacklist. -/
structure Extends (world next : FetcherWorld) : Prop where
  scanned : world.scanned ⊆ next.scanned
  answers : world.answers ⊆ next.answers
  listed : world.listed ⊆ next.listed
  main : ∀ key, world.InMain key → next.InMain key ∨ next.IsListed key.1

def KnowsBatch (config : FetcherConfig) (world : FetcherWorld) (batch : Batch) : Prop :=
  batch.provided config ⊆ world.answers

/-- What holds of a batch under a blacklist. -/
structure KnowsListed (config : FetcherConfig) (world : FetcherWorld) (batch : Batch)
    (blacklist : List Text) : Prop where
  answers : KnowsBatch config world batch
  listed : blacklist ⊆ world.listed
  detected : ∀ contract ∈ batch.onchainImageContracts config, contract.text ∈ blacklist

/-- Every record of the batch is in the main table, unless its contract was cleaned. -/
def Inserted (config : FetcherConfig) (world : FetcherWorld) (batch : Batch)
    (blacklist : List Text) : Prop :=
  ∀ record ∈ batch.keptInserts config blacklist,
    world.InMain record.key ∨ world.IsListed record.contract

def KnowsPhase (config : FetcherConfig) (world : FetcherWorld) : WorkerPhase → Prop
  | .idle => True
  | .fetching _ => True
  | .readingEnv batch => KnowsBatch config world batch
  | .writingEnv batch _ => KnowsBatch config world batch
  | .loading batch => KnowsBatch config world batch
  | .sweeping batch blacklist => KnowsListed config world batch blacklist
  | .cleaning batch blacklist => KnowsListed config world batch blacklist
  | .inserting batch blacklist => KnowsListed config world batch blacklist
  | .deleting batch blacklist =>
      KnowsListed config world batch blacklist ∧ Inserted config world batch blacklist

variable {batch : Batch}

theorem KnowsBatch.mono (grows : Extends world next) (knows : KnowsBatch config world batch) :
    KnowsBatch config next batch :=
  fun _ member => grows.answers (knows member)

variable {blacklist : List Text}

theorem KnowsListed.mono (grows : Extends world next)
    (knows : KnowsListed config world batch blacklist) :
    KnowsListed config next batch blacklist :=
  ⟨knows.answers.mono grows, fun _ member => grows.listed (knows.listed member),
    knows.detected⟩

theorem Inserted.mono (grows : Extends world next)
    (inserted : Inserted config world batch blacklist) :
    Inserted config next batch blacklist := by
  intro record member
  rcases inserted record member with inMain | isListed
  · exact grows.main _ inMain
  · exact .inr (grows.listed isListed)

variable {phase : WorkerPhase}

theorem KnowsPhase.mono (grows : Extends world next) (knows : KnowsPhase config world phase) :
    KnowsPhase config next phase := by
  cases phase with
  | idle | fetching => trivial
  | readingEnv | writingEnv | loading => exact KnowsBatch.mono grows knows
  | sweeping | cleaning | inserting => exact KnowsListed.mono grows knows
  | deleting => exact ⟨knows.1.mono grows, knows.2.mono grows⟩

structure PendingInvariant (config : FetcherConfig) (world : FetcherWorld) : Prop where
  /-- Row ids are never used again. -/
  fresh : ∀ row ∈ world.scanned, row.id < world.nextId
  ids : (world.scanned.map PendingRow.id).Nodup
  temp : ∀ temp ∈ world.temp, temp.row ∈ world.scanned
  pending : ∀ worker, ∀ row ∈ (world.workers worker).pending, row ∈ world.scanned
  knows : ∀ worker, KnowsPhase config world (world.workers worker)
  keeps : KeepsPending world

theorem PendingInvariant.initial (config : FetcherConfig) (env : Option Text) :
    PendingInvariant config (.initial env) where
  fresh := fun _ member => (nomatch member)
  ids := nodup_nil
  temp := fun _ member => (nomatch member)
  pending := fun _ _ member => (nomatch member)
  knows := fun _ => trivial
  keeps := ⟨fun _ member => (nomatch member), fun _ member => (nomatch member), nodup_nil⟩

theorem PendingInvariant.row_eq (invariant : PendingInvariant config world)
    {left right : PendingRow} (leftMember : left ∈ world.scanned)
    (rightMember : right ∈ world.scanned) (same : left.id = right.id) : left = right :=
  inj_on_of_nodup_map invariant.ids leftMember rightMember same

variable {row : PendingRow}

theorem reason_mono (grows : Extends world next)
    (reason : world.InMain row.key ∨ world.IsListed row.contract ∨ world.WasRejected row) :
    next.InMain row.key ∨ next.IsListed row.contract ∨ next.WasRejected row := by
  rcases reason with inMain | isListed | rejected
  · rcases grows.main _ inMain with still | isListed
    · exact .inl still
    · exact .inr (.inl isListed)
  · exact .inr (.inl (grows.listed isListed))
  · rcases rejected with ⟨answer, known, isRejected⟩
    exact .inr (.inr ⟨answer, grows.answers known, isRejected⟩)

/-- What is left to show of a step: the tables grow as they may, the worker's own phase is in
order, and every new deletion has its reason. -/
structure StepKeeps (config : FetcherConfig) (world next : FetcherWorld) (worker : Nat)
    (phase : WorkerPhase) : Prop where
  grows : Extends world next
  nextId : next.nextId = world.nextId
  scanned : next.scanned = world.scanned
  temp : ∀ temp ∈ next.temp, ∃ before ∈ world.temp, before.row = temp.row
  workers : next.workers = Function.update world.workers worker phase
  pending : ∀ row ∈ phase.pending, row ∈ world.scanned
  knows : KnowsPhase config next phase
  removed : ∀ removal ∈ next.removed, removal ∈ world.removed ∨
    ((next.InMain removal.row.key ∨ next.IsListed removal.row.contract ∨
      next.WasRejected removal.row) ∧
      (removal.requestFailed = true → next.IsListed removal.row.contract))
  unique : (next.main.map NftRow.key).Nodup

variable {worker : Nat}

theorem StepKeeps.invariant (invariant : PendingInvariant config world)
    (keeps : StepKeeps config world next worker phase) : PendingInvariant config next := by
  have workers : ∀ (Holds : WorkerPhase → Prop), Holds phase →
      (∀ other, Holds (world.workers other)) → ∀ other, Holds (next.workers other) := by
    intro Holds own others other
    rw [keeps.workers]
    by_cases same : other = worker
    · rw [same, Function.update_self]
      exact own
    · rw [Function.update_of_ne same]
      exact others other
  constructor
  · rw [keeps.scanned, keeps.nextId]
    exact invariant.fresh
  · rw [keeps.scanned]
    exact invariant.ids
  · intro temp member
    rcases keeps.temp temp member with ⟨before, inBefore, same⟩
    rw [keeps.scanned, ← same]
    exact invariant.temp before inBefore
  · rw [keeps.scanned]
    exact workers (fun phase => ∀ row ∈ phase.pending, row ∈ world.scanned) keeps.pending
      invariant.pending
  · exact workers (KnowsPhase config next) keeps.knows fun other =>
      (invariant.knows other).mono keeps.grows
  · constructor
    · intro removal member
      rcases keeps.removed removal member with old | new
      · exact reason_mono keeps.grows (invariant.keeps.reason removal old)
      · exact new.1
    · intro removal member failed
      rcases keeps.removed removal member with old | new
      · exact keeps.grows.listed (invariant.keeps.failedStays removal old failed)
      · exact new.2 failed
    · exact keeps.unique

theorem StepKeeps.taken {made : FetcherWorld} (keeps : StepKeeps config world made worker phase)
    (invariant : PendingInvariant config world) (taken : some made = some next) :
    PendingInvariant config next :=
  Option.some.inj taken ▸ keeps.invariant invariant

/-! ## Steps that delete nothing -/

/-- The main table, the deletions and the workers are left alone. -/
structure Quiet (world changed : FetcherWorld) : Prop where
  nextId : changed.nextId = world.nextId
  scanned : changed.scanned = world.scanned
  temp : ∀ temp ∈ changed.temp, ∃ before ∈ world.temp, before.row = temp.row
  workers : changed.workers = world.workers
  answers : world.answers ⊆ changed.answers
  listed : world.listed ⊆ changed.listed
  main : changed.main = world.main
  removed : changed.removed = world.removed

theorem StepKeeps.of_quiet {changed : FetcherWorld} (invariant : PendingInvariant config world)
    (quiet : Quiet world changed) (pending : ∀ row ∈ phase.pending, row ∈ world.scanned)
    (knows : KnowsPhase config (changed.setPhase worker phase) phase) :
    StepKeeps config world (changed.setPhase worker phase) worker phase where
  grows := by
    refine ⟨?_, quiet.answers, quiet.listed, fun key inMain => .inl ?_⟩
    · change world.scanned ⊆ changed.scanned
      rw [quiet.scanned]
      exact List.Subset.refl _
    · change key ∈ changed.main.map NftRow.key
      rw [quiet.main]
      exact inMain
  nextId := quiet.nextId
  scanned := quiet.scanned
  temp := quiet.temp
  workers := by
    change Function.update changed.workers worker phase = _
    rw [quiet.workers]
  pending := pending
  knows := knows
  removed := by
    intro removal member
    change removal ∈ changed.removed at member
    rw [quiet.removed] at member
    exact .inl member
  unique := by
    change (changed.main.map NftRow.key).Nodup
    rw [quiet.main]
    exact invariant.keeps.unique

theorem Quiet.refl (world : FetcherWorld) : Quiet world world :=
  ⟨rfl, rfl, fun temp member => ⟨temp, member, rfl⟩, rfl, List.Subset.refl _,
    List.Subset.refl _, rfl, rfl⟩

theorem row_of_mem_map {temps : List TempRow} {change : TempRow → TempRow}
    (same : ∀ temp, (change temp).row = temp.row) :
    ∀ temp ∈ temps.map change, ∃ before ∈ temps, before.row = temp.row := by
  intro temp member
  rcases mem_map.mp member with ⟨before, inBefore, equal⟩
  exact ⟨before, inBefore, by rw [← equal, same]⟩

theorem Quiet.claimRows (worker : Nat) (pending : List PendingRow) :
    Quiet world (world.claimRows worker pending) := by
  refine { Quiet.refl world with temp := row_of_mem_map fun temp => ?_ }
  split <;> rfl

theorem Quiet.releaseTempClaims (worker : Nat) (pending : List PendingRow) :
    Quiet world (world.releaseTempClaims worker pending) := by
  refine { Quiet.refl world with temp := row_of_mem_map fun temp => ?_ }
  split <;> rfl

variable {locked : List Nat}

theorem mem_temp_of_mem_claimable (member : row ∈ world.claimable config locked) :
    ∃ temp ∈ world.temp, temp.row = row := by
  have sorted := mem_of_mem_take member
  rw [mem_insertionSort] at sorted
  rcases mem_map.mp sorted with ⟨temp, kept, same⟩
  exact ⟨temp, (mem_filter.mp kept).1, same⟩

theorem StepKeeps.claim {pending : List PendingRow} (invariant : PendingInvariant config world)
    (permuted : pending.isPerm (world.claimable config locked) = true) :
    StepKeeps config world ((world.claimRows worker pending).setPhase worker
      (if pending = [] then .idle else .fetching pending)) worker
        (if pending = [] then .idle else .fetching pending) := by
  apply StepKeeps.of_quiet invariant (.claimRows worker pending)
  · intro row member
    have isClaimed : row ∈ pending := by
      split at member
      · cases member
      · exact member
    have claimable := (isPerm_iff.mp permuted).subset isClaimed
    rcases mem_temp_of_mem_claimable claimable with ⟨temp, inTemp, same⟩
    exact same ▸ invariant.temp temp inTemp
  · split <;> trivial

theorem StepKeeps.release (pending : List PendingRow) (invariant : PendingInvariant config world) :
    StepKeeps config world ((world.releaseTempClaims worker pending).setPhase worker .idle)
      worker .idle :=
  .of_quiet invariant (.releaseTempClaims worker pending) (fun _ member => (nomatch member))
    trivial

section

variable (invariant : PendingInvariant config world)
include invariant

theorem StepKeeps.setPhase
    (pending : ∀ row ∈ phase.pending, row ∈ world.scanned) (knows : KnowsPhase config world phase) :
    StepKeeps config world (world.setPhase worker phase) worker phase := by
  refine .of_quiet invariant (.refl world) pending (knows.mono ?_)
  exact ⟨List.Subset.refl _, List.Subset.refl _, List.Subset.refl _, fun _ inMain => .inl inMain⟩

section

variable (pending : ∀ row ∈ batch.pending, row ∈ world.scanned)
include pending

theorem StepKeeps.reply :
    StepKeeps config world
      ({ world with answers := world.answers ++ batch.provided config }.setPhase worker
        (afterReply config batch)) worker (afterReply config batch) := by
  refine .of_quiet invariant
    { Quiet.refl world with answers := subset_append_left _ _ } ?_ ?_
  · unfold afterReply
    split <;> exact pending
  · unfold afterReply
    split <;> exact subset_append_right _ _

theorem StepKeeps.writeEnv {env : Option Text} {blacklisted : List Address} (knows : KnowsBatch config world batch) :
    StepKeeps config world
      ({ world with env := env, blacklisted := blacklisted }.setPhase worker (.loading batch))
        worker (.loading batch) :=
  .of_quiet invariant { Quiet.refl world with } pending knows

theorem StepKeeps.loadBlacklist (knows : KnowsBatch config world batch) :
    StepKeeps config world
      ({ world with listed := world.listed ++ world.effectiveBlacklist config batch }.setPhase
        worker (.sweeping batch (world.effectiveBlacklist config batch)))
      worker (.sweeping batch (world.effectiveBlacklist config batch)) := by
  refine .of_quiet invariant
    { Quiet.refl world with listed := subset_append_left _ _ } pending ?_
  refine ⟨knows, subset_append_right _ _, fun contract detected => ?_⟩
  exact mem_append_right _ (mem_map_of_mem detected)

end

end

variable {chosen : PendingRow → Bool}

theorem mem_removed_removeRows {removal : Removal}
    (member : removal ∈ (world.removeRows config batch chosen).removed) :
    removal ∈ world.removed ∨ (∃ temp ∈ world.temp, temp.row = removal.row) ∧
      chosen removal.row = true ∧
        (removal.requestFailed = true → removal.row ∈ batch.failedRows config) := by
  rcases mem_append.mp member with old | new
  · exact .inl old
  · rcases mem_map.mp new with ⟨row, isGone, equal⟩
    rcases mem_filter.mp isGone with ⟨inTemp, isChosen⟩
    rw [← equal]
    exact .inr ⟨mem_map.mp inTemp, isChosen, of_decide_eq_true⟩

/-- A step that deletes rows of the temp table, and perhaps rows of the main table. -/
theorem StepKeeps.of_removeRows {keep : NftRow → Bool} (invariant : PendingInvariant config world)
    (dropped : ∀ record ∈ world.main, keep record = false → world.IsListed record.contract)
    (pending : ∀ row ∈ phase.pending, row ∈ world.scanned) (knows : KnowsPhase config world phase)
    (reason : ∀ row ∈ world.scanned, chosen row = true →
      (world.IsListed row.contract ∨
        (world.InMain row.key ∨ world.IsListed row.contract ∨ world.WasRejected row) ∧
          row ∉ batch.failedRows config)) :
    StepKeeps config world
      ({ world.removeRows config batch chosen with main := world.main.filter keep }.setPhase
        worker phase) worker phase := by
  have grows : Extends world
      ({ world.removeRows config batch chosen with main := world.main.filter keep }.setPhase
        worker phase) := by
    refine ⟨List.Subset.refl _, List.Subset.refl _, List.Subset.refl _, fun key inMain => ?_⟩
    rcases mem_map.mp inMain with ⟨record, member, isKey⟩
    cases kept : keep record with
    | true => exact .inl (mem_map.mpr ⟨record, mem_filter.mpr ⟨member, kept⟩, isKey⟩)
    | false => exact .inr (isKey ▸ dropped record member kept)
  constructor
  · exact grows
  · rfl
  · rfl
  · exact fun temp member => ⟨temp, (mem_filter.mp member).1, rfl⟩
  · rfl
  · exact pending
  · exact knows.mono grows
  · intro removal member
    rcases mem_removed_removeRows member with old | new
    · exact .inl old
    · rcases new with ⟨⟨temp, inTemp, same⟩, isChosen, failed⟩
      have scanned : removal.row ∈ world.scanned := same ▸ invariant.temp temp inTemp
      rcases reason removal.row scanned isChosen with isListed | answered
      · exact .inr ⟨.inr (.inl (grows.listed isListed)), fun _ => grows.listed isListed⟩
      · exact .inr ⟨reason_mono grows answered.1, fun isFailed =>
          absurd (failed isFailed) answered.2⟩
  · exact invariant.keeps.unique.sublist (filter_sublist.map _)

theorem filter_true (rows : List NftRow) : rows.filter (fun _ => true) = rows :=
  filter_eq_self.mpr fun _ _ => rfl

section

variable (invariant : PendingInvariant config world)
include invariant

theorem StepKeeps.deleteTempNfts {rows : List PendingRow} (known : ∀ row ∈ rows, row ∈ world.scanned)
    (pending : ∀ row ∈ phase.pending, row ∈ world.scanned) (knows : KnowsPhase config world phase)
    (reason : ∀ row ∈ rows, world.IsListed row.contract ∨
      (world.InMain row.key ∨ world.IsListed row.contract ∨ world.WasRejected row) ∧
        row ∉ batch.failedRows config) :
    StepKeeps config world ((world.deleteTempNfts config batch rows).setPhase worker phase)
      worker phase := by
  have keeps : StepKeeps config world
      ({ world.removeRows config batch (hasId rows) with
        main := world.main.filter fun _ => true }.setPhase worker phase) worker phase := by
    refine .of_removeRows invariant (fun _ _ dropped => (nomatch dropped)) pending knows ?_
    intro row scanned isChosen
    rcases mem_map.mp (of_decide_eq_true isChosen) with ⟨other, inRows, same⟩
    exact invariant.row_eq (known other inRows) scanned same ▸ reason other inRows
  rw [filter_true] at keeps
  exact keeps

theorem StepKeeps.deleteContractNfts {skipped : List PendingRow}
    (pending : ∀ row ∈ batch.pending, row ∈ world.scanned)
    (knows : KnowsListed config world batch blacklist) :
    StepKeeps config world
      ((world.deleteContractNfts config batch skipped locked).setPhase worker
        (.inserting batch blacklist)) worker (.inserting batch blacklist) := by
  refine .of_removeRows invariant ?_ pending knows ?_
  · intro record member isDropped
    rw [Bool.not_eq_false', decide_eq_true_eq] at isDropped
    exact knows.listed (knows.detected _ isDropped)
  · intro row scanned isChosen
    rw [Bool.and_eq_true, Bool.and_eq_true, decide_eq_true_eq] at isChosen
    exact .inl (knows.listed (knows.detected _ isChosen.1.1))

theorem StepKeeps.batchInsertMain (pending : ∀ row ∈ batch.pending, row ∈ world.scanned)
    (knows : KnowsListed config world batch blacklist) :
    StepKeeps config world
      ((world.batchInsertMain (batch.keptInserts config blacklist)).setPhase worker
        (.deleting batch blacklist)) worker (.deleting batch blacklist) := by
  have grows : Extends world
      ((world.batchInsertMain (batch.keptInserts config blacklist)).setPhase worker
        (.deleting batch blacklist)) := by
    refine ⟨List.Subset.refl _, List.Subset.refl _, List.Subset.refl _, fun key inMain => ?_⟩
    rcases mem_map.mp inMain with ⟨record, member, isKey⟩
    exact .inl (mem_map.mpr ⟨record, mem_insertAll_of_mem _ member, isKey⟩)
  constructor
  · exact grows
  · rfl
  · rfl
  · exact fun temp member => ⟨temp, member, rfl⟩
  · rfl
  · exact pending
  · exact ⟨knows.mono grows, fun record member => .inl (key_mem_insertAll member)⟩
  · exact fun removal member => .inl member
  · exact nodup_insertAll invariant.keeps.unique _

end

/-! ## Every history -/

/-- The reasons of the rows that a worker deletes at the end of its batch. -/
theorem reason_of_answeredFor (knows : KnowsPhase config world (.deleting batch blacklist))
    (remains : row ∈ batch.remainingRows blacklist) (answered : AnsweredFor config batch row) :
    world.InMain row.key ∨ world.IsListed row.contract ∨ world.WasRejected row := by
  rcases answered.2 with ⟨answer, isMatched, isProvided⟩
  rcases Batch.rejected_or_mem_keptInserts isMatched knows.1.detected remains with
    rejected | inserted
  · exact .inr (.inr ⟨answer, knows.1.answers isProvided, rejected⟩)
  · rcases inserted with ⟨record, isKept, same⟩
    have contract : record.contract = row.contract := congrArg Prod.fst same
    rcases knows.2 record isKept with inMain | isListed
    · exact .inl (same ▸ inMain)
    · exact .inr (.inl (contract ▸ isListed))

theorem stepWorker_keeps {action : WorkerAction} (invariant : PendingInvariant config world)
    (isPhase : world.workers worker = phase)
    (meets : DeletesAnswered config world (.act worker action))
    (taken : world.stepWorker config worker phase action = some next) :
    PendingInvariant config next := by
  have pending := invariant.pending worker
  have knows := invariant.knows worker
  rw [isPhase] at pending knows
  unfold stepWorker at taken
  split at taken
  case h_1 =>
    split at taken
    · next permuted => exact (StepKeeps.claim invariant permuted).taken invariant taken
    · cases taken
  case h_2 =>
    dsimp only at taken
    split at taken
    · exact StepKeeps.taken (.reply invariant pending) invariant taken
    · cases taken
  case h_3 => exact (StepKeeps.release _ invariant).taken invariant taken
  case h_4 batch =>
    have keeps : StepKeeps config world _ worker (.writingEnv batch world.env) :=
      .setPhase invariant pending knows
    exact keeps.taken invariant taken
  case h_5 => exact (StepKeeps.writeEnv invariant pending knows).taken invariant taken
  case h_6 => exact (StepKeeps.loadBlacklist invariant pending knows).taken invariant taken
  case h_7 batch blacklist =>
    have keeps : StepKeeps config world
        ((world.deleteTempNfts config batch (batch.blacklistedRows blacklist)).setPhase worker
          (.cleaning batch blacklist)) worker (.cleaning batch blacklist) :=
      .deleteTempNfts invariant
        (fun row member => pending row (mem_filter.mp member).1) pending knows
        fun row member => .inl (knows.listed (of_decide_eq_true (mem_filter.mp member).2))
    exact keeps.taken invariant taken
  case h_8 => exact (StepKeeps.deleteContractNfts invariant pending knows).taken invariant taken
  case h_9 => exact (StepKeeps.batchInsertMain invariant pending knows).taken invariant taken
  case h_10 batch blacklist =>
    simp only [DeletesAnswered, isPhase] at meets
    have keeps : StepKeeps config world
        ((world.deleteTempNfts config batch (batch.remainingRows blacklist)).setPhase worker
          .idle) worker .idle :=
      .deleteTempNfts invariant
        (fun row member => pending row (mem_filter.mp member).1)
        (fun _ member => (nomatch member)) trivial
        fun row member => .inr ⟨reason_of_answeredFor knows member (meets row member),
          (meets row member).1⟩
    exact keeps.taken invariant taken
  case h_11 => exact (StepKeeps.release _ invariant).taken invariant taken
  case h_12 =>
    have keeps : StepKeeps config world _ worker .idle :=
      .setPhase invariant (fun _ member => (nomatch member)) trivial
    exact keeps.taken invariant taken
  case h_13 => cases taken

/-- A scan adds a row under a new id. -/
theorem insertTemp_keeps (contract : Address) (tokenId : Nat) (standard : TokenStandard)
    (firstSeenBlock : Int) (invariant : PendingInvariant config world) :
    PendingInvariant config (world.insertTemp contract tokenId standard firstSeenBlock) := by
  have grows : Extends world (world.insertTemp contract tokenId standard firstSeenBlock) :=
    ⟨subset_append_left _ _, List.Subset.refl _, List.Subset.refl _,
      fun _ inMain => .inl inMain⟩
  constructor
  · intro row member
    change row.id < world.nextId + 1
    rcases mem_append.mp member with old | new
    · have bound := invariant.fresh row old
      omega
    · rw [mem_singleton.mp new]
      exact Nat.lt_succ_self world.nextId
  · change ((world.scanned ++ [_]).map PendingRow.id).Nodup
    rw [map_append, nodup_append]
    refine ⟨invariant.ids, nodup_singleton _, ?_⟩
    intro left leftMember right rightMember same
    rcases mem_map.mp leftMember with ⟨row, member, isLeft⟩
    have bound := invariant.fresh row member
    rw [isLeft, same, mem_singleton.mp rightMember] at bound
    exact Nat.lt_irrefl _ bound
  · intro temp member
    rcases mem_of_mem_insertNew member with old | new
    · exact grows.scanned (invariant.temp temp old)
    · rw [new]
      exact mem_append_right _ (mem_singleton_self _)
  · exact fun worker row member => grows.scanned (invariant.pending worker row member)
  · exact fun worker => (invariant.knows worker).mono grows
  · exact ⟨invariant.keeps.reason, invariant.keeps.failedStays, invariant.keeps.unique⟩

theorem step_keeps {event : FetcherEvent} (invariant : PendingInvariant config world)
    (meets : DeletesAnswered config world event) (taken : world.step config event = some next) :
    PendingInvariant config next := by
  cases event with
  | scan contract tokenId standard firstSeenBlock =>
      exact Option.some.inj taken ▸
        insertTemp_keeps contract tokenId standard firstSeenBlock invariant
  | wait time =>
      have grows : Extends world { world with clock := world.clock + time } :=
        ⟨List.Subset.refl _, List.Subset.refl _, List.Subset.refl _, fun _ inMain => .inl inMain⟩
      exact Option.some.inj taken ▸ ⟨invariant.fresh, invariant.ids, invariant.temp,
        invariant.pending, fun worker => KnowsPhase.mono grows (invariant.knows worker),
        ⟨invariant.keeps.reason, invariant.keeps.failedStays, invariant.keeps.unique⟩⟩
  | act worker action => exact stepWorker_keeps invariant rfl meets taken

def smallConfig : FetcherConfig := ⟨10, 100, 100, [], fun _ _ => none⟩

def smallAddress : Address where
  text := "0xaa".toList
  isAddress := by
    refine ⟨['a', 'a'], rfl, fun digit member => ?_⟩
    have same : digit = 'a' := by simpa using member
    rw [same]
    exact .inr (.inr ⟨by decide, by decide⟩)
  lower := by decide

def smallRow : PendingRow := ⟨0, smallAddress, 7, .erc721, 5⟩

def smallEntry : AlchemyEntry := ⟨false, some "ipfs://7".toList, none, none, none, none⟩

def processOne (reply : ChunkReply) : List FetcherEvent :=
  [.scan smallAddress 7 .erc721 5, .act 0 (.claim [] [smallRow]), .act 0 (.reply [reply]),
    .act 0 .loadBlacklist, .act 0 .sweep, .act 0 (.clean []), .act 0 .insert]

end FetcherWorld

end NftData.Ethereum
