import NftData.Ethereum.MetadataFetcherPending

namespace NftData.Ethereum

/-! # Blacklisted contracts

A worker that finds a contract with images on the chain adds it to the file, and deletes its
rows. Other workers may hold an older copy of the file, or rows of the contract. -/

open List

namespace FetcherWorld

variable (config : FetcherConfig)

/-- The contracts that a worker has written to the file, and whose rows it has not deleted
yet. -/
def uncleaned : WorkerPhase → List Address
  | .loading batch => batch.onchainImageContracts config
  | .sweeping batch _ => batch.onchainImageContracts config
  | .cleaning batch _ => batch.onchainImageContracts config
  | _ => []

def Uncleaned (world : FetcherWorld) (contract : Address) : Prop :=
  ∃ worker, contract ∈ uncleaned config (world.workers worker)

def Idle (world : FetcherWorld) : Prop := ∀ worker, world.workers worker = .idle

/-- Every address that a worker blacklisted is in the file, and has no row in the main
table. -/
def BlacklistComplete (world : FetcherWorld) : Prop :=
  ∀ contract ∈ world.blacklisted, contract.text ∈ readBlacklist world.env ∧
    ∀ row ∈ world.main, row.contract ≠ contract

def WritesBack (world : FetcherWorld) (batch : Batch) (content : Option Text) : Prop :=
  HasRoom content ∧ ∀ contract ∈ world.blacklisted,
    contract.text ∈ readBlacklist content ∨ contract ∈ batch.onchainImageContracts config

/-- When a worker writes the file, what it has read holds every blacklisted address but its
own. When it inserts rows, none is of a contract that was blacklisted and cleaned in the
meantime. Between writing the file and cleaning the tables no worker ends. -/
def KeepsBlacklist (world : FetcherWorld) (event : FetcherEvent) : Prop :=
  match event with
  | .act worker .writeEnv =>
      match world.workers worker with
      | .writingEnv batch content => world.WritesBack config batch content
      | _ => True
  | .act worker .insert =>
      match world.workers worker with
      | .inserting batch blacklist => ∀ row ∈ batch.keptInserts config blacklist,
          row.contract ∈ world.blacklisted → world.Uncleaned config row.contract
      | _ => True
  | .act worker .stop => uncleaned config (world.workers worker) = []
  | .act worker .crash => uncleaned config (world.workers worker) = []
  | _ => True

structure BlacklistInvariant (world : FetcherWorld) : Prop where
  inFile : ∀ contract ∈ world.blacklisted, contract.text ∈ readBlacklist world.env
  cleaned : ∀ contract ∈ world.blacklisted, world.Uncleaned config contract ∨
    ∀ row ∈ world.main, row.contract ≠ contract

variable {config} {world changed next : FetcherWorld} {worker : Nat}
  {before phase : WorkerPhase}

theorem BlacklistInvariant.initial (env : Option Text) :
    BlacklistInvariant config (.initial env) :=
  ⟨fun _ member => (nomatch member), fun _ member => (nomatch member)⟩

theorem Uncleaned.setPhase {contract : Address} (workers : changed.workers = world.workers)
    (isPhase : world.workers worker = before)
    (keeps : uncleaned config before ⊆ uncleaned config phase)
    (isUncleaned : world.Uncleaned config contract) :
    (changed.setPhase worker phase).Uncleaned config contract := by
  rcases isUncleaned with ⟨other, member⟩
  refine ⟨other, ?_⟩
  change contract ∈ uncleaned config (Function.update changed.workers worker phase other)
  rw [workers]
  by_cases same : other = worker
  · rw [same, Function.update_self]
    rw [same, isPhase] at member
    exact keeps member
  · rw [Function.update_of_ne same]
    exact member

theorem BlacklistInvariant.setPhase (invariant : BlacklistInvariant config world)
    (env : changed.env = world.env) (blacklisted : changed.blacklisted = world.blacklisted)
    (main : changed.main ⊆ world.main) (workers : changed.workers = world.workers)
    (isPhase : world.workers worker = before)
    (keeps : uncleaned config before ⊆ uncleaned config phase) :
    BlacklistInvariant config (changed.setPhase worker phase) := by
  constructor
  · intro contract member
    change contract.text ∈ readBlacklist changed.env
    rw [env]
    exact invariant.inFile contract (blacklisted ▸ member)
  · intro contract member
    rcases invariant.cleaned contract (blacklisted ▸ member) with isUncleaned | absent
    · exact .inl (isUncleaned.setPhase workers isPhase keeps)
    · exact .inr fun row inMain => absent row (main inMain)

/-! ## Steps -/

variable {batch : Batch}

section

variable (invariant : BlacklistInvariant config world)
include invariant

theorem BlacklistInvariant.writeEnv {content : Option Text}
    (isPhase : world.workers worker = .writingEnv batch content)
    (writesBack : world.WritesBack config batch content) :
    BlacklistInvariant config
      ({ world with
        env := appendBlacklistEnv (newlyBlacklisted config batch) content
        blacklisted := world.blacklisted ++ batch.onchainImageContracts config }.setPhase worker
          (.loading batch)) := by
  have valid : ∀ address ∈ newlyBlacklisted config batch, IsAddress address := by
    intro address member
    rcases mem_map.mp member with ⟨contract, _, isText⟩
    exact isText ▸ contract.isAddress
  have keeps := (appendKeeps_iff valid).mpr (.inr writesBack.1)
  have written : ∀ contract ∈ batch.onchainImageContracts config,
      contract.text ∈ (newlyBlacklisted config batch).map Text.toAsciiLowercase := by
    intro contract member
    rw [← contract.lower]
    exact mem_map_of_mem (mem_map_of_mem member)
  constructor
  · intro contract member
    refine (keeps.readBack contract.text).mpr ?_
    rcases mem_append.mp member with old | new
    · exact (writesBack.2 contract old).imp_right (written contract)
    · exact .inr (written contract new)
  · intro contract member
    rcases mem_append.mp member with old | new
    · rcases invariant.cleaned contract old with isUncleaned | absent
      · exact .inl (isUncleaned.setPhase rfl isPhase (nil_subset _))
      · exact .inr absent
    · refine .inl ⟨worker, ?_⟩
      change contract ∈ uncleaned config (Function.update world.workers worker _ worker)
      rw [Function.update_self]
      exact new

variable {blacklist : List Text}

theorem BlacklistInvariant.deleteContractNfts {skipped : List PendingRow} {locked : List Nat}
    (isPhase : world.workers worker = .cleaning batch blacklist) :
    BlacklistInvariant config
      ((world.deleteContractNfts config batch skipped locked).setPhase worker
        (.inserting batch blacklist)) := by
  constructor
  · exact invariant.inFile
  · intro contract member
    by_cases own : contract ∈ batch.onchainImageContracts config
    · refine .inr fun row inMain isContract => ?_
      have kept := (mem_filter.mp inMain).2
      rw [isContract] at kept
      simp [own] at kept
    · rcases invariant.cleaned contract member with isUncleaned | absent
      · rcases isUncleaned with ⟨other, inOther⟩
        refine .inl ⟨other, ?_⟩
        have different : other ≠ worker := by
          intro same
          rw [same, isPhase] at inOther
          exact own inOther
        change contract ∈ uncleaned config (Function.update world.workers worker _ other)
        rw [Function.update_of_ne different]
        exact inOther
      · exact .inr fun row inMain => absent row (mem_filter.mp inMain).1

theorem BlacklistInvariant.batchInsertMain
    (isPhase : world.workers worker = .inserting batch blacklist)
    (unlisted : ∀ row ∈ batch.keptInserts config blacklist,
      row.contract ∈ world.blacklisted → world.Uncleaned config row.contract) :
    BlacklistInvariant config
      ((world.batchInsertMain (batch.keptInserts config blacklist)).setPhase worker
        (.deleting batch blacklist)) := by
  have moves : ∀ contract, world.Uncleaned config contract →
      ((world.batchInsertMain (batch.keptInserts config blacklist)).setPhase worker
        (.deleting batch blacklist)).Uncleaned config contract := by
    intro contract isUncleaned
    exact isUncleaned.setPhase rfl isPhase (nil_subset _)
  constructor
  · exact invariant.inFile
  · intro contract member
    rcases invariant.cleaned contract member with isUncleaned | absent
    · exact .inl (moves contract isUncleaned)
    · rw [or_iff_not_imp_left]
      intro isCleaned row inMain isContract
      rcases mem_of_mem_insertAll inMain with old | new
      · exact absent row old isContract
      · have listed : row.contract ∈ world.blacklisted := isContract ▸ member
        exact isCleaned (isContract ▸ moves _ (unlisted row new listed))

theorem stepWorker_keepsBlacklist {action : WorkerAction} (isPhase : world.workers worker = phase)
    (meets : KeepsBlacklist config world (.act worker action))
    (taken : world.stepWorker config worker phase action = some next) :
    BlacklistInvariant config next := by
  -- most steps leave the file alone, add no row to the main table and keep what is to be cleaned
  have moves : ∀ {changed : FetcherWorld} {after : WorkerPhase},
      some (changed.setPhase worker after) = some next → changed.env = world.env →
      changed.blacklisted = world.blacklisted → changed.main = world.main →
      changed.workers = world.workers → uncleaned config phase ⊆ uncleaned config after →
      BlacklistInvariant config next := by
    intro changed after isNext env blacklisted main workers keeps
    rw [← Option.some.inj isNext]
    exact invariant.setPhase env blacklisted (main ▸ List.Subset.refl _) workers isPhase keeps
  unfold stepWorker at taken
  split at taken
  case h_1 =>
    split at taken
    · exact moves taken rfl rfl rfl rfl (nil_subset _)
    · cases taken
  case h_2 =>
    dsimp only at taken
    split at taken
    · exact moves taken rfl rfl rfl rfl (nil_subset _)
    · cases taken
  case h_3 => exact moves taken rfl rfl rfl rfl (nil_subset _)
  case h_4 => exact moves taken rfl rfl rfl rfl (nil_subset _)
  case h_5 =>
    simp only [KeepsBlacklist, isPhase] at meets
    exact Option.some.inj taken ▸ invariant.writeEnv isPhase meets
  case h_6 => exact moves taken rfl rfl rfl rfl (List.Subset.refl _)
  case h_7 => exact moves taken rfl rfl rfl rfl (List.Subset.refl _)
  case h_8 => exact Option.some.inj taken ▸ invariant.deleteContractNfts isPhase
  case h_9 =>
    simp only [KeepsBlacklist, isPhase] at meets
    exact Option.some.inj taken ▸ invariant.batchInsertMain isPhase meets
  case h_10 => exact moves taken rfl rfl rfl rfl (nil_subset _)
  case h_11 =>
    rw [KeepsBlacklist, isPhase] at meets
    exact moves taken rfl rfl rfl rfl (meets ▸ nil_subset _)
  case h_12 =>
    rw [KeepsBlacklist, isPhase] at meets
    exact moves taken rfl rfl rfl rfl (meets ▸ nil_subset _)
  case h_13 => cases taken

theorem step_keepsBlacklist {event : FetcherEvent} (meets : KeepsBlacklist config world event)
    (taken : world.step config event = some next) : BlacklistInvariant config next := by
  cases event with
  | scan | wait => exact Option.some.inj taken ▸ ⟨invariant.inFile, invariant.cleaned⟩
  | act worker action => exact stepWorker_keepsBlacklist invariant rfl meets taken

theorem BlacklistInvariant.complete (idle : world.Idle) : world.BlacklistComplete := by
  intro contract member
  refine ⟨invariant.inFile contract member, ?_⟩
  rcases invariant.cleaned contract member with isUncleaned | absent
  · rcases isUncleaned with ⟨worker, inWorker⟩
    rw [idle worker] at inWorker
    cases inWorker
  · exact absent

end

/-- An append keeps its promise exactly if the blacklist has a line of its own, and a history
whose steps keep the blacklist ends with the blacklist complete. -/
theorem blacklisting_complete (config : FetcherConfig) :
    (∀ newAddresses file, (∀ address ∈ newAddresses, IsAddress address) →
      (AppendKeeps newAddresses file ↔ newAddresses = [] ∨ HasRoom file)) ∧
    ∀ env world, Reaches (step config) (KeepsBlacklist config) (.initial env) world →
      world.Idle → world.BlacklistComplete := by
  constructor
  · exact fun newAddresses file valid => appendKeeps_iff valid
  · intro env world reached idle
    have invariant := reached.invariant (BlacklistInvariant config) (.initial env)
      fun _ _ _ invariant => step_keepsBlacklist invariant
    exact invariant.complete idle

/-! ### One worker, and two at once -/

def dataImageEntry : AlchemyEntry :=
  ⟨false, some "ipfs://7".toList, some "data:image/svg".toList, some .null, none, none⟩

def blacklistOne : List FetcherEvent :=
  [.scan smallAddress 7 .erc721 5, .act 0 (.claim [] [smallRow]),
    .act 0 (.reply [.answered [dataImageEntry]]), .act 0 .readEnv, .act 0 .writeEnv,
    .act 0 .loadBlacklist, .act 0 .sweep, .act 0 (.clean []), .act 0 .insert, .act 0 .delete]

theorem hasRoom_oneLine : HasRoom (some "A=1\n".toList) := by
  refine .inl fun line member => ?_
  have same : line = "A=1\n".toList := mem_singleton.mp member
  rw [same]
  exact ⟨"A=1".toList, by decide, rfl⟩

theorem not_hasRoom_unterminated : ¬ HasRoom (some "A=1".toList) := by
  have lines : readLines (some "A=1".toList) = ["A=1".toList] := by decide
  intro room
  rw [HasRoom, lines] at room
  rcases room with terminated | known
  · rcases terminated _ mem_cons_self with ⟨body, _, equal⟩
    have last := congrArg List.getLast? equal
    simp at last
  · rcases known with ⟨line, member, isKey⟩
    rw [mem_singleton.mp member] at isKey
    revert isKey
    decide

theorem allMeet_blacklistOne :
    AllMeet (step smallConfig) (KeepsBlacklist smallConfig) (.initial (some "A=1\n".toList))
      blacklistOne := by
  apply AllMeet.cons trivial rfl
  apply AllMeet.cons trivial rfl
  apply AllMeet.cons trivial rfl
  apply AllMeet.cons trivial rfl
  apply AllMeet.cons ⟨hasRoom_oneLine, fun _ member => (nomatch member)⟩ rfl
  apply AllMeet.cons trivial rfl
  apply AllMeet.cons trivial rfl
  apply AllMeet.cons trivial rfl
  apply AllMeet.cons (fun _ member => (nomatch member)) rfl
  exact AllMeet.cons trivial rfl trivial

theorem blacklisting_complete_blacklistOne :
    AppendKeeps ["0xAa".toList] (some "A=1\n".toList) ∧
      ∃ world, Reaches (step smallConfig) (KeepsBlacklist smallConfig)
          (.initial (some "A=1\n".toList)) world ∧
        world.blacklisted = [smallAddress] ∧ world.BlacklistComplete := by
  constructor
  · refine ((blacklisting_complete smallConfig).1 _ _ fun address member => ?_).mpr
      (.inr hasRoom_oneLine)
    rw [mem_singleton.mp member]
    refine ⟨['A', 'a'], rfl, fun digit inDigits => ?_⟩
    rcases mem_pair.mp inDigits with isUpper | isLower
    · exact .inr (.inl ⟨by rw [isUpper]; decide, by rw [isUpper]; decide⟩)
    · exact .inr (.inr ⟨by rw [isLower]; decide, by rw [isLower]; decide⟩)
  · have ran : ∃ world,
        blacklistOne.foldlM (step smallConfig) (.initial (some "A=1\n".toList)) = some world ∧
          world.Idle ∧ world.blacklisted = [smallAddress] :=
      ⟨_, rfl, fun | 0 => rfl | _ + 1 => rfl, rfl⟩
    rcases ran with ⟨world, ran, idle, blacklisted⟩
    have reached := Reaches.of_allMeet blacklistOne allMeet_blacklistOne .start ran
    exact ⟨world, reached, blacklisted, (blacklisting_complete smallConfig).2 _ _ reached idle⟩

def singleConfig : FetcherConfig := { smallConfig with claimBatchSize := 1 }

def otherAddress : Address where
  text := "0xbb".toList
  isAddress := by
    refine ⟨['b', 'b'], rfl, fun digit member => ?_⟩
    have same : digit = 'b' := by simpa using member
    rw [same]
    exact .inr (.inr ⟨by decide, by decide⟩)
  lower := by decide

def otherRow : PendingRow := ⟨1, otherAddress, 8, .erc721, 5⟩

/-- Two workers find a contract each, and both read the file before either writes it. -/
def blacklistTwo : List FetcherEvent :=
  [.scan smallAddress 7 .erc721 5, .scan otherAddress 8 .erc721 5,
    .act 0 (.claim [] [smallRow]), .act 1 (.claim [] [otherRow]),
    .act 0 (.reply [.answered [dataImageEntry]]), .act 1 (.reply [.answered [dataImageEntry]]),
    .act 0 .readEnv, .act 1 .readEnv, .act 0 .writeEnv, .act 1 .writeEnv,
    .act 0 .loadBlacklist, .act 0 .sweep, .act 0 (.clean []), .act 0 .insert, .act 0 .delete,
    .act 1 .loadBlacklist, .act 1 .sweep, .act 1 (.clean []), .act 1 .insert, .act 1 .delete]

/-- An address is lost where the last line of the file is incomplete, and where two workers
write the file at once. -/
theorem not_blacklisting_complete :
    ¬ AppendKeeps ["0xaa".toList] (some "A=1".toList) ∧
      ∃ world, Reaches (step singleConfig) (fun _ _ => True) (.initial none) world ∧
        world.Idle ∧ ¬ world.BlacklistComplete := by
  constructor
  · intro keeps
    have condition := (appendKeeps_iff fun address member =>
      mem_singleton.mp member ▸ smallAddress.isAddress).mp keeps
    exact not_hasRoom_unterminated (condition.resolve_left (cons_ne_nil _ _))
  · have ran : ∃ world,
        blacklistTwo.foldlM (step singleConfig) (.initial none) = some world ∧
          world.Idle ∧ world.blacklisted = [smallAddress, otherAddress] ∧
            world.env = some "DEFI_BLACKLIST=0xbb\n".toList :=
      ⟨_, rfl, fun | 0 => rfl | 1 => rfl | _ + 2 => rfl, rfl, rfl⟩
    rcases ran with ⟨world, ran, idle, blacklisted, env⟩
    refine ⟨world, .of_foldlM _ (fun _ _ _ => trivial) .start ran, idle, fun complete => ?_⟩
    have inFile := (complete smallAddress (by simp [blacklisted])).1
    rw [env] at inFile
    revert inFile
    decide

end FetcherWorld

end NftData.Ethereum
