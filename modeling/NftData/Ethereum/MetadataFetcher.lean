import NftData.Ethereum.MetadataBatch
import NftData.Foundation.KeyedRows
import NftData.Foundation.Machine

namespace NftData.Ethereum

/-! # Metadata fetchers

Any number of workers take rows of the temp table and turn them into rows of the main table.
Every step below is one transaction, or one access to the environment file. -/

/-- `claimed_at` and `claimed_by`. -/
structure Claim where
  time : Nat
  worker : Nat
  deriving DecidableEq

structure TempRow where
  row : PendingRow
  claim : Option Claim
  deriving DecidableEq

def TempRow.key (temp : TempRow) : Address × Nat := temp.row.key

/-- Where a worker stands in its loop. -/
inductive WorkerPhase where
  | idle
  | fetching (pending : List PendingRow)
  /-- New contracts for the blacklist were found: read the file, then write it. -/
  | readingEnv (batch : Batch)
  | writingEnv (batch : Batch) (content : Option Text)
  | loading (batch : Batch)
  | sweeping (batch : Batch) (blacklist : List Text)
  | cleaning (batch : Batch) (blacklist : List Text)
  | inserting (batch : Batch) (blacklist : List Text)
  | deleting (batch : Batch) (blacklist : List Text)

def WorkerPhase.pending : WorkerPhase → List PendingRow
  | .idle => []
  | .fetching pending => pending
  | .readingEnv batch => batch.pending
  | .writingEnv batch _ => batch.pending
  | .loading batch => batch.pending
  | .sweeping batch _ => batch.pending
  | .cleaning batch _ => batch.pending
  | .inserting batch _ => batch.pending
  | .deleting batch _ => batch.pending

/-- A row that was deleted from the temp table, and whether the request for it had failed. -/
structure Removal where
  row : PendingRow
  requestFailed : Bool

/-- The tables, the environment file and the workers. The last fields remember every row of
the temp table, every deletion from it, every entry of a reply, every address a worker acted
on as blacklisted, and every address a worker wrote to the file. -/
structure FetcherWorld where
  clock : Nat
  nextId : Nat
  temp : List TempRow
  main : List NftRow
  env : Option Text
  workers : Nat → WorkerPhase
  scanned : List PendingRow
  removed : List Removal
  answers : List (PendingRow × TokenAnswer)
  listed : List Text
  blacklisted : List Address

def FetcherWorld.initial (env : Option Text) : FetcherWorld where
  clock := 0
  nextId := 0
  temp := []
  main := []
  env := env
  workers := fun _ => .idle
  scanned := []
  removed := []
  answers := []
  listed := []
  blacklisted := []

inductive WorkerAction where
  /-- Claim rows that no other transaction has locked. They come back in any order. -/
  | claim (locked : List Nat) (pending : List PendingRow)
  | reply (replies : List ChunkReply)
  /-- An exception ends the batch. -/
  | failBatch
  | readEnv
  | writeEnv
  | loadBlacklist
  | sweep
  | clean (locked : List Nat)
  | insert
  | delete
  /-- The worker ends, and gives its rows back. -/
  | stop
  /-- The process dies. -/
  | crash

inductive FetcherEvent where
  /-- The scanner stores an NFT. -/
  | scan (contract : Address) (tokenId : Nat) (standard : TokenStandard)
      (firstSeenBlock : Int)
  | wait (time : Nat)
  | act (worker : Nat) (action : WorkerAction)

namespace FetcherWorld

variable (config : FetcherConfig)

def setPhase (world : FetcherWorld) (worker : Nat) (phase : WorkerPhase) : FetcherWorld :=
  { world with workers := Function.update world.workers worker phase }

/-- `batch_insert_temp` of one record. -/
def insertTemp (world : FetcherWorld) (contract : Address) (tokenId : Nat)
    (standard : TokenStandard) (firstSeenBlock : Int) : FetcherWorld :=
  let row : PendingRow := ⟨world.nextId, contract, tokenId, standard, firstSeenBlock⟩
  { world with
    nextId := world.nextId + 1
    temp := insertNew TempRow.key world.temp ⟨row, none⟩
    scanned := world.scanned ++ [row] }

/-- `claimed_at IS NULL OR claimed_at < NOW() - interval`. -/
def isFree (clock : Nat) (temp : TempRow) : Bool :=
  temp.claim.all fun claim => claim.time + config.reclaimAfter < clock

/-- The rows that `claim_pending_nfts` takes. -/
def claimable (world : FetcherWorld) (locked : List Nat) : List PendingRow :=
  let free := world.temp.filter fun temp =>
    isFree config world.clock temp && !locked.contains temp.row.id
  ((free.map TempRow.row).insertionSort fun left right => left.id ≤ right.id).take
    config.claimBatchSize

def claimRows (world : FetcherWorld) (worker : Nat) (pending : List PendingRow) :
    FetcherWorld :=
  { world with
    temp := world.temp.map fun temp =>
      if temp.row.id ∈ pending.map PendingRow.id then
        { temp with claim := some ⟨world.clock, worker⟩ }
      else
        temp }

def releaseTempClaims (world : FetcherWorld) (worker : Nat) (pending : List PendingRow) :
    FetcherWorld :=
  { world with
    temp := world.temp.map fun temp =>
      if temp.row.id ∈ pending.map PendingRow.id ∧
          temp.claim.map Claim.worker = some worker then
        { temp with claim := none }
      else
        temp }

def removeRows (world : FetcherWorld) (batch : Batch) (chosen : PendingRow → Bool) :
    FetcherWorld :=
  let gone := (world.temp.map TempRow.row).filter chosen
  { world with
    temp := world.temp.filter fun temp => !chosen temp.row
    removed := world.removed ++
      gone.map fun row => ⟨row, decide (row ∈ batch.failedRows config)⟩ }

def hasId (rows : List PendingRow) (row : PendingRow) : Bool :=
  decide (row.id ∈ rows.map PendingRow.id)

def deleteTempNfts (world : FetcherWorld) (batch : Batch) (rows : List PendingRow) :
    FetcherWorld :=
  world.removeRows config batch (hasId rows)

/-- `delete_contract_nfts`: rows of the temp table that others have locked are left. -/
def deleteContractNfts (world : FetcherWorld) (batch : Batch) (skipped : List PendingRow)
    (locked : List Nat) : FetcherWorld :=
  let contracts := batch.onchainImageContracts config
  let cleaned := world.removeRows config batch fun row =>
    decide (row.contract ∈ contracts) && !hasId skipped row && !locked.contains row.id
  { cleaned with main := world.main.filter fun row => !decide (row.contract ∈ contracts) }

def batchInsertMain (world : FetcherWorld) (records : List NftRow) : FetcherWorld :=
  { world with main := insertAll NftRow.key world.main records }

def effectiveBlacklist (world : FetcherWorld) (batch : Batch) : List Text :=
  loadBlacklist config.blacklistVariable world.env ++
    (batch.onchainImageContracts config).map Address.text

def newlyBlacklisted (batch : Batch) : List Text :=
  (batch.onchainImageContracts config).map Address.text

def afterReply (batch : Batch) : WorkerPhase :=
  if batch.onchainImageContracts config = [] then .loading batch else .readingEnv batch

def stepWorker (world : FetcherWorld) (worker : Nat) :
    WorkerPhase → WorkerAction → Option FetcherWorld
  | .idle, .claim locked pending =>
      if pending.isPerm (world.claimable config locked) then
        some ((world.claimRows worker pending).setPhase worker
          (if pending = [] then .idle else .fetching pending))
      else
        none
  | .fetching pending, .reply replies =>
      let batch : Batch := ⟨pending, replies⟩
      if batch.Complete config then
        some ({ world with answers := world.answers ++ batch.provided config }.setPhase worker
          (afterReply config batch))
      else
        none
  | .fetching pending, .failBatch =>
      some ((world.releaseTempClaims worker pending).setPhase worker .idle)
  | .readingEnv batch, .readEnv => some (world.setPhase worker (.writingEnv batch world.env))
  | .writingEnv batch content, .writeEnv =>
      some ({ world with
        env := appendBlacklistEnv (newlyBlacklisted config batch) content
        blacklisted := world.blacklisted ++ batch.onchainImageContracts config }.setPhase worker
          (.loading batch))
  | .loading batch, .loadBlacklist =>
      let blacklist := world.effectiveBlacklist config batch
      some ({ world with listed := world.listed ++ blacklist }.setPhase worker
        (.sweeping batch blacklist))
  | .sweeping batch blacklist, .sweep =>
      some ((world.deleteTempNfts config batch (batch.blacklistedRows blacklist)).setPhase worker
        (.cleaning batch blacklist))
  | .cleaning batch blacklist, .clean locked =>
      some ((world.deleteContractNfts config batch (batch.blacklistedRows blacklist)
        locked).setPhase worker (.inserting batch blacklist))
  | .inserting batch blacklist, .insert =>
      some ((world.batchInsertMain (batch.keptInserts config blacklist)).setPhase worker
        (.deleting batch blacklist))
  | .deleting batch blacklist, .delete =>
      some ((world.deleteTempNfts config batch (batch.remainingRows blacklist)).setPhase worker
        .idle)
  | phase, .stop => some ((world.releaseTempClaims worker phase.pending).setPhase worker .idle)
  | _, .crash => some (world.setPhase worker .idle)
  | _, _ => none

def step (world : FetcherWorld) : FetcherEvent → Option FetcherWorld
  | .scan contract tokenId standard firstSeenBlock =>
      some (world.insertTemp contract tokenId standard firstSeenBlock)
  | .wait time => some { world with clock := world.clock + time }
  | .act worker action => world.stepWorker config worker (world.workers worker) action

end FetcherWorld

end NftData.Ethereum
