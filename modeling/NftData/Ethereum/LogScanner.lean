import NftData.Ethereum.Logs
import NftData.Foundation.KeyedRows
import NftData.Foundation.Machine

namespace NftData.Ethereum

/-! # Log scanner

The scanner walks down the chain in batches of blocks. Requests for later batches are in
flight while a batch is stored, and the lowest stored block is where the next run goes on. -/

/-- What one `eth_getLogs` request comes to. -/
inductive LogsOutcome where
  /-- Transport error, timeout, HTTP status or undecodable body. -/
  | failed
  | rpcError
  /-- A body without a `result`. -/
  | noResult
  | answered
  deriving DecidableEq, Repr

abbrev BatchOutcome := Bytes → LogsOutcome

def inRange (log : Log) (fromBlock toBlock : Int) : Bool :=
  decide (fromBlock ≤ log.blockNumber) && decide (log.blockNumber ≤ toBlock)

def topicLogs (chain : List Log) (topic : Bytes) (fromBlock toBlock : Int) : List Log :=
  chain.filter fun log => log.topics.head? == some topic && inRange log fromBlock toBlock

/-- `_fetch_logs_one_topic_http`: whatever goes wrong, the result is a list of logs. -/
def fetchLogsOneTopic (chain : List Log) (topic : Bytes) (fromBlock toBlock : Int) :
    LogsOutcome → List Log
  | .answered => topicLogs chain topic fromBlock toBlock
  | .failed => []
  | .rpcError => []
  | .noResult => []

def fetchLogs (chain : List Log) (outcome : BatchOutcome) (fromBlock toBlock : Int) :
    List Log :=
  allTopics.flatMap fun topic => fetchLogsOneTopic chain topic fromBlock toBlock (outcome topic)

structure TempRecord where
  contract : Text
  tokenId : Nat
  standard : TokenStandard
  firstSeenBlock : Int
  deriving DecidableEq

def TempRecord.key (record : TempRecord) : NftKey := (record.contract, record.tokenId)

structure ScannerConfig where
  startBlock : Int
  endBlock : Int
  batchSize : Int
  scanWindow : Nat
  deriving DecidableEq

/-- A first scan begins at the configured block, or at the latest one. -/
def ScannerConfig.topBlock (config : ScannerConfig) (latestBlock : Int) : Int :=
  if 0 < config.endBlock then config.endBlock else latestBlock

inductive ScanPhase where
  /-- The first requests are being sent, as many as the window holds. -/
  | filling (remaining : Nat)
  | idle
  | fetching (fromBlock toBlock : Int)
  | inserting (records : List TempRecord) (fromBlock toBlock : Int) (outcome : BatchOutcome)
  | saving (fromBlock toBlock : Int) (outcome : BatchOutcome)

/-- One run of `main`. -/
structure ScanRun where
  stopBlock : Int
  batchSize : Int
  blacklist : Finset Text
  seen : Finset NftKey
  /-- The block at which the run began. -/
  firstBlock : Int
  curBlock : Int
  window : List (Int × Int)
  stopRequested : Bool
  phase : ScanPhase

/-- The database, and the run of the scanner if there is one. `recorded`, `blacklisted` and
`top` remember what was ever in a table, what was ever on the blacklist and where the first
stored batch began. -/
structure ScannerWorld where
  temp : List TempRecord
  main : Finset NftKey
  progress : Option Int
  run : Option ScanRun
  recorded : Finset NftKey
  blacklisted : Finset Text
  top : Option Int

def tempKeys (temp : List TempRecord) : Finset NftKey := (temp.map TempRecord.key).toFinset

def loadSeenNfts (world : ScannerWorld) : Finset NftKey := world.main ∪ tempKeys world.temp

def ScannerWorld.initial (temp : List TempRecord) (main : Finset NftKey) : ScannerWorld where
  temp := temp
  main := main
  progress := none
  run := none
  recorded := main ∪ tempKeys temp
  blacklisted := ∅
  top := none

namespace ScanRun

def nextRange (run : ScanRun) : Option (Int × Int) :=
  if run.curBlock < run.stopBlock then
    none
  else
    some (max (run.curBlock - run.batchSize + 1) run.stopBlock, run.curBlock)

/-- Send the request of the next range, if there is one and no stop was requested. -/
def enqueue (run : ScanRun) : Option ScanRun :=
  if run.stopRequested then
    none
  else
    run.nextRange.map fun range =>
      { run with
        curBlock := range.1 - 1
        window := run.window ++ [range] }

def extractRecord (state : Finset NftKey × List TempRecord) (blacklist : Finset Text)
    (block : Int) (nft : FoundNft) : Finset NftKey × List TempRecord :=
  if nft.key ∈ state.1 then
    state
  else if nft.contract ∈ blacklist then
    state
  else
    (insert nft.key state.1,
      state.2 ++ [⟨nft.contract, nft.tokenId, nft.standard, block⟩])

def extractLog (blacklist : Finset Text) (state : Finset NftKey × List TempRecord)
    (log : Log) : Finset NftKey × List TempRecord :=
  (extractNfts log).foldl (fun state nft => extractRecord state blacklist log.blockNumber nft)
    state

def extractRecords (run : ScanRun) (logs : List Log) : Finset NftKey × List TempRecord :=
  logs.foldl (extractLog run.blacklist) (run.seen, [])

end ScanRun

/-! ## Steps -/

inductive ScannerEvent where
  /-- Other programs write the tables. -/
  | others (temp : List TempRecord) (main : Finset NftKey)
  | start (config : ScannerConfig) (latestBlock : Int) (blacklist : Finset Text)
  | requestStop
  | fill
  | pop
  | fetched (outcome : BatchOutcome)
  | insert
  | save
  | finish
  /-- The process dies, or an exception leaves `main`. -/
  | crash

namespace ScannerWorld

def resumeBlock (world : ScannerWorld) (topBlock : Int) : Int :=
  match world.progress with
  | some lastSaved => lastSaved - 1
  | none => topBlock

/-- A new run, or none when there is nothing to scan. -/
def startRun (world : ScannerWorld) (config : ScannerConfig) (latestBlock : Int)
    (blacklist : Finset Text) : Option ScanRun :=
  let stopBlock := max config.startBlock 0
  let curBlock := world.resumeBlock (config.topBlock latestBlock)
  if curBlock < stopBlock then
    none
  else
    some {
      stopBlock := stopBlock
      batchSize := config.batchSize
      blacklist := blacklist
      seen := loadSeenNfts world
      firstBlock := curBlock
      curBlock := curBlock
      window := []
      stopRequested := false
      phase := .filling config.scanWindow }

/-- One step of the run. -/
def stepRun (chain : List Log) (world : ScannerWorld) (run : ScanRun) :
    ScannerEvent → Option ScannerWorld
  | .requestStop => some { world with run := some { run with stopRequested := true } }
  | .fill =>
      match run.phase with
      | .filling 0 => some { world with run := some { run with phase := .idle } }
      | .filling (remaining + 1) =>
          match run.enqueue with
          | some sent => some { world with run := some { sent with phase := .filling remaining } }
          | none => some { world with run := some { run with phase := .idle } }
      | _ => none
  | .pop =>
      match run.phase, run.window with
      | .idle, (fromBlock, toBlock) :: rest =>
          let popped := { run with window := rest }
          let sent := popped.enqueue.getD popped
          some { world with run := some { sent with phase := .fetching fromBlock toBlock } }
      | _, _ => none
  | .fetched outcome =>
      match run.phase with
      | .fetching fromBlock toBlock =>
          let extracted := run.extractRecords (fetchLogs chain outcome fromBlock toBlock)
          some { world with
            run := some { run with
              seen := extracted.1
              phase := .inserting extracted.2 fromBlock toBlock outcome } }
      | _ => none
  | .insert =>
      match run.phase with
      | .inserting records fromBlock toBlock outcome =>
          let temp := insertAll TempRecord.key world.temp records
          some { world with
            temp := temp
            recorded := world.recorded ∪ tempKeys temp
            run := some { run with phase := .saving fromBlock toBlock outcome } }
      | _ => none
  | .save =>
      match run.phase with
      | .saving fromBlock _ _ =>
          some { world with
            progress := some fromBlock
            top := some (world.top.getD run.firstBlock)
            run := some { run with phase := .idle } }
      | _ => none
  | .finish =>
      match run.phase, run.window with
      | .idle, [] => some { world with run := none }
      | _, _ => none
  | .crash => some { world with run := none }
  | .others _ _ => none
  | .start _ _ _ => none

def step (chain : List Log) (world : ScannerWorld) (event : ScannerEvent) :
    Option ScannerWorld :=
  match event with
  | .others temp main =>
      some { world with
        temp := temp
        main := main
        recorded := world.recorded ∪ (main ∪ tempKeys temp) }
  | .start config latestBlock blacklist =>
      match world.run with
      | some _ => none
      | none =>
          match world.startRun config latestBlock blacklist with
          | none => some world
          | some run => some { world with
              blacklisted := world.blacklisted ∪ blacklist
              run := some run }
  | event => world.run.bind fun run => world.stepRun chain run event

/-- Every NFT of the blocks is recorded, unless its contract is on a blacklist. -/
def Covers (chain : List Log) (world : ScannerWorld) (fromBlock toBlock : Int) : Prop :=
  ∀ log ∈ chain, fromBlock ≤ log.blockNumber → log.blockNumber ≤ toBlock →
    ∀ nft ∈ extractNfts log, nft.contract ∈ world.blacklisted ∨ nft.key ∈ world.recorded

def ProgressSafe (chain : List Log) (world : ScannerWorld) : Prop :=
  ∀ block ∈ world.progress, ∀ top ∈ world.top, Covers chain world block top

/-- When the progress of a batch is stored, the requests of the batch that were not answered
held no NFT that is still unknown. -/
def MissedNothing (chain : List Log) (world : ScannerWorld) (event : ScannerEvent) : Prop :=
  match event, world.run.map ScanRun.phase with
  | .save, some (.saving fromBlock toBlock outcome) =>
      ∀ topic ∈ allTopics, outcome topic ≠ .answered →
        ∀ log ∈ topicLogs chain topic fromBlock toBlock, ∀ nft ∈ extractNfts log,
          nft.contract ∈ world.blacklisted ∨ nft.key ∈ world.recorded
  | _, _ => True

end ScannerWorld

end NftData.Ethereum
