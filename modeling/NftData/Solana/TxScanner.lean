import NftData.Foundation.KeyedRows
import NftData.Foundation.Machine
import NftData.Foundation.Text

namespace NftData.Solana

/-! # Scan of the program accounts

The scanner pages through the metadata accounts. A scan that was interrupted goes on at its
saved key, and a finished scan leaves the slot from which the next one lists changes. -/

/-- A metadata account, with its place in the order of the pages and the slot of its last
change. -/
structure Account where
  cursor : Nat
  mint : Text
  lastChange : Nat
  deriving DecidableEq

def Account.isBefore (account : Account) (key : Option Nat) : Bool :=
  key.any fun cursor => account.cursor ≤ cursor

/-- The account is listed before the pages after this next key. There are none after the
last page. -/
def Account.isUpTo (account : Account) (nextKey : Option Nat) : Bool :=
  nextKey.all fun cursor => account.cursor ≤ cursor

/-- `changedSinceSlot` is left out of the request when it is 0. -/
def Account.isChangedSince (account : Account) (sinceSlot : Nat) : Bool :=
  sinceSlot == 0 || decide (sinceSlot < account.lastChange)

structure Page where
  mints : List Text
  nextKey : Option Nat
  deriving DecidableEq

/-- `fetch_gpa_page`: the provider decides where the page ends. -/
def fetchGpaPage (accounts : List Account) (key : Option Nat) (sinceSlot : Nat)
    (nextKey : Option Nat) : Page :=
  let listed := accounts.filter fun account =>
    !account.isBefore key && account.isUpTo nextKey && account.isChangedSince sinceSlot
  ⟨(listed.insertionSort fun left right => left.cursor ≤ right.cursor).map Account.mint,
    nextKey⟩

/-- The row of `scan_progress_gpa`. -/
structure GpaProgress where
  paginationKey : Option Nat
  sinceSlot : Nat
  totalPages : Nat
  deriving DecidableEq

def getGpaProgress (progress : Option GpaProgress) : GpaProgress :=
  progress.getD ⟨none, 0, 0⟩

structure ScanState where
  sinceSlot : Nat
  resumeKey : Option Nat
  totalPagesBase : Nat
  deriving DecidableEq

def resolveScanState (envSince : Nat) (saved : GpaProgress) : ScanState :=
  if 0 < envSince then
    if envSince < saved.sinceSlot then
      match saved.paginationKey with
      | some key => ⟨saved.sinceSlot, some key, saved.totalPages⟩
      | none => ⟨saved.sinceSlot, none, 0⟩
    else
      match saved.paginationKey with
      | some key =>
          if saved.sinceSlot = envSince then
            ⟨envSince, some key, saved.totalPages⟩
          else
            ⟨envSince, none, 0⟩
      | none => ⟨envSince, none, 0⟩
  else
    match saved.paginationKey with
    | some key => ⟨saved.sinceSlot, some key, saved.totalPages⟩
    | none => if 0 < saved.sinceSlot then ⟨saved.sinceSlot, none, 0⟩ else ⟨0, none, 0⟩

example : resolveScanState 123 ⟨some 9, 999, 42⟩ = ⟨999, some 9, 42⟩ := by decide

def progressSinceSlot (currentSinceSlot latestSlot : Nat) (nextKey : Option Nat) : Nat :=
  match nextKey with
  | some _ => currentSinceSlot
  | none => if 0 < latestSlot then latestSlot else currentSinceSlot

structure TempMint where
  mint : Text
  tokenStandard : Text
  firstSeenBlock : Nat
  deriving DecidableEq

inductive PageStage where
  | awaiting
  | inserting (page : Page)
  | saving (nextKey : Option Nat)
  deriving DecidableEq

/-- The request for the next page, which runs while the current page is stored. -/
structure PrefetchTask where
  key : Option Nat
  result : Option Page
  deriving DecidableEq

/-- One run of `main`. -/
structure GpaRun where
  sinceSlot : Nat
  latestSlot : Nat
  totalPages : Nat
  prefetch : Option PrefetchTask
  stopRequested : Bool
  stage : PageStage
  deriving DecidableEq

/-- The chain, the tables, and the run of the scanner if there is one. Slots up to
`completedSlot` are over. `recorded` remembers every mint that was ever in the temp table. -/
structure GpaWorld where
  completedSlot : Nat
  accounts : List Account
  temp : List TempMint
  recorded : Finset Text
  progress : Option GpaProgress
  run : Option GpaRun
  deriving DecidableEq

def GpaWorld.initial : GpaWorld where
  completedSlot := 0
  accounts := []
  temp := []
  recorded := ∅
  progress := none
  run := none

inductive GpaEvent where
  | createAccount (cursor : Nat) (mint : Text)
  | changeAccount (cursor : Nat)
  | completeSlot
  /-- Other programs take rows out of the temp table. -/
  | takeRows (mints : List Text)
  /-- A run starts with the slot that `getSlot` reports, or 0 where it fails. -/
  | start (envSince latestSlot : Nat)
  /-- The provider answers the outstanding request, up to a key of its own choice. -/
  | fetched (nextKey : Option Nat)
  | awaitPage
  | insert
  | save
  | requestStop
  /-- The process dies, or an exception leaves `main`. -/
  | crash
  deriving DecidableEq

namespace GpaWorld

def startRun (world : GpaWorld) (envSince latestSlot : Nat) : GpaRun :=
  let state := resolveScanState envSince (getGpaProgress world.progress)
  { sinceSlot := state.sinceSlot
    latestSlot := latestSlot
    totalPages := state.totalPagesBase
    prefetch := some ⟨state.resumeKey, none⟩
    stopRequested := false
    stage := .awaiting }

def prefetchTask (nextKey : Option Nat) : Option PrefetchTask :=
  nextKey.map fun key => ⟨some key, none⟩

def records (mints : List Text) : List TempMint :=
  mints.map fun mint => ⟨mint, "Metaplex".toList, 0⟩

def batchInsertTemp (world : GpaWorld) (mints : List Text) : GpaWorld :=
  let temp := insertAll TempMint.mint world.temp (records mints)
  { world with
    temp := temp
    recorded := world.recorded ∪ (temp.map TempMint.mint).toFinset }

def saveGpaProgress (world : GpaWorld) (run : GpaRun) (nextKey : Option Nat) : GpaWorld :=
  { world with
    progress := some ⟨nextKey,
      progressSinceSlot run.sinceSlot run.latestSlot nextKey, run.totalPages⟩ }

/-- After the last page, or at a stop, the run ends. -/
def afterSave (run : GpaRun) (nextKey : Option Nat) : Option GpaRun :=
  if nextKey = none ∨ run.stopRequested then none else some { run with stage := .awaiting }

def stepRun (world : GpaWorld) (run : GpaRun) : GpaEvent → Option GpaWorld
  | .fetched nextKey =>
      match run.prefetch with
      | some ⟨key, none⟩ =>
          let page := fetchGpaPage world.accounts key run.sinceSlot nextKey
          some { world with run := some { run with prefetch := some ⟨key, some page⟩ } }
      | _ => none
  | .awaitPage =>
      match run.stage, run.prefetch with
      | .awaiting, some ⟨_, some page⟩ =>
          some { world with
            run := some { run with
              prefetch := prefetchTask page.nextKey
              totalPages := run.totalPages + 1
              stage := .inserting page } }
      | _, _ => none
  | .insert =>
      match run.stage with
      | .inserting page =>
          some { world.batchInsertTemp page.mints with
            run := some { run with stage := .saving page.nextKey } }
      | _ => none
  | .save =>
      match run.stage with
      | .saving nextKey =>
          some { world.saveGpaProgress run nextKey with run := afterSave run nextKey }
      | _ => none
  | .requestStop => some { world with run := some { run with stopRequested := true } }
  | .crash => some { world with run := none }
  | _ => none

def step (world : GpaWorld) (event : GpaEvent) : Option GpaWorld :=
  match event with
  | .createAccount cursor mint =>
      some { world with accounts := world.accounts ++ [⟨cursor, mint, world.completedSlot + 1⟩] }
  | .changeAccount cursor =>
      some { world with
        accounts := world.accounts.map fun account =>
          if account.cursor = cursor then
            { account with lastChange := world.completedSlot + 1 }
          else
            account }
  | .completeSlot => some { world with completedSlot := world.completedSlot + 1 }
  | .takeRows mints =>
      some { world with temp := world.temp.filter fun row => !mints.contains row.mint }
  | .start envSince latestSlot =>
      match world.run with
      | some _ => none
      | none =>
          if latestSlot ≤ world.completedSlot then
            some { world with run := some (world.startRun envSince latestSlot) }
          else
            none
  | event => world.run.bind fun run => world.stepRun run event

/-- Where no key is saved, every mint whose account last changed at or before the saved slot
was inserted. -/
def ProgressSafe (world : GpaWorld) : Prop :=
  ∀ progress ∈ world.progress, progress.paginationKey = none →
    ∀ account ∈ world.accounts, account.lastChange ≤ progress.sinceSlot →
      account.mint ∈ world.recorded

/-- When a run starts, nothing is missing up to the slot it starts from, which is no slot to
come. Before the key at which it goes on, nothing is missing up to its own latest slot. -/
def StartsCovered (world : GpaWorld) (event : GpaEvent) : Prop :=
  match event with
  | .start envSince latestSlot =>
      let state := resolveScanState envSince (getGpaProgress world.progress)
      state.sinceSlot ≤ world.completedSlot ∧ ∀ account ∈ world.accounts,
        (account.lastChange ≤ state.sinceSlot → account.mint ∈ world.recorded) ∧
          (account.isBefore state.resumeKey → account.lastChange ≤ latestSlot →
            account.mint ∈ world.recorded)
  | _ => True

end GpaWorld

end NftData.Solana
