import NftData.Solana.TxScanner

namespace NftData.Solana

/-! # The saved slot

A finished scan has inserted every account that last changed up to the slot it saves, if no
run starts with a gap behind it. -/

open List

namespace GpaWorld

variable {world next : GpaWorld} {run : GpaRun}

def IsRecorded (world : GpaWorld) (pending : List Text) (account : Account) : Prop :=
  account.mint ∈ world.recorded ∨ account.mint ∈ pending

/-- Every account that the pages up to this next key had to list is recorded, or in a page
that is still to be inserted. -/
def ListedUpTo (world : GpaWorld) (latestSlot : Nat) (nextKey : Option Nat)
    (pending : List Text) : Prop :=
  ∀ account ∈ world.accounts, account.isUpTo nextKey → account.lastChange ≤ latestSlot →
    world.IsRecorded pending account

def ListedBefore (world : GpaWorld) (latestSlot : Nat) (key : Option Nat)
    (pending : List Text) : Prop :=
  ∀ account ∈ world.accounts, account.isBefore key → account.lastChange ≤ latestSlot →
    world.IsRecorded pending account

/-- Everything that last changed at or before the slot is recorded. -/
def RecordedSince (world : GpaWorld) (sinceSlot : Nat) : Prop :=
  ∀ account ∈ world.accounts, account.lastChange ≤ sinceSlot → account.mint ∈ world.recorded

def PageStage.pending : PageStage → List Text
  | .awaiting => []
  | .inserting page => page.mints
  | .saving _ => []

def StageListed (world : GpaWorld) (latestSlot : Nat) : PageStage → Prop
  | .awaiting => True
  | .inserting page => world.ListedUpTo latestSlot page.nextKey page.mints
  | .saving nextKey => world.ListedUpTo latestSlot nextKey []

def TaskListed (world : GpaWorld) (latestSlot : Nat) (pending : List Text)
    (task : PrefetchTask) : Prop :=
  world.ListedBefore latestSlot task.key pending ∧
    ∀ page ∈ task.result, world.ListedUpTo latestSlot page.nextKey (pending ++ page.mints)

structure RunSafe (world : GpaWorld) (run : GpaRun) : Prop where
  latest : run.latestSlot ≤ world.completedSlot
  since : run.sinceSlot ≤ world.completedSlot
  recorded : world.RecordedSince run.sinceSlot
  task : ∀ task ∈ run.prefetch,
    world.TaskListed run.latestSlot (PageStage.pending run.stage) task
  stage : world.StageListed run.latestSlot run.stage

structure Safe (world : GpaWorld) : Prop where
  progress : ∀ progress ∈ world.progress, progress.sinceSlot ≤ world.completedSlot ∧
    world.RecordedSince progress.sinceSlot
  run : ∀ run ∈ world.run, world.RunSafe run

theorem safe_initial : Safe .initial :=
  ⟨fun _ member => (nomatch member), fun _ member => (nomatch member)⟩

/-- Nothing that was recorded is forgotten, and every account that last changed in a
completed slot was there before. -/
structure Grows (world next : GpaWorld) : Prop where
  completed : world.completedSlot ≤ next.completedSlot
  recorded : world.recorded ⊆ next.recorded
  accounts : ∀ account ∈ next.accounts, account.lastChange ≤ world.completedSlot →
    account ∈ world.accounts

theorem Grows.withRun (world : GpaWorld) (run : Option GpaRun) :
    Grows world { world with run := run } :=
  ⟨Nat.le_refl _, Finset.Subset.refl _, fun _ member _ => member⟩

theorem Grows.batchInsertTemp (world : GpaWorld) (mints : List Text) :
    Grows world (world.batchInsertTemp mints) :=
  ⟨Nat.le_refl _, Finset.subset_union_left, fun _ member _ => member⟩

variable {pending : List Text} {account : Account}

theorem IsRecorded.mono (grows : Grows world next) (recorded : world.IsRecorded pending account) :
    next.IsRecorded pending account :=
  recorded.imp_left fun member => grows.recorded member

variable {nextKey : Option Nat} {latestSlot : Nat}

theorem ListedUpTo.mono (grows : Grows world next) (latest : latestSlot ≤ world.completedSlot)
    (listed : world.ListedUpTo latestSlot nextKey pending) :
    next.ListedUpTo latestSlot nextKey pending := by
  intro account member isUpTo old
  have before := grows.accounts account member (Nat.le_trans old latest)
  exact (listed account before isUpTo old).mono grows

variable {key : Option Nat} {sinceSlot : Nat}

section

variable (grows : Grows world next)
include grows

theorem ListedBefore.mono (latest : latestSlot ≤ world.completedSlot)
    (listed : world.ListedBefore latestSlot key pending) :
    next.ListedBefore latestSlot key pending := by
  intro account member isBefore old
  have before := grows.accounts account member (Nat.le_trans old latest)
  exact (listed account before isBefore old).mono grows

theorem RecordedSince.mono (since : sinceSlot ≤ world.completedSlot)
    (recorded : world.RecordedSince sinceSlot) :
    next.RecordedSince sinceSlot := by
  intro account member old
  have before := grows.accounts account member (Nat.le_trans old since)
  exact grows.recorded (recorded account before old)

theorem RunSafe.mono (safe : world.RunSafe run) :
    next.RunSafe run := by
  constructor
  · exact Nat.le_trans safe.latest grows.completed
  · exact Nat.le_trans safe.since grows.completed
  · exact safe.recorded.mono grows safe.since
  · intro task isTask
    have listed := safe.task task isTask
    exact ⟨listed.1.mono grows safe.latest, fun page isPage =>
      (listed.2 page isPage).mono grows safe.latest⟩
  · have listed := safe.stage
    cases stage : run.stage with
    | awaiting => trivial
    | inserting page | saving nextKey =>
        rw [stage] at listed
        exact ListedUpTo.mono grows safe.latest listed

theorem Safe.mono (sameProgress : next.progress = world.progress)
    (runs : ∀ run ∈ next.run, next.RunSafe run) (safe : Safe world) : Safe next := by
  constructor
  · rw [sameProgress]
    intro progress member
    have before := safe.progress progress member
    exact ⟨Nat.le_trans before.1 grows.completed, before.2.mono grows before.1⟩
  · exact runs

end

/-! ## Steps -/

theorem mem_fetchGpaPage {accounts : List Account} (member : account ∈ accounts)
    (notBefore : account.isBefore key = false) (isUpTo : account.isUpTo nextKey = true)
    (changed : sinceSlot < account.lastChange) :
    account.mint ∈ (fetchGpaPage accounts key sinceSlot nextKey).mints := by
  apply mem_map_of_mem
  rw [mem_insertionSort, mem_filter]
  refine ⟨member, ?_⟩
  simp [notBefore, isUpTo, Account.isChangedSince, changed]

theorem RunSafe.fetched (safe : world.RunSafe run) (isTask : run.prefetch = some ⟨key, none⟩) :
    world.RunSafe { run with
      prefetch := some ⟨key, some (fetchGpaPage world.accounts key run.sinceSlot nextKey)⟩ } := by
  refine { safe with task := fun task member => ?_ }
  cases member
  have before := (safe.task _ isTask).1
  refine ⟨before, fun page isPage => ?_⟩
  cases isPage
  intro account member isUpTo old
  cases position : account.isBefore key with
  | true =>
      exact (before account member position old).imp_right
        (mem_append_left _)
  | false =>
      by_cases changed : run.sinceSlot < account.lastChange
      · exact .inr (mem_append_right _ (mem_fetchGpaPage member position isUpTo changed))
      · exact .inl (safe.recorded account member (Nat.le_of_not_lt changed))

variable {page : Page}

theorem RunSafe.awaitPage (safe : world.RunSafe run) (isStage : run.stage = .awaiting)
    (isTask : run.prefetch = some ⟨key, some page⟩) :
    world.RunSafe { run with
      prefetch := prefetchTask page.nextKey
      totalPages := run.totalPages + 1
      stage := .inserting page } := by
  have listed : world.ListedUpTo run.latestSlot page.nextKey page.mints := by
    have known := (safe.task _ isTask).2 page rfl
    rw [isStage] at known
    exact known
  constructor
  · exact safe.latest
  · exact safe.since
  · exact safe.recorded
  · intro task member
    rcases Option.map_eq_some_iff.mp member with ⟨cursor, isNext, equal⟩
    rw [← equal]
    refine ⟨fun account inAccounts isBefore old => ?_, fun _ noResult => (nomatch noResult)⟩
    apply listed account inAccounts _ old
    rw [isNext]
    exact isBefore
  · exact listed

theorem RunSafe.insert (safe : world.RunSafe run) (isStage : run.stage = .inserting page) :
    (world.batchInsertTemp page.mints).RunSafe { run with stage := .saving page.nextKey } := by
  have inserted : ∀ mint ∈ page.mints,
      mint ∈ (world.batchInsertTemp page.mints).recorded := by
    intro mint member
    apply Finset.mem_union_right
    rw [mem_toFinset]
    have incoming : (⟨mint, "Metaplex".toList, 0⟩ : TempMint) ∈ records page.mints :=
      mem_map_of_mem member
    have taken : mint ∈ (insertAll TempMint.mint world.temp (records page.mints)).map
        TempMint.mint := key_mem_insertAll incoming
    exact taken
  have settled : ∀ pending account,
      (world.batchInsertTemp page.mints).IsRecorded (page.mints ++ pending) account →
        (world.batchInsertTemp page.mints).IsRecorded pending account := by
    intro pending account recorded
    rcases recorded with known | isPending
    · exact .inl known
    · rcases mem_append.mp isPending with inPage | later
      · exact .inl (inserted _ inPage)
      · exact .inr later
  have before := safe.mono (.batchInsertTemp world page.mints)
  constructor
  · exact before.latest
  · exact before.since
  · exact before.recorded
  · intro task member
    have listed := before.task task member
    rw [isStage] at listed
    constructor
    · intro account inAccounts isBefore old
      apply settled []
      rw [append_nil]
      exact listed.1 account inAccounts isBefore old
    · exact fun other isPage account inAccounts isUpTo old =>
        settled _ account (listed.2 other isPage account inAccounts isUpTo old)
  · have listed := before.stage
    rw [isStage] at listed
    intro account inAccounts isUpTo old
    apply settled []
    rw [append_nil]
    exact listed account inAccounts isUpTo old

theorem Safe.save (safe : Safe world) (isRun : world.run = some run)
    (isStage : run.stage = .saving nextKey) :
    Safe { world.saveGpaProgress run nextKey with run := afterSave run nextKey } := by
  have runSafe := safe.run run isRun
  have listed := runSafe.stage
  rw [isStage] at listed
  constructor
  · intro progress member
    cases member
    cases nextKey with
    | some key => exact ⟨runSafe.since, runSafe.recorded⟩
    | none =>
        change progressSinceSlot _ _ none ≤ _ ∧ RecordedSince _ (progressSinceSlot _ _ none)
        unfold progressSinceSlot
        dsimp only
        split
        · refine ⟨runSafe.latest, fun account inAccounts old => ?_⟩
          exact (listed account inAccounts rfl old).resolve_right not_mem_nil
        · exact ⟨runSafe.since, runSafe.recorded⟩
  · intro after member
    change afterSave run nextKey = some after at member
    unfold afterSave at member
    split at member
    · cases member
    · cases member
      refine { runSafe with task := fun task isTask => ?_, stage := trivial }
      have known := runSafe.task task isTask
      rw [isStage] at known
      exact known

variable {event : GpaEvent}

theorem Safe.stepRun (safe : Safe world) (isRun : world.run = some run)
    (taken : world.stepRun run event = some next) : Safe next := by
  have runSafe := safe.run run isRun
  unfold GpaWorld.stepRun at taken
  split at taken
  case h_1 =>
    split at taken
    · next isTask =>
        rw [← Option.some.inj taken]
        refine ⟨safe.progress, fun after member => ?_⟩
        cases member
        exact (runSafe.fetched isTask).mono (.withRun world _)
    · cases taken
  case h_2 =>
    split at taken
    · next isStage isTask =>
        rw [← Option.some.inj taken]
        refine ⟨safe.progress, fun after member => ?_⟩
        cases member
        exact (runSafe.awaitPage isStage isTask).mono (.withRun world _)
    · cases taken
  case h_3 =>
    split at taken
    · next page isStage =>
        rw [← Option.some.inj taken]
        refine ⟨fun progress member => ?_, fun after member => ?_⟩
        · have before := safe.progress progress member
          have after := before.2.mono (.batchInsertTemp world page.mints) before.1
          exact ⟨before.1, after.mono (.withRun _ _) before.1⟩
        · cases member
          exact (runSafe.insert isStage).mono (.withRun _ _)
    · cases taken
  case h_4 =>
    split at taken
    · next isStage => exact Option.some.inj taken ▸ safe.save isRun isStage
    · cases taken
  case h_5 =>
    rw [← Option.some.inj taken]
    refine ⟨safe.progress, fun after member => ?_⟩
    cases member
    exact RunSafe.mono (.withRun world _) { runSafe with }
  case h_6 =>
    rw [← Option.some.inj taken]
    exact ⟨safe.progress, fun _ member => (nomatch member)⟩
  case h_7 => cases taken

theorem Safe.start {envSince : Nat} (safe : Safe world)
    (covered : world.StartsCovered (.start envSince latestSlot))
    (latest : latestSlot ≤ world.completedSlot) :
    Safe { world with run := some (world.startRun envSince latestSlot) } := by
  refine ⟨safe.progress, fun run member => ?_⟩
  cases member
  refine RunSafe.mono (.withRun world _) ?_
  constructor
  · exact latest
  · exact covered.1
  · exact fun account member => (covered.2 account member).1
  · intro task isTask
    cases isTask
    exact ⟨fun account member isBefore old =>
      .inl ((covered.2 account member).2 isBefore old), fun _ noResult => (nomatch noResult)⟩
  · trivial

theorem Safe.step (safe : Safe world) (covered : world.StartsCovered event)
    (taken : world.step event = some next) : Safe next := by
  have changes : ∀ {changed : GpaWorld}, some changed = some next → Grows world changed →
      changed.progress = world.progress → changed.run = world.run → Safe next := by
    intro changed isNext grows sameProgress sameRun
    rw [← Option.some.inj isNext]
    refine safe.mono grows sameProgress fun run member => ?_
    rw [sameRun] at member
    exact (safe.run run member).mono grows
  unfold GpaWorld.step at taken
  split at taken
  case h_1 =>
    refine changes taken
      ⟨Nat.le_refl _, Finset.Subset.refl _, fun account member old => ?_⟩ rfl rfl
    rcases mem_append.mp member with before | created
    · exact before
    · rw [mem_singleton.mp created] at old
      exact absurd old (Nat.not_succ_le_self _)
  case h_2 =>
    refine changes taken
      ⟨Nat.le_refl _, Finset.Subset.refl _, fun account member old => ?_⟩ rfl rfl
    rcases mem_map.mp member with ⟨before, inBefore, equal⟩
    split at equal
    · rw [← equal] at old
      exact absurd old (Nat.not_succ_le_self _)
    · exact equal ▸ inBefore
  case h_3 =>
    exact changes taken ⟨Nat.le_succ _, Finset.Subset.refl _, fun _ member _ => member⟩ rfl rfl
  case h_4 =>
    exact changes taken ⟨Nat.le_refl _, Finset.Subset.refl _, fun _ member _ => member⟩ rfl rfl
  case h_5 =>
    split at taken
    · cases taken
    · split at taken
      · next latest => exact Option.some.inj taken ▸ safe.start covered latest
      · cases taken
  case h_6 =>
    rcases Option.bind_eq_some_iff.mp taken with ⟨run, isRun, stepped⟩
    exact safe.stepRun isRun stepped

/-- The saved slot is safe in a history in which no run starts with a gap behind it. -/
theorem progressSafe_of_startsCovered (world : GpaWorld)
    (reached : Reaches step StartsCovered .initial world) : ProgressSafe world := by
  have safe := reached.invariant Safe safe_initial fun _ _ _ => Safe.step
  exact fun progress member _ => (safe.progress progress member).2

/-! ### A scan in two runs -/

def firstMint : Text := "first".toList

def secondMint : Text := "second".toList

def lateMint : Text := "late".toList

/-- Two accounts exist, and a scan is interrupted after a page with the first. -/
def interruptedScan : List GpaEvent :=
  [.createAccount 1 firstMint, .createAccount 2 secondMint, .completeSlot, .start 0 1,
    .fetched (some 1), .awaitPage, .requestStop, .insert, .save]

/-- A run that goes on to the last page. -/
def finishingRun (latestSlot : Nat) : List GpaEvent :=
  [.start 0 latestSlot, .fetched none, .awaitPage, .insert, .save]

theorem allMeet_twoRuns :
    AllMeet step StartsCovered .initial (interruptedScan ++ finishingRun 1) := by
  apply AllMeet.cons trivial rfl
  apply AllMeet.cons trivial rfl
  apply AllMeet.cons trivial rfl
  apply AllMeet.cons ⟨by decide, by decide⟩ rfl
  apply AllMeet.cons trivial rfl
  apply AllMeet.cons trivial rfl
  apply AllMeet.cons trivial rfl
  apply AllMeet.cons trivial rfl
  apply AllMeet.cons trivial rfl
  apply AllMeet.cons ⟨by decide, by decide⟩ rfl
  apply AllMeet.cons trivial rfl
  apply AllMeet.cons trivial rfl
  apply AllMeet.cons trivial rfl
  exact AllMeet.cons trivial rfl trivial

theorem progressSafe_of_startsCovered_twoRuns :
    ∃ world, Reaches step StartsCovered .initial world ∧
      world.progress = some ⟨none, 1, 2⟩ ∧ ProgressSafe world := by
  have ran : ∃ world, (interruptedScan ++ finishingRun 1).foldlM step .initial = some world ∧
      world.progress = some ⟨none, 1, 2⟩ := ⟨_, rfl, rfl⟩
  rcases ran with ⟨world, ran, progress⟩
  have reached := Reaches.of_allMeet _ allMeet_twoRuns .start ran
  exact ⟨world, reached, progress, progressSafe_of_startsCovered world reached⟩

/-- An account that is created before the saved key is never listed again. -/
theorem not_progressSafe_of_interrupted :
    ∃ world, Reaches step (fun _ _ => True) .initial world ∧ ¬ ProgressSafe world := by
  have ran : ∃ world,
      (interruptedScan ++ [GpaEvent.createAccount 0 lateMint, .completeSlot] ++
          finishingRun 2).foldlM step .initial = some world ∧
        world.progress = some ⟨none, 2, 2⟩ ∧ ⟨0, lateMint, 2⟩ ∈ world.accounts ∧
          lateMint ∉ world.recorded :=
    ⟨_, rfl, rfl, by decide, by decide⟩
  rcases ran with ⟨world, ran, progress, member, missing⟩
  refine ⟨world, .of_foldlM _ (fun _ _ _ => trivial) .start ran, fun safe => ?_⟩
  exact missing (safe _ progress rfl _ member (Nat.le_refl 2))

end GpaWorld

end NftData.Solana
