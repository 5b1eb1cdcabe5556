import NftData.Ethereum.LogScanner

namespace NftData.Ethereum

/-! # What the stored progress of the scanner promises

Batches follow one another downwards without a gap, so the blocks above a stored block are
those of the batches stored before it. -/

open List

/-- After the NFTs in `done`, what is seen is old or among the records, and nothing is left
out. -/
structure Collects (blacklist : Finset Text) (seen : Finset NftKey)
    (state : Finset NftKey × List TempRecord) (done : List FoundNft) : Prop where
  known : ∀ key ∈ state.1, key ∈ seen ∨ key ∈ state.2.map TempRecord.key
  covered : ∀ nft ∈ done, nft.contract ∈ blacklist ∨ nft.key ∈ state.1

namespace Collects

variable {blacklist : Finset Text} {seen : Finset NftKey}
  {state : Finset NftKey × List TempRecord} {done : List FoundNft}

theorem extractRecord (collects : Collects blacklist seen state done) (block : Int)
    (nft : FoundNft) :
    Collects blacklist seen (ScanRun.extractRecord state blacklist block nft)
      (done ++ [nft]) := by
  rw [ScanRun.extractRecord]
  split
  · next isSeen =>
      refine ⟨collects.known, fun other member => ?_⟩
      rcases mem_append.mp member with early | isLast
      · exact collects.covered other early
      · rw [mem_singleton.mp isLast]
        exact .inr isSeen
  · split
    · next listed =>
        refine ⟨collects.known, fun other member => ?_⟩
        rcases mem_append.mp member with early | isLast
        · exact collects.covered other early
        · rw [mem_singleton.mp isLast]
          exact .inl listed
    · constructor
      · intro key member
        rw [map_append, mem_append]
        rcases Finset.mem_insert.mp member with isNew | old
        · rw [isNew]
          exact .inr (.inr mem_cons_self)
        · exact (collects.known key old).imp_right .inl
      · intro other member
        rcases mem_append.mp member with early | isLast
        · exact (collects.covered other early).imp_right (Finset.mem_insert_of_mem)
        · rw [mem_singleton.mp isLast]
          exact .inr (Finset.mem_insert_self _ _)

theorem extractNfts (block : Int) (nfts : List FoundNft)
    (collects : Collects blacklist seen state done) :
    Collects blacklist seen
      (nfts.foldl (fun state nft => ScanRun.extractRecord state blacklist block nft) state)
      (done ++ nfts) := by
  induction nfts generalizing state done with
  | nil => rwa [append_nil]
  | cons nft nfts induction =>
      rw [foldl_cons, append_cons]
      exact induction (collects.extractRecord block nft)

theorem extractLogs (logs : List Log) (collects : Collects blacklist seen state done) :
    Collects blacklist seen (logs.foldl (ScanRun.extractLog blacklist) state)
      (done ++ logs.flatMap Ethereum.extractNfts) := by
  induction logs generalizing state done with
  | nil => simpa using collects
  | cons log logs induction =>
      rw [foldl_cons, flatMap_cons, ← List.append_assoc]
      exact induction (collects.extractNfts log.blockNumber (Ethereum.extractNfts log))

end Collects

theorem ScanRun.collects (run : ScanRun) (logs : List Log) :
    Collects run.blacklist run.seen (run.extractRecords logs)
      (logs.flatMap Ethereum.extractNfts) := by
  have start : Collects run.blacklist run.seen (run.seen, []) [] :=
    ⟨fun _ member => .inl member, by simp⟩
  have all := start.extractLogs logs
  rwa [nil_append] at all

/-- Batches that follow one another downwards from below `edge` to above `rest`. -/
def Descends : Int → List (Int × Int) → Int → Prop
  | edge, [], rest => rest = edge - 1
  | edge, (fromBlock, toBlock) :: batches, rest =>
      toBlock = edge - 1 ∧ Descends fromBlock batches rest

theorem Descends.append {edge rest : Int} {batches : List (Int × Int)}
    (descends : Descends edge batches rest) (fromBlock : Int) :
    Descends edge (batches ++ [(fromBlock, rest)]) (fromBlock - 1) := by
  induction batches generalizing edge with
  | nil => exact ⟨descends, rfl⟩
  | cons batch batches induction => exact ⟨descends.1, induction descends.2⟩

variable {run : ScanRun}

namespace ScanRun

def current (run : ScanRun) : List (Int × Int) :=
  match run.phase with
  | .filling _ => []
  | .idle => []
  | .fetching fromBlock toBlock => [(fromBlock, toBlock)]
  | .inserting _ fromBlock toBlock _ => [(fromBlock, toBlock)]
  | .saving fromBlock toBlock _ => [(fromBlock, toBlock)]

def pending (run : ScanRun) : List NftKey :=
  match run.phase with
  | .inserting records _ _ _ => records.map TempRecord.key
  | _ => []

/-- The batches in flight are the window, which a new request extends without a gap. -/
theorem enqueue_descends {sent : ScanRun} (enqueued : run.enqueue = some sent) {edge : Int}
    {current : List (Int × Int)} (descends : Descends edge (current ++ run.window) run.curBlock) :
    Descends edge (current ++ sent.window) sent.curBlock ∧
      sent = { run with curBlock := sent.curBlock, window := sent.window } := by
  rw [enqueue] at enqueued
  split at enqueued
  · cases enqueued
  · rcases Option.map_eq_some_iff.mp enqueued with ⟨range, isNext, equal⟩
    rw [nextRange] at isNext
    split at isNext
    · cases isNext
    · cases isNext
      rw [← equal]
      refine ⟨?_, rfl⟩
      simp only
      rw [← List.append_assoc]
      exact descends.append _

end ScanRun

namespace ScannerWorld

def edge (world : ScannerWorld) (run : ScanRun) : Int :=
  match world.progress with
  | some block => block
  | none => run.firstBlock + 1

/-- What the phase of a run promises about the logs that were fetched for it. -/
def Fetched (chain : List Log) (world : ScannerWorld) (run : ScanRun) : Prop :=
  match run.phase with
  | .inserting records fromBlock toBlock outcome =>
      ∀ nft ∈ (fetchLogs chain outcome fromBlock toBlock).flatMap extractNfts,
        nft.contract ∈ world.blacklisted ∨ nft.key ∈ world.recorded ∨
          nft.key ∈ records.map TempRecord.key
  | .saving fromBlock toBlock outcome =>
      ∀ nft ∈ (fetchLogs chain outcome fromBlock toBlock).flatMap extractNfts,
        nft.contract ∈ world.blacklisted ∨ nft.key ∈ world.recorded
  | _ => True

structure RunSafe (chain : List Log) (world : ScannerWorld) (run : ScanRun) : Prop where
  blacklist : run.blacklist ⊆ world.blacklisted
  seen : ∀ key ∈ run.seen, key ∈ world.recorded ∨ key ∈ run.pending
  descends : Descends (world.edge run) (run.current ++ run.window) run.curBlock
  fetched : world.Fetched chain run

structure Safe (chain : List Log) (world : ScannerWorld) : Prop where
  tables : loadSeenNfts world ⊆ world.recorded
  topKnown : world.progress = none ↔ world.top = none
  progress : ProgressSafe chain world
  run : ∀ run ∈ world.run, RunSafe chain world run

variable {chain : List Log} {world : ScannerWorld} {next : ScannerWorld} {fromBlock toBlock : Int}

theorem Covers.mono (covers : Covers chain world fromBlock toBlock)
    (blacklisted : world.blacklisted ⊆ next.blacklisted) (recorded : world.recorded ⊆ next.recorded)
    : Covers chain next fromBlock toBlock := by
  intro log member above below nft found
  exact (covers log member above below nft found).imp (@blacklisted _) (@recorded _)

theorem Covers.append {middle : Int} (lower : Covers chain world fromBlock (middle - 1))
    (upper : Covers chain world middle toBlock) : Covers chain world fromBlock toBlock := by
  intro log member above below nft found
  by_cases inLower : log.blockNumber ≤ middle - 1
  · exact lower log member above inLower nft found
  · exact upper log member (by omega) below nft found

/-! ## Steps of a run -/

section

variable (safe : Safe chain world)
include safe

theorem Safe.withRun {run : Option ScanRun} (runSafe : ∀ next ∈ run, RunSafe chain world next) :
    Safe chain { world with run := run } where
  tables := safe.tables
  topKnown := safe.topKnown
  progress := safe.progress
  run := fun next isRun =>
    ⟨(runSafe next isRun).blacklist, (runSafe next isRun).seen, (runSafe next isRun).descends,
      (runSafe next isRun).fetched⟩

theorem Safe.proceed {run : ScanRun} (runSafe : RunSafe chain world run) :
    Safe chain { world with run := some run } := by
  apply safe.withRun
  intro next isNext
  cases isNext
  exact runSafe

theorem Safe.fill (isRun : world.run = some run)
    (taken : world.stepRun chain run .fill = some next) :
    Safe chain next := by
  obtain ⟨blacklist, seen, descends, fetched⟩ := safe.run run isRun
  rw [ScanRun.current] at descends
  rw [ScanRun.pending] at seen
  simp only [stepRun] at taken
  cases phase : run.phase with
  | filling remaining =>
      rw [phase] at taken descends seen
      cases remaining with
      | zero =>
          cases taken
          apply safe.proceed
          exact ⟨blacklist, seen, descends, trivial⟩
      | succ remaining =>
          simp only at taken
          cases enqueued : run.enqueue with
          | none =>
              rw [enqueued] at taken
              cases taken
              apply safe.proceed
              exact ⟨blacklist, seen, descends, trivial⟩
          | some sent =>
              rw [enqueued] at taken
              cases taken
              have extended := ScanRun.enqueue_descends enqueued descends
              apply safe.proceed
              rw [extended.2]
              exact ⟨blacklist, seen, extended.1, trivial⟩
  | idle | fetching fromBlock toBlock | inserting records fromBlock toBlock outcome
  | saving fromBlock toBlock outcome => simp [phase] at taken

theorem Safe.pop (isRun : world.run = some run) (taken : world.stepRun chain run .pop = some next) :
    Safe chain next := by
  obtain ⟨blacklist, seen, descends, fetched⟩ := safe.run run isRun
  rw [ScanRun.current] at descends
  rw [ScanRun.pending] at seen
  simp only [stepRun] at taken
  split at taken
  · next fromBlock toBlock rest phase window =>
      cases taken
      rw [phase, window] at descends
      rw [phase] at seen
      apply safe.proceed
      cases enqueued : ({ run with window := rest } : ScanRun).enqueue with
      | none => exact ⟨blacklist, seen, descends, trivial⟩
      | some sent =>
          have popped : Descends (world.edge run) ([(fromBlock, toBlock)] ++ rest)
            run.curBlock := descends
          have extended := ScanRun.enqueue_descends enqueued popped
          rw [Option.getD_some, extended.2]
          exact ⟨blacklist, seen, extended.1, trivial⟩
  · cases taken

theorem Safe.fetched (isRun : world.run = some run)
    {outcome : BatchOutcome} (taken : world.stepRun chain run (.fetched outcome) = some next) :
    Safe chain next := by
  obtain ⟨blacklist, seen, descends, fetched⟩ := safe.run run isRun
  rw [ScanRun.current] at descends
  rw [ScanRun.pending] at seen
  simp only [stepRun] at taken
  split at taken
  · next fromBlock toBlock phase =>
      cases taken
      rw [phase] at descends seen
      have seenRecorded : ∀ key ∈ run.seen, key ∈ world.recorded := by
        intro key member
        rcases seen key member with recorded | pending
        · exact recorded
        · cases pending
      have collects := run.collects (fetchLogs chain outcome fromBlock toBlock)
      apply safe.proceed
      refine ⟨blacklist, ?_, descends, ?_⟩
      · intro key member
        exact (collects.known key member).imp_left (seenRecorded key)
      · intro nft found
        rcases collects.covered nft found with listed | isSeen
        · exact .inl (blacklist listed)
        · exact .inr ((collects.known nft.key isSeen).imp_left (seenRecorded nft.key))
  · cases taken

end

theorem mem_tempKeys {temp : List TempRecord} {key : NftKey} :
    key ∈ tempKeys temp ↔ key ∈ temp.map TempRecord.key := mem_toFinset

theorem Safe.insert (safe : Safe chain world) (isRun : world.run = some run)
    (taken : world.stepRun chain run .insert = some next) :
    Safe chain next := by
  obtain ⟨blacklist, seen, descends, fetched⟩ := safe.run run isRun
  rw [ScanRun.current] at descends
  rw [ScanRun.pending] at seen
  rw [Fetched] at fetched
  simp only [stepRun] at taken
  split at taken
  · next records fromBlock toBlock outcome phase =>
      cases taken
      rw [phase] at descends seen fetched
      have inserted : ∀ key ∈ records.map TempRecord.key,
          key ∈ tempKeys (insertAll TempRecord.key world.temp records) := by
        intro key member
        rcases mem_map.mp member with ⟨record, inside, equal⟩
        rw [mem_tempKeys, ← equal]
        exact key_mem_insertAll inside
      refine ⟨?_, safe.topKnown, ?_, ?_⟩
      · apply Finset.union_subset
        · exact ((Finset.subset_union_left).trans safe.tables).trans Finset.subset_union_left
        · exact Finset.subset_union_right
      · intro block isProgress top isTop
        exact (safe.progress block isProgress top isTop).mono (Finset.Subset.refl _)
          Finset.subset_union_left
      · intro other equal
        cases equal
        refine ⟨blacklist, ?_, descends, ?_⟩
        · intro key member
          apply Or.inl
          rcases seen key member with recorded | pending
          · exact Finset.mem_union_left _ recorded
          · exact Finset.mem_union_right _ (inserted key pending)
        · intro nft found
          rcases fetched nft found with listed | recorded | pending
          · exact .inl listed
          · exact .inr (Finset.mem_union_left _ recorded)
          · exact .inr (Finset.mem_union_right _ (inserted _ pending))
  · cases taken

theorem covers_batch {outcome : BatchOutcome} (isRun : world.run = some run)
    (phase : run.phase = .saving fromBlock toBlock outcome) (fetched : world.Fetched chain run)
    (missed : MissedNothing chain world .save) :
    Covers chain world fromBlock toBlock := by
  rw [Fetched, phase] at fetched
  simp only [MissedNothing, isRun, Option.map_some, phase] at missed
  intro log member above below nft found
  rcases exists_topic_of_extractNfts found with ⟨topic, asked, isTopic⟩
  have inTopic : log ∈ topicLogs chain topic fromBlock toBlock := by
    simp [topicLogs, inRange, member, isTopic, above, below]
  by_cases answered : outcome topic = .answered
  · apply fetched nft
    apply mem_flatMap.mpr
    refine ⟨log, ?_, found⟩
    apply mem_flatMap.mpr
    refine ⟨topic, asked, ?_⟩
    rw [answered]
    exact inTopic
  · exact missed topic asked answered log inTopic nft found

section

variable (safe : Safe chain world)
include safe

theorem Safe.save (isRun : world.run = some run)
    (missed : MissedNothing chain world .save) (taken : world.stepRun chain run .save = some next) :
    Safe chain next := by
  obtain ⟨blacklist, seen, descends, fetched⟩ := safe.run run isRun
  rw [ScanRun.current] at descends
  rw [ScanRun.pending] at seen
  simp only [stepRun] at taken
  split at taken
  · next fromBlock toBlock outcome phase =>
      cases taken
      have batch := covers_batch isRun phase fetched missed
      rw [phase] at descends seen
      refine ⟨safe.tables, by simp, ?_, ?_⟩
      · intro block isProgress top isTop
        cases isProgress
        cases isTop
        have below := descends.1
        change Covers chain world fromBlock (world.top.getD run.firstBlock)
        rw [edge] at below
        cases progress : world.progress with
        | none =>
            rw [progress] at below
            rw [safe.topKnown.mp progress, Option.getD_none]
            have isFirst : toBlock = run.firstBlock := by
              simp only at below
              omega
            exact isFirst ▸ batch
        | some last =>
            rw [progress] at below
            cases topEqual : world.top with
            | none =>
                rw [safe.topKnown.mpr topEqual] at progress
                cases progress
            | some top =>
                exact Covers.append (below ▸ batch) (safe.progress last progress top topEqual)
      · intro other equal
        cases equal
        exact ⟨blacklist, seen, descends.2, trivial⟩
  · cases taken

theorem Safe.stepRun (isRun : world.run = some run) {event : ScannerEvent}
    (missed : MissedNothing chain world event) (taken : world.stepRun chain run event = some next) :
    Safe chain next := by
  cases event with
  | others temp main => cases taken
  | start config latestBlock blacklist => cases taken
  | requestStop =>
      cases taken
      obtain ⟨blacklist, seen, descends, fetched⟩ := safe.run run isRun
      exact safe.proceed ⟨blacklist, seen, descends, fetched⟩
  | fill => exact safe.fill isRun taken
  | pop => exact safe.pop isRun taken
  | fetched outcome => exact safe.fetched isRun taken
  | insert => exact safe.insert isRun taken
  | save => exact safe.save isRun missed taken
  | finish =>
      simp only [ScannerWorld.stepRun] at taken
      split at taken
      · cases taken
        exact safe.withRun (by simp)
      · cases taken
  | crash =>
      cases taken
      exact safe.withRun (by simp)

/-! ## Histories -/

/-- What other programs do to the tables makes nothing unrecorded. -/
theorem Safe.others (temp : List TempRecord) (main : Finset NftKey) :
    Safe chain { world with
      temp := temp
      main := main
      recorded := world.recorded ∪ (main ∪ tempKeys temp) } where
  tables := Finset.subset_union_right
  topKnown := safe.topKnown
  progress := fun block isProgress top isTop =>
    (safe.progress block isProgress top isTop).mono (Finset.Subset.refl _)
      Finset.subset_union_left
  run := by
    intro run isRun
    have runSafe := safe.run run isRun
    have grows : world.recorded ⊆ world.recorded ∪ (main ∪ tempKeys temp) :=
      Finset.subset_union_left
    refine ⟨runSafe.blacklist, fun key member => (runSafe.seen key member).imp_left
      (@grows key), runSafe.descends, ?_⟩
    have fetched := runSafe.fetched
    rw [Fetched] at fetched ⊢
    split at fetched
    · intro nft found
      exact (fetched nft found).imp_right (Or.imp_left (@grows nft.key))
    · intro nft found
      exact (fetched nft found).imp_right (@grows nft.key)
    · trivial

/-- A run goes on right below the stored block. -/
theorem Safe.start {config : ScannerConfig} {latestBlock : Int}
    {blacklist : Finset Text} (started : world.startRun config latestBlock blacklist = some run) :
    Safe chain { world with
      blacklisted := world.blacklisted ∪ blacklist
      run := some run } where
  tables := safe.tables
  topKnown := safe.topKnown
  progress := fun block isProgress top isTop =>
    (safe.progress block isProgress top isTop).mono Finset.subset_union_left
      (Finset.Subset.refl _)
  run := by
    intro other equal
    cases equal
    simp only [startRun] at started
    split at started
    · cases started
    · cases started
      refine ⟨Finset.subset_union_right, fun key member => .inl (safe.tables member), ?_,
        trivial⟩
      change Descends (edge world _) [] (world.resumeBlock _)
      rw [edge, Descends, resumeBlock]
      cases world.progress with
      | none =>
          simp only
          omega
      | some block => rfl

theorem Safe.step {event : ScannerEvent}
    (missed : MissedNothing chain world event) (taken : world.step chain event = some next) :
    Safe chain next := by
  cases event with
  | others temp main =>
      cases taken
      exact safe.others temp main
  | start config latestBlock blacklist =>
      simp only [ScannerWorld.step] at taken
      split at taken
      · cases taken
      · split at taken
        · cases taken
          exact safe
        · next started =>
            cases taken
            exact safe.start started
  | requestStop | fill | pop | fetched outcome | insert | save | finish | crash =>
      rcases Option.bind_eq_some_iff.mp taken with ⟨run, isRun, stepped⟩
      exact safe.stepRun isRun missed stepped

end

theorem safe_initial (chain : List Log) (temp : List TempRecord) (main : Finset NftKey) :
    Safe chain (.initial temp main) :=
  ⟨Finset.Subset.refl _, Iff.rfl, fun _ isProgress => (nomatch isProgress),
    fun _ isRun => (nomatch isRun)⟩

/-- In every history in which no unanswered request of a stored batch held an unknown NFT,
stored progress leaves nothing behind. -/
theorem progressSafe_of_missedNothing (chain : List Log) (temp : List TempRecord)
    (main : Finset NftKey) (world : ScannerWorld)
    (reached : Reaches (ScannerWorld.step chain) (MissedNothing chain) (.initial temp main)
      world) : ProgressSafe chain world := by
  apply Safe.progress
  apply reached.invariant (Safe chain) (safe_initial chain temp main)
  intro state event next safe missed taken
  exact safe.step missed taken

/-! ### One batch -/

def transferLog : Log :=
  ⟨"0xaa".toList, [erc721TransferTopic, toBytes 32 0, toBytes 32 1, toBytes 32 7], [], 5⟩

def oneBatch : ScannerConfig := ⟨0, 0, 10, 1⟩

/-- Scan blocks 0 to 5 in one batch, whose requests all come to the same outcome, and stop
before the progress is stored. -/
def scanOnce (outcome : LogsOutcome) : List ScannerEvent :=
  [.start oneBatch 5 ∅, .fill, .fill, .pop, .fetched fun _ => outcome, .insert]

theorem extractNfts_transferLog : extractNfts transferLog = [⟨"0xaa".toList, 7, .erc721⟩] := by
  rw [extractNfts, transferLog]
  simp only [if_true]
  rfl

theorem scanOnce_saves (outcome : LogsOutcome) :
    ∃ world run, (scanOnce outcome).foldlM (step [transferLog]) (.initial [] ∅) = some world ∧
      world.run = some run ∧ run.phase = .saving 0 5 (fun _ => outcome) := by
  exact ⟨_, _, rfl, rfl, rfl⟩

theorem progressSafe_of_missedNothing_answered :
    ∃ world, Reaches (step [transferLog]) (MissedNothing [transferLog]) (.initial [] ∅) world ∧
      world.progress = some 0 ∧ ProgressSafe [transferLog] world := by
  rcases scanOnce_saves .answered with ⟨world, run, ran, isRun, phase⟩
  have before : Reaches (step [transferLog]) (MissedNothing [transferLog]) (.initial [] ∅)
      world := by
    apply Reaches.of_foldlM (scanOnce .answered) _ .start ran
    intro state event member
    simp only [scanOnce, mem_cons, not_mem_nil, or_false] at member
    rcases member with rfl | rfl | rfl | rfl | rfl | rfl <;> trivial
  have missed : MissedNothing [transferLog] world .save := by
    simp [MissedNothing, isRun, phase]
  have taken : ∃ saved, step [transferLog] world .save = some saved ∧
      saved.progress = some 0 := by
    simp only [step, isRun, Option.bind_some, stepRun, phase]
    exact ⟨_, rfl, rfl⟩
  rcases taken with ⟨saved, taken, progress⟩
  have reached := Reaches.step .save before missed taken
  exact ⟨saved, reached, progress, progressSafe_of_missedNothing _ _ _ _ reached⟩

/-- A scan whose requests all fail stores its progress without the token. -/
theorem not_progressSafe_of_failed :
    ∃ world, Reaches (step [transferLog]) (fun _ _ => True) (.initial [] ∅) world ∧
      ¬ ProgressSafe [transferLog] world := by
  have ran : ∃ world,
      (scanOnce .failed ++ [ScannerEvent.save]).foldlM (step [transferLog])
          (.initial [] ∅) = some world ∧
        world.progress = some 0 ∧ world.top = some 5 ∧ world.blacklisted = ∅ ∧
        world.recorded = ∅ := by
    exact ⟨_, rfl, rfl, rfl, rfl, rfl⟩
  rcases ran with ⟨world, ran, progress, top, blacklisted, recorded⟩
  refine ⟨world, .of_foldlM _ (fun _ _ _ => trivial) .start ran, fun safe => ?_⟩
  have covers := safe 0 progress 5 top transferLog mem_cons_self (by decide) (by decide)
    ⟨"0xaa".toList, 7, .erc721⟩ (by rw [extractNfts_transferLog]; exact mem_cons_self)
  rw [blacklisted, recorded] at covers
  simp at covers

end ScannerWorld

end NftData.Ethereum
