import NftData.Analysis2.Enrich.TransactionBatch
import NftData.Foundation.Chunks
import NftData.Foundation.Machine

namespace NftData.Analysis2

/-! # The transaction cache

The calls of a run share a cache, in which the first call that asks for a signature fetches its
transaction and the others wait for it. -/

open List

/-- A cell with how often its waiters were notified. Its signature and the number of the call
that made it are kept for the statements only. -/
structure TransactionCell where
  signature : Text
  leader : Nat
  value : Option TransactionResult
  notified : Nat

abbrev CellRef := Text × Nat

/-- The table of the cells and the memory that they are allocated in. -/
structure TransactionRequestCache where
  cells : Text → Option Nat
  heap : Nat → TransactionCell
  allocated : Nat

namespace TransactionRequestCache

def empty : TransactionRequestCache := ⟨fun _ => none, fun _ => ⟨[], 0, none, 0⟩, 0⟩

def allocate (cache : TransactionRequestCache) (leader : Nat) (signature : Text) :
    TransactionRequestCache where
  cells := Function.update cache.cells signature (some cache.allocated)
  heap := Function.update cache.heap cache.allocated ⟨signature, leader, none, 0⟩
  allocated := cache.allocated + 1

/-- The first half of `TransactionCell::set`. -/
def store (cache : TransactionRequestCache) (cell : Nat) (result : TransactionResult) :
    TransactionRequestCache :=
  { cache with
    heap := Function.update cache.heap cell { cache.heap cell with value := some result } }

/-- The second half of `TransactionCell::set`. -/
def notifyWaiters (cache : TransactionRequestCache) (cell : Nat) : TransactionRequestCache :=
  { cache with
    heap := Function.update cache.heap cell
      { cache.heap cell with notified := (cache.heap cell).notified + 1 } }

/-- A cell is dropped only while it is the one that the table holds. -/
def evict (cache : TransactionRequestCache) (rows : List CellRef) : TransactionRequestCache :=
  { cache with
    cells := rows.foldl
      (fun cells row =>
        if cells row.1 = some row.2 then Function.update cells row.1 none else cells)
      cache.cells }

end TransactionRequestCache

/-- A spawned batch request: in flight, joined with its rows, or ended without rows. -/
inductive BatchTask where
  | running (signatures : List Text)
  | joined (rows : List TransactionRow)
  | lost

namespace BatchTask

def isRunning : BatchTask → Bool
  | running _ => true
  | _ => false

def inFlight : BatchTask → List Text
  | running signatures => signatures
  | _ => []

def rows : BatchTask → List TransactionRow
  | joined rows => rows
  | _ => []

end BatchTask

/-- Where `TransactionCell::wait` is: before its loop's body, with a listener made when the
cell's waiters had been notified so often, or asleep on that listener. -/
inductive Await where
  | ready
  | listening (seen : Nat)
  | asleep (seen : Nat)

inductive FetchPhase where
  | fetching
  | setting (fetched : List TransactionRow) (todo : List CellRef)
  | notifying (fetched : List TransactionRow) (cell : Nat) (todo : List CellRef)
  | waiting (await : Await) (todo : List CellRef) (out : List TransactionRow)
      (evict : List CellRef)
  | done (out : List TransactionRow)

/-- A call of `fetch_many`. -/
structure FetchCall where
  signatures : List Text
  rows : List CellRef
  leaders : List CellRef
  batches : List BatchTask
  phase : FetchPhase

/-- `fetched.remove(&signature)`, or the failure of a signature that no batch answered. -/
def fetchedResult (fetched : List TransactionRow) (signature : Text) : TransactionResult :=
  ((lastByKey (fun row => some row.1) fetched signature).map Prod.snd).getD
    (.error "getTransaction batch join failed".toList)

structure Registration where
  cache : TransactionRequestCache
  rows : List CellRef
  leaders : List CellRef

def Registration.add (call : Nat) (known : Registration) (signature : Text) : Registration :=
  match known.cache.cells signature with
  | some cell => { known with rows := known.rows ++ [(signature, cell)] }
  | none =>
      { cache := known.cache.allocate call signature
        rows := known.rows ++ [(signature, known.cache.allocated)]
        leaders := known.leaders ++ [(signature, known.cache.allocated)] }

/-- The part of `fetch_many` under the lock of the table. -/
def register (cache : TransactionRequestCache) (call : Nat) (signatures : List Text) :
    Registration :=
  signatures.foldl (Registration.add call) ⟨cache, [], []⟩

def txRpcBatchSize : Nat := 100

def FetchCall.start (signatures : List Text) (known : Registration) : FetchCall where
  signatures := signatures
  rows := known.rows
  leaders := known.leaders
  batches := (chunks known.leaders txRpcBatchSize).map fun chunk =>
    .running (chunk.map Prod.fst)
  phase := if known.leaders.isEmpty then .waiting .ready known.rows [] [] else .fetching

/-- What a call does next, unless it has to wait for a batch or for a notification. -/
def FetchCall.act (cache : TransactionRequestCache) (call : FetchCall) :
    Option (TransactionRequestCache × FetchPhase) :=
  match call.phase with
  | .fetching =>
      if call.batches.any BatchTask.isRunning then
        none
      else
        some (cache, .setting (call.batches.flatMap BatchTask.rows) call.leaders)
  | .setting _ [] => some (cache, .waiting .ready call.rows [] [])
  | .setting fetched (leader :: todo) =>
      some (cache.store leader.2 (fetchedResult fetched leader.1),
        .notifying (fetched.filter fun row => row.1 ≠ leader.1) leader.2 todo)
  | .notifying fetched cell todo => some (cache.notifyWaiters cell, .setting fetched todo)
  | .waiting _ [] out evict => some (cache.evict evict, .done out)
  | .waiting .ready (row :: todo) out evict =>
      some (cache, .waiting (.listening (cache.heap row.2).notified) (row :: todo) out evict)
  | .waiting (.listening seen) (row :: todo) out evict =>
      match (cache.heap row.2).value with
      | none => some (cache, .waiting (.asleep seen) (row :: todo) out evict)
      | some result =>
          some (cache, .waiting .ready todo (out ++ [(row.1, result)])
            (if isTransaction result then evict else evict ++ [row]))
  | .waiting (.asleep seen) (row :: todo) out evict =>
      if seen < (cache.heap row.2).notified then
        some (cache, .waiting .ready (row :: todo) out evict)
      else
        none
  | .done _ => none

/-- The cache with the calls that share it, in the order in which they began. -/
structure CacheRun where
  cache : TransactionRequestCache
  calls : List FetchCall

inductive CacheEvent where
  | call (signatures : List Text)
  | joined (call batch : Nat) (reply : BatchReply)
  | lost (call batch : Nat)
  | act (call : Nat)

namespace CacheEvent

def isCall : CacheEvent → Bool
  | call _ => true
  | _ => false

end CacheEvent

namespace CacheRun

def initial : CacheRun := ⟨.empty, []⟩

def finish (run : CacheRun) (call batch : Nat) (outcome : List Text → BatchTask) :
    Option CacheRun := do
  let active ← run.calls[call]?
  match active.batches[batch]? with
  | some (.running signatures) =>
      some { run with
        calls := run.calls.set call
          { active with batches := active.batches.set batch (outcome signatures) } }
  | _ => none

def step (print : Json → Text) (run : CacheRun) : CacheEvent → Option CacheRun
  | .call signatures =>
      let known := register run.cache run.calls.length signatures
      some ⟨known.cache, run.calls ++ [.start signatures known]⟩
  | .joined call batch reply =>
      run.finish call batch fun signatures =>
        .joined (fetchTransactionsBatch print batch signatures reply)
  | .lost call batch => run.finish call batch fun _ => .lost
  | .act call => do
      let active ← run.calls[call]?
      let next ← active.act run.cache
      some ⟨next.1, run.calls.set call { active with phase := next.2 }⟩

def inFlight (run : CacheRun) : List Text :=
  run.calls.flatMap fun call => call.batches.flatMap BatchTask.inFlight

end CacheRun

/-! ## Cells

A cell is unset, then set, then notified, and only the call that made it does so. -/

namespace TransactionCell

def Unset (cell : TransactionCell) : Prop := cell.value = none ∧ cell.notified = 0

def Settled (cell : TransactionCell) (result : TransactionResult) : Prop :=
  cell.value = some result ∧ cell.notified = 1

def Failing (cell : TransactionCell) : Prop :=
  ∃ result, cell.value = some result ∧ isTransaction result = false

theorem Unset.not_failing {cell : TransactionCell} (unset : cell.Unset) : ¬ cell.Failing := by
  rintro ⟨result, isResult, -⟩
  exact absurd (unset.1.symm.trans isResult) (by simp)

end TransactionCell

/-- The table holds the newest cell of a signature, and every cell that does not fail. -/
structure TransactionRequestCache.Sound (cache : TransactionRequestCache) : Prop where
  known : ∀ signature cell, cache.cells signature = some cell →
    cell < cache.allocated ∧ (cache.heap cell).signature = signature
  newest : ∀ signature cell, cache.cells signature = some cell →
    ∀ other < cache.allocated, (cache.heap other).signature = signature → other ≤ cell
  kept : ∀ cell < cache.allocated, ¬ (cache.heap cell).Failing →
    cache.cells (cache.heap cell).signature = some cell

/-- What a step of one call does to the cache. -/
structure Frame (cache next : TransactionRequestCache) (actor : Nat) : Prop where
  allocated : cache.allocated ≤ next.allocated
  made : ∀ cell < cache.allocated, (next.heap cell).signature = (cache.heap cell).signature ∧
    (next.heap cell).leader = (cache.heap cell).leader
  fresh : ∀ cell, cache.allocated ≤ cell → cell < next.allocated →
    (next.heap cell).leader = actor
  value : ∀ cell < cache.allocated, ∀ result, (cache.heap cell).value = some result →
    (next.heap cell).value = some result
  notified : ∀ cell < cache.allocated,
    (cache.heap cell).notified ≤ (next.heap cell).notified
  others : ∀ cell < cache.allocated, (cache.heap cell).leader ≠ actor →
    next.heap cell = cache.heap cell
  table : ∀ signature cell, cell < cache.allocated → next.cells signature = some cell →
    cache.cells signature = some cell

theorem Frame.refl (cache : TransactionRequestCache) (actor : Nat) :
    Frame cache cache actor where
  allocated := le_rfl
  made _ _ := ⟨rfl, rfl⟩
  fresh _ old new := absurd new (Nat.not_lt.mpr old)
  value _ _ _ isValue := isValue
  notified _ _ := le_rfl
  others _ _ _ := rfl
  table _ _ _ holds := holds

/-! ## Registering -/

/-- What the registration of some signatures did to the cache it began with. -/
structure Registers (start : TransactionRequestCache) (call : Nat) (signatures : List Text)
    (known : Registration) : Prop where
  sound : known.cache.Sound
  keys : known.rows.map Prod.fst = signatures
  rows : ∀ row ∈ known.rows, known.cache.cells row.1 = some row.2
  allocated : start.allocated ≤ known.cache.allocated
  old : ∀ cell < start.allocated, known.cache.heap cell = start.heap cell
  fresh : ∀ cell, start.allocated ≤ cell → cell < known.cache.allocated →
    (known.cache.heap cell).leader = call ∧ (known.cache.heap cell).Unset
  leaders : ∀ signature cell, (signature, cell) ∈ known.leaders ↔
    start.allocated ≤ cell ∧ cell < known.cache.allocated ∧
      (known.cache.heap cell).signature = signature
  nodup : (known.leaders.map Prod.fst).Nodup
  held : ∀ signature cell, start.cells signature = some cell →
    known.cache.cells signature = some cell
  table : ∀ signature cell, known.cache.cells signature = some cell →
    start.cells signature = some cell ∨ start.allocated ≤ cell

variable {cache : TransactionRequestCache} {call : Nat}

theorem Registers.start (sound : cache.Sound) :
    Registers cache call [] ⟨cache, [], []⟩ where
  sound := sound
  keys := rfl
  rows row member := absurd member not_mem_nil
  allocated := le_rfl
  old _ _ := rfl
  fresh _ old new := absurd new (Nat.not_lt.mpr old)
  leaders signature cell := by
    constructor
    · exact fun member => absurd member not_mem_nil
    · exact fun bounds => absurd bounds.2.1 (Nat.not_lt.mpr bounds.1)
  nodup := nodup_nil
  held _ _ holds := holds
  table _ _ holds := .inl holds

variable {signature : Text}

theorem TransactionRequestCache.Sound.allocate (sound : cache.Sound) (leader : Nat)
    (unknown : cache.cells signature = none) :
    (cache.allocate leader signature).Sound where
  known other cell holds := by
    by_cases same : other = signature
    · have isNew : cache.allocated = cell := by
        simpa [TransactionRequestCache.allocate, same] using holds
      simp [TransactionRequestCache.allocate, ← isNew, same]
    · have before := sound.known other cell (by
        simpa [TransactionRequestCache.allocate, same] using holds)
      simpa [TransactionRequestCache.allocate, before.1.ne, Nat.lt_succ_of_lt before.1]
        using before.2
  newest other cell holds older bound isSignature := by
    have older_le : older ≤ cache.allocated := Nat.lt_succ_iff.mp bound
    by_cases same : other = signature
    · have isNew : cache.allocated = cell := by
        simpa [TransactionRequestCache.allocate, same] using holds
      exact isNew ▸ older_le
    · have different : older ≠ cache.allocated := by
        rintro rfl
        exact same (by simpa [TransactionRequestCache.allocate] using isSignature.symm)
      exact sound.newest other cell
        (by simpa [TransactionRequestCache.allocate, same] using holds) older
        (lt_of_le_of_ne older_le different)
        (by simpa [TransactionRequestCache.allocate, different] using isSignature)
  kept cell bound healthy := by
    by_cases isNew : cell = cache.allocated
    · simp [TransactionRequestCache.allocate, isNew]
    · have before := sound.kept cell (lt_of_le_of_ne (Nat.lt_succ_iff.mp bound) isNew)
        (by simpa [TransactionRequestCache.allocate, isNew] using healthy)
      have different : (cache.heap cell).signature ≠ signature := by
        intro same
        rw [same, unknown] at before
        cases before
      simpa [TransactionRequestCache.allocate, isNew, different] using before

variable {start : TransactionRequestCache} {signatures : List Text} {known : Registration}

theorem Registers.add (registers : Registers start call signatures known) (signature : Text) :
    Registers start call (signatures ++ [signature]) (known.add call signature) := by
  unfold Registration.add
  split
  · next cell holds =>
      exact { registers with
        keys := by rw [map_append, registers.keys]; rfl
        rows := by
          intro row member
          rcases mem_append.mp member with before | last
          · exact registers.rows row before
          · rcases mem_singleton.mp last with rfl
            exact holds }
  · next unknown =>
      have leader_known : ∀ row ∈ known.leaders, known.cache.cells row.1 = some row.2 := by
        intro row member
        rcases (registers.leaders row.1 row.2).mp member with ⟨old, new, isSignature⟩
        exact isSignature ▸ registers.sound.kept row.2 new
          (registers.fresh row.2 old new).2.not_failing
      exact {
        sound := registers.sound.allocate call unknown
        keys := by rw [map_append, registers.keys]; rfl
        rows := by
          intro row member
          rcases mem_append.mp member with before | last
          · have holds := registers.rows row before
            have different : row.1 ≠ signature := by
              intro same
              rw [same, unknown] at holds
              cases holds
            simpa [TransactionRequestCache.allocate, different] using holds
          · simp [mem_singleton.mp last, TransactionRequestCache.allocate]
        allocated := Nat.le_succ_of_le registers.allocated
        old := by
          intro cell bound
          have different : cell ≠ known.cache.allocated :=
            (lt_of_lt_of_le bound registers.allocated).ne
          simpa [TransactionRequestCache.allocate, different] using registers.old cell bound
        fresh := by
          intro cell old new
          by_cases isNew : cell = known.cache.allocated
          · simp [TransactionRequestCache.allocate, isNew, TransactionCell.Unset]
          · simpa [TransactionRequestCache.allocate, isNew] using
              registers.fresh cell old (lt_of_le_of_ne (Nat.lt_succ_iff.mp new) isNew)
        leaders := by
          intro other cell
          rw [mem_append, registers.leaders, mem_singleton]
          have start_le := registers.allocated
          by_cases isNew : cell = known.cache.allocated
          · simp [TransactionRequestCache.allocate, isNew, start_le, eq_comm]
          · have smaller : cell < known.cache.allocated + 1 ↔ cell < known.cache.allocated := by
              omega
            simp [TransactionRequestCache.allocate, isNew, smaller]
        nodup := by
          rw [map_append, map_singleton, nodup_append_comm]
          refine nodup_cons.mpr ⟨?_, registers.nodup⟩
          intro member
          rcases mem_map.mp member with ⟨row, inside, same⟩
          have holds := leader_known row inside
          rw [same, unknown] at holds
          cases holds
        held := by
          intro other cell before
          have holds := registers.held other cell before
          have different : other ≠ signature := by
            intro same
            rw [same, unknown] at holds
            cases holds
          simpa [TransactionRequestCache.allocate, different] using holds
        table := by
          intro other cell holds
          by_cases same : other = signature
          · right
            have isNew : known.cache.allocated = cell := by
              simpa [TransactionRequestCache.allocate, same] using holds
            exact isNew ▸ registers.allocated
          · exact registers.table other cell (by
              simpa [TransactionRequestCache.allocate, same] using holds) }

theorem registers_register (sound : cache.Sound) (call : Nat) (signatures : List Text) :
    Registers cache call signatures (register cache call signatures) := by
  induction signatures using List.reverseRecOn with
  | nil => exact .start sound
  | append_singleton signatures signature induction =>
      rw [register, foldl_concat, ← register]
      exact induction.add signature

theorem Registers.frame (registers : Registers start call signatures known) :
    Frame start known.cache call where
  allocated := registers.allocated
  made cell bound := by rw [registers.old cell bound]; exact ⟨rfl, rfl⟩
  fresh cell old new := (registers.fresh cell old new).1
  value cell bound result isValue := by rw [registers.old cell bound, isValue]
  notified cell bound := by rw [registers.old cell bound]
  others cell bound _ := registers.old cell bound
  table signature cell bound holds :=
    (registers.table signature cell holds).resolve_right (Nat.not_le.mpr bound)

/-! ## What holds of a call -/

def leaderResult (batches : List BatchTask) (signature : Text) : TransactionResult :=
  fetchedResult (batches.flatMap BatchTask.rows) signature

def Await.Sound (cell : TransactionCell) : Await → Prop
  | ready => True
  | listening seen => seen ≤ cell.notified
  | asleep seen => seen = 0

def IsRead (cache : TransactionRequestCache) (row : CellRef) (read : TransactionRow) : Prop :=
  read.1 = row.1 ∧ (cache.heap row.2).value = some read.2

/-- The leaders whose cells are not set yet, with the results that are left for them. -/
structure Setting (cache : TransactionRequestCache) (leaders : List CellRef)
    (batches : List BatchTask) (fetched : List TransactionRow) (todo : List CellRef) :
    Prop where
  subset : todo ⊆ leaders
  nodup : (todo.map Prod.fst).Nodup
  unset : ∀ row ∈ todo, (cache.heap row.2).Unset
  fetched : ∀ row ∈ todo, fetchedResult fetched row.1 = leaderResult batches row.1

/-- The rows that are read, and those of them that fail. -/
structure Waiting (cache : TransactionRequestCache) (rows : List CellRef) (await : Await)
    (todo : List CellRef) (out : List TransactionRow) (evict : List CellRef) : Prop where
  read : ∃ seen, rows = seen ++ todo ∧ List.Forall₂ (IsRead cache) seen out ∧
    ∀ row ∈ seen, (cache.heap row.2).Failing → row ∈ evict
  evict : ∀ row ∈ evict, row ∈ rows ∧ (cache.heap row.2).Failing
  await : ∀ row ∈ todo.head?, await.Sound (cache.heap row.2)

def PhaseHolds (cache : TransactionRequestCache) (rows leaders : List CellRef)
    (batches : List BatchTask) : FetchPhase → Prop
  | .fetching => ∀ row ∈ leaders, (cache.heap row.2).Unset
  | .setting fetched todo => Setting cache leaders batches fetched todo ∧
      ∀ row ∈ leaders, row ∈ todo ∨ (cache.heap row.2).Settled (leaderResult batches row.1)
  | .notifying fetched cell todo => Setting cache leaders batches fetched todo ∧
      ∃ signature, (signature, cell) ∈ leaders ∧ (signature, cell) ∉ todo ∧
        (cache.heap cell).value = some (leaderResult batches signature) ∧
        (cache.heap cell).notified = 0 ∧
        ∀ row ∈ leaders, row ∈ todo ∨ row.2 = cell ∨
          (cache.heap row.2).Settled (leaderResult batches row.1)
  | .waiting await todo out evict =>
      (∀ row ∈ leaders, (cache.heap row.2).Settled (leaderResult batches row.1)) ∧
        Waiting cache rows await todo out evict
  | .done out =>
      (∀ row ∈ leaders, (cache.heap row.2).Settled (leaderResult batches row.1)) ∧
        List.Forall₂ (IsRead cache) rows out ∧
        ∀ row ∈ rows, (cache.heap row.2).Failing → cache.cells row.1 ≠ some row.2

/-- What holds of a call in every phase. -/
structure CallHolds (cache : TransactionRequestCache) (number : Nat) (call : FetchCall) :
    Prop where
  keys : call.rows.map Prod.fst = call.signatures
  rows : ∀ row ∈ call.rows, row.2 < cache.allocated ∧ (cache.heap row.2).signature = row.1
  leaders : ∀ signature cell, (signature, cell) ∈ call.leaders ↔
    cell < cache.allocated ∧ (cache.heap cell).signature = signature ∧
      (cache.heap cell).leader = number
  nodup : (call.leaders.map Prod.fst).Nodup
  running : (call.batches.flatMap BatchTask.inFlight).Sublist (call.leaders.map Prod.fst)
  joined : call.phase = .fetching ∨ ∀ task ∈ call.batches, task.isRunning = false
  phase : PhaseHolds cache call.rows call.leaders call.batches call.phase

variable {rows todo : List CellRef} {row : CellRef} {out : List TransactionRow} {await : Await}
  {evict : List CellRef}

section

variable {cache next : TransactionRequestCache} {number actor : Nat} {call : FetchCall} {read :
  TransactionRow}

theorem IsRead.frame (frame : Frame cache next actor) (bound : row.2 < cache.allocated)
    (isRead : IsRead cache row read) : IsRead next row read :=
  ⟨isRead.1, frame.value row.2 bound read.2 isRead.2⟩

theorem IsRead.failing_of_frame (frame : Frame cache next actor) (bound : row.2 < cache.allocated)
    (isRead : IsRead cache row read) (failing : (next.heap row.2).Failing) :
    (cache.heap row.2).Failing := by
  rcases failing with ⟨result, isResult, fails⟩
  have same := (frame.value row.2 bound read.2 isRead.2).symm.trans isResult
  exact ⟨result, isRead.2.trans same, fails⟩

theorem forall₂_isRead_frame (frame : Frame cache next actor)
    (bounds : ∀ row ∈ rows, row.2 < cache.allocated) (reads : List.Forall₂ (IsRead cache) rows out)
    :
    List.Forall₂ (IsRead next) rows out ∧
      ∀ row ∈ rows, (next.heap row.2).Failing → (cache.heap row.2).Failing := by
  induction reads with
  | nil => exact ⟨.nil, fun row member => absurd member not_mem_nil⟩
  | cons isRead reads induction =>
      have here := bounds _ mem_cons_self
      have rest := induction fun row member => bounds row (mem_cons_of_mem _ member)
      refine ⟨.cons (isRead.frame frame here) rest.1, ?_⟩
      intro row member failing
      rcases mem_cons.mp member with rfl | inside
      · exact isRead.failing_of_frame frame here failing
      · exact rest.2 row inside failing

theorem Await.Sound.frame {cell : Nat} (frame : Frame cache next actor)
    (bound : cell < cache.allocated) (sound : await.Sound (cache.heap cell)) :
    await.Sound (next.heap cell) := by
  cases await with
  | ready => trivial
  | listening seen => exact Nat.le_trans sound (frame.notified cell bound)
  | asleep seen => exact sound

theorem Waiting.frame (frame : Frame cache next actor)
    (bounds : ∀ row ∈ rows, row.2 < cache.allocated)
    (waiting : Waiting cache rows await todo out evict) :
    Waiting next rows await todo out evict := by
  rcases waiting.read with ⟨seen, isSplit, reads, failing⟩
  have seenBounds : ∀ row ∈ seen, row.2 < cache.allocated := fun row member =>
    bounds row (isSplit ▸ mem_append_left _ member)
  have framed := forall₂_isRead_frame frame seenBounds reads
  constructor
  · exact ⟨seen, isSplit, framed.1, fun row member fails =>
      failing row member (framed.2 row member fails)⟩
  · intro row member
    rcases waiting.evict row member with ⟨inside, result, isResult, fails⟩
    exact ⟨inside, result, frame.value row.2 (bounds row inside) result isResult, fails⟩
  · intro row isHead
    have member : row ∈ rows :=
      isSplit ▸ mem_append_right _ (List.mem_of_mem_head? isHead)
    exact (waiting.await row isHead).frame frame (bounds row member)

/-- A step of another call keeps what holds of this one. -/
theorem CallHolds.frame (frame : Frame cache next actor) (different : number ≠ actor)
    (holds : CallHolds cache number call) : CallHolds next number call := by
  have bounds : ∀ row ∈ call.rows, row.2 < cache.allocated := fun row member =>
    (holds.rows row member).1
  have same : ∀ row ∈ call.leaders, next.heap row.2 = cache.heap row.2 := by
    intro row member
    rcases (holds.leaders row.1 row.2).mp member with ⟨bound, -, isLeader⟩
    exact frame.others row.2 bound (isLeader ▸ different)
  have settled : ∀ row ∈ call.leaders, ∀ result, (cache.heap row.2).Settled result →
      (next.heap row.2).Settled result := by
    intro row member result isSettled
    rwa [same row member]
  have setting : ∀ fetched todo, Setting cache call.leaders call.batches fetched todo →
      Setting next call.leaders call.batches fetched todo := by
    intro fetched todo isSetting
    exact { isSetting with
      unset := fun row member => by
        rw [same row (isSetting.subset member)]
        exact isSetting.unset row member }
  refine { holds with rows := ?_, leaders := ?_, phase := ?_ }
  · intro row member
    have before := holds.rows row member
    exact ⟨before.1.trans_le frame.allocated, (frame.made row.2 before.1).1.trans before.2⟩
  · intro signature cell
    rw [holds.leaders]
    by_cases old : cell < cache.allocated
    · rw [(frame.made cell old).1, (frame.made cell old).2]
      simp only [old, old.trans_le frame.allocated]
    · constructor
      · exact fun bounded => absurd bounded.1 old
      · rintro ⟨new, -, isLeader⟩
        have isActor := frame.fresh cell (Nat.not_lt.mp old) new
        exact absurd (isLeader.symm.trans isActor) different
  · have phase := holds.phase
    cases isPhase : call.phase with
    | fetching =>
        rw [isPhase] at phase
        intro row member
        rw [same row member]
        exact phase row member
    | setting fetched todo =>
        rw [isPhase] at phase
        refine ⟨setting _ _ phase.1, fun row member => ?_⟩
        exact (phase.2 row member).imp_right (settled row member _)
    | notifying fetched cell todo =>
        rw [isPhase] at phase
        rcases phase with ⟨isSetting, signature, member, fresh, isValue, quiet, rest⟩
        have sameCell : next.heap cell = cache.heap cell := same _ member
        refine ⟨setting _ _ isSetting, signature, member, fresh, sameCell ▸ isValue,
          sameCell ▸ quiet, fun row inside => ?_⟩
        exact (rest row inside).imp_right (Or.imp_right (settled row inside _))
    | waiting await todo out evict =>
        rw [isPhase] at phase
        exact ⟨fun row member => settled row member _ (phase.1 row member),
          phase.2.frame frame bounds⟩
    | done out =>
        rw [isPhase] at phase
        have framed := forall₂_isRead_frame frame bounds phase.2.1
        refine ⟨fun row member => settled row member _ (phase.1 row member), framed.1, ?_⟩
        intro row member failing held
        exact phase.2.2 row member (framed.2 row member failing)
          (frame.table row.1 row.2 (bounds row member) held)

theorem CallHolds.leader_eq (holds : CallHolds cache number call) {other : CellRef}
    (member : row ∈ call.leaders) (otherMember : other ∈ call.leaders) (same : row.2 = other.2) :
    row = other := by
  have first := ((holds.leaders row.1 row.2).mp member).2.1
  have second := ((holds.leaders other.1 other.2).mp otherMember).2.1
  exact Prod.ext (first.symm.trans (same ▸ second)) same

theorem CallHolds.cell (holds : CallHolds cache number call) (member : row ∈ call.leaders) :
    (cache.heap row.2).Unset ∨
      (cache.heap row.2).value = some (leaderResult call.batches row.1) := by
  have phase := holds.phase
  cases isPhase : call.phase with
  | fetching =>
      rw [isPhase] at phase
      exact .inl (phase row member)
  | setting fetched todo =>
      rw [isPhase] at phase
      exact (phase.2 row member).imp (phase.1.unset row) And.left
  | notifying fetched cell todo =>
      rw [isPhase] at phase
      rcases phase with ⟨isSetting, signature, isLeader, -, isValue, -, rest⟩
      rcases rest row member with inside | same | settled
      · exact .inl (isSetting.unset row inside)
      · right
        rw [holds.leader_eq member isLeader same]
        exact isValue
      · exact .inr settled.1
  | waiting await todo out evict | done out =>
      rw [isPhase] at phase
      exact .inr (phase.1 row member).1

end

/-! ## What a call does -/

section

variable {cache next : TransactionRequestCache} {number cell : Nat} {call : FetchCall}

theorem TransactionRequestCache.Sound.of_heap (sound : cache.Sound)
    (cells : next.cells = cache.cells) (allocated : next.allocated = cache.allocated)
    (signature : ∀ cell, (next.heap cell).signature = (cache.heap cell).signature)
    (failing : ∀ cell, (cache.heap cell).Failing → (next.heap cell).Failing) : next.Sound where
  known other cell holds := by
    rw [allocated, signature]
    exact sound.known other cell (cells ▸ holds)
  newest other cell holds older bound isSignature :=
    sound.newest other cell (cells ▸ holds) older (allocated ▸ bound)
      ((signature older).symm.trans isSignature)
  kept cell bound healthy := by
    rw [cells, signature]
    exact sound.kept cell (allocated ▸ bound) fun fails => healthy (failing cell fails)

theorem store_sound (sound : cache.Sound) (unset : (cache.heap cell).value = none)
    (result : TransactionResult) : (cache.store cell result).Sound := by
  refine sound.of_heap rfl rfl (fun other => ?_) fun other failing => ?_
  · by_cases same : other = cell <;> simp [TransactionRequestCache.store, same]
  · have different : other ≠ cell := by
      rintro rfl
      rcases failing with ⟨value, isValue, -⟩
      exact absurd (unset.symm.trans isValue) (by simp)
    simpa [TransactionRequestCache.store, different] using failing

theorem store_frame (leader : (cache.heap cell).leader = number)
    (unset : (cache.heap cell).value = none) (result : TransactionResult) :
    Frame cache (cache.store cell result) number where
  allocated := le_rfl
  made other _ := by by_cases same : other = cell <;> simp [TransactionRequestCache.store, same]
  fresh _ old new := absurd new (Nat.not_lt.mpr old)
  value other _ value isValue := by
    have different : other ≠ cell := by
      rintro rfl
      exact absurd (unset.symm.trans isValue) (by simp)
    simpa [TransactionRequestCache.store, different] using isValue
  notified other _ := by
    by_cases same : other = cell <;> simp [TransactionRequestCache.store, same]
  others other _ foreign := by
    have different : other ≠ cell := fun same => foreign (same ▸ leader)
    simp [TransactionRequestCache.store, different]
  table _ _ _ holds := holds

theorem notify_sound (sound : cache.Sound) (cell : Nat) : (cache.notifyWaiters cell).Sound := by
  refine sound.of_heap rfl rfl (fun other => ?_) fun other failing => ?_
  · by_cases same : other = cell <;> simp [TransactionRequestCache.notifyWaiters, same]
  · by_cases same : other = cell
    · subst same
      simpa [TransactionRequestCache.notifyWaiters, TransactionCell.Failing] using failing
    · simpa [TransactionRequestCache.notifyWaiters, same] using failing

theorem notify_frame (leader : (cache.heap cell).leader = number) :
    Frame cache (cache.notifyWaiters cell) number where
  allocated := le_rfl
  made other _ := by
    by_cases same : other = cell <;> simp [TransactionRequestCache.notifyWaiters, same]
  fresh _ old new := absurd new (Nat.not_lt.mpr old)
  value other _ value isValue := by
    by_cases same : other = cell
    · subst same
      simpa [TransactionRequestCache.notifyWaiters] using isValue
    · simpa [TransactionRequestCache.notifyWaiters, same] using isValue
  notified other _ := by
    by_cases same : other = cell <;> simp [TransactionRequestCache.notifyWaiters, same]
  others other _ foreign := by
    have different : other ≠ cell := fun same => foreign (same ▸ leader)
    simp [TransactionRequestCache.notifyWaiters, different]
  table _ _ _ holds := holds

theorem evict_eq_some_iff (rows : List CellRef) :
    (cache.evict rows).cells signature = some cell ↔
      cache.cells signature = some cell ∧ (signature, cell) ∉ rows := by
  induction rows generalizing cache with
  | nil => simp [TransactionRequestCache.evict]
  | cons row rows induction =>
      have first : cache.evict (row :: rows) = (cache.evict [row]).evict rows := rfl
      have single : (cache.evict [row]).cells signature = some cell ↔
          cache.cells signature = some cell ∧ (signature, cell) ≠ row := by
        obtain ⟨other, otherCell⟩ := row
        simp only [TransactionRequestCache.evict, foldl_cons, foldl_nil]
        split
        · next held =>
            by_cases same : signature = other
            · subst same
              simp [held, eq_comm]
            · simp [same]
        · next gone =>
            constructor
            · refine fun held => ⟨held, ?_⟩
              rintro ⟨⟩
              exact gone held
            · exact And.left
      rw [first, induction, single, mem_cons, not_or, and_assoc]

theorem evict_sound (sound : cache.Sound) (failing : ∀ row ∈ rows, (cache.heap row.2).Failing) :
    (cache.evict rows).Sound where
  known signature cell holds := sound.known signature cell ((evict_eq_some_iff rows).mp holds).1
  newest signature _ holds :=
    sound.newest signature _ ((evict_eq_some_iff rows).mp holds).1
  kept cell bound healthy := (evict_eq_some_iff rows).mpr
    ⟨sound.kept cell bound healthy, fun member => healthy (failing _ member)⟩

theorem evict_frame (rows : List CellRef) : Frame cache (cache.evict rows) number where
  allocated := le_rfl
  made _ _ := ⟨rfl, rfl⟩
  fresh _ old new := absurd new (Nat.not_lt.mpr old)
  value _ _ _ isValue := isValue
  notified _ _ := le_rfl
  others _ _ _ := rfl
  table _ _ _ holds := ((evict_eq_some_iff rows).mp holds).1

variable {phase : FetchPhase}

theorem CallHolds.withPhase (holds : CallHolds cache number call) (frame : Frame cache next number)
    (allocated : next.allocated = cache.allocated)
    (joined : ∀ task ∈ call.batches, task.isRunning = false)
    (reached : PhaseHolds next call.rows call.leaders call.batches phase) :
    CallHolds next number { call with phase := phase } where
  keys := holds.keys
  rows row member := by
    have before := holds.rows row member
    exact ⟨allocated ▸ before.1, (frame.made row.2 before.1).1.trans before.2⟩
  leaders signature cell := by
    rw [holds.leaders, allocated]
    refine and_congr_right fun bound => ?_
    rw [(frame.made cell bound).1, (frame.made cell bound).2]
  nodup := holds.nodup
  running := holds.running
  joined := .inr joined
  phase := reached

variable {fetched : List TransactionRow}

theorem CallHolds.store (holds : CallHolds cache number call) {leader : CellRef}
    (setting : Setting cache call.leaders call.batches fetched (leader :: todo))
    (settled : ∀ row ∈ call.leaders, row ∈ leader :: todo ∨
      (cache.heap row.2).Settled (leaderResult call.batches row.1)) :
    PhaseHolds (cache.store leader.2 (fetchedResult fetched leader.1)) call.rows call.leaders
      call.batches (.notifying (fetched.filter fun row => row.1 ≠ leader.1) leader.2 todo) := by
  have isLeader : leader ∈ call.leaders := setting.subset mem_cons_self
  rcases nodup_cons.mp setting.nodup with ⟨fresh, nodup⟩
  have later : ∀ row ∈ todo, row.1 ≠ leader.1 := fun row member same =>
    fresh (same ▸ mem_map_of_mem member)
  have elsewhere : ∀ row ∈ todo, row.2 ≠ leader.2 := by
    intro row member same
    have inside := setting.subset (mem_cons_of_mem _ member)
    exact later row member (congrArg Prod.fst (holds.leader_eq inside isLeader same))
  refine ⟨⟨?_, nodup, ?_, ?_⟩, leader.1, isLeader, ?_, ?_, ?_, ?_⟩
  · exact fun row member => setting.subset (mem_cons_of_mem _ member)
  · intro row member
    simpa [TransactionRequestCache.store, elsewhere row member] using
      setting.unset row (mem_cons_of_mem _ member)
  · intro row member
    rw [← setting.fetched row (mem_cons_of_mem _ member), fetchedResult, fetchedResult,
      lastByKey_filter]
    intro entry _ isKey
    simpa [Option.some.inj isKey] using later row member
  · exact fun member => later leader member rfl
  · simp [TransactionRequestCache.store, setting.fetched leader mem_cons_self]
  · simpa [TransactionRequestCache.store] using (setting.unset leader mem_cons_self).2
  · intro row member
    by_cases same : row.2 = leader.2
    · exact .inr (.inl same)
    · rcases settled row member with inside | isSettled
      · rcases mem_cons.mp inside with rfl | inside
        · exact absurd rfl same
        · exact .inl inside
      · exact .inr (.inr (by simpa [TransactionRequestCache.store, same] using isSettled))

theorem CallHolds.notify (holds : CallHolds cache number call)
    (notifying : PhaseHolds cache call.rows call.leaders call.batches
      (.notifying fetched cell todo)) :
    PhaseHolds (cache.notifyWaiters cell) call.rows call.leaders call.batches
      (.setting fetched todo) := by
  rcases notifying with ⟨setting, signature, isLeader, fresh, isValue, quiet, rest⟩
  refine ⟨{ setting with unset := ?_ }, fun row member => ?_⟩
  · intro row member
    have different : row.2 ≠ cell := by
      intro same
      exact fresh (holds.leader_eq (setting.subset member) isLeader same ▸ member)
    simpa [TransactionRequestCache.notifyWaiters, different] using setting.unset row member
  · by_cases same : row.2 = cell
    · have isRow := holds.leader_eq member isLeader same
      exact .inr ⟨by simpa [TransactionRequestCache.notifyWaiters, isRow] using isValue,
        by simp [TransactionRequestCache.notifyWaiters, isRow, quiet]⟩
    · refine (rest row member).imp_right fun isSettled => ?_
      simpa [TransactionRequestCache.notifyWaiters, same] using isSettled.resolve_left same

theorem Waiting.receive (waiting : Waiting cache rows await (row :: todo) out evict)
    {result : TransactionResult} (isValue : (cache.heap row.2).value = some result) :
    Waiting cache rows .ready todo (out ++ [(row.1, result)])
      (if isTransaction result then evict else evict ++ [row]) := by
  rcases waiting.read with ⟨seen, isSplit, reads, failing⟩
  have member : row ∈ rows := isSplit ▸ by simp
  refine ⟨⟨seen ++ [row], by simp [isSplit], ?_, ?_⟩, ?_, fun _ _ => trivial⟩
  · exact rel_append reads (.cons ⟨rfl, isValue⟩ .nil)
  · intro other inside fails
    rcases mem_append.mp inside with before | last
    · have listed := failing other before fails
      split
      · exact listed
      · exact mem_append_left _ listed
    · rcases mem_singleton.mp last with rfl
      rcases fails with ⟨failure, isFailure, fails⟩
      have same := Option.some.inj (isValue.symm.trans isFailure)
      rw [same, fails]
      exact mem_append_right _ mem_cons_self
  · intro other inside
    split at inside
    · exact waiting.evict other inside
    · next fails =>
        rcases mem_append.mp inside with before | last
        · exact waiting.evict other before
        · rcases mem_singleton.mp last with rfl
          exact ⟨member, result, isValue, Bool.not_eq_true _ ▸ fails⟩

/-- What a step of a call keeps. -/
structure Kept (cache next : TransactionRequestCache) (number : Nat) (call : FetchCall) :
    Prop where
  sound : next.Sound
  frame : Frame cache next number
  allocated : next.allocated = cache.allocated
  holds : CallHolds next number call

theorem CallHolds.act (holds : CallHolds cache number call) (sound : cache.Sound)
    (quiet : ∀ row ∈ call.rows, (cache.heap row.2).value = none →
      (cache.heap row.2).notified = 0) (acted : call.act cache = some (next, phase)) :
    Kept cache next number { call with phase := phase } := by
  have stays : ∀ phase, (∀ task ∈ call.batches, task.isRunning = false) →
      PhaseHolds cache call.rows call.leaders call.batches phase →
      Kept cache cache number { call with phase := phase } := fun phase joined reached =>
    ⟨sound, .refl cache number, rfl, holds.withPhase (.refl cache number) rfl joined reached⟩
  have current := holds.phase
  have joined := holds.joined
  unfold FetchCall.act at acted
  split at acted <;> rename_i isPhase <;> rw [isPhase] at current joined
  · -- All batches are joined.
    split at acted
    · cases acted
    · next joined =>
        cases acted
        refine stays _ (by simpa using joined) ⟨⟨List.Subset.refl _, holds.nodup, current, ?_⟩,
          fun row member => .inl member⟩
        exact fun _ _ => rfl
  all_goals replace joined := joined.resolve_left (by simp)
  · -- Every leader's cell is set.
    cases acted
    refine stays _ joined ⟨fun row member => ?_, ⟨⟨[], rfl, .nil, ?_⟩, ?_, fun _ _ => trivial⟩⟩
    · exact (current.2 row member).resolve_left not_mem_nil
    · exact fun row member => absurd member not_mem_nil
    · exact fun row member => absurd member not_mem_nil
  · -- The next leader's cell is set.
    next fetched leader todo =>
      cases acted
      have unset := (current.1.unset leader mem_cons_self).1
      have isLeader := ((holds.leaders leader.1 leader.2).mp
        (current.1.subset mem_cons_self)).2.2
      have frame := store_frame isLeader unset (fetchedResult fetched leader.1)
      exact ⟨store_sound sound unset _, frame, rfl,
        holds.withPhase frame rfl joined (holds.store current.1 current.2)⟩
  · -- Its waiters are notified.
    next fetched cell todo =>
      cases acted
      rcases current.2 with ⟨signature, member, -⟩
      have frame := notify_frame ((holds.leaders signature cell).mp member).2.2
      exact ⟨notify_sound sound cell, frame, rfl,
        holds.withPhase frame rfl joined (holds.notify current)⟩
  · -- Every row is read.
    next await out evict =>
      cases acted
      rcases current.2.read with ⟨seen, isSplit, reads, failing⟩
      have frame : Frame cache (cache.evict evict) number := evict_frame evict
      rw [append_nil] at isSplit
      refine ⟨evict_sound sound fun row member => (current.2.evict row member).2, frame, rfl,
        holds.withPhase frame rfl joined ⟨current.1, isSplit ▸ reads, ?_⟩⟩
      intro row member fails held
      exact ((evict_eq_some_iff evict).mp held).2 (failing row (isSplit ▸ member) fails)
  · -- A listener is made.
    cases acted
    refine stays _ joined ⟨current.1, { current.2 with await := ?_ }⟩
    intro row isHead
    rcases Option.mem_some.mp isHead with rfl
    exact le_rfl
  · next seen row todo out evict =>
      have sees : seen ≤ (cache.heap row.2).notified := current.2.await row rfl
      split at acted
      · -- The cell is empty: nobody was notified before the listener was made.
        next empty =>
          cases acted
          refine stays _ joined ⟨current.1, { current.2 with await := ?_ }⟩
          intro other isHead
          rcases Option.mem_some.mp isHead with rfl
          have member : row ∈ call.rows := by
            rcases current.2.read with ⟨before, isSplit, -⟩
            simp [isSplit]
          exact Nat.le_zero.mp (quiet row member empty ▸ sees)
      · next result isValue =>
          cases acted
          exact stays _ joined ⟨current.1, current.2.receive isValue⟩
  · split at acted
    · cases acted
      exact stays _ joined ⟨current.1, { current.2 with await := fun _ _ => trivial }⟩
    · cases acted
  · cases acted

end

end NftData.Analysis2
