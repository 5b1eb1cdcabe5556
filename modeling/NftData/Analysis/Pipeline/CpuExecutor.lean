import NftData.Foundation.Accumulation
import NftData.Foundation.Machine

namespace NftData.Analysis.CpuExecutor

open Function

/-! # The CPU executor

Submitters take permits from one admission and put their jobs into the queue of a lane. The
dispatcher of the lane hands jobs to the pool while fewer run than the lane has workers. A job
gives its permit back when its body ends, and its dispatcher learns of the end afterwards. -/

open List

/-! ## The scheduler of a lane -/

inductive CpuTaskKind where
  | dedup
  | responseDecode
  | analysis
  | compress
  deriving DecidableEq

abbrev Task := CpuTaskKind × Nat

def jobsOf (kind : CpuTaskKind) (tasks : List Task) : List Nat :=
  (tasks.filter fun task => task.1 = kind).map Prod.snd

structure WeightedScheduler where
  capacity : Nat
  queues : CpuTaskKind → List Nat
  cursor : Nat
  ownerShardsOpen : Bool

namespace WeightedScheduler

def new (capacity : Nat) : WeightedScheduler := ⟨capacity, fun _ => [], 0, true⟩

def length (scheduler : WeightedScheduler) : Nat :=
  (scheduler.queues .dedup).length + (scheduler.queues .responseDecode).length +
    (scheduler.queues .analysis).length + (scheduler.queues .compress).length

def setQueue (scheduler : WeightedScheduler) (kind : CpuTaskKind) (jobs : List Nat) :
    WeightedScheduler :=
  { scheduler with queues := Function.update scheduler.queues kind jobs }

def tryPush (scheduler : WeightedScheduler) (task : Task) : Option WeightedScheduler :=
  if scheduler.length ≥ scheduler.capacity then
    none
  else
    some (scheduler.setQueue task.1 (scheduler.queues task.1 ++ [task.2]))

def openWeights : List CpuTaskKind :=
  [.dedup, .dedup, .dedup, .responseDecode, .responseDecode, .analysis, .compress, .dedup]

def closedWeights : List CpuTaskKind :=
  [.analysis, .analysis, .analysis, .responseDecode, .responseDecode, .compress, .analysis,
    .compress]

def weights (scheduler : WeightedScheduler) : List CpuTaskKind :=
  if scheduler.ownerShardsOpen then openWeights else closedWeights

/-- `queues[kind].pop_front()`. -/
def popFront (scheduler : WeightedScheduler) (kind : CpuTaskKind) :
    Option (Task × WeightedScheduler) :=
  match scheduler.queues kind with
  | [] => none
  | job :: jobs => some ((kind, job), scheduler.setQueue kind jobs)

/-- Any queue that has a job, when the weights have found none. -/
def popAny (scheduler : WeightedScheduler) : Option Task × WeightedScheduler :=
  match [CpuTaskKind.dedup, .responseDecode, .analysis, .compress].findSome? scheduler.popFront with
  | some (task, rest) => (some task, rest)
  | none => (none, scheduler)

def popWeighted : Nat → WeightedScheduler → Option Task × WeightedScheduler
  | 0, scheduler => scheduler.popAny
  | turns + 1, scheduler =>
      let kind := scheduler.weights.getD (scheduler.cursor % 8) .dedup
      let turned := { scheduler with cursor := (scheduler.cursor + 1) % 2 ^ 64 }
      match turned.popFront kind with
      | some (task, rest) => (some task, rest)
      | none => popWeighted turns turned

def pop (scheduler : WeightedScheduler) : Option Task × WeightedScheduler := popWeighted 8 scheduler

variable {scheduler rest : WeightedScheduler} {task : Task} {kind : CpuTaskKind}

/-- A pop leaves the queues alone and finds them empty, or takes the first job of one of them. -/
def Pops (scheduler : WeightedScheduler) : Option Task × WeightedScheduler → Prop
  | (none, rest) => (∀ kind, scheduler.queues kind = []) ∧ rest.queues = scheduler.queues ∧
      rest.capacity = scheduler.capacity
  | (some task, rest) => scheduler.queues task.1 = task.2 :: rest.queues task.1 ∧
      (∀ kind, kind ≠ task.1 → rest.queues kind = scheduler.queues kind) ∧
      rest.capacity = scheduler.capacity

theorem popFront_eq_none_iff : scheduler.popFront kind = none ↔ scheduler.queues kind = [] := by
  rw [popFront]
  cases scheduler.queues kind with
  | nil => simp
  | cons job jobs => simp

theorem pops_of_popFront (popped : scheduler.popFront kind = some (task, rest)) :
    scheduler.Pops (some task, rest) := by
  rw [popFront] at popped
  cases queue : scheduler.queues kind with
  | nil => simp [queue] at popped
  | cons job jobs =>
      rw [queue] at popped
      cases popped
      refine ⟨?_, fun other different => update_of_ne different .., rfl⟩
      have left : (scheduler.setQueue kind jobs).queues kind = jobs := update_self ..
      rw [left]
      exact queue

theorem pops_popAny (scheduler : WeightedScheduler) : scheduler.Pops scheduler.popAny := by
  rw [popAny]
  split
  · next found =>
      rcases List.exists_of_findSome?_eq_some found with ⟨kind, -, popped⟩
      exact pops_of_popFront popped
  · next missing =>
      refine ⟨fun kind => popFront_eq_none_iff.mp (List.findSome?_eq_none_iff.mp missing kind ?_),
        rfl, rfl⟩
      cases kind <;> simp

theorem pops_popWeighted (turns : Nat) (scheduler : WeightedScheduler) :
    scheduler.Pops (popWeighted turns scheduler) := by
  induction turns generalizing scheduler with
  | zero => exact scheduler.pops_popAny
  | succ turns induction =>
      rw [popWeighted]
      split
      · next popped =>
          have pops := pops_of_popFront popped
          exact pops
      · next missed =>
          have pops := induction { scheduler with cursor := (scheduler.cursor + 1) % 2 ^ 64 }
          exact pops

theorem pops_pop (scheduler : WeightedScheduler) : scheduler.Pops scheduler.pop :=
  pops_popWeighted 8 scheduler

theorem length_of_pops (pops : scheduler.Pops (some task, rest)) :
    scheduler.length = rest.length + 1 := by
  rcases task with ⟨kind, job⟩
  rcases pops with ⟨taken, others, -⟩
  have lengths := congrArg List.length taken
  rw [length_cons] at lengths
  rw [length, length]
  cases kind <;> simp only [ne_eq, reduceCtorEq, not_false_eq_true, others] at lengths ⊢ <;> omega

/-! ### Waiting jobs -/

/-- The turns of other kinds before that of a kind. -/
def turnsUntil (scheduler : WeightedScheduler) (kind : CpuTaskKind) : Nat :=
  (scheduler.weights.rotate (scheduler.cursor % 8)).idxOf kind

theorem turnsUntil_lt (hasShare : kind ∈ scheduler.weights) : scheduler.turnsUntil kind < 8 := by
  rw [turnsUntil]
  refine (idxOf_lt_length_of_mem (mem_rotate.mpr hasShare)).trans_eq ?_
  rw [length_rotate, weights]
  split <;> rfl

theorem turnsUntil_turned (hasShare : kind ∈ scheduler.weights)
    (other : scheduler.weights.getD (scheduler.cursor % 8) .dedup ≠ kind) :
    turnsUntil { scheduler with cursor := (scheduler.cursor + 1) % 2 ^ 64 } kind + 1 =
      scheduler.turnsUntil kind := by
  have turn : ∀ isOpen, ∀ place < 8, ∀ kind,
      let weights := if isOpen = true then openWeights else closedWeights
      kind ∈ weights → weights.getD place .dedup ≠ kind →
        (weights.rotate ((place + 1) % 8)).idxOf kind + 1 = (weights.rotate place).idxOf kind := by
    intro isOpen place inside kind
    revert place
    cases isOpen <;> cases kind <;> decide
  have same : (scheduler.cursor + 1) % 2 ^ 64 % 8 = (scheduler.cursor % 8 + 1) % 8 := by omega
  simp only [turnsUntil, same]
  exact turn _ _ (Nat.mod_lt _ (by decide)) kind hasShare other

theorem turns_popWeighted {turns : Nat} (waits : scheduler.queues kind ≠ [])
    (hasShare : kind ∈ scheduler.weights) (near : scheduler.turnsUntil kind < turns) :
    ∃ task rest, popWeighted turns scheduler = (some task, rest) ∧ rest.weights = scheduler.weights ∧
      (task.1 = kind ∨ rest.turnsUntil kind < scheduler.turnsUntil kind) := by
  induction turns generalizing scheduler with
  | zero => cases near
  | succ turns induction =>
      rw [popWeighted]
      by_cases isTurn : scheduler.weights.getD (scheduler.cursor % 8) .dedup = kind
      · rcases exists_cons_of_ne_nil waits with ⟨job, jobs, queue⟩
        simp only [isTurn, popFront, queue]
        exact ⟨_, _, rfl, rfl, .inl rfl⟩
      · have turned := turnsUntil_turned hasShare isTurn
        split
        · next popped =>
            rw [popFront] at popped
            split at popped
            · cases popped
            · cases popped
              exact ⟨_, _, rfl, rfl, .inr (Nat.lt_of_succ_le turned.le)⟩
        · rcases @induction { scheduler with cursor := (scheduler.cursor + 1) % 2 ^ 64 } waits
            hasShare (by omega) with ⟨task, rest, popped, same, closer⟩
          exact ⟨task, rest, popped, same, closer.imp_right fun less => by omega⟩

/-- The kinds of the jobs that are taken while jobs come in; `none` is a pop. -/
def serve : WeightedScheduler → List (Option Task) → List CpuTaskKind
  | _, [] => []
  | scheduler, some task :: calls => ((scheduler.tryPush task).getD scheduler).serve calls
  | scheduler, none :: calls =>
      match scheduler.pop with
      | (some task, rest) => task.1 :: rest.serve calls
      | (none, rest) => rest.serve calls

/-- Whatever is pushed in between, the next job of a kind that has a share is taken in its turn, and
each further one that waits after eight more pops at the latest. -/
theorem waiting_served (calls : List (Option Task)) (waiting : Nat)
    (hasShare : kind ∈ scheduler.weights) (waits : waiting ≤ (scheduler.queues kind).length)
    (enough : scheduler.turnsUntil kind + 8 * waiting ≤ calls.count none + 7) :
    waiting ≤ (scheduler.serve calls).count kind := by
  induction calls generalizing scheduler waiting with
  | nil =>
      rw [count_nil] at enough
      omega
  | cons call calls induction =>
      cases call with
      | some task =>
          rw [count_cons_of_ne (by simp)] at enough
          rw [serve, tryPush]
          split
          · exact induction waiting hasShare waits enough
          · refine induction waiting hasShare (waits.trans ?_) enough
            rw [Option.getD_some, setQueue]
            by_cases same : kind = task.1 <;> simp [same]
      | none =>
          rw [count_cons_self] at enough
          by_cases nothing : waiting = 0
          · omega
          · have nonempty : scheduler.queues kind ≠ [] := by
              intro empty
              rw [empty] at waits
              exact nothing (Nat.le_zero.mp waits)
            rcases turns_popWeighted nonempty hasShare (turnsUntil_lt hasShare) with
              ⟨task, rest, popped, weights, closer⟩
            have pops := scheduler.pops_pop
            rw [serve, pop, popped]
            rw [pop, popped] at pops
            rw [← weights] at hasShare
            simp only
            by_cases same : task.1 = kind
            · have turns := turnsUntil_lt hasShare
              rw [same, count_cons_self]
              have taken := congrArg List.length pops.1
              rw [same, length_cons] at taken
              have served := induction (waiting - 1) hasShare (by omega) (by omega)
              omega
            · have turns := closer.resolve_left same
              rw [count_cons_of_ne same]
              refine induction waiting hasShare ?_ (by omega)
              rwa [pops.2.1 kind (Ne.symm same)]

theorem waiting_served_compress :
    2 ≤ (serve ((new 9).setQueue .compress [7, 8]) (replicate 15 none)).count .compress :=
  waiting_served _ 2 (by decide) (by decide) (by decide)

end WeightedScheduler

/-! ## A lane -/

/-- A dispatcher with the jobs of its pool, and the lane's history. -/
structure Lane where
  workers : Nat
  scheduler : WeightedScheduler
  running : Nat
  /-- Jobs that the pool has been given. -/
  spawned : List Task
  /-- Jobs whose body runs. -/
  executing : List Task
  /-- Bodies that have ended without the dispatcher knowing. -/
  completing : Nat
  submitted : List Task
  /-- What the dispatcher has taken from the queue. -/
  taken : List Task
  started : List Task

namespace Lane

def new (workers capacity : Nat) : Lane := ⟨workers, .new capacity, 0, [], [], 0, [], [], []⟩

/-- `take_ready`, with the workers that are free. -/
def takeReady : Nat → Lane → Lane
  | 0, lane => lane
  | free + 1, lane =>
      match lane.scheduler.pop with
      | (none, scheduler) => { lane with scheduler := scheduler }
      | (some task, scheduler) =>
          takeReady free { lane with
            scheduler := scheduler
            running := lane.running + 1
            spawned := lane.spawned ++ [task]
            taken := lane.taken ++ [task] }

def dispatch (lane : Lane) : Lane := lane.takeReady (lane.workers - lane.running)

/-- `none` is the panic of a full queue. -/
def enqueue (lane : Lane) (task : Task) : Option Lane :=
  (lane.scheduler.tryPush task).map fun scheduler =>
    dispatch { lane with scheduler := scheduler, submitted := lane.submitted ++ [task] }

def start (lane : Lane) (task : Task) : Lane :=
  { lane with
    spawned := lane.spawned.erase task
    executing := task :: lane.executing
    started := lane.started ++ [task] }

def finish (lane : Lane) (task : Task) : Lane :=
  { lane with executing := lane.executing.erase task, completing := lane.completing + 1 }

/-- `none` is the panic of a completion that was not running. -/
def complete (lane : Lane) : Option Lane :=
  if lane.running = 0 then
    none
  else
    some (dispatch { lane with running := lane.running - 1, completing := lane.completing - 1 })

def setOwnerShardsOpen (lane : Lane) (isOpen : Bool) : Lane :=
  { lane with scheduler := { lane.scheduler with ownerShardsOpen := isOpen } }

def permits (lane : Lane) : Nat :=
  lane.scheduler.length + lane.spawned.length + lane.executing.length

def work (lane : Lane) : Nat :=
  3 * lane.scheduler.length + 3 * lane.spawned.length + 2 * lane.executing.length + lane.completing

/-- What a dispatcher keeps, also while it takes jobs. -/
structure Fits (lane : Lane) : Prop where
  running : lane.running = lane.spawned.length + lane.executing.length + lane.completing
  bounded : lane.running ≤ lane.workers
  inOrder : ∀ kind, jobsOf kind lane.submitted = jobsOf kind lane.taken ++ lane.scheduler.queues kind
  once : lane.taken.Perm (lane.started ++ lane.spawned)

/-- No job waits while fewer run than there are workers. -/
def Busy (lane : Lane) : Prop :=
  lane.running < lane.workers → ∀ kind, lane.scheduler.queues kind = []

/-- Taking jobs changes nothing else. -/
structure Takes (lane next : Lane) : Prop where
  fits : next.Fits
  busy : next.Busy
  workers : next.workers = lane.workers
  capacity : next.scheduler.capacity = lane.scheduler.capacity
  waiting : next.scheduler.length + next.spawned.length =
    lane.scheduler.length + lane.spawned.length
  executing : next.executing = lane.executing
  completing : next.completing = lane.completing

variable {lane next : Lane} {task : Task}

theorem jobsOf_append (kind : CpuTaskKind) (tasks more : List Task) :
    jobsOf kind (tasks ++ more) = jobsOf kind tasks ++ jobsOf kind more := by
  rw [jobsOf, filter_append, map_append]
  rfl

theorem takes_takeReady (free : Nat) (fits : lane.Fits) (isFree : lane.running + free = lane.workers) :
    lane.Takes (lane.takeReady free) := by
  induction free generalizing lane with
  | zero =>
      exact ⟨fits, fun below => absurd isFree (Nat.ne_of_lt below), rfl, rfl, rfl, rfl, rfl⟩
  | succ free induction =>
      have pops := lane.scheduler.pops_pop
      rw [takeReady]
      split
      · next scheduler popped =>
          rw [popped] at pops
          rcases pops with ⟨empty, same, capacity⟩
          refine ⟨⟨fits.running, fits.bounded, fun kind => ?_, fits.once⟩, fun _ kind => ?_, rfl,
            capacity, ?_, rfl, rfl⟩
          · rw [same]
            exact fits.inOrder kind
          · exact (congrFun same kind).trans (empty kind)
          · simp only [WeightedScheduler.length, same]
      · next task scheduler popped =>
          rw [popped] at pops
          have length := WeightedScheduler.length_of_pops pops
          have counted := fits.running
          have stillFits : Fits { lane with
              scheduler := scheduler
              running := lane.running + 1
              spawned := lane.spawned ++ [task]
              taken := lane.taken ++ [task] } := by
            refine ⟨?_, ?_, fun kind => ?_, ?_⟩
            · simp only [length_append, length_singleton]
              omega
            · simp only
              omega
            · rw [fits.inOrder kind, jobsOf_append, List.append_assoc]
              congr 1
              by_cases same : kind = task.1
              · rw [same, pops.1]
                simp [jobsOf]
              · rw [pops.2.1 kind same]
                simp [jobsOf, Ne.symm same]
            · simp only [← List.append_assoc]
              exact fits.once.append_right [task]
          have takes := induction stillFits (by simp only; omega)
          refine ⟨takes.fits, takes.busy, takes.workers, takes.capacity.trans pops.2.2,
            takes.waiting.trans ?_, takes.executing, takes.completing⟩
          simp only [length_append, length_singleton]
          omega

theorem takes_dispatch (fits : lane.Fits) : lane.Takes lane.dispatch :=
  takes_takeReady _ fits (Nat.add_sub_of_le fits.bounded)

/-- A lane of so many workers between two critical sections. -/
structure Holds (workers capacity : Nat) (lane : Lane) : Prop where
  fits : lane.Fits
  busy : lane.Busy
  workers : lane.workers = workers
  capacity : lane.scheduler.capacity = capacity

/-- What a step does to a lane that holds: the permits and the work before and after. -/
structure Steps (workers capacity : Nat) (lane next : Lane) (permits before after : Nat) : Prop where
  holds : next.Holds workers capacity
  permits : next.permits = permits
  work : next.work + before = lane.work + after

variable {workers capacity : Nat}

theorem holds_new (workers capacity : Nat) : (new workers capacity).Holds workers capacity :=
  ⟨⟨rfl, Nat.zero_le _, fun _ => rfl, .nil⟩, fun _ _ => rfl, rfl, rfl⟩

theorem steps_dispatch {middle : Lane} {before after : Nat} (fits : middle.Fits)
    (sameWorkers : middle.workers = workers) (sameCapacity : middle.scheduler.capacity = capacity)
    (work : middle.work + before = lane.work + after) :
    lane.Steps workers capacity middle.dispatch middle.permits before after := by
  have takes := takes_dispatch fits
  refine ⟨⟨takes.fits, takes.busy, takes.workers.trans sameWorkers,
    takes.capacity.trans sameCapacity⟩, ?_, ?_⟩
  · rw [permits, permits, takes.waiting, takes.executing]
  · have waiting := takes.waiting
    rw [← work, Lane.work, Lane.work, takes.executing, takes.completing]
    omega

theorem length_setQueue_push (scheduler : WeightedScheduler) (task : Task) :
    (scheduler.setQueue task.1 (scheduler.queues task.1 ++ [task.2])).length =
      scheduler.length + 1 := by
  rcases task with ⟨kind, job⟩
  rw [WeightedScheduler.length, WeightedScheduler.length, WeightedScheduler.setQueue]
  cases kind <;> simp <;> omega

section

variable (holds : lane.Holds workers capacity)
include holds

theorem steps_enqueue (room : lane.scheduler.length < capacity) (task : Task) :
    ∃ next, lane.enqueue task = some next ∧
      lane.Steps workers capacity next (lane.permits + 1) 0 3 := by
  have pushed : lane.scheduler.tryPush task = some
      (lane.scheduler.setQueue task.1 (lane.scheduler.queues task.1 ++ [task.2])) :=
    if_neg (by rw [holds.capacity]; omega)
  have length := length_setQueue_push lane.scheduler task
  refine ⟨_, by rw [enqueue, pushed, Option.map_some], ?_⟩
  have fits : Fits { lane with
      scheduler := lane.scheduler.setQueue task.1 (lane.scheduler.queues task.1 ++ [task.2])
      submitted := lane.submitted ++ [task] } := by
    refine ⟨holds.fits.running, holds.fits.bounded, fun kind => ?_, holds.fits.once⟩
    rw [jobsOf_append, holds.fits.inOrder kind, List.append_assoc]
    congr 1
    by_cases same : kind = task.1
    · simp [same, jobsOf, WeightedScheduler.setQueue]
    · simp [jobsOf, WeightedScheduler.setQueue, update_of_ne same, Ne.symm same]
  have steps := @steps_dispatch lane workers capacity _ 0 3 fits holds.workers holds.capacity (by
    simp only [work]
    omega)
  have permits : Lane.permits { lane with
      scheduler := lane.scheduler.setQueue task.1 (lane.scheduler.queues task.1 ++ [task.2])
      submitted := lane.submitted ++ [task] } = lane.permits + 1 := by
    simp only [Lane.permits]
    omega
  exact permits ▸ steps

theorem steps_start (isSpawned : task ∈ lane.spawned) :
    lane.Steps workers capacity (lane.start task) lane.permits 1 0 := by
  have fewer := length_erase_of_mem isSpawned
  have some := length_pos_of_mem isSpawned
  have counted := holds.fits.running
  refine ⟨⟨⟨?_, holds.fits.bounded, holds.fits.inOrder, ?_⟩, holds.busy, holds.workers,
    holds.capacity⟩, ?_, ?_⟩
  · simp only [start, length_cons]
    omega
  · refine holds.fits.once.trans ?_
    rw [start, List.append_assoc]
    exact (perm_cons_erase isSpawned).append_left lane.started
  · simp only [start, permits, length_cons]
    omega
  · simp only [start, work, length_cons]
    omega

theorem steps_finish (runs : task ∈ lane.executing) :
    lane.Steps workers capacity (lane.finish task) (lane.permits - 1) 1 0 := by
  have fewer := length_erase_of_mem runs
  have some := length_pos_of_mem runs
  have counted := holds.fits.running
  refine ⟨⟨⟨?_, holds.fits.bounded, holds.fits.inOrder, holds.fits.once⟩, holds.busy,
    holds.workers, holds.capacity⟩, ?_, ?_⟩
  · simp only [finish]
    omega
  · simp only [finish, permits]
    omega
  · simp only [finish, work]
    omega

theorem steps_complete (pending : lane.completing ≠ 0) :
    ∃ next, lane.complete = some next ∧ lane.Steps workers capacity next lane.permits 1 0 := by
  have counted := holds.fits.running
  have bounded := holds.fits.bounded
  refine ⟨_, if_neg (by omega), ?_⟩
  refine @steps_dispatch lane workers capacity
    { lane with running := lane.running - 1, completing := lane.completing - 1 } 1 0
    ⟨?_, ?_, holds.fits.inOrder, holds.fits.once⟩ holds.workers holds.capacity ?_
  · simp only
    omega
  · simp only
    omega
  · simp only [work]
    omega

theorem steps_setOwnerShardsOpen (isOpen : Bool) :
    lane.Steps workers capacity (lane.setOwnerShardsOpen isOpen) lane.permits 0 0 :=
  ⟨⟨⟨holds.fits.running, holds.fits.bounded, holds.fits.inOrder, holds.fits.once⟩, holds.busy,
    holds.workers, holds.capacity⟩, rfl, rfl⟩

end

end Lane

/-! ## Lanes under one admission -/

/-- What `build` accepts: every lane has workers, and the queues have room. -/
structure Config (lanes : Nat) where
  workers : Fin lanes → Nat
  queueCapacity : Nat
  workers_pos : ∀ lane, 0 < workers lane
  queueCapacity_pos : 0 < queueCapacity

/-- `workers.saturating_add(queue_capacity)`, the permits and the room in each queue. -/
def Config.limit {lanes : Nat} (config : Config lanes) : Nat :=
  min (∑ lane, config.workers lane + config.queueCapacity) (2 ^ 64 - 1)

structure Executor (lanes : Nat) where
  inflight : Nat
  /-- Submitters that have a permit and are yet to put their job into a queue. -/
  admitted : Nat
  lane : Fin lanes → Lane
  panicked : Bool

inductive Event (lanes : Nat) where
  | acquire
  | enqueue (lane : Fin lanes) (task : Task)
  | start (lane : Fin lanes) (task : Task)
  | finish (lane : Fin lanes) (task : Task)
  | complete (lane : Fin lanes)
  | setOwnerShardsOpen (lane : Fin lanes) (isOpen : Bool)

namespace Event

variable {lanes : Nat}

def isWork : Event lanes → Bool
  | .acquire | .setOwnerShardsOpen _ _ => false
  | _ => true

def isAcquire : Event lanes → Bool
  | .acquire => true
  | _ => false

end Event

namespace Executor

variable {lanes : Nat} (config : Config lanes)

def build : Executor lanes := ⟨0, 0, fun lane => .new (config.workers lane) config.limit, false⟩

def setLane (executor : Executor lanes) (lane : Fin lanes) (next : Lane) : Executor lanes :=
  { executor with lane := Function.update executor.lane lane next }

def panic (executor : Executor lanes) : Executor lanes := { executor with panicked := true }

def step (executor : Executor lanes) : Event lanes → Option (Executor lanes)
  | .acquire =>
      if executor.inflight < config.limit then
        some { executor with
          inflight := executor.inflight + 1
          admitted := executor.admitted + 1 }
      else
        none
  | .enqueue lane task =>
      if executor.admitted = 0 then
        none
      else
        match (executor.lane lane).enqueue task with
        | some next => some { executor.setLane lane next with admitted := executor.admitted - 1 }
        | none => some executor.panic
  | .start lane task =>
      if task ∈ (executor.lane lane).spawned then
        some (executor.setLane lane ((executor.lane lane).start task))
      else
        none
  | .finish lane task =>
      if task ∈ (executor.lane lane).executing then
        if executor.inflight = 0 then
          some executor.panic
        else
          some { executor.setLane lane ((executor.lane lane).finish task) with
            inflight := executor.inflight - 1 }
      else
        none
  | .complete lane =>
      if (executor.lane lane).completing = 0 then
        none
      else
        match (executor.lane lane).complete with
        | some next => some (executor.setLane lane next)
        | none => some executor.panic
  | .setOwnerShardsOpen lane isOpen =>
      some (executor.setLane lane ((executor.lane lane).setOwnerShardsOpen isOpen))

/-- Every permit is held by a submitter or by a job that waits or runs. -/
structure Holds (executor : Executor lanes) : Prop where
  lane : ∀ lane, (executor.lane lane).Holds (config.workers lane) config.limit
  inflight : executor.inflight = executor.admitted + ∑ lane, (executor.lane lane).permits
  limited : executor.inflight ≤ config.limit
  panicked : executor.panicked = false

def work (executor : Executor lanes) : Nat :=
  4 * executor.admitted + ∑ lane, (executor.lane lane).work

variable {config} {executor next : Executor lanes}

theorem holds_build : (build config).Holds config :=
  ⟨fun lane => Lane.holds_new (config.workers lane) config.limit,
    by simp [build, Lane.new, Lane.permits, WeightedScheduler.new, WeightedScheduler.length],
    Nat.zero_le _, rfl⟩

theorem holds_setLane (holds : executor.Holds config) {lane : Fin lanes} {next : Lane}
    {permits before after inflight admitted : Nat}
    (steps : (executor.lane lane).Steps (config.workers lane) config.limit next permits before after)
    (balance : inflight + executor.admitted + (executor.lane lane).permits =
      executor.inflight + admitted + permits)
    (limited : inflight ≤ config.limit) :
    let moved := { executor.setLane lane next with inflight := inflight, admitted := admitted }
    moved.Holds config ∧ moved.work + before + 4 * executor.admitted =
      executor.work + after + 4 * admitted := by
  have permitSum := sum_update_add Lane.permits executor.lane lane next
  have workSum := sum_update_add Lane.work executor.lane lane next
  have counted := holds.inflight
  have permitsOf := steps.permits
  have workOf := steps.work
  refine ⟨⟨fun other => ?_, ?_, limited, holds.panicked⟩, ?_⟩
  · by_cases same : other = lane
    · subst same
      change (Function.update executor.lane other next other).Holds _ _
      rw [update_self]
      exact steps.holds
    · change (Function.update executor.lane lane next other).Holds _ _
      rw [update_of_ne same]
      exact holds.lane other
  · change inflight = admitted + ∑ other, (Function.update executor.lane lane next other).permits
    omega
  · change 4 * admitted + ∑ other, (Function.update executor.lane lane next other).work + before +
      4 * executor.admitted = 4 * executor.admitted + ∑ other, (executor.lane other).work + after +
        4 * admitted
    omega

theorem permits_le_sum (executor : Executor lanes) (lane : Fin lanes) :
    (executor.lane lane).permits ≤ ∑ other, (executor.lane other).permits :=
  Finset.single_le_sum (f := fun other => (executor.lane other).permits)
    (fun _ _ => Nat.zero_le _) (Finset.mem_univ lane)

theorem room_of_admitted (holds : executor.Holds config) (admitted : 0 < executor.admitted)
    (lane : Fin lanes) : (executor.lane lane).scheduler.length < config.limit := by
  have inside := permits_le_sum executor lane
  have counted := holds.inflight
  have limited := holds.limited
  simp only [Lane.permits] at inside counted
  omega

theorem holds_step {event : Event lanes} (holds : executor.Holds config)
    (taken : executor.step config event = some next) :
    next.Holds config ∧
      next.work + event.isWork.toNat = executor.work + 4 * event.isAcquire.toNat := by
  have counted := holds.inflight
  have limited := holds.limited
  cases event with
  | acquire =>
      rw [step] at taken
      split at taken
      · next free =>
          cases taken
          refine ⟨⟨holds.lane, ?_, free, holds.panicked⟩, ?_⟩
          · simp only
            omega
          · change 4 * (executor.admitted + 1) + ∑ lane, (executor.lane lane).work =
              4 * executor.admitted + ∑ lane, (executor.lane lane).work + 4
            omega
      · cases taken
  | enqueue lane task =>
      rw [step] at taken
      split at taken
      · cases taken
      · next admitted =>
          have room := room_of_admitted holds (Nat.pos_of_ne_zero admitted) lane
          rcases Lane.steps_enqueue (holds.lane lane) room task with ⟨pushed, isPushed, steps⟩
          rw [isPushed] at taken
          have moved : next.Holds config ∧ next.work + 0 + 4 * executor.admitted =
              executor.work + 3 + 4 * (executor.admitted - 1) := by
            cases taken
            exact @holds_setLane _ _ _ holds lane pushed _ _ _ executor.inflight
              (executor.admitted - 1) steps (by omega) limited
          refine ⟨moved.1, ?_⟩
          have balance := moved.2
          change next.work + 1 = executor.work + 0
          omega
  | start lane task =>
      rw [step] at taken
      split at taken
      · next isSpawned =>
          cases taken
          have moved := holds_setLane holds (Lane.steps_start (holds.lane lane) isSpawned)
            rfl limited
          exact ⟨moved.1, Nat.add_right_cancel moved.2⟩
      · cases taken
  | finish lane task =>
      rw [step] at taken
      split at taken
      · next runs =>
          have inside := permits_le_sum executor lane
          have some := length_pos_of_mem runs
          have held : 0 < (executor.lane lane).permits := by
            simp only [Lane.permits]
            omega
          rw [if_neg (by omega)] at taken
          cases taken
          have moved := @holds_setLane _ _ _ holds lane _ _ _ _ (executor.inflight - 1)
            executor.admitted (Lane.steps_finish (holds.lane lane) runs) (by omega) (by omega)
          exact ⟨moved.1, Nat.add_right_cancel moved.2⟩
      · cases taken
  | complete lane =>
      rw [step] at taken
      split at taken
      · cases taken
      · next pending =>
          rcases Lane.steps_complete (holds.lane lane) pending with ⟨completed, isCompleted, steps⟩
          rw [isCompleted] at taken
          cases taken
          have moved := holds_setLane holds steps rfl limited
          exact ⟨moved.1, Nat.add_right_cancel moved.2⟩
  | setOwnerShardsOpen lane isOpen =>
      cases taken
      have moved := holds_setLane holds
        (Lane.steps_setOwnerShardsOpen (holds.lane lane) isOpen) rfl limited
      exact ⟨moved.1, Nat.add_right_cancel moved.2⟩

theorem run_step {events : List (Event lanes)} (holds : executor.Holds config)
    (ran : events.foldlM (step config) executor = some next) :
    next.Holds config ∧ events.countP (·.isWork) + next.work =
      executor.work + 4 * events.countP (·.isAcquire) := by
  induction events generalizing executor with
  | nil =>
      cases ran
      exact ⟨holds, by simp⟩
  | cons event events induction =>
      rw [foldlM_cons] at ran
      rcases Option.bind_eq_some_iff.mp ran with ⟨middle, taken, rest⟩
      rcases holds_step holds taken with ⟨keeps, here⟩
      rcases induction keeps rest with ⟨final, later⟩
      refine ⟨final, ?_⟩
      have counts : ∀ isKind : Event lanes → Bool, (event :: events).countP isKind =
          events.countP isKind + (isKind event).toNat := fun isKind => by
        rw [countP_cons]
        cases isKind event <;> rfl
      rw [counts, counts]
      omega

theorem jobsOf_perm {first second : List Task} (same : first.Perm second) (kind : CpuTaskKind) :
    (jobsOf kind first).Perm (jobsOf kind second) := (same.filter _).map _

theorem started_of_stuck (holds : executor.Holds config)
    (stuck : ∀ event : Event lanes, event.isWork = true → executor.step config event = none) :
    (0 < lanes → executor.admitted = 0) ∧ ∀ lane kind,
      (jobsOf kind (executor.lane lane).submitted).Perm (jobsOf kind (executor.lane lane).started) := by
  constructor
  · intro some
    by_contra admitted
    have pushes := stuck (.enqueue ⟨0, some⟩ (.dedup, 0)) rfl
    rw [step, if_neg admitted] at pushes
    split at pushes <;> cases pushes
  · intro lane kind
    have fits := (holds.lane lane).fits
    have noneSpawned : (executor.lane lane).spawned = [] := by
      refine eq_nil_iff_forall_not_mem.mpr fun task isSpawned => ?_
      have starts := stuck (.start lane task) rfl
      rw [step, if_pos isSpawned] at starts
      cases starts
    have noneExecuting : (executor.lane lane).executing = [] := by
      refine eq_nil_iff_forall_not_mem.mpr fun task runs => ?_
      have ends := stuck (.finish lane task) rfl
      rw [step, if_pos runs] at ends
      split at ends <;> cases ends
    have noneCompleting : (executor.lane lane).completing = 0 := by
      by_contra pending
      have completes := stuck (.complete lane) rfl
      rw [step, if_neg pending] at completes
      split at completes <;> cases completes
    have idle : (executor.lane lane).running < (executor.lane lane).workers := by
      rw [fits.running, noneSpawned, noneExecuting, noneCompleting, (holds.lane lane).workers]
      exact config.workers_pos lane
    have once := fits.once
    rw [noneSpawned, append_nil] at once
    rw [fits.inOrder kind, (holds.lane lane).busy idle kind, append_nil]
    exact jobsOf_perm once kind

/-- In every run, no lane panics, runs more jobs than it has workers, or lets a job wait that a
worker is free for. The jobs of a kind leave the queue of their lane in the order in which they
came, each is started once, and no run ends before all of them are. -/
theorem dispatcher_runs (config : Config lanes) (events : List (Event lanes))
    (executor : Executor lanes) (ran : events.foldlM (step config) (build config) = some executor) :
    executor.panicked = false ∧ executor.inflight ≤ config.limit ∧
    (∀ lane, (executor.lane lane).running ≤ config.workers lane ∧
      (0 < executor.admitted →
        (executor.lane lane).scheduler.length < (executor.lane lane).scheduler.capacity) ∧
      (∀ kind, jobsOf kind (executor.lane lane).submitted =
        jobsOf kind (executor.lane lane).taken ++ (executor.lane lane).scheduler.queues kind) ∧
      (executor.lane lane).taken.Perm
        ((executor.lane lane).started ++ (executor.lane lane).spawned) ∧
      ((executor.lane lane).spawned.length + (executor.lane lane).executing.length <
          config.workers lane → (executor.lane lane).completing = 0 →
        ∀ kind, (executor.lane lane).scheduler.queues kind = [])) ∧
    events.countP (·.isWork) ≤ 4 * events.countP (·.isAcquire) ∧
    ((∀ event : Event lanes, event.isWork = true → executor.step config event = none) →
      ∀ lane kind, (jobsOf kind (executor.lane lane).submitted).Perm
        (jobsOf kind (executor.lane lane).started)) := by
  rcases run_step holds_build ran with ⟨holds, counted⟩
  refine ⟨holds.panicked, holds.limited, fun lane => ?_, ?_, fun stuck => (started_of_stuck holds stuck).2⟩
  · have here := holds.lane lane
    have running := here.fits.running
    refine ⟨here.fits.bounded.trans_eq here.workers, fun admitted => ?_, here.fits.inOrder,
      here.fits.once, fun free none => here.busy ?_⟩
    · rw [here.capacity]
      exact room_of_admitted holds admitted lane
    · rw [here.workers]
      omega
  · have nothing : (build config).work = 0 := by
      simp [build, work, Lane.new, Lane.work, WeightedScheduler.new, WeightedScheduler.length]
    omega

/-! ### Two jobs of one kind -/

def twoWorkers : Config 1 := ⟨fun _ => 2, 1, fun _ => by decide, by decide⟩

def twoJobs : List (Event 1) :=
  [.acquire, .acquire, .enqueue 0 (.analysis, 1), .enqueue 0 (.analysis, 2),
    .start 0 (.analysis, 2), .start 0 (.analysis, 1)]

theorem dispatcher_runs_twoJobs : ∃ executor,
    twoJobs.foldlM (step twoWorkers) (build twoWorkers) = some executor ∧
      executor.panicked = false :=
  ⟨_, rfl, (dispatcher_runs twoWorkers twoJobs _ rfl).1⟩

/-- The pool may start a job before one that was submitted to its lane earlier. -/
theorem dispatcher_overtakes : ∃ executor,
    twoJobs.foldlM (step twoWorkers) (build twoWorkers) = some executor ∧
      jobsOf .analysis (executor.lane 0).submitted = [1, 2] ∧
        jobsOf .analysis (executor.lane 0).started = [2, 1] :=
  ⟨_, rfl, rfl, rfl⟩

end Executor

end NftData.Analysis.CpuExecutor
