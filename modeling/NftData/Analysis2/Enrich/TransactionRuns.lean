import NftData.Analysis2.Enrich.TransactionCache
import NftData.Foundation.Accumulation

namespace NftData.Analysis2

open Option
open FetchCall (start)

/-! # Runs of the transaction cache

Calls begin, act and receive their batches in any order. -/

open List

/-! ## What holds in every run -/

structure CacheRun.Sound (run : CacheRun) : Prop where
  cache : run.cache.Sound
  leader : ∀ cell < run.cache.allocated, (run.cache.heap cell).leader < run.calls.length
  calls : ∀ number call, run.calls[number]? = some call → CallHolds run.cache number call

/-- What a later state has kept, and what the calls that began since then read. -/
structure Later (run next : CacheRun) : Prop where
  same : ∀ number < run.calls.length,
    (next.calls[number]?).map (fun call => (call.rows, call.leaders)) =
      (run.calls[number]?).map fun call => (call.rows, call.leaders)
  allocated : run.cache.allocated ≤ next.cache.allocated
  signature : ∀ cell < run.cache.allocated,
    (next.cache.heap cell).signature = (run.cache.heap cell).signature
  value : ∀ cell < run.cache.allocated, ∀ result, (run.cache.heap cell).value = some result →
    (next.cache.heap cell).value = some result
  table : ∀ signature cell, cell < run.cache.allocated →
    next.cache.cells signature = some cell → run.cache.cells signature = some cell
  rows : ∀ number call, run.calls.length ≤ number → next.calls[number]? = some call →
    (∀ row ∈ call.rows, row.2 < run.cache.allocated → run.cache.cells row.1 = some row.2) ∧
      ∀ row ∈ call.leaders, run.cache.allocated ≤ row.2
  fresh : ∀ cell, run.cache.allocated ≤ cell → cell < next.cache.allocated →
    ∀ old < run.cache.allocated,
      (run.cache.heap old).signature = (next.cache.heap cell).signature →
      ∀ result, (run.cache.heap old).value = some result → isTransaction result = false

variable {outcome : List Text → BatchTask} {cache : TransactionRequestCache} {event : CacheEvent}
    {batch cell : Nat}

section

variable {print : Json → Text} {run next middle : CacheRun}

theorem Later.refl (run : CacheRun) : Later run run where
  same _ _ := rfl
  allocated := le_rfl
  signature _ _ := rfl
  value _ _ _ isValue := isValue
  table _ _ _ holds := holds
  rows number call old found := by
    rw [List.getElem?_eq_none old] at found
    cases found
  fresh _ old new := absurd new (Nat.not_lt.mpr old)

theorem Later.trans (first : Later run middle) (second : Later middle next)
    (shorter : run.calls.length ≤ middle.calls.length) : Later run next where
  same number old :=
    (second.same number (old.trans_le shorter)).trans (first.same number old)
  allocated := first.allocated.trans second.allocated
  signature cell old :=
    (second.signature cell (old.trans_le first.allocated)).trans (first.signature cell old)
  value cell old result isValue :=
    second.value cell (old.trans_le first.allocated) result (first.value cell old result isValue)
  table signature cell old holds := first.table signature cell old
    (second.table signature cell (old.trans_le first.allocated) holds)
  rows number call began found := by
    by_cases middleCall : number < middle.calls.length
    · have unchanged := second.same number middleCall
      rw [found, List.getElem?_eq_getElem middleCall, map_some, map_some] at unchanged
      have parts := Prod.mk.inj (Option.some.inj unchanged)
      rw [parts.1, parts.2]
      exact first.rows number _ began (List.getElem?_eq_getElem middleCall)
    · have later := second.rows number call (Nat.not_lt.mp middleCall) found
      exact ⟨fun row member old => first.table row.1 row.2 old
          (later.1 row member (old.trans_le first.allocated)),
        fun row member => first.allocated.trans (later.2 row member)⟩
  fresh cell began new old isOld sameSignature result isValue := by
    by_cases inMiddle : cell < middle.cache.allocated
    · rw [second.signature cell inMiddle] at sameSignature
      exact first.fresh cell began inMiddle old isOld sameSignature result isValue
    · exact second.fresh cell (Nat.not_lt.mp inMiddle) new old
        (isOld.trans_le first.allocated) ((first.signature old isOld).trans sameSignature) result
        (first.value old isOld result isValue)

section

variable (sound : run.Sound)
include sound

/-- Nobody is notified of a cell that is not set. -/
theorem CacheRun.Sound.quiet (bound : cell < run.cache.allocated)
    (empty : (run.cache.heap cell).value = none) :
    (run.cache.heap cell).notified = 0 := by
  have isCall := List.getElem?_eq_getElem (sound.leader cell bound)
  have holds := sound.calls _ _ isCall
  rcases holds.cell ((holds.leaders _ cell).mpr ⟨bound, rfl, rfl⟩) with unset | isValue
  · exact unset.2
  · exact absurd (empty.symm.trans isValue) (by simp)

variable {number : Nat}

/-- A step that only changes one call and its own cells. -/
theorem CacheRun.Sound.set {call updated : FetchCall} (found : run.calls[number]? = some call)
    (kept : Kept run.cache cache number updated) (rows : updated.rows = call.rows)
    (leaders : updated.leaders = call.leaders) :
    CacheRun.Sound ⟨cache, run.calls.set number updated⟩ ∧
      Later run ⟨cache, run.calls.set number updated⟩ := by
  have frame := kept.frame
  have bound : number < run.calls.length := (List.getElem?_eq_some_iff.mp found).1
  refine ⟨⟨kept.sound, ?_, ?_⟩, ?_⟩
  · intro cell old
    rw [kept.allocated] at old
    rw [(frame.made cell old).2, length_set]
    exact sound.leader cell old
  · intro other otherCall otherFound
    rw [List.getElem?_set] at otherFound
    split at otherFound
    · next same =>
        cases otherFound
        exact same ▸ kept.holds
    · next different =>
        exact (sound.calls other otherCall otherFound).frame frame (Ne.symm different)
  · exact {
      same := by
        intro other _
        by_cases same : number = other
        · subst same
          rw [List.getElem?_set_self bound, found, map_some, map_some, rows, leaders]
        · rw [List.getElem?_set_ne same]
      allocated := frame.allocated
      signature := fun cell old => (frame.made cell old).1
      value := frame.value
      table := frame.table
      rows := by
        intro other otherCall began otherFound
        rw [List.getElem?_eq_none (by simpa using began)] at otherFound
        cases otherFound
      fresh := by
        intro cell began new
        rw [kept.allocated] at new
        exact absurd new (Nat.not_lt.mpr began) }

/-- The call that registers its signatures. -/
theorem CacheRun.Sound.begin (signatures : List Text) :
    let known := register run.cache run.calls.length signatures
    CacheRun.Sound ⟨known.cache, run.calls ++ [.start signatures known]⟩ ∧
      Later run ⟨known.cache, run.calls ++ [.start signatures known]⟩ := by
  intro known
  have registers : Registers run.cache run.calls.length signatures known :=
    registers_register sound.cache run.calls.length signatures
  have frame := registers.frame
  have rows : ∀ row ∈ known.rows, row.2 < known.cache.allocated ∧
      (known.cache.heap row.2).signature = row.1 := fun row member =>
    registers.sound.known row.1 row.2 (registers.rows row member)
  have leaders : ∀ row ∈ known.leaders, (known.cache.heap row.2).Unset := by
    intro row member
    rcases (registers.leaders row.1 row.2).mp member with ⟨old, new, -⟩
    exact (registers.fresh row.2 old new).2
  have notRunning : known.leaders = [] → (start signatures known).batches = [] := by
    intro empty
    rw [start, empty]
    rfl
  have started : CallHolds known.cache run.calls.length (.start signatures known) := {
    keys := registers.keys
    rows := rows
    leaders := by
      intro signature cell
      rw [show (start signatures known).leaders = known.leaders from rfl,
        registers.leaders]
      constructor
      · rintro ⟨old, new, isSignature⟩
        exact ⟨new, isSignature, (registers.fresh cell old new).1⟩
      · rintro ⟨new, isSignature, isLeader⟩
        refine ⟨Nat.not_lt.mp fun old => ?_, new, isSignature⟩
        rw [registers.old cell old] at isLeader
        exact absurd (sound.leader cell old) (by omega)
    nodup := registers.nodup
    running := by
      rw [start, flatMap_map]
      have each : (fun chunk : List CellRef =>
          BatchTask.inFlight (.running (chunk.map Prod.fst))) = List.map Prod.fst := rfl
      rw [each, flatMap_def, ← map_flatten,
        flatten_chunks known.leaders (by decide : 0 < txRpcBatchSize)]
    joined := by
      by_cases empty : known.leaders = []
      · right
        rw [notRunning empty]
        exact fun task member => absurd member not_mem_nil
      · left
        simp [start, empty]
    phase := by
      by_cases empty : known.leaders = []
      · have isWaiting : (start signatures known).phase =
            .waiting .ready known.rows [] [] := by simp [start, empty]
        rw [isWaiting]
        refine ⟨?_, ⟨[], rfl, .nil, ?_⟩, ?_, fun _ _ => trivial⟩
        · rw [show (start signatures known).leaders = [] from empty]
          exact fun row member => absurd member not_mem_nil
        · exact fun row member => absurd member not_mem_nil
        · exact fun row member => absurd member not_mem_nil
      · have isFetching : (start signatures known).phase = .fetching := by
          simp [start, empty]
        rw [isFetching]
        exact leaders }
  refine ⟨⟨registers.sound, ?_, ?_⟩, ?_⟩
  · intro cell new
    rw [length_append]
    by_cases old : cell < run.cache.allocated
    · rw [(frame.made cell old).2]
      exact Nat.lt_add_right _ (sound.leader cell old)
    · rw [(registers.fresh cell (Nat.not_lt.mp old) new).1]
      exact Nat.lt_succ_self _
  · intro number call found
    rcases Nat.lt_trichotomy number run.calls.length with old | isLast | beyond
    · rw [List.getElem?_append_left old] at found
      exact (sound.calls number call found).frame frame old.ne
    · subst isLast
      rw [List.getElem?_concat_length] at found
      exact Option.some.inj found ▸ started
    · rw [List.getElem?_eq_none (by simpa using beyond)] at found
      cases found
  · exact {
      same := fun number old => by rw [List.getElem?_append_left old]
      allocated := frame.allocated
      signature := fun cell old => (frame.made cell old).1
      value := frame.value
      table := frame.table
      rows := by
        intro number call began found
        have isCall : call = .start signatures known := by
          rw [List.getElem?_append_right began] at found
          exact (mem_singleton.mp (mem_of_getElem? found))
        rw [isCall]
        exact ⟨fun row member old =>
            frame.table row.1 row.2 old (registers.rows row member),
          fun row member => ((registers.leaders row.1 row.2).mp member).1⟩
      fresh := by
        intro cell began new old isOld sameSignature result isValue
        by_contra succeeds
        have healthy : ¬ (run.cache.heap old).Failing := by
          rintro ⟨other, isOther, fails⟩
          exact succeeds (Option.some.inj (isValue.symm.trans isOther) ▸ fails)
        have holdsOld := registers.held _ _ (sound.cache.kept old isOld healthy)
        have holdsNew := registers.sound.kept cell new
          (registers.fresh cell began new).2.not_failing
        rw [sameSignature, holdsNew] at holdsOld
        exact absurd (Option.some.inj holdsOld) (by omega) }

/-- A batch that ends leaves the cache alone; its call still waits for its batches. -/
theorem CacheRun.Sound.finish (quiet : ∀ signatures, (outcome signatures).inFlight = [])
    (ended : run.finish number batch outcome = some next) : next.Sound ∧ Later run next := by
  rcases bind_eq_some_iff.mp ended with ⟨call, found, rest⟩
  split at rest
  · next signatures isTask =>
      cases rest
      have holds := sound.calls number call found
      have isFetching : call.phase = .fetching := holds.joined.resolve_right fun joined =>
        absurd (joined _ (mem_of_getElem? isTask)) (by simp [BatchTask.isRunning])
      refine sound.set found ⟨sound.cache, .refl _ _, rfl, { holds with
        running := ?_
        joined := .inl isFetching
        phase := ?_ }⟩ rfl rfl
      · refine List.Sublist.trans ?_ holds.running
        rcases List.getElem?_eq_some_iff.mp isTask with ⟨bound, -⟩
        rw [set_eq_take_append_cons_drop, if_pos bound, flatMap_append,
          flatMap_cons, quiet, nil_append]
        conv_rhs => rw [← take_append_drop batch call.batches, flatMap_append,
          drop_eq_getElem_cons bound, flatMap_cons]
        exact (List.Sublist.refl _).append (sublist_append_right _ _)
      · have phase := holds.phase
        simpa only [isFetching, PhaseHolds] using phase
  · cases rest

theorem CacheRun.Sound.step (taken : CacheRun.step print run event = some next) :
    next.Sound ∧ Later run next := by
  cases event with
  | call signatures =>
      cases taken
      exact sound.begin signatures
  | joined number batch reply | lost number batch => exact sound.finish (fun _ => rfl) taken
  | act number =>
      rcases bind_eq_some_iff.mp taken with ⟨call, found, rest⟩
      rcases bind_eq_some_iff.mp rest with ⟨acted, isAct, isNext⟩
      cases isNext
      have holds := sound.calls number call found
      exact sound.set found (holds.act sound.cache
        (fun row member => sound.quiet (holds.rows row member).1) isAct) rfl rfl

end

theorem Later.length_le (later : Later run next) : run.calls.length ≤ next.calls.length := by
  by_contra fewer
  have lost := later.same next.calls.length (Nat.not_le.mp fewer)
  rw [List.getElem?_eq_none le_rfl, List.getElem?_eq_getElem (Nat.not_le.mp fewer)] at lost
  cases lost

theorem CacheRun.sound_initial : CacheRun.initial.Sound where
  cache :=
    { known := fun _ _ holds => absurd holds (by simp [initial, TransactionRequestCache.empty])
      newest := fun _ _ holds => absurd holds (by simp [initial, TransactionRequestCache.empty])
      kept := fun _ bound => absurd bound (Nat.not_lt_zero _) }
  leader _ bound := absurd bound (Nat.not_lt_zero _)
  calls _ _ found := absurd found (by simp [initial])

theorem CacheRun.Sound.later (sound : run.Sound)
    (reached : Reaches (CacheRun.step print) (fun _ _ => True) run next) :
    next.Sound ∧ Later run next := by
  refine reached.invariant (fun state => state.Sound ∧ Later run state) ⟨sound, .refl run⟩ ?_
  intro state event following both _ taken
  have stepped := both.1.step taken
  exact ⟨stepped.1, both.2.trans stepped.2 both.2.length_le⟩

/-! ## Progress -/

def Await.work (cell : TransactionCell) : Await → Nat
  | ready => if cell.notified = 0 then 5 else 2
  | listening seen => if seen = 0 then 4 else 1
  | asleep _ => 3

def FetchCall.work (cache : TransactionRequestCache) (call : FetchCall) : Nat :=
  call.batches.countP BatchTask.isRunning +
    match call.phase with
    | .fetching => 2 * call.leaders.length + 6 * call.rows.length + 8
    | .setting _ todo => 2 * todo.length + 6 * call.rows.length + 7
    | .notifying _ _ todo => 2 * todo.length + 6 * call.rows.length + 8
    | .waiting _ [] _ _ => 1
    | .waiting await (row :: todo) _ _ =>
        6 * todo.length + 7 + await.work (cache.heap row.2)
    | .done _ => 0

def CacheRun.work (run : CacheRun) : Nat := (run.calls.map (FetchCall.work run.cache)).sum

theorem Await.work_le (cell : TransactionCell) (await : Await) : await.work cell ≤ 5 := by
  cases await with
  | ready | listening seen =>
      simp only [work]
      split <;> omega
  | asleep seen => exact (by decide : 3 ≤ 5)

end

section

variable {cache other : TransactionRequestCache} {number : Nat} {call : FetchCall}

/-- Starting to wait for some rows costs at most six steps for each. -/
theorem work_waiting_le (todo : List CellRef) (out : List TransactionRow)
    (evict : List CellRef) :
    ({ call with phase := .waiting .ready todo out evict } : FetchCall).work cache ≤
      call.batches.countP BatchTask.isRunning + 6 * todo.length + 6 := by
  cases todo with
  | nil => simp [FetchCall.work]
  | cons row todo =>
      have bound := Await.work_le (cache.heap row.2) .ready
      simp only [FetchCall.work, length_cons]
      omega

theorem CallHolds.work_act (holds : CallHolds cache number call)
    (quiet : ∀ row ∈ call.rows, (cache.heap row.2).value = none →
      (cache.heap row.2).notified = 0)
    {phase : FetchPhase} (acted : call.act cache = some (other, phase)) :
    ({ call with phase := phase } : FetchCall).work other < call.work cache := by
  have current := holds.phase
  unfold FetchCall.act at acted
  split at acted <;> rename_i isPhase <;> rw [isPhase] at current
  · split at acted
    · cases acted
    · cases acted
      simp only [FetchCall.work, isPhase]
      omega
  · cases acted
    have bound := @work_waiting_le cache call call.rows [] []
    simp only [FetchCall.work, isPhase, length_nil] at bound ⊢
    omega
  · cases acted
    simp only [FetchCall.work, isPhase, length_cons]
    omega
  · cases acted
    simp only [FetchCall.work, isPhase]
    omega
  · cases acted
    simp [FetchCall.work, isPhase]
  · cases acted
    simp only [FetchCall.work, isPhase, Await.work]
    split <;> omega
  · next seen row todo out evict =>
      have member : row ∈ call.rows := by
        rcases current.2.read with ⟨before, isSplit, -⟩
        simp [isSplit]
      have sees : seen ≤ (cache.heap row.2).notified := current.2.await row rfl
      split at acted
      · next empty =>
          cases acted
          have unseen : seen = 0 := Nat.le_zero.mp (quiet row member empty ▸ sees)
          simp only [FetchCall.work, isPhase, Await.work, unseen, if_true]
          omega
      · next result isValue =>
          cases acted
          have bound := @work_waiting_le cache call todo
            (out ++ [(row.1, result)]) (if isTransaction result then evict else evict ++ [row])
          have atLeast : 1 ≤ (Await.listening seen).work (cache.heap row.2) := by
            simp only [Await.work]
            split <;> omega
          simp only [FetchCall.work, isPhase] at bound ⊢
          omega
  · split at acted
    · next woken =>
        cases acted
        have notified : (cache.heap _).notified ≠ 0 := Nat.ne_of_gt (Nat.zero_lt_of_lt woken)
        simp only [FetchCall.work, isPhase, Await.work, notified, if_false]
        omega
    · cases acted
  · cases acted

/-- A step of another call gives this one nothing more to do. -/
theorem CallHolds.work_frame (holds : CallHolds cache number call)
    {actor : Nat} (frame : Frame cache other actor) : call.work other ≤ call.work cache := by
  have current := holds.phase
  unfold FetchCall.work
  cases isPhase : call.phase with
  | waiting await todo out evict =>
      cases todo with
      | nil => exact le_rfl
      | cons row todo =>
          rw [isPhase] at current
          have member : row ∈ call.rows := by
            rcases current.2.read with ⟨before, isSplit, -⟩
            simp [isSplit]
          have notified := frame.notified row.2 (holds.rows row member).1
          cases await with
          | ready =>
              simp only [Await.work]
              split <;> split <;> omega
          | listening seen => exact le_rfl
          | asleep seen => exact le_rfl
  | _ => exact le_rfl

end

section

variable {print : Json → Text} {run next : CacheRun} {number : Nat} {call : FetchCall}

theorem CacheRun.work_finish (ends : ∀ signatures, (outcome signatures).isRunning = false)
    (ended : run.finish number batch outcome = some next) : next.work < run.work := by
  rcases bind_eq_some_iff.mp ended with ⟨call, found, rest⟩
  split at rest
  · next signatures isTask =>
      cases rest
      refine sum_map_set_lt found ?_ fun _ _ => le_rfl
      rcases List.getElem?_eq_some_iff.mp isTask with ⟨bound, isBatch⟩
      have counted : 0 < call.batches.countP BatchTask.isRunning :=
        countP_pos_iff.mpr ⟨_, mem_of_getElem? isTask, rfl⟩
      have fewer : (call.batches.set batch (outcome signatures)).countP BatchTask.isRunning <
          call.batches.countP BatchTask.isRunning := by
        rw [countP_set bound, isBatch, ends]
        simp only [BatchTask.isRunning, if_true, Bool.false_eq_true, if_false]
        omega
      exact Nat.add_lt_add_right fewer _
  · cases rest

/-- Every step but the begin of a call uses up work. -/
theorem CacheRun.Sound.work_step (sound : run.Sound) (notCall : event.isCall = false)
    (taken : CacheRun.step print run event = some next) :
    next.work < run.work := by
  cases event with
  | call signatures => cases notCall
  | joined number batch reply | lost number batch => exact CacheRun.work_finish (fun _ => rfl) taken
  | act number =>
      rcases bind_eq_some_iff.mp taken with ⟨call, found, rest⟩
      rcases bind_eq_some_iff.mp rest with ⟨acted, isAct, isNext⟩
      cases isNext
      have holds := sound.calls number call found
      have quiet : ∀ row ∈ call.rows, (run.cache.heap row.2).value = none →
          (run.cache.heap row.2).notified = 0 :=
        fun row member => sound.quiet (holds.rows row member).1
      have frame := (holds.act sound.cache quiet isAct).frame
      refine sum_map_set_lt found (holds.work_act quiet isAct) fun other member => ?_
      rcases List.getElem?_of_mem member with ⟨place, isPlace⟩
      exact (sound.calls place other isPlace).work_frame frame

theorem CacheRun.Sound.length_le (sound : run.Sound) (events : List CacheEvent)
    (noCall : ∀ event ∈ events, event.isCall = false)
    (ran : events.foldlM (CacheRun.step print) run = some next) :
    events.length + next.work ≤ run.work := by
  induction events generalizing run with
  | nil =>
      cases ran
      simp
  | cons event events induction =>
      rw [foldlM_cons] at ran
      rcases bind_eq_some_iff.mp ran with ⟨middle, taken, rest⟩
      have less := sound.work_step (noCall event mem_cons_self) taken
      have later := induction (sound.step taken).1
        (fun other member => noCall other (mem_cons_of_mem _ member)) rest
      rw [length_cons]
      omega

theorem CacheRun.moves (print : Json → Text) (found : run.calls[number]? = some call) :
    (∃ event, event.isCall = false ∧ CacheRun.step print run event ≠ none) ∨
      (∃ out, call.phase = .done out) ∨
      ∃ seen row todo out evict, call.phase = .waiting (.asleep seen) (row :: todo) out evict ∧
        (run.cache.heap row.2).notified ≤ seen := by
  have acts : call.act run.cache ≠ none →
      ∃ event, event.isCall = false ∧ CacheRun.step print run event ≠ none := by
    intro moves
    refine ⟨.act number, rfl, ?_⟩
    rcases ne_none_iff_exists'.mp moves with ⟨acted, isAct⟩
    simp [CacheRun.step, found, isAct]
  cases isPhase : call.phase with
  | fetching =>
      left
      by_cases running : call.batches.any BatchTask.isRunning
      · rcases any_eq_true.mp running with ⟨task, member, isRunning⟩
        rcases List.getElem?_of_mem member with ⟨batch, isBatch⟩
        cases task with
        | running signatures =>
            exact ⟨.lost number batch, rfl, by simp [CacheRun.step, finish, found, isBatch]⟩
        | joined rows | lost => cases isRunning
      · exact acts (by simp [FetchCall.act, isPhase, running])
  | setting fetched todo =>
      left
      cases todo <;> exact acts (by simp [FetchCall.act, isPhase])
  | notifying fetched cell todo => exact .inl (acts (by simp [FetchCall.act, isPhase]))
  | waiting await todo out evict =>
      cases todo with
      | nil => exact .inl (acts (by simp [FetchCall.act, isPhase]))
      | cons row todo =>
          cases await with
          | ready => exact .inl (acts (by simp [FetchCall.act, isPhase]))
          | listening seen =>
              left
              cases isValue : (run.cache.heap row.2).value <;>
                exact acts (by simp [FetchCall.act, isPhase, isValue])
          | asleep seen =>
              by_cases woken : seen < (run.cache.heap row.2).notified
              · exact .inl (acts (by simp [FetchCall.act, isPhase, woken]))
              · exact .inr (.inr ⟨seen, row, todo, out, evict, rfl, Nat.not_lt.mp woken⟩)
  | done out => exact .inr (.inl ⟨out, rfl⟩)

/-- When nothing can move every call is done: the call that made the cell of a sleeper is never
asleep before it has notified the cell's waiters. -/
theorem CacheRun.Sound.done_of_stuck (sound : run.Sound)
    (stuck : ∀ event, event.isCall = false → CacheRun.step print run event = none)
    (found : run.calls[number]? = some call) : ∃ out, call.phase = .done out := by
  have cannot : ¬ ∃ event, event.isCall = false ∧ CacheRun.step print run event ≠ none :=
    fun ⟨event, notCall, moves⟩ => moves (stuck event notCall)
  rcases (moves print found).resolve_left cannot with isDone | asleep
  · exact isDone
  · rcases asleep with ⟨seen, row, todo, out, evict, isPhase, silent⟩
    have holds := sound.calls number call found
    have current := holds.phase
    rw [isPhase] at current
    have unseen : seen = 0 := current.2.await row rfl
    have member : row ∈ call.rows := by
      rcases current.2.read with ⟨before, isSplit, -⟩
      simp [isSplit]
    have bound := (holds.rows row member).1
    have isLeader := List.getElem?_eq_getElem (sound.leader row.2 bound)
    have leaderHolds := sound.calls _ _ isLeader
    have led := (leaderHolds.leaders _ row.2).mpr ⟨bound, rfl, rfl⟩
    have leaderPhase := leaderHolds.phase
    have quiet : (run.cache.heap row.2).notified = 0 := by omega
    rcases (moves print isLeader).resolve_left cannot with ⟨read, isDone⟩ |
      ⟨other, otherRow, rest, read, drop, isAsleep, -⟩
    · rw [isDone] at leaderPhase
      exact absurd ((leaderPhase.1 _ led).2.symm.trans quiet) (by decide)
    · rw [isAsleep] at leaderPhase
      exact absurd ((leaderPhase.1 _ led).2.symm.trans quiet) (by decide)

/-- A signature in flight belongs to a cell that is not set yet. -/
theorem CallHolds.inFlight (holds : CallHolds cache number call) {signature : Text}
    (flies : signature ∈ call.batches.flatMap BatchTask.inFlight) :
    ∃ cell, (signature, cell) ∈ call.leaders ∧ (cache.heap cell).Unset := by
  have isFetching : call.phase = .fetching := by
    refine holds.joined.resolve_right fun joined => ?_
    rcases mem_flatMap.mp flies with ⟨task, member, inside⟩
    have ended := joined task member
    cases task with
    | running signatures => cases ended
    | joined rows | lost => exact not_mem_nil inside
  have unset := holds.phase
  rw [isFetching] at unset
  rcases mem_map.mp (holds.running.subset flies) with ⟨row, member, rfl⟩
  exact ⟨row.2, member, unset row member⟩

theorem CacheRun.Sound.nodup_inFlight (sound : run.Sound) : run.inFlight.Nodup := by
  refine nodup_flatMap.mpr ⟨fun call member => ?_, pairwise_iff_getElem.mpr ?_⟩
  · rcases List.getElem?_of_mem member with ⟨number, found⟩
    have holds := sound.calls number call found
    exact holds.running.nodup holds.nodup
  · intro first second firstBound secondBound less signature flies otherFlies
    have firstHolds := sound.calls _ _ (List.getElem?_eq_getElem firstBound)
    have secondHolds := sound.calls _ _ (List.getElem?_eq_getElem secondBound)
    rcases firstHolds.inFlight flies with ⟨cell, member, unset⟩
    rcases secondHolds.inFlight otherFlies with ⟨other, otherMember, otherUnset⟩
    rcases (firstHolds.leaders _ _).mp member with ⟨bound, isSignature, isFirst⟩
    rcases (secondHolds.leaders _ _).mp otherMember with ⟨otherBound, otherSignature, isSecond⟩
    have held := isSignature ▸ sound.cache.kept cell bound unset.not_failing
    have otherHeld := otherSignature ▸ sound.cache.kept other otherBound otherUnset.not_failing
    have same : cell = other := Option.some.inj (held.symm.trans otherHeld)
    exact less.ne (isFirst.symm.trans (same ▸ isSecond))

end

/-! ## What the calls promise -/

/-- What holds in a reached state and from there on. -/
structure SharesFetches (print : Json → Text) (run : CacheRun) : Prop where
  /-- A call returns one result for every signature, in order, and it is what the call that
  fetched the signature's cell received for the signature. -/
  results : ∀ call ∈ run.calls, ∀ out, call.phase = .done out →
    out.map Prod.fst = call.signatures ∧ List.Forall₂ (fun row read =>
      ∃ leader, run.calls[(run.cache.heap row.2).leader]? = some leader ∧ row ∈ leader.leaders ∧
        read.2 = leaderResult leader.batches row.1) call.rows out
  singleFlight : run.inFlight.Nodup
  /-- The calls that begin after a transaction arrived read its cell and do not fetch it. -/
  reused : ∀ next, Reaches (CacheRun.step print) (fun _ _ => True) run next →
    ∀ cell < run.cache.allocated, ∀ transaction,
      (run.cache.heap cell).value = some (.ok (some transaction)) →
      ∀ number call, run.calls.length ≤ number → next.calls[number]? = some call →
        (∀ row ∈ call.rows, row.1 = (run.cache.heap cell).signature → row.2 = cell) ∧
          ∀ row ∈ call.leaders, row.1 ≠ (run.cache.heap cell).signature
  /-- The calls that begin after a failure or nothing was returned read a newer cell. -/
  dropped : ∀ next, Reaches (CacheRun.step print) (fun _ _ => True) run next →
    ∀ call ∈ run.calls, ∀ out, call.phase = .done out → ∀ pair ∈ call.rows.zip out,
      isTransaction pair.2.2 = false →
      ∀ number later, run.calls.length ≤ number → next.calls[number]? = some later →
        ∀ row ∈ later.rows, row.1 = pair.1.1 → pair.1.2 < row.2
  /-- Without new calls there are finitely many steps left. -/
  finite : ∃ bound, ∀ (events : List CacheEvent) (next : CacheRun),
    (∀ event ∈ events, event.isCall = false) →
    events.foldlM (CacheRun.step print) run = some next → events.length ≤ bound
  /-- Only when every call is done can nothing move and no batch end. -/
  ends : (∀ event : CacheEvent, event.isCall = false → CacheRun.step print run event = none) →
    ∀ call ∈ run.calls, ∃ out, call.phase = .done out

section

variable {print : Json → Text} {run next : CacheRun} {number : Nat} {call : FetchCall} {out : List
  TransactionRow}

section

variable (sound : run.Sound)
include sound

theorem CacheRun.Sound.done (found : run.calls[number]? = some call)
    (isDone : call.phase = .done out) :
    List.Forall₂ (IsRead run.cache) call.rows out ∧
      ∀ row ∈ call.rows, (run.cache.heap row.2).Failing →
        run.cache.cells row.1 ≠ some row.2 := by
  have phase := (sound.calls number call found).phase
  rw [isDone] at phase
  exact phase.2

variable {row : CellRef}

/-- What a cell holds is what its leader's batches said. -/
theorem CacheRun.Sound.leader_value (bound : row.2 < run.cache.allocated)
    (isSignature : (run.cache.heap row.2).signature = row.1) {result : TransactionResult}
    (isValue : (run.cache.heap row.2).value = some result) :
    ∃ leader, run.calls[(run.cache.heap row.2).leader]? = some leader ∧ row ∈ leader.leaders ∧
      result = leaderResult leader.batches row.1 := by
  have inside := sound.leader row.2 bound
  have isLeader := List.getElem?_eq_getElem inside
  have holds := sound.calls _ _ isLeader
  have led : row ∈ run.calls[(run.cache.heap row.2).leader].leaders :=
    (holds.leaders row.1 row.2).mpr ⟨bound, isSignature, rfl⟩
  refine ⟨_, isLeader, led, ?_⟩
  rcases holds.cell led with unset | settled
  · exact absurd (isValue.symm.trans unset.1) (by simp)
  · exact Option.some.inj (isValue.symm.trans settled)

theorem CacheRun.Sound.results (found : run.calls[number]? = some call)
    (isDone : call.phase = .done out) :
    out.map Prod.fst = call.signatures ∧ List.Forall₂ (fun row read =>
      ∃ leader, run.calls[(run.cache.heap row.2).leader]? = some leader ∧ row ∈ leader.leaders ∧
        read.2 = leaderResult leader.batches row.1) call.rows out := by
  have holds := sound.calls number call found
  have reads := (sound.done found isDone).1
  constructor
  · rw [← holds.keys]
    clear isDone
    generalize call.rows = rows at reads
    induction reads with
    | nil => rfl
    | cons isRead _ induction => rw [map_cons, map_cons, isRead.1, induction]
  · refine forall₂_iff_zip.mpr ⟨reads.length_eq, ?_⟩
    intro row read member
    have isRead := (forall₂_iff_zip.mp reads).2 member
    have valid := holds.rows row (of_mem_zip member).1
    exact sound.leader_value valid.1 valid.2 isRead.2

theorem CacheRun.Sound.reused (nextSound : next.Sound) (later : Later run next)
    (bound : cell < run.cache.allocated) {transaction : Json}
    (isValue : (run.cache.heap cell).value = some (.ok (some transaction)))
    (began : run.calls.length ≤ number) (found : next.calls[number]? = some call) :
    (∀ row ∈ call.rows, row.1 = (run.cache.heap cell).signature → row.2 = cell) ∧
      ∀ row ∈ call.leaders, row.1 ≠ (run.cache.heap cell).signature := by
  have holds := nextSound.calls number call found
  have begun := later.rows number call began found
  have noFresh : ∀ other, run.cache.allocated ≤ other → other < next.cache.allocated →
      (next.cache.heap other).signature ≠ (run.cache.heap cell).signature := by
    intro other new otherBound same
    exact absurd (later.fresh other new otherBound cell bound same.symm _ isValue)
      (by simp [isTransaction])
  have healthy : ¬ (run.cache.heap cell).Failing := by
    rintro ⟨result, isResult, fails⟩
    rw [isValue] at isResult
    cases isResult
    cases fails
  constructor
  · intro row member same
    have valid := holds.rows row member
    have old : row.2 < run.cache.allocated := by
      by_contra new
      exact noFresh row.2 (Nat.not_lt.mp new) valid.1 (valid.2.trans same)
    have held := sound.cache.kept cell bound healthy
    rw [← same, begun.1 row member old] at held
    exact Option.some.inj held
  · intro row member same
    rcases (holds.leaders row.1 row.2).mp member with ⟨new, isSignature, -⟩
    exact noFresh row.2 (begun.2 row member) new (isSignature.trans same)

theorem CacheRun.Sound.dropped (later : Later run next) (found : run.calls[number]? = some call)
    (isDone : call.phase = .done out) {pair : CellRef × TransactionRow}
    (member : pair ∈ call.rows.zip out) (fails : isTransaction pair.2.2 = false) {afterwards : Nat}
    {newCall : FetchCall} (began : run.calls.length ≤ afterwards)
    (newFound : next.calls[afterwards]? = some newCall) (inside : row ∈ newCall.rows)
    (same : row.1 = pair.1.1) :
    pair.1.2 < row.2 := by
  have done := sound.done found isDone
  have isRead := (forall₂_iff_zip.mp done.1).2 member
  have isRow := (of_mem_zip member).1
  have valid := (sound.calls number call found).rows pair.1 isRow
  by_cases old : row.2 < run.cache.allocated
  · have held := (later.rows afterwards newCall began newFound).1 row inside old
    rw [same] at held
    have gone := done.2 pair.1 isRow ⟨pair.2.2, isRead.2, fails⟩
    refine lt_of_le_of_ne (sound.cache.newest _ _ held pair.1.2 valid.1 valid.2) ?_
    exact fun equal => gone (equal ▸ held)
  · exact valid.1.trans_le (Nat.not_lt.mp old)

theorem CacheRun.Sound.sharesFetches : SharesFetches print run where
  results call member out isDone := by
    rcases List.getElem?_of_mem member with ⟨number, found⟩
    exact sound.results found isDone
  singleFlight := sound.nodup_inFlight
  reused next reached cell bound transaction isValue number call began found := by
    have after := sound.later reached
    exact sound.reused after.1 after.2 bound isValue began found
  dropped next reached call member out isDone pair inside fails number later began found row
      isRow same := by
    have after := sound.later reached
    rcases List.getElem?_of_mem member with ⟨place, isPlace⟩
    exact sound.dropped after.2 isPlace isDone inside fails began found isRow same
  finite := ⟨run.work, fun events _ noCall ran =>
    (Nat.le_add_right _ _).trans (sound.length_le events noCall ran)⟩
  ends stuck call member := by
    rcases List.getElem?_of_mem member with ⟨number, found⟩
    exact sound.done_of_stuck stuck found

end

end

/-- A batch reply gives each signature its own transaction exactly when no request without a row
has a successful row at its position. The calls that share the cache keep their promises in
every run, whatever the replies are. -/
theorem transactions_shared (print : Json → Text) :
    (∀ batchIdx signatures reply, PairsEachSignature print batchIdx signatures reply ↔
      RowsFound print batchIdx signatures reply) ∧
    ∀ run, Reaches (CacheRun.step print) (fun _ _ => True) .initial run →
      SharesFetches print run :=
  ⟨fun _ _ _ => pairsEachSignature_iff,
    fun _ reached => (CacheRun.sound_initial.later reached).1.sharesFetches⟩

def sharedHistory : List CacheEvent :=
  [.call ["first".toList], .call ["first".toList], .act 1, .act 1,
    .joined 0 0 ⟨.ok (.array [.object [("result", .bool true)]]), fun _ => .error []⟩,
    .act 0, .act 0, .act 0, .act 1, .act 1, .act 1, .act 1, .act 0, .act 0, .act 0, .act 0]

theorem transactions_shared_twoCalls : ∃ run,
    sharedHistory.foldlM (CacheRun.step fun _ => []) .initial = some run ∧
      SharesFetches (fun _ => []) run := by
  rcases isSome_iff_exists.mp (by decide : (sharedHistory.foldlM
    (CacheRun.step fun _ => []) .initial).isSome = true) with ⟨run, ran⟩
  exact ⟨run, ran, (transactions_shared fun _ => []).2 run
    (.of_foldlM sharedHistory (fun _ _ _ => trivial) .start ran)⟩

end NftData.Analysis2
