import NftData.Foundation.Accumulation
import NftData.Foundation.Machine

namespace NftData.Ethereum.MetadataBackfill

/-! # The metadata backfill of a chain

Workers of one process claim rows without metadata, fetch what they can, and put the rest
back. A single column holds the time of the last check and, while a row is claimed, the end
of its lease. -/

open List

/-! ## The table -/

/-- The columns that the queue reads. -/
structure Row where
  id : Nat
  hasContract : Bool
  hasTokenUri : Bool
  retryCheckedAt : Option Nat
  hasMetadata : Bool
  deriving DecidableEq

structure Table where
  rows : List Row
  distinct : (rows.map Row.id).Nodup

inductive Mode where
  | alchemy
  | tokenUri
  deriving DecidableEq

structure Config where
  mode : Mode
  segmentSize : Nat
  claimTtl : Nat
  ttl_pos : 0 < claimTtl

namespace Table

/-- `UPDATE ... WHERE id = ANY(ids)`. -/
def update (table : Table) (ids : List Nat) (change : Row → Row)
    (keepsId : ∀ row, (change row).id = row.id) : Table where
  rows := table.rows.map fun row => if row.id ∈ ids then change row else row
  distinct := by
    have same : (Row.id ∘ fun row => if row.id ∈ ids then change row else row) = Row.id := by
      funext row
      by_cases inside : row.id ∈ ids <;> simp [inside, keepsId]
    rw [map_map, same]
    exact table.distinct

/-- Whether a row waits for its metadata and no lease or check lies ahead. -/
def isClaimable (config : Config) (now : Nat) (row : Row) : Bool :=
  row.hasContract && !row.hasMetadata && row.retryCheckedAt.all (fun checked => checked ≤ now) &&
    (config.mode == .alchemy || row.hasTokenUri)

/-- `ORDER BY retry_checked_at ASC NULLS FIRST, id ASC`. -/
def QueuedBefore (first second : Row) : Prop :=
  match first.retryCheckedAt, second.retryCheckedAt with
  | none, none => first.id ≤ second.id
  | none, some _ => True
  | some _, none => False
  | some earlier, some later => earlier < later ∨ earlier = later ∧ first.id ≤ second.id

instance : DecidableRel QueuedBefore := by
  intro first second
  unfold QueuedBefore
  split <;> infer_instance

/-- The rows that `claim_segment` takes. -/
def claimedRows (config : Config) (now : Nat) (table : Table) : List Row :=
  ((table.rows.filter (isClaimable config now)).insertionSort QueuedBefore).take
    config.segmentSize

/-- The lease that `claim_segment` writes. -/
def lease (table : Table) (ids : List Nat) (leaseEnd : Nat) : Table :=
  table.update ids (fun row => { row with retryCheckedAt := some leaseEnd }) fun _ => rfl

def markRowsChecked (table : Table) (ids : List Nat) (now : Nat) : Table :=
  table.update ids (fun row => { row with retryCheckedAt := some now }) fun _ => rfl

def bulkUpdateRows (table : Table) (ids : List Nat) (now : Nat) : Table :=
  table.update ids (fun row => { row with hasMetadata := true, retryCheckedAt := some now })
    fun _ => rfl

/-- A row has this identifier and no metadata. -/
def IsPending (table : Table) (id : Nat) : Prop :=
  ∃ row ∈ table.rows, row.id = id ∧ row.hasMetadata = false

instance (table : Table) (id : Nat) : Decidable (table.IsPending id) :=
  inferInstanceAs (Decidable (∃ row ∈ table.rows, _))

variable {table : Table} {ids : List Nat} {id now leaseEnd : Nat} {row : Row} {config : Config}
  {change : Row → Row}

theorem ids_update {keepsId : ∀ row, (change row).id = row.id} :
    (table.update ids change keepsId).rows.map Row.id = table.rows.map Row.id := by
  rw [update, map_map]
  refine map_congr_left fun row _ => ?_
  by_cases inside : row.id ∈ ids <;> simp [inside, keepsId]

theorem ids_lease : (table.lease ids leaseEnd).rows.map Row.id = table.rows.map Row.id :=
  ids_update

theorem isPending_update {keepsId : ∀ row, (change row).id = row.id}
    (keeps : ∀ row, (change row).hasMetadata = row.hasMetadata) :
    (table.update ids change keepsId).IsPending id ↔ table.IsPending id := by
  simp only [IsPending, update, mem_map, exists_exists_and_eq_and]
  refine exists_congr fun row => and_congr_right fun _ => ?_
  by_cases inside : row.id ∈ ids <;> simp [inside, keepsId, keeps]

@[simp] theorem isPending_lease :
    (table.lease ids leaseEnd).IsPending id ↔ table.IsPending id := isPending_update fun _ => rfl

@[simp] theorem isPending_markRowsChecked :
    (table.markRowsChecked ids now).IsPending id ↔ table.IsPending id :=
  isPending_update fun _ => rfl

@[simp] theorem isPending_bulkUpdateRows :
    (table.bulkUpdateRows ids now).IsPending id ↔ table.IsPending id ∧ id ∉ ids := by
  simp only [IsPending, bulkUpdateRows, update, mem_map, exists_exists_and_eq_and]
  constructor
  · rintro ⟨row, member, isId, waits⟩
    by_cases inside : row.id ∈ ids
    · simp [inside] at waits
    · rw [if_neg inside] at isId waits
      exact ⟨⟨row, member, isId, waits⟩, isId ▸ inside⟩
  · rintro ⟨⟨row, member, isId, waits⟩, outside⟩
    refine ⟨row, member, ?_⟩
    rw [if_neg (isId ▸ outside)]
    exact ⟨isId, waits⟩

theorem mem_claimedRows (taken : row ∈ claimedRows config now table) :
    row ∈ table.rows ∧ isClaimable config now row = true :=
  mem_filter.mp ((mem_insertionSort _).mp (mem_of_mem_take taken))

theorem nodup_claimedRows : ((claimedRows config now table).map Row.id).Nodup := by
  have sorted := ((table.rows.filter (isClaimable config now)).perm_insertionSort QueuedBefore)
  have kept : ((table.rows.filter (isClaimable config now)).map Row.id).Nodup :=
    table.distinct.sublist (filter_sublist.map _)
  exact ((sorted.map Row.id).nodup_iff.mpr kept).sublist ((take_sublist _ _).map _)

theorem waits_of_isClaimable (claimable : isClaimable config now row = true) :
    row.hasMetadata = false ∧ ∀ checked ∈ row.retryCheckedAt, checked ≤ now := by
  simp only [isClaimable, Bool.and_eq_true, Bool.not_eq_true'] at claimable
  refine ⟨claimable.1.1.2, fun checked isChecked => ?_⟩
  simpa [Option.mem_def.mp isChecked] using claimable.1.2

end Table

/-! ## Workers -/

inductive Phase where
  | idle
  /-- The rows that a worker has claimed, and the end of its lease. -/
  | working (ids : List Nat) (leaseEnd : Nat)
  | done
  deriving DecidableEq

def Phase.held : Phase → List Nat
  | .working ids _ => ids
  | _ => []

/-- A run with all that its workers have claimed so far. -/
structure World (workers : Nat) where
  now : Nat
  table : Table
  phases : Fin workers → Phase
  claimed : List Nat

inductive Event (workers : Nat) where
  | wait (seconds : Nat)
  | claim (worker : Fin workers)
  /-- The requests of a round end, and the rows are written and marked. -/
  | finish (worker : Fin workers) (fetched : List Nat)
  /-- A worker gives up, before or after its update. -/
  | raise (worker : Fin workers) (fetched : List Nat)
  deriving DecidableEq

variable {workers : Nat} (config : Config)

def Event.worker? : Event workers → Option (Fin workers)
  | .wait _ => none
  | .claim worker | .finish worker _ | .raise worker _ => some worker

def start (now : Nat) (table : Table) : World workers := ⟨now, table, fun _ => .idle, []⟩

namespace World

def enter (world : World workers) (worker : Fin workers) (phase : Phase) (table : Table) :
    World workers :=
  { world with table := table, phases := Function.update world.phases worker phase }

def claimedIds (world : World workers) : List Nat :=
  (world.table.claimedRows config world.now).map Row.id

def claim (world : World workers) (worker : Fin workers) : World workers :=
  let ids := world.claimedIds config
  let leaseEnd := world.now + config.claimTtl
  { world.enter worker (.working ids leaseEnd) (world.table.lease ids leaseEnd) with
    claimed := world.claimed ++ ids }

def finish (world : World workers) (worker : Fin workers) (ids fetched : List Nat) :
    World workers :=
  world.enter worker .idle ((world.table.bulkUpdateRows fetched world.now).markRowsChecked
    (ids.filter (· ∉ fetched)) world.now)

def stop (world : World workers) (worker : Fin workers) (fetched : List Nat) : World workers :=
  world.enter worker .done (world.table.bulkUpdateRows fetched world.now)

end World

/-- `_worker_main`, between two of its waits: the calls to the database are synchronous. -/
def step (world : World workers) : Event workers → Option (World workers)
  | .wait seconds => some { world with now := world.now + seconds }
  | .claim worker =>
      match world.phases worker with
      | .idle =>
          if world.claimedIds config = [] then
            some (world.enter worker .done world.table)
          else
            some (world.claim config worker)
      | _ => none
  | .finish worker fetched =>
      match world.phases worker with
      | .working ids _ => if fetched ⊆ ids then some (world.finish worker ids fetched) else none
      | _ => none
  | .raise worker fetched =>
      match world.phases worker with
      | .done => none
      | phase => if fetched ⊆ phase.held then some (world.stop worker fetched) else none

def MarksInTime (world : World workers) (event : Event workers) : Prop :=
  ∀ worker fetched ids leaseEnd, event = .finish worker fetched →
    world.phases worker = .working ids leaseEnd → ¬ ids ⊆ fetched → world.now < leaseEnd

def FetchesAll (world : World workers) (event : Event workers) : Prop :=
  ∀ worker fetched, event = .finish worker fetched → (world.phases worker).held ⊆ fetched

namespace World

def ClaimsLeased (world : World workers) : Prop :=
  ∃ worker other ids leaseEnd, world.phases worker = .idle ∧ other ≠ worker ∧
    world.phases other = .working ids leaseEnd ∧ world.now < leaseEnd ∧
    ∃ row ∈ world.table.claimedRows config world.now, row.id ∈ ids

/-- A worker claims nothing of what another one has on an unexpired lease. -/
structure Leased (world : World workers) : Prop where
  checked : ∀ {worker ids leaseEnd}, world.phases worker = .working ids leaseEnd →
    world.now < leaseEnd → ∀ row ∈ world.table.rows, row.id ∈ ids → row.hasMetadata = false →
      row.retryCheckedAt = some leaseEnd
  exclusive : ∀ {worker other ids otherIds leaseEnd otherEnd},
    world.phases worker = .working ids leaseEnd →
    world.phases other = .working otherIds otherEnd → world.now < leaseEnd →
    world.now < otherEnd → ∀ id ∈ ids, id ∈ otherIds → world.table.IsPending id → worker = other

variable {config} {world next : World workers} {worker : Fin workers} {ids : List Nat}

theorem Leased.not_claimable (leased : world.Leased) {leaseEnd : Nat}
    (works : world.phases worker = .working ids leaseEnd) (lasts : world.now < leaseEnd) :
    ∀ row ∈ world.table.claimedRows config world.now, row.id ∉ ids := by
  intro row taken inside
  rcases Table.mem_claimedRows taken with ⟨member, claimable⟩
  rcases Table.waits_of_isClaimable claimable with ⟨waits, past⟩
  have ahead := past _ (leased.checked works lasts row member inside waits)
  omega

theorem Leased.not_claimsLeased (leased : world.Leased) : ¬ world.ClaimsLeased config := by
  rintro ⟨worker, other, ids, leaseEnd, -, -, works, lasts, row, taken, inside⟩
  exact leased.not_claimable works lasts row taken inside

variable {event : Event workers}

theorem step_cases (taken : step config world event = some next) :
    (∃ seconds, event = .wait seconds ∧ next = { world with now := world.now + seconds }) ∨
    (∃ worker, event = .claim worker ∧ world.phases worker = .idle ∧
      next = world.enter worker .done world.table) ∨
    (∃ worker, event = .claim worker ∧ world.phases worker = .idle ∧
      world.claimedIds config ≠ [] ∧ next = world.claim config worker) ∨
    (∃ worker fetched ids leaseEnd, event = .finish worker fetched ∧
      world.phases worker = .working ids leaseEnd ∧ next = world.finish worker ids fetched) ∨
    ∃ worker fetched, event = .raise worker fetched ∧ world.phases worker ≠ .done ∧
      next = world.stop worker fetched := by
  cases event with
  | wait seconds => exact .inl ⟨seconds, rfl, (Option.some.inj taken).symm⟩
  | claim worker =>
      rw [step] at taken
      cases phase : world.phases worker <;> rw [phase] at taken <;> try cases taken
      simp only at taken
      split at taken
      · exact .inr (.inl ⟨worker, rfl, phase, (Option.some.inj taken).symm⟩)
      · exact .inr (.inr (.inl ⟨worker, rfl, phase, ‹_›, (Option.some.inj taken).symm⟩))
  | finish worker fetched =>
      rw [step] at taken
      cases phase : world.phases worker <;> rw [phase] at taken <;> try cases taken
      simp only at taken
      split at taken
      · exact .inr (.inr (.inr (.inl
          ⟨worker, fetched, _, _, rfl, phase, (Option.some.inj taken).symm⟩)))
      · cases taken
  | raise worker fetched =>
      rw [step] at taken
      have running : world.phases worker ≠ .done := by
        intro isDone
        rw [isDone] at taken
        cases taken
      have stopped : next = world.stop worker fetched := by
        split at taken
        · cases taken
        · split at taken
          · exact (Option.some.inj taken).symm
          · cases taken
      exact .inr (.inr (.inr (.inr ⟨worker, fetched, rfl, running, stopped⟩)))

@[simp] theorem phases_enter_self (worker : Fin workers) (phase : Phase) (table : Table) :
    (world.enter worker phase table).phases worker = phase :=
  Function.update_self ..

variable {other : Fin workers}

@[simp] theorem phases_enter_of_ne (different : other ≠ worker) (phase : Phase) (table : Table) :
    (world.enter worker phase table).phases other = world.phases other :=
  Function.update_of_ne different ..

@[simp] theorem phases_claim_self (worker : Fin workers) :
    (world.claim config worker).phases worker =
      .working (world.claimedIds config) (world.now + config.claimTtl) :=
  Function.update_self ..

@[simp] theorem phases_claim_of_ne (different : other ≠ worker) :
    (world.claim config worker).phases other = world.phases other :=
  Function.update_of_ne different ..

variable {phase : Phase} {table : Table}

/-- A worker that enters a phase without rows takes no lease from anyone, if the rows whose time
it has changed are on nobody else's lease. -/
theorem Leased.enter (leased : world.Leased) (free : phase.held = [])
    (shrinks : ∀ id, table.IsPending id → world.table.IsPending id)
    (keeps : ∀ row ∈ table.rows, row.hasMetadata = false → row ∈ world.table.rows ∨
      ∀ other ids leaseEnd, other ≠ worker → world.phases other = .working ids leaseEnd →
        world.now < leaseEnd → row.id ∉ ids) :
    (world.enter worker phase table).Leased := by
  have old : ∀ {other ids leaseEnd},
      (world.enter worker phase table).phases other = .working ids leaseEnd → ids ≠ [] →
        other ≠ worker ∧ world.phases other = .working ids leaseEnd := by
    intro other ids leaseEnd works holds
    by_cases same : other = worker
    · rw [same, phases_enter_self] at works
      rw [works] at free
      exact absurd free holds
    · exact ⟨same, phases_enter_of_ne same phase table ▸ works⟩
  constructor
  · intro other ids leaseEnd works lasts row member inside waits
    rcases old works (ne_nil_of_mem inside) with ⟨different, worked⟩
    rcases keeps row member waits with kept | untouched
    · exact leased.checked worked lasts row kept inside waits
    · exact absurd inside (untouched other ids leaseEnd different worked lasts)
  · intro first second ids otherIds leaseEnd otherEnd works otherWorks lasts otherLasts id inside
      otherInside pending
    exact leased.exclusive (old works (ne_nil_of_mem inside)).2
      (old otherWorks (ne_nil_of_mem otherInside)).2 lasts otherLasts id inside otherInside
      (shrinks id pending)

theorem Leased.claim (leased : world.Leased) (worker : Fin workers) :
    (world.claim config worker).Leased := by
  have mine : ∀ id, id ∈ world.claimedIds config → ∀ other ids leaseEnd,
      world.phases other = .working ids leaseEnd → world.now < leaseEnd → id ∉ ids := by
    intro id isClaimed other ids leaseEnd works lasts
    rcases mem_map.mp isClaimed with ⟨row, taken, rfl⟩
    exact leased.not_claimable works lasts row taken
  constructor
  · intro other ids leaseEnd works lasts row member inside waits
    rcases mem_map.mp member with ⟨before, wasThere, rfl⟩
    by_cases same : other = worker
    · rw [same, phases_claim_self, Phase.working.injEq] at works
      rcases works with ⟨rfl, rfl⟩
      by_cases isClaimed : before.id ∈ world.claimedIds config
      · rw [if_pos isClaimed]
      · rw [if_neg isClaimed] at inside
        exact absurd inside isClaimed
    · rw [phases_claim_of_ne same] at works
      by_cases isClaimed : before.id ∈ world.claimedIds config
      · rw [if_pos isClaimed] at inside
        exact absurd inside (mine _ isClaimed other ids leaseEnd works lasts)
      · rw [if_neg isClaimed] at inside waits ⊢
        exact leased.checked works lasts before wasThere inside waits
  · intro first second ids otherIds leaseEnd otherEnd works otherWorks lasts otherLasts id inside
      otherInside pending
    by_cases isFirst : first = worker <;> by_cases isSecond : second = worker
    · rw [isFirst, isSecond]
    · rw [isFirst, phases_claim_self, Phase.working.injEq] at works
      rw [phases_claim_of_ne isSecond] at otherWorks
      exact absurd otherInside (mine id (works.1 ▸ inside) _ _ _ otherWorks otherLasts)
    · rw [isSecond, phases_claim_self, Phase.working.injEq] at otherWorks
      rw [phases_claim_of_ne isFirst] at works
      exact absurd inside (mine id (otherWorks.1 ▸ otherInside) _ _ _ works lasts)
    · rw [phases_claim_of_ne isFirst] at works
      rw [phases_claim_of_ne isSecond] at otherWorks
      exact leased.exclusive works otherWorks lasts otherLasts id inside otherInside
        (Table.isPending_lease.mp pending)

theorem mem_of_mem_bulkUpdateRows {row : Row}
    (member : row ∈ (world.table.bulkUpdateRows ids world.now).rows)
    (waits : row.hasMetadata = false) : row ∈ world.table.rows ∧ row.id ∉ ids := by
  rcases mem_map.mp member with ⟨before, wasThere, rfl⟩
  by_cases inside : before.id ∈ ids
  · simp [inside] at waits
  · rw [if_neg inside]
    exact ⟨wasThere, inside⟩

theorem Leased.step (leased : world.Leased) (inTime : MarksInTime world event)
    (taken : step config world event = some next) :
    next.Leased := by
  rcases step_cases taken with ⟨seconds, rfl, rfl⟩ | ⟨worker, rfl, idle, rfl⟩ |
    ⟨worker, rfl, idle, -, rfl⟩ | ⟨worker, fetched, ids, leaseEnd, rfl, works, rfl⟩ |
    ⟨worker, fetched, rfl, -, rfl⟩
  · exact ⟨fun works lasts => leased.checked works (Nat.lt_of_le_of_lt (Nat.le_add_right ..) lasts),
      fun works otherWorks lasts otherLasts => leased.exclusive works otherWorks
        (Nat.lt_of_le_of_lt (Nat.le_add_right ..) lasts)
        (Nat.lt_of_le_of_lt (Nat.le_add_right ..) otherLasts)⟩
  · exact leased.enter rfl (fun _ => id) fun row member _ => .inl member
  · exact leased.claim worker
  · refine leased.enter rfl (fun id pending => ?_) fun row member waits => ?_
    · exact (Table.isPending_bulkUpdateRows.mp (Table.isPending_markRowsChecked.mp pending)).1
    · rcases mem_map.mp member with ⟨before, wasThere, rfl⟩
      by_cases missing : before.id ∈ ids.filter (· ∉ fetched)
      · rw [if_pos missing] at waits ⊢
        rcases mem_of_mem_bulkUpdateRows wasThere waits with ⟨wasRow, -⟩
        rcases mem_filter.mp missing with ⟨isClaimed, unfetched⟩
        have early := inTime worker fetched ids leaseEnd rfl works fun all =>
          absurd (all isClaimed) (of_decide_eq_true unfetched)
        refine .inr fun other otherIds otherEnd different otherWorks lasts inside => different ?_
        exact leased.exclusive otherWorks works lasts early before.id inside isClaimed
          ⟨before, wasRow, rfl, waits⟩
      · rw [if_neg missing] at waits ⊢
        exact .inl (mem_of_mem_bulkUpdateRows wasThere waits).1
  · refine leased.enter rfl (fun id pending => ?_) fun row member waits => ?_
    · exact (Table.isPending_bulkUpdateRows.mp pending).1
    · exact .inl (mem_of_mem_bulkUpdateRows member waits).1

/-! ### What is left to claim -/

def MayClaim (world : World workers) (id : Nat) (worker : Fin workers) : Prop :=
  world.phases worker ≠ .done ∧ id ∉ (world.phases worker).held

instance (id : Nat) : DecidablePred (world.MayClaim id) := fun _ =>
  inferInstanceAs (Decidable (_ ∧ _))

def chances (world : World workers) (id : Nat) : Nat :=
  if world.table.IsPending id then (Finset.univ.filter (world.MayClaim id)).card else 0

theorem chances_le_workers (world : World workers) (id : Nat) : world.chances id ≤ workers := by
  rw [chances]
  split
  · exact (Finset.card_le_univ _).trans_eq (Fintype.card_fin workers)
  · exact Nat.zero_le workers

variable {id : Nat}

theorem chances_mono (shrinks : next.table.IsPending id → world.table.IsPending id ∧
      ∀ worker, next.MayClaim id worker → world.MayClaim id worker) :
    next.chances id ≤ world.chances id := by
  rw [chances, chances]
  by_cases pending : next.table.IsPending id
  · rw [if_pos pending, if_pos (shrinks pending).1]
    exact Finset.card_le_card (Finset.monotone_filter_right _ fun worker _ => (shrinks pending).2 worker)
  · rw [if_neg pending]
    exact Nat.zero_le _

theorem chances_enter_le (shrinks : table.IsPending id → world.table.IsPending id ∧
      (phase ≠ .done ∧ id ∉ phase.held → world.MayClaim id worker)) :
    (world.enter worker phase table).chances id ≤ world.chances id := by
  refine chances_mono fun pending => ⟨(shrinks pending).1, fun other may => ?_⟩
  by_cases same : other = worker
  · rw [MayClaim, same, phases_enter_self] at may
    exact same ▸ (shrinks pending).2 may
  · rwa [MayClaim, phases_enter_of_ne same] at may

theorem chances_claim {worker : Fin workers} (idle : world.phases worker = .idle) (id : Nat) :
    (world.claim config worker).chances id + (world.claimedIds config).count id ≤
      world.chances id := by
  have keeps : ∀ other, (world.claim config worker).MayClaim id other →
      world.MayClaim id other ∧ (other = worker → id ∉ world.claimedIds config) := by
    intro other may
    by_cases same : other = worker
    · subst same
      refine ⟨by simp [MayClaim, idle, Phase.held], fun _ => ?_⟩
      simpa [Phase.held] using may.2
    · refine ⟨?_, fun is => absurd is same⟩
      rwa [MayClaim, phases_claim_of_ne same] at may
  by_cases isClaimed : id ∈ world.claimedIds config
  · rcases mem_map.mp isClaimed with ⟨row, taken, isRow⟩
    rcases Table.mem_claimedRows taken with ⟨member, claimable⟩
    have pending : world.table.IsPending id :=
      ⟨row, member, isRow, (Table.waits_of_isClaimable claimable).1⟩
    have fewer : Finset.univ.filter ((world.claim config worker).MayClaim id) ⊂
        Finset.univ.filter (world.MayClaim id) := by
      refine (Finset.ssubset_iff_of_subset ?_).mpr ⟨worker, ?_, fun may => ?_⟩
      · exact Finset.monotone_filter_right _ fun other _ may => (keeps other may).1
      · simp [MayClaim, idle, Phase.held]
      · exact (keeps worker (Finset.mem_filter.mp may).2).2 rfl isClaimed
    have once : (world.claimedIds config).count id = 1 :=
      count_eq_one_of_mem Table.nodup_claimedRows isClaimed
    have stillPending : (world.claim config worker).table.IsPending id :=
      Table.isPending_lease.mpr pending
    rw [once, chances, chances, if_pos pending, if_pos stillPending]
    exact Finset.card_lt_card fewer
  · rw [count_eq_zero_of_not_mem isClaimed]
    exact chances_mono fun pending =>
      ⟨Table.isPending_lease.mp pending, fun other may => (keeps other may).1⟩

theorem chances_step (fetches : FetchesAll world event)
    (taken : step config world event = some next) (id : Nat) :
    next.claimed.count id + next.chances id ≤ world.claimed.count id + world.chances id := by
  rcases step_cases taken with ⟨seconds, rfl, rfl⟩ | ⟨worker, rfl, idle, rfl⟩ |
    ⟨worker, rfl, idle, -, rfl⟩ | ⟨worker, fetched, ids, leaseEnd, rfl, works, rfl⟩ |
    ⟨worker, fetched, rfl, -, rfl⟩
  · exact le_rfl
  · exact Nat.add_le_add_left (chances_enter_le fun pending => ⟨pending, fun may => by simp at may⟩) _
  · have used := @chances_claim _ config _ _ idle id
    rw [World.claim, count_append] at *
    omega
  · refine Nat.add_le_add_left (chances_enter_le fun pending => ?_) _
    rcases Table.isPending_bulkUpdateRows.mp (Table.isPending_markRowsChecked.mp pending) with
      ⟨was, unfetched⟩
    refine ⟨was, fun _ => ?_⟩
    rw [MayClaim, works]
    refine ⟨Phase.noConfusion, fun inside => unfetched (fetches worker fetched rfl ?_)⟩
    rw [works]
    exact inside
  · exact Nat.add_le_add_left (chances_enter_le fun pending =>
      ⟨(Table.isPending_bulkUpdateRows.mp pending).1, fun may => by simp at may⟩) _

def weight : Phase → Nat
  | .idle => 1
  | .working _ _ => 2
  | .done => 0

def stepsLeft (world : World workers) : Nat :=
  2 * ((world.table.rows.map Row.id).map world.chances).sum + ∑ worker, weight (world.phases worker)

theorem weight_enter (world : World workers) (worker : Fin workers) (phase : Phase)
    (table : Table) :
    ∑ other, weight ((world.enter worker phase table).phases other) +
        weight (world.phases worker) =
      ∑ other, weight (world.phases other) + weight phase :=
  sum_update_add weight world.phases worker phase

theorem stepsLeft_enter_lt (lighter : weight phase < weight (world.phases worker))
    (sameIds : table.rows.map Row.id = world.table.rows.map Row.id)
    (noMore : ∀ id, (world.enter worker phase table).chances id ≤ world.chances id) :
    (world.enter worker phase table).stepsLeft < world.stepsLeft := by
  have weights := world.weight_enter worker phase table
  have sums := @List.sum_le_sum _ _ _ _ _ _ (world.table.rows.map Row.id) _ _ fun id _ => noMore id
  rw [stepsLeft, stepsLeft, show (world.enter worker phase table).table = table from rfl, sameIds]
  omega

theorem stepsLeft_claim_lt (idle : world.phases worker = .idle)
    (some : world.claimedIds config ≠ []) :
    (world.claim config worker).stepsLeft < world.stepsLeft := by
  have used := @chances_claim _ config _ _ idle
  have weights := world.weight_enter worker
    (.working (world.claimedIds config) (world.now + config.claimTtl)) world.table
  have sums : ((world.table.rows.map Row.id).map (world.claim config worker).chances).sum <
      ((world.table.rows.map Row.id).map world.chances).sum := by
    rcases exists_mem_of_ne_nil _ some with ⟨id, isClaimed⟩
    rcases mem_map.mp isClaimed with ⟨row, taken, isRow⟩
    have once := count_pos_iff.mpr isClaimed
    refine sum_lt_sum _ _ (fun id _ => Nat.le_of_add_right_le (used id)) ⟨id, ?_, ?_⟩
    · exact mem_map.mpr ⟨row, (Table.mem_claimedRows taken).1, isRow⟩
    · have fewer := used id
      omega
  have sameIds : (world.claim config worker).table.rows.map Row.id = world.table.rows.map Row.id :=
    Table.ids_lease
  rw [idle] at weights
  change _ + 1 = _ + 2 at weights
  change 2 * _ + ∑ other, weight ((world.enter worker _ world.table).phases other) < _
  rw [stepsLeft, sameIds]
  omega

theorem stepsLeft_step (fetches : FetchesAll world event)
    (taken : step config world event = some next) :
    next.stepsLeft + (if event.worker?.isSome then 1 else 0) ≤ world.stepsLeft := by
  have noMore := chances_step fetches taken
  rcases step_cases taken with ⟨seconds, rfl, rfl⟩ | ⟨worker, rfl, idle, rfl⟩ |
    ⟨worker, rfl, idle, some, rfl⟩ | ⟨worker, fetched, ids, leaseEnd, rfl, works, rfl⟩ |
    ⟨worker, fetched, rfl, running, rfl⟩
  · exact le_rfl
  · refine stepsLeft_enter_lt (by simp [idle, weight]) rfl fun id => ?_
    exact Nat.le_of_add_le_add_left (noMore id)
  · exact stepsLeft_claim_lt idle some
  · refine stepsLeft_enter_lt (by simp [works, weight]) (Table.ids_update.trans Table.ids_update)
      fun id => Nat.le_of_add_le_add_left (noMore id)
  · refine stepsLeft_enter_lt ?_ Table.ids_update fun id => Nat.le_of_add_le_add_left (noMore id)
    cases phase : world.phases worker with
    | done => exact absurd phase running
    | _ => simp [weight]

theorem stepsLeft_start (now : Nat) (table : Table) :
    (start now table : World workers).stepsLeft ≤ workers * (2 * table.rows.length + 1) := by
  have sums := sum_le_card_nsmul ((table.rows.map Row.id).map
    (start now table : World workers).chances) workers fun chances member => by
      rcases mem_map.mp member with ⟨id, -, rfl⟩
      exact chances_le_workers _ id
  rw [stepsLeft]
  simp only [start, weight, Finset.sum_const, Finset.card_univ, Fintype.card_fin, smul_eq_mul,
    length_map, mul_one] at sums ⊢
  nlinarith

theorem done_or_step (world : World workers) (worker : Fin workers) :
    world.phases worker = .done ∨ ∃ event : Event workers, event.worker? = some worker ∧
      FetchesAll world event ∧ (step config world event).isSome = true := by
  cases phase : world.phases worker with
  | done => exact .inl rfl
  | idle =>
      refine .inr ⟨.claim worker, rfl, fun _ _ => nofun, ?_⟩
      rw [step, phase]
      simp only
      split <;> rfl
  | working ids leaseEnd =>
      refine .inr ⟨.finish worker ids, rfl, ?_, by simp [step, phase]⟩
      rintro _ _ ⟨rfl, rfl⟩
      rw [phase]
      exact List.Subset.refl _

end World

theorem run_step_le {world final : World workers} {events : List (Event workers)}
    (meets : AllMeet (step config) FetchesAll world events)
    (ran : events.foldlM (step config) world = some final) :
    (∀ id, final.claimed.count id + final.chances id ≤ world.claimed.count id + world.chances id) ∧
      events.countP (·.worker?.isSome) + final.stepsLeft ≤ world.stepsLeft := by
  induction events generalizing world with
  | nil =>
      cases ran
      exact ⟨fun _ => le_rfl, by simp⟩
  | cons event events induction =>
      rw [foldlM_cons] at ran
      rcases Option.bind_eq_some_iff.mp ran with ⟨next, taken, rest⟩
      rcases induction (meets.2 next taken) rest with ⟨counts, steps⟩
      have used := World.stepsLeft_step meets.1 taken
      refine ⟨fun id => (counts id).trans (World.chances_step meets.1 taken id), ?_⟩
      rw [countP_cons]
      omega

/-- While late rounds leave nothing to mark, no row on a live lease is claimed. While every round
fetches all its rows, no row is claimed more often than there are workers, and the run ends. -/
theorem backfill_ends (config : Config) (now : Nat) (table : Table) :
    (∀ world : World workers, Reaches (step config) MarksInTime (start now table) world →
      ¬ world.ClaimsLeased config) ∧
    ∀ (events : List (Event workers)) (final : World workers),
      events.foldlM (step config) (start now table) = some final →
      AllMeet (step config) FetchesAll (start now table) events →
        ¬ final.ClaimsLeased config ∧ (∀ id, final.claimed.count id ≤ workers) ∧
          events.countP (·.worker?.isSome) ≤ workers * (2 * table.rows.length + 1) ∧
          ∀ worker, final.phases worker = .done ∨ ∃ event : Event workers,
            event.worker? = some worker ∧ FetchesAll final event ∧
              (step config final event).isSome = true := by
  have initially : (start now table : World workers).Leased := ⟨nofun, nofun⟩
  have leases : ∀ world : World workers, Reaches (step config) MarksInTime (start now table) world →
      ¬ world.ClaimsLeased config := by
    intro world reached
    exact (reached.invariant World.Leased initially fun _ _ _ leased => leased.step).not_claimsLeased
  refine ⟨leases, fun events final ran meets => ⟨?_, fun id => ?_, ?_, ?_⟩⟩
  · refine leases final ((Reaches.of_allMeet events meets .start ran).mono ?_)
    intro world event fetches worker fetched ids leaseEnd isFinish works missing
    have all := fetches worker fetched isFinish
    rw [works] at all
    exact absurd all missing
  · have bound := (run_step_le config meets ran).1 id
    have most := (start now table : World workers).chances_le_workers id
    rw [show (start now table : World workers).claimed = [] from rfl, count_nil] at bound
    omega
  · have steps := (run_step_le config meets ran).2
    have most := @World.stepsLeft_start workers now table
    omega
  · exact World.done_or_step final

/-! ### A row without metadata -/

def waitingTable (checked : Option Nat) : Table := ⟨[⟨1, true, true, checked, false⟩], by simp⟩

def smallConfig : Config := ⟨.alchemy, 10, 600, by decide⟩

theorem backfill_ends_oneRow : ∃ (events : List (Event 2)) (final : World 2),
    events.foldlM (step smallConfig) (start 0 (waitingTable none)) = some final ∧
      events.countP (·.worker?.isSome) = 4 ∧ final.claimed.count 1 ≤ 2 ∧
        ¬ final.ClaimsLeased smallConfig := by
  have meets : AllMeet (step smallConfig) FetchesAll (start 0 (waitingTable none) : World 2)
      [.claim 0, .finish 0 [1], .claim 0, .claim 1] := by
    refine .cons (fun _ _ => nofun) rfl (.cons ?_ rfl
      (.cons (fun _ _ => nofun) rfl (.cons (fun _ _ => nofun) rfl trivial)))
    rintro _ _ ⟨rfl, rfl⟩
    exact List.Subset.refl [1]
  have ended := (backfill_ends smallConfig 0 (waitingTable none)).2 _ _ rfl meets
  exact ⟨[.claim 0, .finish 0 [1], .claim 0, .claim 1], _, rfl, rfl, ended.2.1 1, ended.1⟩

theorem claims_again {world : World 2} {checked : Option Nat} (idle : world.phases 0 = .idle)
    (isTable : world.table = waitingTable checked) (isPast : ∀ time ∈ checked, time ≤ world.now)
    (rounds : Nat) : ∃ (events : List (Event 2)) (final : World 2),
      events.foldlM (step smallConfig) world = some final ∧
        final.claimed.count 1 = world.claimed.count 1 + rounds := by
  induction rounds generalizing world checked with
  | zero => exact ⟨[], world, rfl, rfl⟩
  | succ rounds induction =>
      have ids : world.claimedIds smallConfig = [1] := by
        cases checked <;>
          simp_all [World.claimedIds, Table.claimedRows, Table.isClaimable, waitingTable, smallConfig]
      have claimed : step smallConfig world (.claim 0) = some (world.claim smallConfig 0) := by
        simp [step, idle, ids]
      have finished : step smallConfig (world.claim smallConfig 0) (.finish 0 []) =
          some ((world.claim smallConfig 0).finish 0 [1] []) := by
        simp [step, ids]
      rcases @induction ((world.claim smallConfig 0).finish 0 [1] []) (some world.now)
        (World.phases_enter_self ..) (by
          simp [World.finish, World.claim, World.enter, isTable, ids, Table.lease,
            Table.bulkUpdateRows, Table.markRowsChecked, Table.update, waitingTable])
        (by simp [World.finish, World.claim, World.enter]) with ⟨events, final, ran, counted⟩
      refine ⟨.claim 0 :: .finish 0 [] :: events, final, ?_, ?_⟩
      · rw [foldlM_cons, claimed, Option.bind_eq_bind, Option.bind_some, foldlM_cons,
          finished]
        exact ran
      · rw [counted]
        simp [World.finish, World.claim, World.enter, ids]
        omega

/-- A row that always fails is claimed any number of times, and a late mark ends the lease of
another worker. -/
theorem backfill_repeats :
    (∀ rounds, ∃ (events : List (Event 2)) (final : World 2),
      events.foldlM (step smallConfig) (start 0 (waitingTable none)) = some final ∧
        final.claimed.count 1 = rounds) ∧
    ∃ (events : List (Event 2)) (final : World 2),
      events.foldlM (step smallConfig) (start 0 (waitingTable none)) = some final ∧
        final.ClaimsLeased smallConfig := by
  constructor
  · intro rounds
    rcases @claims_again (start 0 (waitingTable none)) _ rfl rfl nofun rounds with
      ⟨events, final, ran, counted⟩
    exact ⟨events, final, ran, counted.trans (Nat.zero_add rounds)⟩
  · refine ⟨[.claim 0, .wait 600, .claim 1, .wait 1, .finish 0 []], _, rfl, 0, 1, [1], 1200, rfl,
      by decide, rfl, by decide, ⟨1, true, true, some 601, false⟩, ?_, by decide⟩
    exact mem_singleton.mpr rfl

end NftData.Ethereum.MetadataBackfill
