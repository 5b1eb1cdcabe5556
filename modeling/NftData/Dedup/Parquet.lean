import NftData.Foundation.Chunks
import NftData.Dedup.Entity.Conflicts
import NftData.Dedup.Entity.Resolved
import NftData.Dedup.Entity.Retention

namespace NftData.Dedup

/-! # Sharded loading

The scan splits the rows into contiguous chunks, loads every chunk into a store
of its own, and merges the stores in order along a binary tree. -/

open List
open EntityStore

/-- The options of a load that reach the stores. -/
structure LoadOptions where
  metadataAnchors : Option Nat
  evmChains : Finset Text

def LoadOptions.newStore (options : LoadOptions) : EntityStore :=
  withOptions options.metadataAnchors options.evmChains

def ingestRows (canonicalizeJsonStrict : Canonicalizer) (store : EntityStore)
    (rows : List InputRow) : Except DedupError EntityStore :=
  rows.foldlM (tryIngestRow canonicalizeJsonStrict) store

def scanRowGroupsToShard (canonicalizeJsonStrict : Canonicalizer)
    (options : LoadOptions) (rows : List InputRow) : Except DedupError EntityStore :=
  ingestRows canonicalizeJsonStrict options.newStore.deferUnboundedMetadataSort rows

def mergeShardsOrdered (options : LoadOptions) :
    List (Except DedupError EntityStore) → Except DedupError EntityStore
  | [] => .ok options.newStore
  | [shard] => shard
  | first :: second :: rest => do
      let shards := first :: second :: rest
      let left ← mergeShardsOrdered options (shards.take (shards.length / 2))
      let right ← mergeShardsOrdered options (shards.drop (shards.length / 2))
      left.mergeShard right
termination_by shards => shards.length
decreasing_by
  · simp only [length_take, length_cons]
    omega
  · simp only [length_drop, length_cons]
    omega

def loadSharded (canonicalizeJsonStrict : Canonicalizer) (options : LoadOptions)
    (chunks : List (List InputRow)) : Except DedupError EntityStore := do
  let store ← mergeShardsOrdered options
    (chunks.map (scanRowGroupsToShard canonicalizeJsonStrict options))
  store.finalizeMetadataAnchors

def scanFileToShard (canonicalizeJsonStrict : Canonicalizer) (options : LoadOptions)
    (chunks : List (List InputRow)) : Except DedupError EntityStore :=
  mergeShardsOrdered options (chunks.map (scanRowGroupsToShard canonicalizeJsonStrict options))

def loadEntitiesWithOptions (canonicalizeJsonStrict : Canonicalizer) (options : LoadOptions)
    (files : List (List (List InputRow))) : Except DedupError EntityStore := do
  if files.isEmpty then
    .error (.invalid "load".toList "at least one --input is required".toList)
  else
    let store ← mergeShardsOrdered options
      (files.map (scanFileToShard canonicalizeJsonStrict options))
    store.finalizeMetadataAnchors

def loadSequentially (canonicalizeJsonStrict : Canonicalizer) (options : LoadOptions)
    (deferred : Bool) (rows : List InputRow) : Except DedupError EntityStore := do
  let store ← ingestRows canonicalizeJsonStrict
    (if deferred then options.newStore.deferUnboundedMetadataSort else options.newStore)
    rows
  store.finalizeMetadataAnchors

def NftValue.texts (value : NftValue) : List Text :=
  value.name.toList ++ value.tokenUri.toList ++ value.imageUri.toList

def loadStrings (rows : List InputRow) : Finset Text :=
  ((Table.loadedRows rows).flatMap fun row => row.nftValue.texts).toFinset

def recordsOf (canonicalizeJsonStrict : Canonicalizer) (rows : List InputRow)
    (name : ContractName) : List MetadataRecord :=
  rows.flatMap fun row => row.recordsFor canonicalizeJsonStrict name

def recordTokens (canonicalizeJsonStrict : Canonicalizer) (rows : List InputRow)
    (name : ContractName) : Finset Text :=
  ((recordsOf canonicalizeJsonStrict rows name).map MetadataRecord.tokenId).toFinset

variable {canonicalizeJsonStrict : Canonicalizer} {rows : List InputRow} {name : ContractName}

theorem recordTokens_subset {tokenId : Text}
    (member : tokenId ∈ recordTokens canonicalizeJsonStrict rows name) :
    tokenId ∈ rows.map InputRow.tokenId := by
  rw [recordTokens, mem_toFinset] at member
  rcases mem_map.mp member with ⟨record, inRecords, sameToken⟩
  rcases mem_flatMap.mp inRecords with ⟨row, inRows, inRow⟩
  unfold InputRow.recordsFor at inRow
  split at inRow
  · rcases mem_map.mp inRow with ⟨canonicalJson, _, equal⟩
    rw [← sameToken, ← equal]
    exact mem_map.mpr ⟨row, inRows, rfl⟩
  · simp at inRow

theorem valueWithin_loadStrings {row : InputRow} (member : row ∈ rows)
    (loaded : row.isSkipped = false) :
    ValueWithin (loadStrings rows) row.nftValue := by
  have inRows : row ∈ Table.loadedRows rows :=
    mem_filter.mpr ⟨member, by simp [loaded]⟩
  have interned : ∀ text ∈ row.nftValue.texts, text ∈ loadStrings rows := by
    intro text inside
    rw [loadStrings, mem_toFinset]
    exact mem_flatMap.mpr ⟨row, inRows, inside⟩
  constructor <;>
  · intro text isText
    apply interned
    simp [NftValue.texts, Option.mem_def.mp isText]

variable {store : EntityStore} {table : Table} {strings : Finset Text}

theorem ingestRows_simulates (represents : Represents strings store table)
    (known : ∀ row ∈ rows, row.isSkipped = false → ValueWithin strings row.nftValue) :
    Simulates (Represents strings) (ingestRows canonicalizeJsonStrict store rows)
      ((table.addRows rows).filter Table.fits) := by
  rw [Table.addRows, ← foldlM_filter Table.fits Table.addRow
    (fun _ _ _ ok => Table.addRow_shrinks ok) rows table represents.fits]
  have inputs : List.Forall₂ (fun row image => image = row ∧
      (row.isSkipped = false → ValueWithin strings row.nftValue)) rows rows :=
    forall₂_same.mpr fun row member => ⟨rfl, known row member⟩
  apply Simulates.foldlM _ represents inputs
  intro state image row sameRow stateRepresents both
  rw [both.1]
  exact tryIngestRow_simulates stateRepresents both.2

theorem emptyStore_represents (options : LoadOptions) (strings : Finset Text)
    (deferred : Bool) (capacity : strings.card ≤ stringIdCapacity) :
    Represents strings
      (if deferred then options.newStore.deferUnboundedMetadataSort
        else options.newStore) Table.empty := by
  cases deferred with
  | false =>
      exact ⟨.withOptions _ _, ⟨by simp [LoadOptions.newStore, withOptions], capacity⟩,
        rfl⟩
  | true =>
      exact ⟨.deferUnboundedMetadataSort _ _,
        ⟨by simp [LoadOptions.newStore, withOptions, deferUnboundedMetadataSort],
          capacity⟩, rfl⟩

/-- The table of two parts fits only if the parts do, so checking the parts first
changes nothing. -/
theorem addRows_parts (first second : List InputRow) :
    (((Table.empty.addRows first).filter Table.fits).bind fun left =>
      ((Table.empty.addRows second).filter Table.fits).bind fun right =>
        (left.addTable right).filter Table.fits) =
      (Table.empty.addRows (first ++ second)).filter Table.fits := by
  rw [Table.addRows_append]
  cases firstRows : Table.empty.addRows first with
  | none => rfl
  | some left =>
      have joined := Table.addTable_addRows left second
      rw [Option.bind_some, ← joined]
      cases secondRows : Table.empty.addRows second with
      | none => cases fits : left.fits <;> simp [Option.filter_some, fits]
      | some right =>
          rw [Option.bind_some]
          cases whole : left.addTable right with
          | none =>
              cases leftFits : left.fits <;> cases rightFits : right.fits <;>
                simp [Option.filter_some, leftFits, rightFits, whole]
          | some total =>
              cases totalFits : total.fits with
              | false =>
                  cases leftFits : left.fits <;> cases rightFits : right.fits <;>
                    simp [Option.filter_some, leftFits, rightFits, whole, totalFits]
              | true =>
                  rcases Table.addTable_shrinks secondRows whole totalFits with
                    ⟨leftFits, rightFits⟩
                  simp [Option.filter_some, leftFits, rightFits, whole, totalFits]

theorem mergeShardsOrdered_eq (options : LoadOptions)
    (shards : List (Except DedupError EntityStore)) :
    mergeShardsOrdered options shards = mergeTree options.newStore mergeShard shards := by
  induction shards using mergeShardsOrdered.induct
  case case1 => rw [mergeShardsOrdered, mergeTree]
  case case2 shard => rw [mergeShardsOrdered, mergeTree]
  case case3 first second rest shards leftInduction rightInduction =>
    rw [mergeShardsOrdered, mergeTree, leftInduction, rightInduction]

/-- When loads of parts merge to a load of both, the tree loads the rows of all parts. -/
theorem mergeShardsOrdered_loads {Part : Type} (options : LoadOptions)
    (load : Part → Except DedupError EntityStore) (rowsOf : Part → List InputRow)
    {Loaded : List InputRow → EntityStore → Table → Prop}
    (join : ∀ {first second store shard left right},
      first ++ second ⊆ rows → Loaded first store left → Loaded second shard right →
      Simulates (Loaded (first ++ second)) (store.mergeShard shard)
        ((left.addTable right).filter Table.fits))
    (single : ∀ part, rowsOf part ⊆ rows → Simulates (Loaded (rowsOf part)) (load part)
      ((Table.empty.addRows (rowsOf part)).filter Table.fits)) (parts : List Part) :
    (parts = [] → Loaded [] options.newStore Table.empty) → parts.flatMap rowsOf ⊆ rows →
    Simulates (Loaded (parts.flatMap rowsOf))
      (mergeShardsOrdered options (parts.map load))
      ((Table.empty.addRows (parts.flatMap rowsOf)).filter Table.fits) := by
  rw [mergeShardsOrdered_eq]
  apply mergeTree_induction fun parts result =>
    (parts = [] → Loaded [] options.newStore Table.empty) → parts.flatMap rowsOf ⊆ rows →
    Simulates (Loaded (parts.flatMap rowsOf)) result
      ((Table.empty.addRows (parts.flatMap rowsOf)).filter Table.fits)
  · exact fun empty _ => empty rfl
  · intro part _ inside
    rw [flatMap_singleton] at inside ⊢
    exact single part inside
  · intro first second left right firstSome secondSome leftLoads rightLoads _ inside
    rw [flatMap_append] at inside ⊢
    rw [← addRows_parts]
    apply (leftLoads (absurd · firstSome) (append_subset.mp inside).1).bind
    intro store table _ _ leftLoaded
    apply (rightLoads (absurd · secondSome) (append_subset.mp inside).2).bind
    intro shard part _ _ rightLoaded
    exact join inside leftLoaded rightLoaded

variable {records : List MetadataRecord}

namespace AnchorPolicy

/-- What a store holds of the records of a contract: all of them while the sort is
deferred, and else the retained ones. -/
def Gathers (policy : AnchorPolicy) (name : ContractName) (tokens : Finset Text)
    (records anchors : List MetadataRecord) : Prop :=
  if policy.deferred then
    policy.limit = none ∧ anchors = records
  else
    Retains (decide (name.1 ∈ policy.evmChains)) policy.limit tokens records anchors

/-- The order in which records are inserted does not matter. -/
def Settled (policy : AnchorPolicy) (name : ContractName) (tokens : Finset Text) :
    Prop :=
  policy.deferred = true ∨
    Untied (decide (name.1 ∈ policy.evmChains)) policy.limit tokens

variable {policy : AnchorPolicy}

theorem insert_zero (noRoom : policy.limit = some 0) (chain : Text)
    (records anchors : List MetadataRecord) :
    records.foldl (policy.insert chain) anchors = anchors := by
  induction records with
  | nil => rfl
  | cons record records induction =>
      rw [foldl_cons, AnchorPolicy.insert, if_pos noRoom, induction]

theorem insert_deferred (room : policy.limit ≠ some 0) (deferred : policy.deferred = true)
    (chain : Text) (records anchors : List MetadataRecord) :
    records.foldl (policy.insert chain) anchors = anchors ++ records := by
  induction records generalizing anchors with
  | nil => simp
  | cons record records induction =>
      rw [foldl_cons, induction, AnchorPolicy.insert, if_neg room, if_pos deferred,
        List.append_assoc, singleton_append]

theorem insert_immediate (room : policy.limit ≠ some 0)
    (immediate : ¬ policy.deferred = true) (chain : Text) :
    policy.insert chain =
      insertAnchor policy.limit (decide (chain ∈ policy.evmChains)) := by
  funext anchors record
  rw [AnchorPolicy.insert, if_neg room, if_neg immediate]

variable {name : ContractName} {tokens : Finset Text} {anchors : List MetadataRecord}

theorem Gathers.insertAll (settled : policy.Settled name tokens)
    {first second added : List MetadataRecord}
    (firstKnown : ∀ record ∈ first, record.tokenId ∈ tokens)
    (secondKnown : ∀ record ∈ second, record.tokenId ∈ tokens)
    (before : policy.Gathers name tokens first anchors)
    (after : policy.Gathers name tokens second added) :
    policy.Gathers name tokens (first ++ second)
      (added.foldl (policy.insert name.1) anchors) := by
  by_cases deferred : policy.deferred = true
  · rw [Gathers, if_pos deferred] at before after ⊢
    have room : policy.limit ≠ some 0 := by simp [before.1]
    rw [insert_deferred room deferred, before.2, after.2]
    exact ⟨before.1, rfl⟩
  · have untied := settled.resolve_left deferred
    rw [Gathers, if_neg deferred] at before after ⊢
    by_cases noRoom : policy.limit = some 0
    · rw [insert_zero noRoom]
      rw [noRoom] at before ⊢
      have none : anchors = [] := by simpa using before.bounded 0 rfl
      rw [none]
      exact .zero _
    · rw [insert_immediate noRoom deferred]
      exact before.insertAll untied firstKnown secondKnown after

theorem Gathers.insertRecords (settled : policy.Settled name tokens) {before : List MetadataRecord}
    (known : ∀ record ∈ before ++ records, record.tokenId ∈ tokens)
    (gathers : policy.Gathers name tokens before anchors) :
    policy.Gathers name tokens (before ++ records)
      (records.foldl (policy.insert name.1) anchors) := by
  by_cases deferred : policy.deferred = true
  · rw [Gathers, if_pos deferred] at gathers ⊢
    have room : policy.limit ≠ some 0 := by simp [gathers.1]
    rw [insert_deferred room deferred, gathers.2]
    exact ⟨gathers.1, rfl⟩
  · have untied := settled.resolve_left deferred
    rw [Gathers, if_neg deferred] at gathers ⊢
    by_cases noRoom : policy.limit = some 0
    · rw [insert_zero noRoom]
      rw [noRoom] at gathers ⊢
      have none : anchors = [] := by simpa using gathers.bounded 0 rfl
      rw [none]
      exact .zero _
    · rw [insert_immediate noRoom deferred]
      exact gathers.insertRecords untied noRoom records known

end AnchorPolicy

theorem ingestRows_metadata (rows : List InputRow) :
    ∀ {store next : EntityStore}, Valid store →
      ingestRows canonicalizeJsonStrict store rows = .ok next →
      next.policy = store.policy ∧
        ∀ name, next.metadataOf name =
          (recordsOf canonicalizeJsonStrict rows name).foldl
            (store.policy.insert name.1) (store.metadataOf name) := by
  induction rows with
  | nil =>
      intro store next _ ok
      cases ok
      exact ⟨rfl, fun _ => rfl⟩
  | cons row rows induction =>
      intro store next valid ok
      rw [ingestRows, foldlM_cons] at ok
      rcases bind_eq_ok ok with ⟨middle, rowOk, rest⟩
      rcases tryIngestRow_spec valid rowOk with ⟨middleValid, extension⟩
      rcases induction middleValid rest with ⟨samePolicy, metadata⟩
      refine ⟨samePolicy.trans extension.policy, fun name => ?_⟩
      rw [metadata, extension.policy, tryIngestRow_metadata valid rowOk, recordsOf,
        recordsOf, flatMap_cons, List.foldl_append]

/-! ## Loads of parts of the rows -/

/-- A store loaded from some of the rows of a load. -/
structure LoadedRows (canonicalizeJsonStrict : Canonicalizer) (strings : Finset Text)
    (policy : AnchorPolicy) (tokens : ContractName → Finset Text)
    (rows : List InputRow) (store : EntityStore) (table : Table) : Prop where
  represents : Represents strings store table
  samePolicy : store.policy = policy
  gathers : ∀ name, policy.Gathers name (tokens name)
    (recordsOf canonicalizeJsonStrict rows name) (store.metadataOf name)

section LoadedRows

variable {canonicalizeJsonStrict : Canonicalizer} {strings : Finset Text}
  {policy : AnchorPolicy} {tokens : ContractName → Finset Text}

/-- The rows belong to the load: their strings and token ids are known. -/
structure RowsWithin (canonicalizeJsonStrict : Canonicalizer) (strings : Finset Text)
    (tokens : ContractName → Finset Text) (rows : List InputRow) : Prop where
  values : ∀ row ∈ rows, row.isSkipped = false → ValueWithin strings row.nftValue
  records : ∀ name, ∀ record ∈ recordsOf canonicalizeJsonStrict rows name,
    record.tokenId ∈ tokens name

theorem RowsWithin.subset {part : List InputRow} (part_subset : part ⊆ rows)
    (within : RowsWithin canonicalizeJsonStrict strings tokens rows) :
    RowsWithin canonicalizeJsonStrict strings tokens part where
  values := fun row member => within.values row (part_subset member)
  records := by
    intro name record member
    rcases mem_flatMap.mp member with ⟨row, inPart, inRow⟩
    exact within.records name record
      (mem_flatMap.mpr ⟨row, part_subset inPart, inRow⟩)

theorem rowsWithin_self (rows : List InputRow) :
    RowsWithin canonicalizeJsonStrict (loadStrings rows)
      (recordTokens canonicalizeJsonStrict rows) rows where
  values := fun _ member => valueWithin_loadStrings member
  records := by
    intro name record member
    rw [recordTokens, mem_toFinset]
    exact mem_map.mpr ⟨record, member, rfl⟩

theorem ingestRows_loaded (settled : ∀ name, policy.Settled name (tokens name))
    (empty : LoadedRows canonicalizeJsonStrict strings policy tokens [] store
      Table.empty) (within : RowsWithin canonicalizeJsonStrict strings tokens rows) :
    Simulates (LoadedRows canonicalizeJsonStrict strings policy tokens rows)
      (ingestRows canonicalizeJsonStrict store rows)
      ((Table.empty.addRows rows).filter Table.fits) := by
  refine (ingestRows_simulates empty.represents within.values).weaken ?_
  intro next table ok represents
  rcases ingestRows_metadata rows empty.represents.valid ok with ⟨samePolicy, metadata⟩
  refine ⟨represents, samePolicy.trans empty.samePolicy, fun name => ?_⟩
  rw [metadata, empty.samePolicy]
  exact (empty.gathers name).insertRecords (settled name) (within.records name)

theorem mergeShard_loaded {shard : EntityStore} {part : Table} {first second : List InputRow}
    (settled : ∀ name, policy.Settled name (tokens name))
    (within : RowsWithin canonicalizeJsonStrict strings tokens (first ++ second))
    (left : LoadedRows canonicalizeJsonStrict strings policy tokens first store table)
    (right : LoadedRows canonicalizeJsonStrict strings policy tokens second shard part) :
    Simulates (LoadedRows canonicalizeJsonStrict strings policy tokens (first ++ second))
      (store.mergeShard shard) ((table.addTable part).filter Table.fits) := by
  refine (mergeShard_simulates left.represents right.represents).weaken ?_
  intro next whole ok represents
  have extension := (mergeShard_spec left.represents.valid ok).2
  refine ⟨represents, extension.policy.trans left.samePolicy, fun name => ?_⟩
  rw [mergeShard_metadata left.represents.valid right.represents.valid ok, left.samePolicy,
    recordsOf, flatMap_append]
  have known := within.records name
  rw [recordsOf, flatMap_append] at known
  exact (left.gathers name).insertAll (settled name)
    (fun record member => known record (mem_append_left _ member))
    (fun record member => known record (mem_append_right _ member))
    (right.gathers name)

end LoadedRows

/-! ## Finalized loads -/

theorem finalizeMetadataAnchors_metadata (valid : Valid store) :
    ∃ final, store.finalizeMetadataAnchors = .ok final ∧ Valid final ∧
      final.table = store.table ∧ ∀ name, final.metadataOf name =
        if store.policy.deferred then
          finalizeAnchors (decide (name.1 ∈ store.policy.evmChains))
            (store.metadataOf name)
        else store.metadataOf name := by
  have finalized := finalizeMetadataAnchors_eq valid
  refine ⟨_, finalized, finalizeMetadataAnchors_spec valid finalized, ?_⟩
  cases deferred : store.deferMetadataSort with
  | false =>
      exact ⟨rfl, fun name => (if_neg (by simp [policy, deferred])).symm⟩
  | true =>
      have names : (store.contracts.map store.sortedContract).map store.contractName =
          store.contracts.map store.contractName := by
        rw [map_map]
        rfl
      constructor
      · rw [if_pos rfl, table, table]
        congr 1
        apply map_congr_left
        intro nft _
        have sameContract := congrArg
          (fun names => names[nft.contractId]?.getD (([], []) : ContractName)) names
        exact Prod.ext (Prod.ext sameContract rfl) rfl
      · intro name
        have sorted : described { store with
            contracts := store.contracts.map store.sortedContract
            deferMetadataSort := false } =
            store.described.map fun entry =>
              (entry.1, finalizeAnchors (decide (entry.1.1 ∈ store.evmChains)) entry.2) := by
          rw [described, described, map_map, map_map]
          apply map_congr_left
          intro contract member
          have chainAt := List.getElem?_eq_getElem (valid.contractChains contract member)
          simp only [Function.comp_apply, sortedContract, isEvm, contractName, chainAt,
            Option.any_some, Option.getD_some]
        rw [if_pos rfl, if_pos (show store.policy.deferred = true from deferred), metadataOf,
          sorted, metadataOf]
        generalize store.described = entries
        induction entries with
        | nil => rfl
        | cons head tail induction =>
            rw [map_cons, lookup_cons, lookup_cons]
            cases same : name == head.1 with
            | false => exact induction
            | true =>
                rw [beq_iff_eq.mp same]
                rfl

section Compared

variable {canonicalizeJsonStrict : Canonicalizer} {strings : Finset Text}
  {tokens : ContractName → Finset Text}

def AnchorPolicy.Finalizes (policy : AnchorPolicy) (name : ContractName)
    (tokens : Finset Text) (records anchors : List MetadataRecord) : Prop :=
  if policy.deferred then
    policy.limit = none ∧
      anchors = finalizeAnchors (decide (name.1 ∈ policy.evmChains)) records
  else
    Retains (decide (name.1 ∈ policy.evmChains)) policy.limit tokens records anchors

theorem LoadedRows.finalize {policy : AnchorPolicy}
    (loaded : LoadedRows canonicalizeJsonStrict strings policy tokens rows store table) :
    ∃ final, store.finalizeMetadataAnchors = .ok final ∧ Valid final ∧
      final.table = table ∧ ∀ name, policy.Finalizes name (tokens name)
        (recordsOf canonicalizeJsonStrict rows name) (final.metadataOf name) := by
  rcases finalizeMetadataAnchors_metadata loaded.represents.valid with
    ⟨final, ok, valid, sameTable, metadata⟩
  refine ⟨final, ok, valid, sameTable.trans loaded.represents.reads, fun name => ?_⟩
  have gathers := loaded.gathers name
  rw [loaded.samePolicy] at metadata
  unfold AnchorPolicy.Gathers at gathers
  unfold AnchorPolicy.Finalizes
  rw [metadata]
  split at gathers
  · next deferred =>
      rw [if_pos deferred, if_pos deferred, gathers.2]
      exact ⟨gathers.1, rfl⟩
  · next immediate =>
      rw [if_neg immediate, if_neg immediate]
      exact gathers

theorem AnchorPolicy.Finalizes.unique {left right : AnchorPolicy} {tokens : Finset Text}
    {leftAnchors rightAnchors : List MetadataRecord} (sameLimit : left.limit = right.limit)
    (sameChains : left.evmChains = right.evmChains)
    (whole : tokens = (records.map MetadataRecord.tokenId).toFinset)
    (ordered : SourceOrdered records) (settled : left.deferred = true ∧ right.deferred = true ∨
      Untied (decide (name.1 ∈ left.evmChains)) left.limit tokens)
    (leftFinal : left.Finalizes name tokens records leftAnchors)
    (rightFinal : right.Finalizes name tokens records rightAnchors) :
    leftAnchors = rightAnchors := by
  unfold AnchorPolicy.Finalizes at leftFinal rightFinal
  rw [← sameLimit, ← sameChains] at rightFinal
  by_cases leftDeferred : left.deferred = true <;>
    by_cases rightDeferred : right.deferred = true
  · rw [if_pos leftDeferred] at leftFinal
    rw [if_pos rightDeferred] at rightFinal
    rw [leftFinal.2, rightFinal.2]
  · have untied := settled.resolve_left fun both => rightDeferred both.2
    rw [if_pos leftDeferred] at leftFinal
    rw [if_neg rightDeferred] at rightFinal
    rw [leftFinal.1] at untied rightFinal
    rw [leftFinal.2]
    exact Retains.unique untied whole (.finalized ordered) rightFinal
  · have untied := settled.resolve_left fun both => leftDeferred both.1
    rw [if_neg leftDeferred] at leftFinal
    rw [if_pos rightDeferred] at rightFinal
    rw [rightFinal.1] at untied leftFinal
    rw [rightFinal.2]
    exact Retains.unique untied whole leftFinal (.finalized ordered)
  · have untied := settled.resolve_left fun both => leftDeferred both.1
    rw [if_neg leftDeferred] at leftFinal
    rw [if_neg rightDeferred] at rightFinal
    exact Retains.unique untied whole leftFinal rightFinal

end Compared

def RowsOrdered (rows : List InputRow) : Prop :=
  rows.Pairwise fun left right => left.sourceOrder.compare right.sourceOrder = .lt

instance (rows : List InputRow) : Decidable (RowsOrdered rows) := by
  unfold RowsOrdered
  infer_instance

theorem recordsOf_ordered (canonicalizeJsonStrict : Canonicalizer) (ordered : RowsOrdered rows)
    (name : ContractName) :
    SourceOrdered (recordsOf canonicalizeJsonStrict rows name) := by
  have fromRow : ∀ (row : InputRow), ∀ record ∈ row.recordsFor canonicalizeJsonStrict name,
      record.sourceOrder = row.sourceOrder := by
    intro row record member
    unfold InputRow.recordsFor at member
    split at member
    · rcases mem_map.mp member with ⟨canonicalJson, _, equal⟩
      rw [← equal]
    · simp at member
  have single : ∀ row : InputRow,
      SourceOrdered (row.recordsFor canonicalizeJsonStrict name) := by
    intro row
    unfold SourceOrdered InputRow.recordsFor
    split
    · cases validatedMetadata canonicalizeJsonStrict row.metadataJson <;> simp
    · exact List.Pairwise.nil
  rw [SourceOrdered, recordsOf, pairwise_flatMap]
  refine ⟨fun row _ => single row, ordered.imp ?_⟩
  intro left right earlier leftRecord leftMember rightRecord rightMember
  rw [fromRow left leftRecord leftMember, fromRow right rightRecord rightMember]
  exact earlier

/-! ## Sharded and sequential loads agree -/

def LoadOptions.policy (options : LoadOptions) (deferred : Bool) : AnchorPolicy :=
  ⟨options.metadataAnchors, deferred && options.metadataAnchors.isNone,
    options.evmChains⟩

theorem emptyStore_loaded (canonicalizeJsonStrict : Canonicalizer) (options : LoadOptions)
    (tokens : ContractName → Finset Text) (deferred : Bool)
    (capacity : strings.card ≤ stringIdCapacity) :
    LoadedRows canonicalizeJsonStrict strings (options.policy deferred) tokens []
      (if deferred then options.newStore.deferUnboundedMetadataSort
        else options.newStore) Table.empty where
  represents := emptyStore_represents options strings deferred capacity
  samePolicy := by cases deferred <;> rfl
  gathers := by
    intro name
    have nothing : (if deferred then options.newStore.deferUnboundedMetadataSort
        else options.newStore).metadataOf name = [] := by
      cases deferred <;> rfl
    rw [nothing, AnchorPolicy.Gathers]
    split
    · next isDeferred =>
        rw [LoadOptions.policy, Bool.and_eq_true, Option.isNone_iff_eq_none] at isDeferred
        exact ⟨isDeferred.2, rfl⟩
    · exact .nil

/-- Away from ties below the limit and from more strings than there are
identifiers, it does not matter how the rows are split into chunks. -/
def ShardingSafe (canonicalizeJsonStrict : Canonicalizer) (options : LoadOptions)
    (deferred : Bool) (rows : List InputRow) : Prop :=
  (loadStrings rows).card ≤ stringIdCapacity ∧
    (deferred = true ∧ options.metadataAnchors = none ∨
      ∀ name, Untied (decide (name.1 ∈ options.evmChains)) options.metadataAnchors
        (recordTokens canonicalizeJsonStrict rows name))

variable {options : LoadOptions} {deferred : Bool}

theorem settled_of_shardingSafe {other : Bool}
    (safe : ShardingSafe canonicalizeJsonStrict options deferred rows)
    (atLeast : deferred = true → other = true) (name : ContractName) :
    (options.policy other).Settled name (recordTokens canonicalizeJsonStrict rows name) :=
  safe.2.imp
    (fun both => by simp [LoadOptions.policy, atLeast both.1, both.2])
    (fun untied => untied name)

/-- Without chunks the result of the merge is an empty store, whose sort is not
deferred. -/
theorem mergeShardsOrdered_scanned {chunks : List (List InputRow)}
    (safe : ShardingSafe canonicalizeJsonStrict options deferred chunks.flatten) :
    ∃ defers, (defers = true ∨ chunks.flatten = []) ∧
      Simulates (LoadedRows canonicalizeJsonStrict (loadStrings chunks.flatten)
          (options.policy defers) (recordTokens canonicalizeJsonStrict chunks.flatten)
          chunks.flatten)
        (mergeShardsOrdered options
          (chunks.map (scanRowGroupsToShard canonicalizeJsonStrict options)))
        ((Table.empty.addRows chunks.flatten).filter Table.fits) := by
  have start := fun defers => emptyStore_loaded canonicalizeJsonStrict options
    (recordTokens canonicalizeJsonStrict chunks.flatten) defers safe.1
  by_cases noChunks : chunks = []
  · subst noChunks
    refine ⟨false, .inr rfl, ?_⟩
    rw [map_nil, mergeShardsOrdered]
    exact start false
  · have settled := settled_of_shardingSafe safe fun _ => (rfl : true = true)
    have within := @rowsWithin_self canonicalizeJsonStrict chunks.flatten
    have loaded := mergeShardsOrdered_loads options
      (scanRowGroupsToShard canonicalizeJsonStrict options) id
      (fun inside => mergeShard_loaded settled (within.subset inside))
      (fun part inside => ingestRows_loaded settled (start true) (within.subset inside))
      chunks (absurd · noChunks)
    rw [flatMap_id] at loaded
    exact ⟨true, .inl rfl, loaded fun _ => id⟩

/-- The sharded load succeeds exactly when the sequential one does, and then they
differ in the numbers of their strings only. -/
theorem loadSharded_eq_loadSequentially (canonicalizeJsonStrict : Canonicalizer)
    (options : LoadOptions) (deferred : Bool) (chunks : List (List InputRow))
    (ordered : RowsOrdered chunks.flatten)
    (safe : ShardingSafe canonicalizeJsonStrict options deferred chunks.flatten) :
    ((∃ sharded, loadSharded canonicalizeJsonStrict options chunks = .ok sharded) ↔
      ∃ sequential, loadSequentially canonicalizeJsonStrict options deferred
        chunks.flatten = .ok sequential) ∧
    ∀ sharded sequential,
      loadSharded canonicalizeJsonStrict options chunks = .ok sharded →
      loadSequentially canonicalizeJsonStrict options deferred chunks.flatten =
        .ok sequential →
      SameUpToStrings sharded sequential := by
  rcases mergeShardsOrdered_scanned safe with ⟨defers, defersOrEmpty, mergedLoaded⟩
  have ingestedLoaded := ingestRows_loaded
    (settled_of_shardingSafe safe fun isDeferred => isDeferred)
    (emptyStore_loaded canonicalizeJsonStrict options
      (recordTokens canonicalizeJsonStrict chunks.flatten) deferred safe.1)
    (rowsWithin_self chunks.flatten)
  have shardedFinal := mergedLoaded.thenOk fun _ _ _ loaded => loaded.finalize
  have sequentialFinal := ingestedLoaded.thenOk fun _ _ _ loaded => loaded.finalize
  refine ⟨shardedFinal.ok_iff.trans sequentialFinal.ok_iff.symm, ?_⟩
  intro sharded sequential shardedOk sequentialOk
  rcases shardedFinal.related shardedOk with
    ⟨table, tableEqual, shardedValid, shardedTable, shardedRecords⟩
  rcases sequentialFinal.related sequentialOk with
    ⟨sameTable, sameEqual, sequentialValid, sequentialTable, sequentialRecords⟩
  rw [tableEqual] at sameEqual
  apply sameUpToStrings shardedValid sequentialValid
  · rw [shardedTable, sequentialTable]
    exact Option.some.inj sameEqual
  · intro name
    refine (shardedRecords name).unique (by rfl) (by rfl) (by rfl)
      (recordsOf_ordered canonicalizeJsonStrict ordered name) ?_ (sequentialRecords name)
    rcases safe.2 with ⟨isDeferred, unlimited⟩ | untied
    · rcases defersOrEmpty with isTrue | noRows
      · left
        simp [LoadOptions.policy, isTrue, isDeferred, unlimited]
      · right
        rw [noRows]
        simp [Untied, recordTokens, recordsOf]
    · exact .inr (untied name)

def metadataRow (tokenId metadataJson : String) (fileRowNumber : Nat) : InputRow :=
  ⟨"ethereum".toList, "0xabc".toList, tokenId.toList, [], [], [], metadataJson.toList,
    ⟨0, fileRowNumber⟩⟩

/-- Two chunks whose rows tie at the limit: in order, the second row evicts the
first, and the third brings its token back with other metadata. -/
theorem loadSharded_ne_loadSequentially :
    ∃ sharded sequential,
      loadSharded some ⟨some 1, {"ethereum".toList}⟩
        [[metadataRow "1" "[1]" 0], [metadataRow "01" "[2]" 1, metadataRow "1" "[3]" 2]] =
          .ok sharded ∧
      loadSequentially some ⟨some 1, {"ethereum".toList}⟩ true
        [metadataRow "1" "[1]" 0, metadataRow "01" "[2]" 1, metadataRow "1" "[3]" 2] =
          .ok sequential ∧
      ¬ SameUpToStrings sharded sequential := by
  have merged : loadSharded some ⟨some 1, {"ethereum".toList}⟩
      [[metadataRow "1" "[1]" 0], [metadataRow "01" "[2]" 1, metadataRow "1" "[3]" 2]] =
      (do
        let left ← scanRowGroupsToShard some ⟨some 1, {"ethereum".toList}⟩
          [metadataRow "1" "[1]" 0]
        let right ← scanRowGroupsToShard some ⟨some 1, {"ethereum".toList}⟩
          [metadataRow "01" "[2]" 1, metadataRow "1" "[3]" 2]
        let store ← left.mergeShard right
        store.finalizeMetadataAnchors) := by
    simp only [loadSharded, map_cons, map_nil, mergeShardsOrdered,
      length_cons, length_nil, Nat.zero_add, Nat.reduceAdd, Nat.reduceDiv,
      take_succ_cons, take_zero, drop_succ_cons, drop_zero]
    simp only [bind_assoc]
  rw [merged]
  refine ⟨_, _, rfl, rfl, ?_⟩
  intro same
  have contracts := same.contracts
  revert contracts
  decide

/-- Two rows of different tokens in two chunks. -/
theorem loadSharded_eq_loadSequentially_two_chunks :
    ∃ sharded sequential,
      loadSharded some ⟨some 1, {"ethereum".toList}⟩
        [[metadataRow "1" "[1]" 0], [metadataRow "2" "[2]" 1]] = .ok sharded ∧
      loadSequentially some ⟨some 1, {"ethereum".toList}⟩ false
        [metadataRow "1" "[1]" 0, metadataRow "2" "[2]" 1] = .ok sequential ∧
      SameUpToStrings sharded sequential := by
  have ordered : RowsOrdered [metadataRow "1" "[1]" 0, metadataRow "2" "[2]" 1] := by
    decide
  have different : ∀ isEvm, ∀ left ∈ ["1".toList, "2".toList],
      ∀ right ∈ ["1".toList, "2".toList], left ≠ right →
        tokenKey isEvm left ≠ tokenKey isEvm right := by
    decide
  have safe : ShardingSafe some ⟨some 1, {"ethereum".toList}⟩ false
      [metadataRow "1" "[1]" 0, metadataRow "2" "[2]" 1] := by
    refine ⟨by decide, .inr ?_⟩
    intro name left leftMember right rightMember unequal tie
    exact absurd tie (different _ left (recordTokens_subset leftMember) right
      (recordTokens_subset rightMember) unequal)
  have agree := loadSharded_eq_loadSequentially some ⟨some 1, {"ethereum".toList}⟩ false
    [[metadataRow "1" "[1]" 0], [metadataRow "2" "[2]" 1]] ordered safe
  rcases agree.1.mpr ⟨_, rfl⟩ with ⟨sharded, shardedOk⟩
  exact ⟨sharded, _, shardedOk, rfl, agree.2 sharded _ shardedOk rfl⟩

theorem scanFileToShard_simulates (capacity : strings.card ≤ stringIdCapacity)
    (chunks : List (List InputRow))
    (known : ∀ row ∈ chunks.flatten, row.isSkipped = false →
      ValueWithin strings row.nftValue) :
    Simulates (Represents strings) (scanFileToShard canonicalizeJsonStrict options chunks)
      ((Table.empty.addRows chunks.flatten).filter Table.fits) := by
  have start := fun deferred => emptyStore_represents options strings deferred capacity
  have loaded := mergeShardsOrdered_loads options
    (scanRowGroupsToShard canonicalizeJsonStrict options) id (fun _ => mergeShard_simulates)
    (fun chunk inside => ingestRows_simulates (start true)
      fun row inChunk => known row (inside inChunk))
    chunks fun _ => start false
  rw [flatMap_id] at loaded
  exact loaded fun _ => id

end NftData.Dedup
