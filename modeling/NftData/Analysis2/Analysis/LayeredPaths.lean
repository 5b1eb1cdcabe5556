import NftData.Analysis2.Enrich.Evidence
import NftData.Foundation.Sorting

namespace NftData.Analysis2

/-! # Layered paths

An NFT that operators pass on from address to address, forward in time. -/

open List

inductive BehaviorKind where
  | washTrading
  | pumpAndExit
  | sybilDistribution
  | fraudRevenue
  | poisoning
  | layeredTransfer
  | inventoryConcentration
  deriving DecidableEq, Repr

/-- An event of a bundle by its position. -/
inductive PropEvent (evidence : CandidateEvidence) where
  | transfer (index : Fin evidence.events.transfers.length)
  | sale (index : Fin evidence.events.sales.length)
  deriving DecidableEq

namespace PropEvent

variable {evidence : CandidateEvidence}

def tokenId : PropEvent evidence → Text
  | transfer index => evidence.events.transfers[index].tokenId
  | sale index => evidence.events.sales[index].tokenId

def fromAddress : PropEvent evidence → Text
  | transfer index => evidence.events.transfers[index].fromAddress
  | sale index => evidence.events.sales[index].seller

/-- `prop_event_to`. -/
def toAddress : PropEvent evidence → Text
  | transfer index => evidence.events.transfers[index].toAddress
  | sale index => evidence.events.sales[index].buyer

/-- `prop_event_transaction`. -/
def transaction : PropEvent evidence → Text
  | transfer index => evidence.events.transfers[index].txHash
  | sale index => evidence.events.sales[index].txHash

/-- `prop_event_order`. -/
def order : PropEvent evidence → Option Nat × Option Int × Nat
  | transfer index =>
      (evidence.events.transfers[index].blockNumber, evidence.events.transfers[index].timestamp,
        index)
  | sale index =>
      (evidence.events.sales[index].blockNumber, evidence.events.sales[index].timestamp, index)

/-- `prop_event_precedes`. -/
def precedes (previous next : PropEvent evidence) : Bool :=
  match previous.order.1, next.order.1 with
  | some previousBlock, some nextBlock => decide (previousBlock < nextBlock)
  | _, _ =>
      match previous.order.2.1, next.order.2.1 with
      | some previousTime, some nextTime => decide (previousTime < nextTime)
      | _, _ => false

def orderedBefore (left right : PropEvent evidence) : Bool :=
  (((compare left.order.1 right.order.1).then (compare left.order.2.1 right.order.2.1)).then
    (compare left.order.2.2 right.order.2.2)).isLE

end PropEvent

/-- What the detector of layered paths records; the other fields of an instance are empty. -/
structure BehaviorInstance where
  kind : BehaviorKind
  addresses : List Text
  nfts : List Text
  transactions : List Text
  edgeCount : Nat
  startTimestamp : Option Int
  endTimestamp : Option Int
  startBlock : Option Nat
  endBlock : Option Nat
  nativeValue : ℚ
  usdValue : ℚ
  pathLength : Option Nat
  lowValueHops : Option Nat
  deriving DecidableEq

def minOption {α : Type*} [Min α] : Option α → Option α → Option α
  | some left, some right => some (min left right)
  | some left, none => some left
  | none, right => right

def maxOption {α : Type*} [Max α] : Option α → Option α → Option α
  | some left, some right => some (max left right)
  | some left, none => some left
  | none, right => right

namespace BehaviorInstance

def empty (kind : BehaviorKind) : BehaviorInstance where
  kind := kind
  addresses := []
  nfts := []
  transactions := []
  edgeCount := 0
  startTimestamp := none
  endTimestamp := none
  startBlock := none
  endBlock := none
  nativeValue := 0
  usdValue := 0
  pathLength := none
  lowValueHops := none

def absorbTransfer (record : BehaviorInstance) (transfer : TransferEvent) : BehaviorInstance :=
  { record with
    edgeCount := record.edgeCount + 1
    addresses := record.addresses ++ [transfer.fromAddress, transfer.toAddress]
    transactions := record.transactions ++ [transfer.txHash]
    nfts := record.nfts ++ [transfer.tokenId]
    startTimestamp := minOption record.startTimestamp transfer.timestamp
    endTimestamp := maxOption record.endTimestamp transfer.timestamp
    startBlock := minOption record.startBlock transfer.blockNumber
    endBlock := maxOption record.endBlock transfer.blockNumber }

def absorbSale (record : BehaviorInstance) (sale : SaleEvent) : BehaviorInstance :=
  { record with
    edgeCount := record.edgeCount + 1
    addresses := record.addresses ++ [sale.seller, sale.buyer]
    transactions := record.transactions ++ [sale.txHash]
    nfts := record.nfts ++ [sale.tokenId]
    startTimestamp := minOption record.startTimestamp sale.timestamp
    endTimestamp := maxOption record.endTimestamp sale.timestamp
    startBlock := minOption record.startBlock sale.blockNumber
    endBlock := maxOption record.endBlock sale.blockNumber
    nativeValue := record.nativeValue + max (sale.nativeAmount.getD 0) 0
    usdValue := record.usdValue + max (sale.usdAmount.getD 0) 0 }

/-- `sort` and `dedup`. -/
def sortedDistinct (texts : List Text) : List Text :=
  (texts.insertionSort (· ≤ ·)).destutter (· ≠ ·)

def finalize (record : BehaviorInstance) : BehaviorInstance :=
  { record with
    addresses := sortedDistinct record.addresses
    transactions := sortedDistinct record.transactions
    nfts := sortedDistinct record.nfts }

/-- `instance_from_prop_events`. -/
def fromPropEvents (kind : BehaviorKind) {evidence : CandidateEvidence}
    (events : List (PropEvent evidence)) : BehaviorInstance :=
  (events.foldl
    (fun record event =>
      match event with
      | .transfer index => record.absorbTransfer evidence.events.transfers[index]
      | .sale index => record.absorbSale evidence.events.sales[index])
    (empty kind)).finalize

end BehaviorInstance

section Search

variable (evidence : CandidateEvidence)

def linkedEvents : List (PropEvent evidence) :=
  ((List.finRange evidence.events.transfers.length).map PropEvent.transfer ++
    (List.finRange evidence.events.sales.length).map PropEvent.sale).filter fun event =>
      !event.tokenId.isEmpty && !event.fromAddress.isEmpty && !event.toAddress.isEmpty

/-- The events under a key of the table, in their order; a missing key has none. -/
def outgoing (token address : Text) : List (PropEvent evidence) :=
  ((linkedEvents evidence).filter fun event =>
    event.tokenId = token && event.fromAddress = address).insertionSort
      fun left right => left.orderedBefore right

/-- Go on from the last address until there are enough; `none` when no way leads on. -/
def search (token : Text) (minimumAddresses : Nat) (addresses : List Text)
    (selected : List (PropEvent evidence)) : Option (List (PropEvent evidence)) :=
  if minimumAddresses ≤ addresses.length then
    some selected
  else
    match addresses.getLast? with
    | none => none
    | some current =>
        (outgoing evidence token current).findSome? fun event =>
          if selected.getLast?.any fun previous => !previous.precedes event then
            none
          else if event.toAddress.isEmpty || addresses.contains event.toAddress then
            none
          else
            search token minimumAddresses (addresses ++ [event.toAddress]) (selected ++ [event])
termination_by minimumAddresses - addresses.length
decreasing_by
  rw [length_append, length_singleton]
  omega

def layeredEventPathFrom (token start : Text) (minimumAddresses : Nat) :
    Option (List (PropEvent evidence)) :=
  if minimumAddresses = 0 then some []
  else search evidence token minimumAddresses [start] []

variable {evidence}

def layeredPathAddresses (start : Text) (events : List (PropEvent evidence)) : List Text :=
  start :: events.map PropEvent.toAddress

def isLowValue : PropEvent evidence → Bool
  | .transfer _ => true
  | .sale index =>
      evidence.events.sales[index].usdAmount.any fun value => decide (0 ≤ value ∧ value ≤ 1)

def layeredInstance (start : Text) (selected : List (PropEvent evidence)) : BehaviorInstance :=
  let addresses := layeredPathAddresses start selected
  { BehaviorInstance.fromPropEvents .layeredTransfer selected with
    pathLength := some addresses.length
    addresses := addresses
    lowValueHops := some (selected.countP isLowValue) }

variable (evidence)

def layeredStarts (malicious : Finset Text) : List (Text × Text) :=
  (((linkedEvents evidence).map fun event => (event.tokenId, event.fromAddress)).filter fun key =>
    decide (normalizeChainAddress evidence.chain key.2 ∈ malicious)).dedup.insertionSort
      fun left right => toLex left ≤ toLex right

abbrev PathKey := Text × List Text × List Text

structure PathsFound where
  seenPaths : List PathKey
  instances : List BehaviorInstance

/-- The path from one start, unless it is already there. -/
def PathsFound.add (minimumAddresses : Nat) (found : PathsFound) (key : Text × Text) :
    PathsFound :=
  match layeredEventPathFrom evidence key.1 key.2 minimumAddresses with
  | none => found
  | some selected =>
      let pathKey := (key.1, layeredPathAddresses key.2 selected,
        selected.map PropEvent.transaction)
      if pathKey ∈ found.seenPaths then found
      else
        { seenPaths := pathKey :: found.seenPaths
          instances := found.instances ++ [layeredInstance key.2 selected] }

def layeredPaths (malicious : Finset Text) (minimumAddresses : Nat) : List BehaviorInstance :=
  ((layeredStarts evidence malicious).foldl (PathsFound.add evidence minimumAddresses)
    ⟨[], []⟩).instances

end Search

section Chains

variable {evidence : CandidateEvidence} {token start : Text} {minimumAddresses : Nat}

/-- A chain of events of one token. Each event leaves from the address that the one before reached,
no address is visited twice, and time goes on. -/
structure EventChain (token start : Text) (addressCount : Nat)
    (events : List (PropEvent evidence)) : Prop where
  count : events.length + 1 = addressCount
  tokens : ∀ event ∈ events, event.tokenId = token
  leaves : events.map PropEvent.fromAddress = (layeredPathAddresses start events).dropLast
  distinct : (layeredPathAddresses start events).Nodup
  forward : events.IsChain fun previous next => previous.precedes next = true

/-- A chain whose token and addresses have names. -/
structure NamedChain (token start : Text) (addressCount : Nat)
    (events : List (PropEvent evidence)) : Prop
    extends EventChain token start addressCount events where
  tokenNamed : token ≠ []
  addressesNamed : ∀ address ∈ layeredPathAddresses start events, address ≠ []

def Continues (token : Text) : List Text → Option (PropEvent evidence) →
    List (PropEvent evidence) → Prop
  | _, _, [] => True
  | visited, previous, event :: rest =>
      (∃ current ∈ visited.getLast?, event ∈ outgoing evidence token current) ∧
        (∀ earlier ∈ previous, earlier.precedes event = true) ∧ event.toAddress ≠ [] ∧
        event.toAddress ∉ visited ∧ Continues token (visited ++ [event.toAddress]) (some event) rest

variable {event : PropEvent evidence}

theorem mem_linkedEvents :
    event ∈ linkedEvents evidence ↔
      event.tokenId ≠ [] ∧ event.fromAddress ≠ [] ∧ event.toAddress ≠ [] := by
  have listed : event ∈ (List.finRange evidence.events.transfers.length).map PropEvent.transfer ++
      (List.finRange evidence.events.sales.length).map PropEvent.sale := by
    rw [mem_append, mem_map, mem_map]
    cases event with
    | transfer index => exact .inl ⟨index, mem_finRange index, rfl⟩
    | sale index => exact .inr ⟨index, mem_finRange index, rfl⟩
  rw [linkedEvents, mem_filter]
  simp [listed, and_assoc]

theorem mem_outgoing {address : Text} :
    event ∈ outgoing evidence token address ↔
      (event.tokenId = token ∧ event.fromAddress = address) ∧
        event.tokenId ≠ [] ∧ event.fromAddress ≠ [] ∧ event.toAddress ≠ [] := by
  rw [outgoing, mem_insertionSort, mem_filter, mem_linkedEvents]
  simp only [Bool.and_eq_true, decide_eq_true_eq]
  exact and_comm

theorem not_any_not_precedes (previous : Option (PropEvent evidence)) (event : PropEvent evidence) :
    ¬ previous.any (fun earlier => !earlier.precedes event) = true ↔
      ∀ earlier ∈ previous, earlier.precedes event = true := by
  cases previous <;> simp

/-- The search finds a way to go on, and it fails only when there is none. -/
theorem search_spec (addresses : List Text) (selected : List (PropEvent evidence))
    (fits : addresses.length ≤ minimumAddresses) :
    (∀ found, search evidence token minimumAddresses addresses selected = some found →
      ∃ rest, found = selected ++ rest ∧ addresses.length + rest.length = minimumAddresses ∧
        Continues token addresses selected.getLast? rest) ∧
    (search evidence token minimumAddresses addresses selected = none →
      ∀ rest : List (PropEvent evidence), addresses.length + rest.length = minimumAddresses →
        ¬ Continues token addresses selected.getLast? rest) := by
  fun_induction search evidence token minimumAddresses addresses selected with
  | case1 addresses selected enough =>
      have full : addresses.length = minimumAddresses := le_antisymm fits enough
      constructor
      · intro found isFound
        cases isFound
        exact ⟨[], by simp, by simpa using full, trivial⟩
      · exact fun isNone => absurd isNone (Option.some_ne_none _)
  | case2 addresses selected few noLast =>
      constructor
      · exact fun found isFound => absurd isFound.symm (Option.some_ne_none _)
      · intro _ rest total continues
        cases rest with
        | nil => exact few (by simpa using total.ge)
        | cons event rest =>
            rcases continues.1 with ⟨current, isLast, _⟩
            rw [noLast] at isLast
            exact absurd isLast (Option.not_mem_none _)
  | case3 addresses selected few current isLast induction =>
      have longer : ∀ event : PropEvent evidence,
          (addresses ++ [event.toAddress]).length ≤ minimumAddresses := by
        intro event
        rw [length_append, length_singleton]
        omega
      constructor
      · intro found isFound
        rcases List.exists_of_findSome?_eq_some isFound with ⟨event, isOutgoing, isNext⟩
        split at isNext
        · cases isNext
        next inOrder =>
        split at isNext
        · cases isNext
        next isNew =>
        rcases (induction event (longer event)).1 found isNext with ⟨rest, isRest, total, continues⟩
        rw [List.getLast?_concat] at continues
        rw [List.append_assoc] at isRest
        rw [length_append, length_singleton] at total
        rw [Bool.or_eq_true, not_or, List.isEmpty_iff, contains_iff_mem] at isNew
        refine ⟨event :: rest, isRest, by rw [length_cons]; omega, ⟨current, isLast, isOutgoing⟩,
          ?_, isNew.1, isNew.2, continues⟩
        exact (not_any_not_precedes _ event).mp inOrder
      · intro isNone rest total continues
        cases rest with
        | nil => exact few (by simpa using total.ge)
        | cons event rest =>
            rcases continues with ⟨⟨_, isCurrent, isOutgoing⟩, inOrder, named, isNew, continues⟩
            cases isLast.symm.trans isCurrent
            have stuck := List.findSome?_eq_none_iff.mp isNone event isOutgoing
            rw [if_neg ((not_any_not_precedes _ event).mpr inOrder), if_neg (by simp [named, isNew])]
              at stuck
            apply (induction event (longer event)).2 stuck rest
            · rw [length_append, length_singleton]
              rw [length_cons] at total
              omega
            · rwa [List.getLast?_concat]

theorem continues_iff {visited : List Text} {current : Text} (isLast : visited.getLast? = some current)
    (nodup : visited.Nodup) (previous : Option (PropEvent evidence))
    (events : List (PropEvent evidence)) :
    Continues token visited previous events ↔
      (∀ event ∈ events, event.tokenId = token ∧
        event.tokenId ≠ [] ∧ event.fromAddress ≠ [] ∧ event.toAddress ≠ []) ∧
      events.map PropEvent.fromAddress = (layeredPathAddresses current events).dropLast ∧
      (visited ++ events.map PropEvent.toAddress).Nodup ∧
      (previous.toList ++ events).IsChain fun earlier next => earlier.precedes next = true := by
  induction events generalizing visited current previous with
  | nil => cases previous <;> simp [Continues, layeredPathAddresses, nodup]
  | cons event events induction =>
      have lastNext : (visited ++ [event.toAddress]).getLast? = some event.toAddress :=
        List.getLast?_concat
      have joined : visited ++ (event :: events).map PropEvent.toAddress =
          (visited ++ [event.toAddress]) ++ events.map PropEvent.toAddress := by simp
      have dropped : (layeredPathAddresses current (event :: events)).dropLast =
          current :: (layeredPathAddresses event.toAddress events).dropLast := rfl
      have chained : (previous.toList ++ event :: events).IsChain
            (fun earlier next => earlier.precedes next = true) ↔
          (∀ earlier ∈ previous, earlier.precedes event = true) ∧
            ((some event).toList ++ events).IsChain
              fun earlier next => earlier.precedes next = true := by
        cases previous with
        | none => simp
        | some earlier => simp [isChain_cons_cons]
      have nodupNext : event.toAddress ∉ visited → (visited ++ [event.toAddress]).Nodup :=
        fun isNew => nodup_append.mpr ⟨nodup, nodup_singleton _, fun address member other
          isOther equal => isNew (mem_singleton.mp isOther ▸ equal ▸ member)⟩
      rw [Continues, joined, dropped, chained, map_cons, List.cons.injEq, forall_mem_cons,
        isLast]
      constructor
      · rintro ⟨⟨_, isCurrent, isOutgoing⟩, inOrder, named, isNew, continues⟩
        cases isCurrent
        rcases (induction lastNext (nodupNext isNew) (some event)).mp continues with
          ⟨each, leaves, distinct, forward⟩
        rcases mem_outgoing.mp isOutgoing with ⟨⟨isToken, isFrom⟩, names⟩
        exact ⟨⟨⟨isToken, names⟩, each⟩, ⟨isFrom, leaves⟩, distinct, inOrder, forward⟩
      · rintro ⟨⟨⟨isToken, names⟩, each⟩, ⟨isFrom, leaves⟩, distinct, inOrder, forward⟩
        have isNew : event.toAddress ∉ visited := by
          have both := nodup_append.mp (List.Nodup.of_append_left distinct)
          exact fun member => both.2.2 _ member _ (mem_singleton_self _) rfl
        exact ⟨⟨current, rfl, mem_outgoing.mpr ⟨⟨isToken, isFrom⟩, names⟩⟩, inOrder, names.2.2, isNew,
          (induction lastNext (nodupNext isNew) (some event)).mpr ⟨each, leaves, distinct, forward⟩⟩

theorem continues_start_iff {events : List (PropEvent evidence)} (nonempty : events ≠ []) :
    Continues token [start] none events ↔
      NamedChain token start (events.length + 1) events := by
  rw [continues_iff rfl (nodup_singleton start)]
  constructor
  · rintro ⟨each, leaves, distinct, forward⟩
    rcases exists_cons_of_ne_nil nonempty with ⟨first, rest, rfl⟩
    have isStart : first.fromAddress = start := (List.cons.inj leaves).1
    have ofFirst := each first mem_cons_self
    refine ⟨⟨rfl, fun event member => (each event member).1, leaves, distinct, forward⟩,
      ofFirst.1 ▸ ofFirst.2.1, ?_⟩
    intro address member
    rcases mem_cons.mp member with rfl | isTo
    · exact isStart ▸ ofFirst.2.2.1
    · rcases mem_map.mp isTo with ⟨event, isEvent, rfl⟩
      exact (each event isEvent).2.2.2
  · intro chain
    refine ⟨?_, chain.leaves, chain.distinct, chain.forward⟩
    intro event member
    have isToken := chain.tokens event member
    have isFrom : event.fromAddress ∈ layeredPathAddresses start events :=
      mem_of_mem_dropLast (chain.leaves ▸ mem_map_of_mem member)
    exact ⟨isToken, isToken ▸ chain.tokenNamed, chain.addressesNamed _ isFrom,
      chain.addressesNamed _ (mem_cons_of_mem _ (mem_map_of_mem member))⟩

theorem layeredEventPathFrom_spec (atLeast : 2 ≤ minimumAddresses) (token start : Text) :
    (∀ found : List (PropEvent evidence),
      layeredEventPathFrom evidence token start minimumAddresses = some found →
        NamedChain token start minimumAddresses found) ∧
    (layeredEventPathFrom evidence token start minimumAddresses = none →
      ∀ events : List (PropEvent evidence), ¬ NamedChain token start minimumAddresses events) := by
  have spec := @search_spec evidence token minimumAddresses [start] []
    (Nat.le_of_succ_le atLeast)
  rw [layeredEventPathFrom, if_neg (by omega)]
  constructor
  · intro found isFound
    rcases spec.1 found isFound with ⟨rest, isRest, total, continues⟩
    rw [nil_append] at isRest
    rw [← isRest, length_singleton] at total
    rw [← isRest] at continues
    have nonempty : found ≠ [] := by
      rintro rfl
      simp at total
      omega
    have chain := (continues_start_iff nonempty).mp continues
    rwa [Nat.add_comm, total] at chain
  · intro isNone events chain
    have count := chain.count
    have nonempty : events ≠ [] := by
      rintro rfl
      simp at count
      omega
    apply spec.2 isNone events (by rw [length_singleton]; omega)
    apply (continues_start_iff nonempty).mpr
    rwa [count]

/-! ## All starts -/

theorem foldl_add (keys : List (Text × Text)) (nodup : keys.Nodup) (found : PathsFound)
    (unseen : ∀ path ∈ found.seenPaths, ∀ key ∈ keys, path.1 = key.1 → path.2.1.head? ≠ some key.2) :
    (keys.foldl (PathsFound.add evidence minimumAddresses) found).instances =
      found.instances ++ keys.filterMap fun key =>
        (layeredEventPathFrom evidence key.1 key.2 minimumAddresses).map (layeredInstance key.2) := by
  induction keys generalizing found with
  | nil => simp
  | cons key keys induction =>
      have unseenRest : ∀ path ∈ found.seenPaths, ∀ other ∈ keys, path.1 = other.1 →
          path.2.1.head? ≠ some other.2 :=
        fun path isSeen other member => unseen path isSeen other (mem_cons_of_mem _ member)
      rw [nodup_cons] at nodup
      rw [foldl_cons, filterMap_cons, PathsFound.add.eq_def]
      cases layeredEventPathFrom evidence key.1 key.2 minimumAddresses with
      | none => exact induction nodup.2 found unseenRest
      | some selected =>
          have isNew : (key.1, layeredPathAddresses key.2 selected,
              selected.map PropEvent.transaction) ∉ found.seenPaths :=
            fun isSeen => unseen _ isSeen key mem_cons_self rfl rfl
          simp only [if_neg isNew, Option.map_some]
          rw [induction nodup.2, List.append_assoc, singleton_append]
          intro path isSeen other member sameToken sameStart
          rcases mem_cons.mp isSeen with rfl | earlier
          · exact nodup.1 (Prod.ext sameToken (Option.some.inj sameStart) ▸ member)
          · exact unseenRest path earlier other member sameToken sameStart

theorem layeredStarts_nodup (evidence : CandidateEvidence) (malicious : Finset Text) :
    (layeredStarts evidence malicious).Nodup :=
  (perm_insertionSort _ _).nodup_iff.mpr (nodup_dedup _)

theorem mem_layeredStarts {malicious : Finset Text} {key : Text × Text} :
    key ∈ layeredStarts evidence malicious ↔
      (∃ event ∈ linkedEvents evidence, (event.tokenId, event.fromAddress) = key) ∧
        normalizeChainAddress evidence.chain key.2 ∈ malicious := by
  rw [layeredStarts, mem_insertionSort, mem_dedup, mem_filter, mem_map,
    decide_eq_true_iff]

/-- The paths that are found: one for each token and each start of an operator from which a chain
leads through enough addresses, and no others. -/
theorem layeredPaths_spec (evidence : CandidateEvidence) (malicious : Finset Text)
    {minimumAddresses : Nat} (atLeast : 2 ≤ minimumAddresses) :
    ∃ found : List ((Text × Text) × List (PropEvent evidence)),
      layeredPaths evidence malicious minimumAddresses =
          found.map (fun path => layeredInstance path.1.2 path.2) ∧
        (found.map Prod.fst).Nodup ∧
        (∀ path ∈ found, normalizeChainAddress evidence.chain path.1.2 ∈ malicious ∧
          NamedChain path.1.1 path.1.2 minimumAddresses path.2) ∧
        ∀ token start, normalizeChainAddress evidence.chain start ∈ malicious →
          (∃ events : List (PropEvent evidence), NamedChain token start minimumAddresses events) →
            ∃ events, ((token, start), events) ∈ found := by
  have nodup := layeredStarts_nodup evidence malicious
  have member := fun key => @mem_layeredStarts evidence malicious key
  have folded := @foldl_add evidence minimumAddresses (layeredStarts evidence malicious) nodup
    ⟨[], []⟩ (by simp)
  rw [nil_append] at folded
  refine ⟨(layeredStarts evidence malicious).filterMap fun key =>
    (layeredEventPathFrom evidence key.1 key.2 minimumAddresses).map fun events => (key, events),
    ?_, ?_, ?_, ?_⟩
  · rw [layeredPaths, folded, map_filterMap]
    simp only [Option.map_map]
    rfl
  · apply (List.Nodup.sublist _ nodup)
    have guarded : (fun key : Text × Text =>
        ((layeredEventPathFrom evidence key.1 key.2 minimumAddresses).map
          fun events => (key, events)).map Prod.fst) =
        Option.guard fun key =>
          (layeredEventPathFrom evidence key.1 key.2 minimumAddresses).isSome := by
      funext key
      cases isFound : layeredEventPathFrom evidence key.1 key.2 minimumAddresses <;>
        simp [Option.guard, isFound]
    rw [map_filterMap, guarded, filterMap_eq_filter]
    exact filter_sublist
  · intro path isPath
    rcases mem_filterMap.mp isPath with ⟨key, isKey, isEvents⟩
    rcases Option.map_eq_some_iff.mp isEvents with ⟨events, isFound, rfl⟩
    exact ⟨((member key).mp isKey).2, (layeredEventPathFrom_spec atLeast key.1 key.2).1 _ isFound⟩
  · rintro token start isOperator ⟨events, chain⟩
    have isStart : (token, start) ∈ layeredStarts evidence malicious := by
      have count := chain.count
      cases events with
      | nil =>
          simp at count
          omega
      | cons first rest =>
          have isFrom : first.fromAddress = start := (List.cons.inj chain.leaves).1
          have isToken := chain.tokens first mem_cons_self
          refine (member _).mpr ⟨⟨first, mem_linkedEvents.mpr ⟨?_, ?_, ?_⟩, ?_⟩, isOperator⟩
          · exact isToken ▸ chain.tokenNamed
          · exact isFrom ▸ chain.addressesNamed start mem_cons_self
          · exact chain.addressesNamed _ (mem_cons_of_mem _ mem_cons_self)
          · rw [isToken, isFrom]
    cases isFound : layeredEventPathFrom evidence token start minimumAddresses with
    | none =>
        exact absurd chain ((layeredEventPathFrom_spec atLeast token start).2 isFound events)
    | some found =>
        exact ⟨found, mem_filterMap.mpr ⟨(token, start), isStart, by rw [isFound]; rfl⟩⟩

end Chains

def plainTransfer (token fromAddress toAddress : Text) (block : Nat) : TransferEvent where
  txHash := []
  tokenId := token
  fromAddress := fromAddress
  toAddress := toAddress
  timestamp := none
  blockNumber := some block
  isMint := false
  gasNative := none
  feePayer := none
  mintPaymentNative := none
  mintPaymentUsd := none
  mintPaymentReceiver := none

def passedOn (token : Text) : CandidateEvidence :=
  { CandidateEvidence.empty 1 "ethereum".toList "0xcand".toList with
    events := { CandidateEvents.empty with
      transfers := [plainTransfer token "0xop".toList "0xa".toList 10,
        plainTransfer token "0xa".toList "0xb".toList 11] } }

theorem layeredPaths_passedOn :
    ∃ found : List ((Text × Text) × List (PropEvent (passedOn "7".toList))),
      layeredPaths (passedOn "7".toList) {"0xop".toList} 3 =
          found.map (fun path => layeredInstance path.1.2 path.2) ∧
        (found.map Prod.fst).Nodup ∧
        (∀ path ∈ found,
          normalizeChainAddress (passedOn "7".toList).chain path.1.2 ∈ ({"0xop".toList} : Finset Text) ∧
            NamedChain path.1.1 path.1.2 3 path.2) ∧
        ∀ token start,
          normalizeChainAddress (passedOn "7".toList).chain start ∈ ({"0xop".toList} : Finset Text) →
            (∃ events : List (PropEvent (passedOn "7".toList)), NamedChain token start 3 events) →
              ∃ events, ((token, start), events) ∈ found :=
  layeredPaths_spec (passedOn "7".toList) {"0xop".toList} (by decide)

/-- The chain of a token without a name is not looked for. -/
theorem layeredPaths_unnamed :
    (∃ events : List (PropEvent (passedOn [])), EventChain [] "0xop".toList 3 events) ∧
      normalizeChainAddress (passedOn []).chain "0xop".toList ∈ ({"0xop".toList} : Finset Text) ∧
      layeredPaths (passedOn []) {"0xop".toList} 3 = [] := by
  refine ⟨⟨[.transfer ⟨0, by decide⟩, .transfer ⟨1, by decide⟩], ?_⟩, by decide, by decide⟩
  exact ⟨rfl, by decide, by decide, by decide, by decide⟩

end NftData.Analysis2
