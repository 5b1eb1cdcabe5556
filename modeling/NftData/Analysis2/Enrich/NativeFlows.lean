import NftData.Analysis2.Enrich.Evidence
import NftData.Foundation.TakeDistinct

namespace NftData.Analysis2

open Option

/-! # Native value flows

The native transfers of the operators of a candidate, fetched by address and direction. Kept are
those inside the window of the candidate's activity, and on either side of it the nearest block of
each operator. -/

open List

/-- Parsed native transfer. -/
structure NativeTransfer where
  txHash : Text
  eventId : Option Text
  fromAddress : Text
  toAddress : Text
  valueNative : Option ℚ
  timestamp : Option Int
  blockNumber : Option Nat
  deriving DecidableEq

/-- A value-flow edge with the time of its transfer. -/
structure NativeEdge extends ValueFlowEdge where
  timestamp : Option Int
  deriving DecidableEq

def valueFlowBoundaryBlocks : Nat := 50000

def widenWindow (bounds : Option (Nat × Nat)) (block : Nat) : Option (Nat × Nat) :=
  match bounds with
  | none => some (block, block)
  | some (lo, hi) => some (min lo block, max hi block)

/-- Activity block window from NFT transfers and sales when block numbers are known. -/
def activityBlockWindow (transfers : List TransferEvent) (sales : List SaleEvent) :
    Option (Nat × Nat) :=
  (transfers.filterMap TransferEvent.blockNumber ++
    sales.filterMap SaleEvent.blockNumber).foldl widenWindow none

theorem max?_concat (values : List Nat) (value : Nat) :
    (values ++ [value]).max? = some (values.max?.elim value (max · value)) := by
  cases values with
  | nil => rfl
  | cons head values => simp only [cons_append, List.max?_cons', foldl_concat,
      elim_some]

theorem min?_concat (values : List Nat) (value : Nat) :
    (values ++ [value]).min? = some (values.min?.elim value (min · value)) := by
  cases values with
  | nil => rfl
  | cons head values => simp only [cons_append, List.min?_cons', foldl_concat,
      elim_some]

/-- The nearest blocks of each operator outside the window. -/
structure BoundaryBlocks where
  nearestFunding : Text → Option Nat
  nearestWithdrawal : Text → Option Nat
  associationIncomplete : Bool

def BoundaryBlocks.new : BoundaryBlocks := ⟨fun _ => none, fun _ => none, false⟩

section

variable (operators : Finset Text) (lo hi : Nat)

/-- The first pass over one transfer. -/
def scanTransfer (blocks : BoundaryBlocks) (transfer : NativeTransfer) : BoundaryBlocks :=
  let fromOp := transfer.fromAddress ∈ operators
  let toOp := transfer.toAddress ∈ operators
  if ¬fromOp ∧ ¬toOp then blocks
  else
    match transfer.blockNumber with
    | none => { blocks with associationIncomplete := true }
    | some block =>
        if block < lo ∧ lo - block ≤ valueFlowBoundaryBlocks ∧ ¬fromOp ∧ toOp then
          { blocks with
            nearestFunding := Function.update blocks.nearestFunding transfer.toAddress
              (some ((blocks.nearestFunding transfer.toAddress).elim block (max · block))) }
        else if hi < block ∧ block - hi ≤ valueFlowBoundaryBlocks ∧ fromOp ∧ ¬toOp then
          { blocks with
            nearestWithdrawal := Function.update blocks.nearestWithdrawal transfer.fromAddress
              (some ((blocks.nearestWithdrawal transfer.fromAddress).elim block (min · block))) }
        else blocks

def isSelected (blocks : BoundaryBlocks) (transfer : NativeTransfer) : Bool :=
  match transfer.blockNumber with
  | none => false
  | some block =>
      if lo ≤ block ∧ block ≤ hi then true
      else
        let fromOp := transfer.fromAddress ∈ operators
        let toOp := transfer.toAddress ∈ operators
        (block < lo ∧ ¬fromOp ∧ toOp ∧ blocks.nearestFunding transfer.toAddress = some block) ∨
          (hi < block ∧ fromOp ∧ ¬toOp ∧
            blocks.nearestWithdrawal transfer.fromAddress = some block)

end

/-- Retain flows that can be tied to the candidate's observable NFT activity, and say whether
a transfer of an operator has no block. -/
def activityRelatedTransfers (raw : List NativeTransfer) (operators : Finset Text)
    (window : Option (Nat × Nat)) : List NativeTransfer × Bool :=
  match window with
  | none => ([], true)
  | some (lo, hi) =>
      let blocks := raw.foldl (scanTransfer operators lo hi) .new
      (raw.filter (isSelected operators lo hi blocks), blocks.associationIncomplete)

def flowKind (fromOp toOp : Bool) : Option ValueFlowKind :=
  match fromOp, toOp with
  | false, true => some .funding
  | true, false => some .withdrawal
  | true, true => some .revenueBackflow
  | false, false => none

def NativeTransfer.edge (transfer : NativeTransfer) (kind : ValueFlowKind) : NativeEdge where
  txHash := transfer.txHash
  eventId := transfer.eventId
  fromAddress := transfer.fromAddress
  toAddress := transfer.toAddress
  kind := kind
  nativeAmount := transfer.valueNative
  usdAmount := none
  gasNative := none
  feePayer := none
  timestamp := transfer.timestamp

def classifyNativeEdge (transfer : NativeTransfer) (operators : Finset Text) :
    Option NativeEdge :=
  if transfer.txHash = [] then none
  else
    let fromOp := decide (transfer.fromAddress ∈ operators)
    let toOp := decide (transfer.toAddress ∈ operators)
    if !fromOp && !toOp then none
    else if transfer.fromAddress = transfer.toAddress then none
    else (flowKind fromOp toOp).map transfer.edge

/-- What tells edges apart. -/
structure EdgeKey where
  txHash : Text
  eventId : Option Text
  fromAddress : Text
  toAddress : Text
  kind : ValueFlowKind
  amount : Text
  deriving DecidableEq

/-- The key of an edge. `amountText` renders an amount with 18 decimals. -/
def edgeKey (amountText : ℚ → Text) (edge : NativeEdge) : EdgeKey where
  txHash := edge.txHash
  eventId := edge.eventId
  fromAddress := edge.fromAddress
  toAddress := edge.toAddress
  kind := edge.kind
  amount := (edge.nativeAmount.map amountText).getD []

/-- What the answers to the requests add up to. -/
structure MergedAnswers where
  raw : List NativeTransfer
  anyOk : Bool
  anyFail : Bool
  pageTruncated : Bool
  failures : List Text

def MergedAnswers.new : MergedAnswers := ⟨[], false, false, false, []⟩

def MergedAnswers.add (merged : MergedAnswers) (outcome : FetchOutcome (List NativeTransfer)) :
    MergedAnswers :=
  match outcome.status with
  | .notRequested => merged
  | .failed =>
      { merged with anyFail := true, failures := merged.failures ++ outcome.failure.toList }
  | .empty | .complete | .truncated =>
      { merged with
        anyOk := true
        pageTruncated :=
          merged.pageTruncated || (outcome.truncated || outcome.status == .truncated)
        raw := merged.raw ++ outcome.value }

open MergedAnswers (add)

def valueFlowRequestKey (associationIncomplete : Bool) : Text :=
  if associationIncomplete then
    ("alchemy_value_flows_bounded (candidate activity window or value-flow block number " ++
      "unavailable)").toList
  else
    "alchemy_value_flows_bounded".toList

def mergeValueFlows (amountText : ℚ → Text) (operators : Finset Text) (lo hi : Nat)
    (outcomes : List (FetchOutcome (List NativeTransfer))) : FetchOutcome (List NativeEdge) :=
  let merged := outcomes.foldl add .new
  if !merged.anyOk then
    .failed "alchemy".toList "alchemy_value_flows_bounded".toList
      (if merged.failures = [] then "all value-flow fetches failed".toList
      else List.intercalate "; ".toList merged.failures)
  else
    let (selected, associationIncomplete) :=
      activityRelatedTransfers merged.raw operators (some (lo, hi))
    let edges := firstByKey (edgeKey amountText) []
      (selected.filterMap fun transfer => classifyNativeEdge transfer operators)
    let truncated := merged.pageTruncated || merged.anyFail || associationIncomplete
    let requestKey := valueFlowRequestKey associationIncomplete
    let outcome := FetchOutcome.ok edges edges.length truncated "alchemy".toList requestKey
    let failure :=
      if merged.anyFail && merged.failures ≠ [] then
        some ("alchemy_value_flows_bounded: partial failures: ".toList ++
          List.intercalate "; ".toList (merged.failures.take 3))
      else none
    { outcome with failure := failure }

/-! ## What is kept -/

section

variable (operators : Finset Text) (lo hi : Nat) (raw : List NativeTransfer)

def FundsAt (operator : Text) (transfer : NativeTransfer) (block : Nat) : Prop :=
  transfer.blockNumber = some block ∧ block < lo ∧ lo - block ≤ valueFlowBoundaryBlocks ∧
    transfer.fromAddress ∉ operators ∧ transfer.toAddress ∈ operators ∧
    transfer.toAddress = operator

def WithdrawsAt (operator : Text) (transfer : NativeTransfer) (block : Nat) : Prop :=
  transfer.blockNumber = some block ∧ hi < block ∧ block - hi ≤ valueFlowBoundaryBlocks ∧
    transfer.fromAddress ∈ operators ∧ transfer.toAddress ∉ operators ∧
    transfer.fromAddress = operator

/-- The last block before the window in which the operator is funded. -/
def LastFunding (operator : Text) (block : Nat) : Prop :=
  IsGreatest {block | ∃ transfer ∈ raw, FundsAt operators lo operator transfer block} block

/-- The first block after the window in which the operator withdraws. -/
def FirstWithdrawal (operator : Text) (block : Nat) : Prop :=
  IsLeast {block | ∃ transfer ∈ raw, WithdrawsAt operators hi operator transfer block} block

def Related (transfer : NativeTransfer) : Prop :=
  ∃ block, transfer.blockNumber = some block ∧
    ((lo ≤ block ∧ block ≤ hi) ∨
      (FundsAt operators lo transfer.toAddress transfer block ∧
        LastFunding operators lo raw transfer.toAddress block) ∨
      (WithdrawsAt operators hi transfer.fromAddress transfer block ∧
        FirstWithdrawal operators hi raw transfer.fromAddress block))

def IsOperatorEvent (transfer : NativeTransfer) : Prop :=
  transfer.txHash ≠ [] ∧ transfer.fromAddress ≠ transfer.toAddress ∧
    (transfer.fromAddress ∈ operators ∨ transfer.toAddress ∈ operators)

def eventKind (transfer : NativeTransfer) : ValueFlowKind :=
  if transfer.fromAddress ∈ operators then
    if transfer.toAddress ∈ operators then .revenueBackflow else .withdrawal
  else .funding

instance (operator : Text) (transfer : NativeTransfer) (block : Nat) :
    Decidable (FundsAt operators lo operator transfer block) := by
  unfold FundsAt
  infer_instance

instance (operator : Text) (transfer : NativeTransfer) (block : Nat) :
    Decidable (WithdrawsAt operators hi operator transfer block) := by
  unfold WithdrawsAt
  infer_instance

def fundingBlock (operator : Text) (transfer : NativeTransfer) : Option Nat :=
  transfer.blockNumber.filter fun block => FundsAt operators lo operator transfer block

def withdrawalBlock (operator : Text) (transfer : NativeTransfer) : Option Nat :=
  transfer.blockNumber.filter fun block => WithdrawsAt operators hi operator transfer block

variable {operators} {lo} {hi} {transfer : NativeTransfer} {operator : Text} {block : Nat}

theorem fundingBlock_eq_some :
    fundingBlock operators lo operator transfer = some block ↔
      FundsAt operators lo operator transfer block := by
  rw [fundingBlock, filter_eq_some_iff, decide_eq_true_eq]
  exact and_iff_right_of_imp And.left

theorem withdrawalBlock_eq_some :
    withdrawalBlock operators hi operator transfer = some block ↔
      WithdrawsAt operators hi operator transfer block := by
  rw [withdrawalBlock, filter_eq_some_iff, decide_eq_true_eq]
  exact and_iff_right_of_imp And.left

theorem scanTransfer_nearestFunding (blocks : BoundaryBlocks) (transfer : NativeTransfer)
    (operator : Text) :
    (scanTransfer operators lo hi blocks transfer).nearestFunding operator =
      (fundingBlock operators lo operator transfer).elim (blocks.nearestFunding operator)
        fun block => some ((blocks.nearestFunding operator).elim block (max · block)) := by
  cases found : fundingBlock operators lo operator transfer with
  | some block =>
      obtain ⟨known, below, near, outside, isOperator, rfl⟩ := fundingBlock_eq_some.mp found
      simp [scanTransfer, known, below, near, outside, isOperator]
  | none =>
      have notFunded (block : Nat) : ¬FundsAt operators lo operator transfer block := by
        intro funds
        rw [fundingBlock_eq_some.mpr funds] at found
        cases found
      rw [scanTransfer, elim_none]
      split
      · rfl
      · split
        · rfl
        · next block known =>
            split
            · next funds =>
                apply Function.update_of_ne
                rintro rfl
                exact notFunded block ⟨known, funds.1, funds.2.1, funds.2.2.1, funds.2.2.2, rfl⟩
            · split <;> rfl

theorem scanTransfer_nearestWithdrawal (blocks : BoundaryBlocks) (transfer : NativeTransfer)
    (operator : Text) :
    (scanTransfer operators lo hi blocks transfer).nearestWithdrawal operator =
      (withdrawalBlock operators hi operator transfer).elim (blocks.nearestWithdrawal operator)
        fun block => some ((blocks.nearestWithdrawal operator).elim block (min · block)) := by
  cases found : withdrawalBlock operators hi operator transfer with
  | some block =>
      obtain ⟨known, above, near, isOperator, outside, rfl⟩ := withdrawalBlock_eq_some.mp found
      simp [scanTransfer, known, above, near, outside, isOperator]
  | none =>
      have notWithdrawn (block : Nat) : ¬WithdrawsAt operators hi operator transfer block := by
        intro withdraws
        rw [withdrawalBlock_eq_some.mpr withdraws] at found
        cases found
      rw [scanTransfer, elim_none]
      split
      · rfl
      · split
        · rfl
        · next block known =>
            split
            · rfl
            · split
              · next withdraws =>
                  apply Function.update_of_ne
                  rintro rfl
                  exact notWithdrawn block
                    ⟨known, withdraws.1, withdraws.2.1, withdraws.2.2.1, withdraws.2.2.2, rfl⟩
              · rfl

theorem nearestFunding_eq (raw : List NativeTransfer) (operator : Text) :
    (raw.foldl (scanTransfer operators lo hi) .new).nearestFunding operator =
      (raw.filterMap (fundingBlock operators lo operator)).max? := by
  induction raw using List.reverseRecOn with
  | nil => rfl
  | append_singleton raw transfer induction =>
      rw [foldl_concat, scanTransfer_nearestFunding, induction, filterMap_append]
      cases found : fundingBlock operators lo operator transfer with
      | none => simp [found]
      | some block => simp [found, max?_concat]

theorem nearestWithdrawal_eq (raw : List NativeTransfer) (operator : Text) :
    (raw.foldl (scanTransfer operators lo hi) .new).nearestWithdrawal operator =
      (raw.filterMap (withdrawalBlock operators hi operator)).min? := by
  induction raw using List.reverseRecOn with
  | nil => rfl
  | append_singleton raw transfer induction =>
      rw [foldl_concat, scanTransfer_nearestWithdrawal, induction, filterMap_append]
      cases found : withdrawalBlock operators hi operator transfer with
      | none => simp [found]
      | some block => simp [found, min?_concat]

theorem nearestFunding_eq_some {raw : List NativeTransfer} :
    (raw.foldl (scanTransfer operators lo hi) .new).nearestFunding operator = some block ↔
      LastFunding operators lo raw operator block := by
  rw [nearestFunding_eq, List.max?_eq_some_iff, LastFunding, IsGreatest, upperBounds]
  simp only [mem_filterMap, fundingBlock_eq_some, Set.mem_ofPred_eq]

theorem nearestWithdrawal_eq_some {raw : List NativeTransfer} :
    (raw.foldl (scanTransfer operators lo hi) .new).nearestWithdrawal operator = some block ↔
      FirstWithdrawal operators hi raw operator block := by
  rw [nearestWithdrawal_eq, List.min?_eq_some_iff, FirstWithdrawal, IsLeast, lowerBounds]
  simp only [mem_filterMap, withdrawalBlock_eq_some, Set.mem_ofPred_eq]

theorem mem_activityRelatedTransfers {raw : List NativeTransfer} :
    transfer ∈ (activityRelatedTransfers raw operators (some (lo, hi))).1 ↔
      transfer ∈ raw ∧ Related operators lo hi raw transfer := by
  rw [activityRelatedTransfers, mem_filter, isSelected, Related]
  apply and_congr_right
  intro _
  cases known : transfer.blockNumber with
  | none => simp
  | some block =>
      simp only [Option.some.injEq, exists_eq_left']
      by_cases inside : lo ≤ block ∧ block ≤ hi
      · simp [inside]
      · rw [if_neg inside, or_iff_right inside, decide_eq_true_eq, nearestFunding_eq_some,
          nearestWithdrawal_eq_some]
        constructor
        · rintro (⟨below, outside, isOperator, last⟩ | ⟨above, isOperator, outside, first⟩)
          · obtain ⟨other, -, -, -, near, -⟩ := last.1
            exact .inl ⟨⟨known, below, near, outside, isOperator, rfl⟩, last⟩
          · obtain ⟨other, -, -, -, near, -⟩ := first.1
            exact .inr ⟨⟨known, above, near, isOperator, outside, rfl⟩, first⟩
        · rintro (⟨⟨-, below, -, outside, isOperator, -⟩, last⟩ |
            ⟨⟨-, above, -, isOperator, outside, -⟩, first⟩)
          · exact .inl ⟨below, outside, isOperator, last⟩
          · exact .inr ⟨above, isOperator, outside, first⟩

variable {edge : NativeEdge}

theorem classifyNativeEdge_eq_some :
    classifyNativeEdge transfer operators = some edge ↔
      IsOperatorEvent operators transfer ∧
        transfer.edge (eventKind operators transfer) = edge := by
  rw [classifyNativeEdge, IsOperatorEvent, eventKind]
  by_cases hash : transfer.txHash = []
  · simp [hash]
  · by_cases endpoints : transfer.fromAddress = transfer.toAddress
    · simp [endpoints]
    · by_cases fromOp : transfer.fromAddress ∈ operators <;>
        by_cases toOp : transfer.toAddress ∈ operators <;>
        simp [hash, endpoints, fromOp, toOp, flowKind]

variable (operators) (lo) (hi)

def IsWanted (raw : List NativeTransfer) (transfer : NativeTransfer) : Prop :=
  transfer ∈ raw ∧ IsOperatorEvent operators transfer ∧ Related operators lo hi raw transfer

variable (amountText : ℚ → Text)

def keptEdges (raw : List NativeTransfer) : List NativeEdge :=
  firstByKey (edgeKey amountText) []
    ((activityRelatedTransfers raw operators (some (lo, hi))).1.filterMap fun transfer =>
      classifyNativeEdge transfer operators)

theorem mem_classified {raw : List NativeTransfer} :
    edge ∈ ((activityRelatedTransfers raw operators (some (lo, hi))).1.filterMap fun transfer =>
        classifyNativeEdge transfer operators) ↔
      ∃ transfer, IsWanted operators lo hi raw transfer ∧
        transfer.edge (eventKind operators transfer) = edge := by
  simp only [mem_filterMap, mem_activityRelatedTransfers, classifyNativeEdge_eq_some,
    IsWanted]
  grind

end

def answeredTransfers (outcomes : List (FetchOutcome (List NativeTransfer))) :
    List NativeTransfer :=
  (outcomes.filter fun outcome =>
    outcome.status ≠ .notRequested ∧ outcome.status ≠ .failed).flatMap FetchOutcome.value

theorem MergedAnswers.foldl_add (outcomes : List (FetchOutcome (List NativeTransfer))) :
    (outcomes.foldl add .new).raw = answeredTransfers outcomes ∧
      ((outcomes.foldl add .new).anyOk = false →
        (outcomes.foldl add .new).raw = []) := by
  induction outcomes using List.reverseRecOn with
  | nil => exact ⟨rfl, fun _ => rfl⟩
  | append_singleton outcomes outcome induction =>
      rw [foldl_concat, add, answeredTransfers, filter_append,
        flatMap_append, ← answeredTransfers, ← induction.1]
      cases status : outcome.status with
      | notRequested | failed => simpa [status] using induction.2
      | empty | complete | truncated => simp [status]

theorem value_mergeValueFlows (amountText : ℚ → Text) (operators : Finset Text) (lo hi : Nat)
    (outcomes : List (FetchOutcome (List NativeTransfer))) :
    (mergeValueFlows amountText operators lo hi outcomes).value =
      keptEdges operators lo hi amountText (answeredTransfers outcomes) := by
  obtain ⟨raw, unanswered⟩ := MergedAnswers.foldl_add outcomes
  rw [← raw, mergeValueFlows]
  cases anyOk : (outcomes.foldl add .new).anyOk with
  | false =>
      rw [unanswered anyOk]
      rfl
  | true => rfl

def DistinctIds (raw : List NativeTransfer) : Prop :=
  ∀ first ∈ raw, ∀ second ∈ raw, first.eventId = second.eventId → first = second

/-- The kept edges are those of the wanted events, in whatever order the answers arrive and however
often they repeat an event: no key is kept twice, and events with their own ids all stay. -/
theorem mergeValueFlows_exact (amountText : ℚ → Text) (operators : Finset Text) (lo hi : Nat)
    (outcomes : List (FetchOutcome (List NativeTransfer))) :
    let raw := answeredTransfers outcomes
    let kept := (mergeValueFlows amountText operators lo hi outcomes).value
    (kept.map (edgeKey amountText)).Nodup ∧
      (∀ edge ∈ kept, ∃ transfer, IsWanted operators lo hi raw transfer ∧
        transfer.edge (eventKind operators transfer) = edge) ∧
      (∀ transfer, IsWanted operators lo hi raw transfer →
        edgeKey amountText (transfer.edge (eventKind operators transfer)) ∈
          kept.map (edgeKey amountText)) ∧
      (DistinctIds raw →
        (∀ edge, edge ∈ kept ↔ ∃ transfer, IsWanted operators lo hi raw transfer ∧
          transfer.edge (eventKind operators transfer) = edge) ∧
        ∀ first second, IsWanted operators lo hi raw first →
          IsWanted operators lo hi raw second → first ≠ second →
            first.edge (eventKind operators first) ≠ second.edge (eventKind operators second)) := by
  intro raw kept
  have keptEq : kept = keptEdges operators lo hi amountText raw :=
    value_mergeValueFlows amountText operators lo hi outcomes
  have sound : ∀ edge ∈ kept, ∃ transfer, IsWanted operators lo hi raw transfer ∧
      transfer.edge (eventKind operators transfer) = edge := by
    intro edge member
    rw [keptEq] at member
    rcases mem_of_mem_firstByKey _ member with known | classified
    · cases known
    · exact (mem_classified operators lo hi).mp classified
  have complete (transfer : NativeTransfer) (wanted : IsWanted operators lo hi raw transfer) :
      edgeKey amountText (transfer.edge (eventKind operators transfer)) ∈
        kept.map (edgeKey amountText) := by
    rw [keptEq, keptEdges, mem_keys_firstByKey]
    exact .inr (mem_map_of_mem
      ((mem_classified operators lo hi).mpr ⟨transfer, wanted, rfl⟩))
  refine ⟨?_, sound, complete, ?_⟩
  · rw [keptEq]
    exact nodup_keys_firstByKey _ _ nodup_nil
  · intro distinct
    constructor
    · intro edge
      constructor
      · exact sound edge
      · rintro ⟨transfer, wanted, rfl⟩
        obtain ⟨other, member, sameKey⟩ := mem_map.mp (complete transfer wanted)
        obtain ⟨source, wantedSource, rfl⟩ := sound other member
        have same : source = transfer :=
          distinct source wantedSource.1 transfer wanted.1 (congrArg EdgeKey.eventId sameKey)
        rwa [same] at member
    · intro first second wantedFirst wantedSecond different same
      have sameId : first.eventId = second.eventId :=
        congrArg (fun edge => edge.eventId) same
      exact different (distinct first wantedFirst.1 second wantedSecond.1 sameId)

/-- A transfer into the operator `b`, in the window from 10 to 20. -/
def fundingTransfer : NativeTransfer :=
  ⟨"0xaa".toList, some "1".toList, "a".toList, "b".toList, some 1, none, some 15⟩

theorem mergeValueFlows_exact_reportedTwice :
    fundingTransfer.edge .funding ∈
      (mergeValueFlows (fun _ => []) {"b".toList} 10 20
        (List.replicate 2 (.ok [fundingTransfer] 1 false [] []))).value := by
  have distinct : DistinctIds
      (answeredTransfers (List.replicate 2 (.ok [fundingTransfer] 1 false [] []))) := by
    unfold DistinctIds
    decide
  apply (((mergeValueFlows_exact (fun _ => []) {"b".toList} 10 20
    (List.replicate 2 (.ok [fundingTransfer] 1 false [] []))).2.2.2 distinct).1 _).mpr
  exact ⟨fundingTransfer, ⟨by decide, by unfold IsOperatorEvent; decide, 15, rfl, .inl (by decide)⟩,
    by decide⟩

end NftData.Analysis2
