import NftData.Analysis2.Analysis.EconomicLedgers

namespace NftData.Analysis2

/-! # Value flow

The aggregates of the sales of a candidate, which reports show beside its economics. -/

structure ValueFlowFacts where
  mintEdgeCount : Nat := 0
  transferEdgeCount : Nat := 0
  saleEdgeCount : Nat := 0
  nftCount : Nat := 0
  addressCount : Nat := 0
  grossRevenueNative : ℚ := 0
  grossRevenueUsd : ℚ := 0
  operatorRevenueNative : ℚ := 0
  operatorRevenueUsd : ℚ := 0
  marketplaceFeeUsd : ℚ := 0
  royaltyFeeUsd : ℚ := 0
  operatorRoyaltyUsd : ℚ := 0
  maliciousAddressCount : Nat := 0
  victimAddressCount : Nat := 0
  currentlyHoldingVictimAddressCount : Nat := 0
  maxValueReceiver : Option Text := none
  maxValueReceiverUsd : ℚ := 0
  maxValueReceiverShare : Option ℚ := none

section
variable (evidence : CandidateEvidence) (roles : RoleMap)

def holdingVictims : List Text :=
  (((evidence.events.holders.filter HolderRecord.isCurrent).map fun holder =>
    normalizedIn evidence holder.owner).filter fun owner => decide (owner ∈ roles.victims)).dedup

/-- An address that counts: not empty and, outside Solana, not the zero address. -/
def usableAddress (address : Text) : Option Text :=
  let normalized := normalizedIn evidence address
  if normalized ≠ [] ∧ (evidence.chain.equalsIgnoringAsciiCase "solana".toList = true ∨
      normalized ≠ "0x0000000000000000000000000000000000000000".toList) then
    some normalized
  else
    none

def flowNfts : List Text :=
  ((evidence.events.transfers.map TransferEvent.tokenId ++
    evidence.events.sales.map SaleEvent.tokenId ++
      (evidence.events.holders.filter HolderRecord.isCurrent).map HolderRecord.tokenId).filter
        fun token => decide (token ≠ [])).dedup

def flowAddresses : List Text :=
  ((evidence.events.transfers.flatMap (fun transfer =>
      [transfer.fromAddress, transfer.toAddress]) ++
    evidence.events.sales.flatMap (fun sale => [sale.seller, sale.buyer]) ++
      (evidence.events.holders.filter HolderRecord.isCurrent).map HolderRecord.owner).filterMap
        (usableAddress evidence)).dedup

def addTransferEdge (facts : ValueFlowFacts) (transfer : TransferEvent) : ValueFlowFacts :=
  if transfer.isMint then
    { facts with mintEdgeCount := facts.mintEdgeCount + 1 }
  else
    { facts with transferEdgeCount := facts.transferEdgeCount + 1 }

/-- The royalty recipient of a sale, when it is an operator. -/
def operatorRecipient (sale : SaleEvent) : Option Text :=
  (royaltyRecipient evidence sale).filter fun address => address ∈ roles.operators

def sellerPayout (sale : SaleEvent) : Option (Text × ℚ) :=
  let seller := normalizedIn evidence sale.seller
  if seller ∈ roles.operators then
    (nonnegative sale.sellerProceedsUsd).map fun usd => (seller, usd)
  else
    none

def royaltyPayout (sale : SaleEvent) : Option (Text × ℚ) :=
  (operatorRecipient evidence roles sale).map fun recipient =>
    (recipient, positivePart sale.royaltyFeeUsd)

def addSaleEdge (facts : ValueFlowFacts) (sale : SaleEvent) : ValueFlowFacts :=
  { facts with
    saleEdgeCount := facts.saleEdgeCount + 1
    grossRevenueNative := facts.grossRevenueNative + positivePart sale.nativeAmount
    grossRevenueUsd := facts.grossRevenueUsd + positivePart sale.usdAmount
    marketplaceFeeUsd := facts.marketplaceFeeUsd + positivePart sale.marketplaceFeeUsd
    royaltyFeeUsd := facts.royaltyFeeUsd + positivePart sale.royaltyFeeUsd }

def addSellerProceeds (facts : ValueFlowFacts) (sale : SaleEvent) : ValueFlowFacts :=
  if normalizedIn evidence sale.seller ∈ roles.operators then
    { facts with
      operatorRevenueNative :=
        facts.operatorRevenueNative + (nonnegative sale.sellerProceedsNative).getD 0
      operatorRevenueUsd :=
        facts.operatorRevenueUsd + (nonnegative sale.sellerProceedsUsd).getD 0 }
  else
    facts

def addRoyaltyProceeds (facts : ValueFlowFacts) (sale : SaleEvent) : ValueFlowFacts :=
  match operatorRecipient evidence roles sale with
  | none => facts
  | some _ =>
      { facts with
        operatorRevenueNative :=
          facts.operatorRevenueNative + positivePart sale.royaltyFeeNative
        operatorRevenueUsd := facts.operatorRevenueUsd + positivePart sale.royaltyFeeUsd
        operatorRoyaltyUsd := facts.operatorRoyaltyUsd + positivePart sale.royaltyFeeUsd }

def addFlowSale (facts : ValueFlowFacts) (sale : SaleEvent) : ValueFlowFacts :=
  addRoyaltyProceeds evidence roles
    (addSellerProceeds evidence roles (addSaleEdge facts sale) sale) sale

def payouts : List (Text × ℚ) :=
  evidence.events.sales.flatMap fun sale =>
    (sellerPayout evidence roles sale).toList ++ (royaltyPayout evidence roles sale).toList

/-- `receiver_usd`. -/
def receiverUsd : KeyedMap Text ℚ :=
  (payouts evidence roles).foldl
    (fun known payout => known.insert payout.1 ((known.lookup payout.1).getD 0 + payout.2)) ∅

/-- The receiver of most, of equal ones the smallest address. No two receivers tie, so the order
of the map does not matter. -/
def maxReceiver (receivers : List (Text × ℚ)) : Option (Text × ℚ) :=
  match receivers with
  | [] => none
  | first :: rest =>
      some (rest.foldl
        (fun best next =>
          if next.2 < best.2 ∨ (next.2 = best.2 ∧ best.1 < next.1) then best else next) first)

/-- `build_value_flow`. -/
def buildValueFlow : ValueFlowFacts :=
  let initial : ValueFlowFacts :=
    { maliciousAddressCount := roles.operators.length
      victimAddressCount := roles.victims.length
      currentlyHoldingVictimAddressCount := (holdingVictims evidence roles).length }
  let transferred := evidence.events.transfers.foldl addTransferEdge initial
  let sold := evidence.events.sales.foldl (addFlowSale evidence roles) transferred
  let counted :=
    { sold with
      nftCount := (flowNfts evidence).length
      addressCount := (flowAddresses evidence).length }
  let totalUsd := ((payouts evidence roles).map Prod.snd).sum
  let receivers := (receiverUsd evidence roles).entries.map fun entry => (entry.1, entry.2)
  match maxReceiver receivers with
  | none => counted
  | some (receiver, usd) =>
      { counted with
        maxValueReceiver := some receiver
        maxValueReceiverUsd := usd
        maxValueReceiverShare := if 0 < totalUsd then some (usd / totalUsd) else none }

end

/-! ## Shared totals -/

/-- Gross revenue, marketplace fees, royalties, operator royalties and operator revenue. -/
abbrev SharedTotals := ℚ × ℚ × ℚ × ℚ × ℚ

def EconomicFacts.sharedTotals (facts : EconomicFacts) : SharedTotals :=
  (facts.grossRevenueUsd, facts.marketplaceFeeUsd, facts.royaltyFeeUsd, facts.operatorRoyaltyUsd,
    facts.operatorOutputUsd)

open EconomicFacts (sharedTotals)

def ValueFlowFacts.sharedTotals (facts : ValueFlowFacts) : SharedTotals :=
  (facts.grossRevenueUsd, facts.marketplaceFeeUsd, facts.royaltyFeeUsd, facts.operatorRoyaltyUsd,
    facts.operatorRevenueUsd)

section
variable (evidence : CandidateEvidence) (roles : RoleMap)

def countedProceeds (sale : SaleEvent) : ℚ :=
  if normalizedIn evidence sale.seller ∈ roles.operators then
    if (nonnegative sale.sellerProceedsNative).isSome then
      (nonnegative sale.sellerProceedsUsd).getD 0
    else 0
  else 0

def countedRoyalty (sale : SaleEvent) : ℚ :=
  match positive sale.royaltyFeeNative with
  | none => 0
  | some _ =>
      match (royaltyRecipient evidence sale).filter fun address => address ≠ [] with
      | none => 0
      | some recipient => if recipient ∈ roles.operators then positivePart sale.royaltyFeeUsd else 0

def operatorMintUsd (transfer : TransferEvent) : ℚ :=
  if isPaidMint transfer && receiverIsOperator evidence roles transfer then
    positivePart transfer.mintPaymentUsd
  else 0

def proceedsUsd (sale : SaleEvent) : ℚ :=
  ((sellerPayout evidence roles sale).map Prod.snd).getD 0

def royaltyUsd (sale : SaleEvent) : ℚ :=
  ((royaltyPayout evidence roles sale).map Prod.snd).getD 0

/-! The economics add the amounts of each event. -/

section
variable (facts : EconomicFacts) (sale : SaleEvent) (transfer : TransferEvent)

theorem sharedTotals_countSale :
    (countSale evidence sale facts).sharedTotals = facts.sharedTotals := by
  rw [countSale]
  split
  · rfl
  · split <;> rfl

theorem sharedTotals_addOperatorProceeds :
    (addOperatorProceeds evidence roles sale facts).sharedTotals =
      facts.sharedTotals + (0, 0, 0, 0, countedProceeds evidence roles sale) := by
  rw [addOperatorProceeds, countedProceeds]
  split
  · cases nonnegative sale.sellerProceedsNative with
    | none => simp [sharedTotals]
    | some sellerNative =>
        cases nonnegative sale.sellerProceedsUsd <;> simp [sharedTotals]
  · simp

theorem sharedTotals_addOperatorRoyalty :
    (addOperatorRoyalty evidence roles sale facts).sharedTotals =
      facts.sharedTotals +
        (0, 0, 0, countedRoyalty evidence roles sale, countedRoyalty evidence roles sale) := by
  rw [addOperatorRoyalty, countedRoyalty]
  cases positive sale.royaltyFeeNative with
  | none => simp
  | some royaltyNative =>
      cases (royaltyRecipient evidence sale).filter fun address => address ≠ [] with
      | none => simp [sharedTotals]
      | some recipient =>
          simp only
          split
          · rw [positivePart_eq]
            cases positive sale.royaltyFeeUsd <;> simp [sharedTotals]
          · simp

theorem sharedTotals_addHonestPurchase :
    (addHonestPurchase evidence roles sale facts).sharedTotals = facts.sharedTotals := by
  rw [addHonestPurchase]
  split <;> rfl

theorem sharedTotals_addSale :
    (addSale evidence roles facts sale).sharedTotals =
      facts.sharedTotals +
        (positivePart sale.usdAmount, positivePart sale.marketplaceFeeUsd,
          positivePart sale.royaltyFeeUsd, countedRoyalty evidence roles sale,
          countedProceeds evidence roles sale + countedRoyalty evidence roles sale) := by
  rw [addSale, sharedTotals_addHonestPurchase, sharedTotals_addOperatorRoyalty,
    sharedTotals_addOperatorProceeds]
  have fees : (addRoyaltyFee evidence sale (addMarketplaceFee evidence sale (addGrossSale evidence
      sale (countSale evidence sale facts)))).sharedTotals =
        (countSale evidence sale facts).sharedTotals +
          (positivePart sale.usdAmount, positivePart sale.marketplaceFeeUsd,
            positivePart sale.royaltyFeeUsd, 0, 0) := by
    simp [sharedTotals, addRoyaltyFee, addMarketplaceFee, addGrossSale]
  rw [fees, sharedTotals_countSale, add_assoc, add_assoc]
  simp

theorem sharedTotals_addOperatorMint :
    (addOperatorMint evidence roles transfer facts).sharedTotals =
      facts.sharedTotals + (0, 0, 0, 0,
        if receiverIsOperator evidence roles transfer then positivePart transfer.mintPaymentUsd
        else 0) := by
  rw [addOperatorMint]
  cases isUnknown : transfer.mintPaymentReceiver with
  | none => simp [receiverIsOperator, isUnknown, sharedTotals]
  | some receiver =>
      cases receiverIsOperator evidence roles transfer with
      | false => simp
      | true =>
          cases unpriced : transfer.mintPaymentUsd <;>
            simp [sharedTotals, positivePart]

theorem sharedTotals_addTransfer :
    (addTransfer evidence roles facts transfer).sharedTotals =
      facts.sharedTotals + (0, 0, 0, 0, operatorMintUsd evidence roles transfer) := by
  have honest (facts : EconomicFacts) :
      (addHonestMint evidence roles transfer facts).sharedTotals = facts.sharedTotals := by
    rw [addHonestMint]
    split <;> rfl
  rw [addTransfer, operatorMintUsd]
  cases isPaidMint transfer with
  | false => simp
  | true =>
      rw [if_pos rfl, honest, sharedTotals_addOperatorMint, Bool.true_and]
      rfl

theorem sharedTotals_addValueFlow (edge : ValueFlowEdge) :
    (addValueFlow evidence facts edge).sharedTotals = facts.sharedTotals := by
  have amounts (facts : EconomicFacts) :
      (addFlowAmounts edge facts).sharedTotals = facts.sharedTotals := by
    rw [addFlowAmounts]
    cases edge.kind <;> rfl
  have pushed (facts : EconomicFacts) :
      (pushValueFlow evidence edge facts).sharedTotals = facts.sharedTotals := by
    rw [pushValueFlow]
    split <;> rfl
  rw [addValueFlow, amounts, pushed, countValueFlow]
  split
  · rfl
  · split <;> rfl

end

theorem sharedTotals_computeEconomics :
    (computeEconomics evidence roles).1.sharedTotals =
      (evidence.events.sales.map fun sale =>
        (positivePart sale.usdAmount, positivePart sale.marketplaceFeeUsd,
          positivePart sale.royaltyFeeUsd, countedRoyalty evidence roles sale,
          countedProceeds evidence roles sale + countedRoyalty evidence roles sale)).sum +
      (evidence.events.transfers.map fun transfer =>
        ((0, 0, 0, 0, operatorMintUsd evidence roles transfer) : SharedTotals)).sum := by
  have events : (economicEvents evidence roles).sharedTotals =
      (evidence.events.transfers.foldl (addTransfer evidence roles)
        (evidence.events.sales.foldl (addSale evidence roles) {})).sharedTotals := by
    rw [economicEvents]
    split
    · exact foldl_unchanged (sharedTotals_addValueFlow evidence) evidence.events.valueFlows _
    · rfl
  have same : (computeEconomics evidence roles).1.sharedTotals =
      (economicEvents evidence roles).sharedTotals := by
    rw [computeEconomics]
    cases spotRate evidence.chain evidence.events.prices <;> rfl
  rw [same, events, foldl_total (sharedTotals_addTransfer evidence roles),
    foldl_total (sharedTotals_addSale evidence roles)]
  exact congrArg₂ _ (zero_add _) rfl

/-! The value flow adds the amounts of each sale. -/

section

variable (facts : ValueFlowFacts)

theorem sharedTotals_addTransferEdge (transfer : TransferEvent) :
    (addTransferEdge facts transfer).sharedTotals = facts.sharedTotals := by
  rw [addTransferEdge]
  split <;> rfl

theorem sharedTotals_addSellerProceeds (sale : SaleEvent) :
    (addSellerProceeds evidence roles facts sale).sharedTotals =
      facts.sharedTotals + (0, 0, 0, 0, proceedsUsd evidence roles sale) := by
  rw [addSellerProceeds, proceedsUsd, sellerPayout]
  split
  · cases nonnegative sale.sellerProceedsUsd <;> simp [ValueFlowFacts.sharedTotals]
  · simp

theorem sharedTotals_addRoyaltyProceeds (sale : SaleEvent) :
    (addRoyaltyProceeds evidence roles facts sale).sharedTotals =
      facts.sharedTotals +
        (0, 0, 0, royaltyUsd evidence roles sale, royaltyUsd evidence roles sale) := by
  rw [addRoyaltyProceeds, royaltyUsd, royaltyPayout]
  cases operatorRecipient evidence roles sale <;> simp [ValueFlowFacts.sharedTotals]

theorem sharedTotals_addFlowSale (sale : SaleEvent) :
    (addFlowSale evidence roles facts sale).sharedTotals =
      facts.sharedTotals +
        (positivePart sale.usdAmount, positivePart sale.marketplaceFeeUsd,
          positivePart sale.royaltyFeeUsd, royaltyUsd evidence roles sale,
          proceedsUsd evidence roles sale + royaltyUsd evidence roles sale) := by
  have edge : (addSaleEdge facts sale).sharedTotals = facts.sharedTotals +
      (positivePart sale.usdAmount, positivePart sale.marketplaceFeeUsd,
        positivePart sale.royaltyFeeUsd, 0, 0) := by
    simp [ValueFlowFacts.sharedTotals, addSaleEdge]
  rw [addFlowSale, sharedTotals_addRoyaltyProceeds, sharedTotals_addSellerProceeds, edge,
    add_assoc, add_assoc]
  simp

end

/-- The totals of the value flow, from the amounts of the sales. -/
theorem sharedTotals_buildValueFlow :
    (buildValueFlow evidence roles).sharedTotals =
      (evidence.events.sales.map fun sale =>
        (positivePart sale.usdAmount, positivePart sale.marketplaceFeeUsd,
          positivePart sale.royaltyFeeUsd, royaltyUsd evidence roles sale,
          proceedsUsd evidence roles sale + royaltyUsd evidence roles sale)).sum := by
  have sold : (evidence.events.sales.foldl (addFlowSale evidence roles)
      (evidence.events.transfers.foldl addTransferEdge
        { maliciousAddressCount := roles.operators.length
          victimAddressCount := roles.victims.length
          currentlyHoldingVictimAddressCount :=
            (holdingVictims evidence roles).length })).sharedTotals =
      (evidence.events.sales.map fun sale =>
        (positivePart sale.usdAmount, positivePart sale.marketplaceFeeUsd,
          positivePart sale.royaltyFeeUsd, royaltyUsd evidence roles sale,
          proceedsUsd evidence roles sale + royaltyUsd evidence roles sale)).sum := by
    rw [foldl_total (sharedTotals_addFlowSale evidence roles),
      foldl_unchanged sharedTotals_addTransferEdge]
    exact zero_add _
  rw [buildValueFlow]
  simp only
  split <;> exact sold

end

/-! ## Agreement -/

section
variable (evidence : CandidateEvidence) (roles : RoleMap)

/-- Both views report the same amounts. -/
structure ViewsAgree (economics : EconomicFacts) (flow : ValueFlowFacts) : Prop where
  gross : economics.grossRevenueUsd = flow.grossRevenueUsd
  marketplaceFee : economics.marketplaceFeeUsd = flow.marketplaceFeeUsd
  royaltyFee : economics.royaltyFeeUsd = flow.royaltyFeeUsd
  operatorRoyalty : economics.operatorRoyaltyUsd = flow.operatorRoyaltyUsd
  operatorOutput : economics.operatorOutputUsd = flow.operatorRevenueUsd +
    (evidence.events.transfers.map (operatorMintUsd evidence roles)).sum

/-- Amounts in dollars that an operator received come with a native amount, and a royalty with a
recipient. -/
def AmountsComplete (sale : SaleEvent) : Prop :=
  (normalizedIn evidence sale.seller ∈ roles.operators →
    ∀ usd, sale.sellerProceedsUsd = some usd → 0 < usd →
      ∃ native, sale.sellerProceedsNative = some native ∧ 0 ≤ native) ∧
  ∀ address, sale.royaltyRecipient = some address →
    normalizedIn evidence address ∈ roles.operators →
      ∀ usd, sale.royaltyFeeUsd = some usd → 0 < usd →
        normalizedIn evidence address ≠ [] ∧
          ∃ native, sale.royaltyFeeNative = some native ∧ 0 < native

variable {evidence roles} {sale : SaleEvent}

theorem nonnegative_getD_nonneg (amount : Option ℚ) : 0 ≤ (nonnegative amount).getD 0 := by
  cases found : nonnegative amount with
  | none => exact le_rfl
  | some value => exact nonneg_of_nonnegative found

variable {amount : Option ℚ}

theorem isSome_nonnegative :
    (nonnegative amount).isSome = true ↔ ∃ value, amount = some value ∧ 0 ≤ value := by
  cases amount <;> simp [nonnegative, Option.isSome_filter]

theorem positive_ne_none :
    positive amount ≠ none ↔ ∃ value, amount = some value ∧ 0 < value := by
  cases amount <;> simp [positive]

theorem nonnegative_getD_pos :
    0 < (nonnegative amount).getD 0 ↔ ∃ value, amount = some value ∧ 0 < value := by
  cases amount with
  | none => simp [nonnegative]
  | some value =>
      by_cases known : 0 ≤ value
      · simp [nonnegative, Option.filter, known]
      · simp [nonnegative, Option.filter, known, le_of_lt (not_le.mp known)]

theorem positivePart_pos :
    0 < positivePart amount ↔ ∃ value, amount = some value ∧ 0 < value := by
  cases amount <;> simp [positivePart]

theorem ite_eq_self_iff {counted : Prop} [Decidable counted] {amount : ℚ} (known : 0 ≤ amount) :
    (if counted then amount else 0) = amount ↔ (0 < amount → counted) := by
  by_cases holds : counted
  · simp [holds]
  · rw [if_neg holds]
    exact ⟨fun nothing isPositive => absurd nothing isPositive.ne,
      fun impossible => le_antisymm known (not_lt.mp fun isPositive =>
        holds (impossible isPositive))⟩

theorem proceedsUsd_eq : proceedsUsd evidence roles sale =
    if normalizedIn evidence sale.seller ∈ roles.operators then
      (nonnegative sale.sellerProceedsUsd).getD 0 else 0 := by
  rw [proceedsUsd, sellerPayout]
  split
  · cases nonnegative sale.sellerProceedsUsd <;> rfl
  · rfl

theorem countedProceeds_le :
    countedProceeds evidence roles sale ≤ proceedsUsd evidence roles sale := by
  rw [countedProceeds, proceedsUsd_eq]
  split
  · split
    · exact le_rfl
    · exact nonnegative_getD_nonneg _
  · exact le_rfl

theorem countedProceeds_eq_iff :
    countedProceeds evidence roles sale = proceedsUsd evidence roles sale ↔
      (normalizedIn evidence sale.seller ∈ roles.operators →
        ∀ usd, sale.sellerProceedsUsd = some usd → 0 < usd →
          ∃ native, sale.sellerProceedsNative = some native ∧ 0 ≤ native) := by
  rw [countedProceeds, proceedsUsd_eq]
  by_cases isOperator : normalizedIn evidence sale.seller ∈ roles.operators
  · rw [if_pos isOperator, if_pos isOperator, ite_eq_self_iff (nonnegative_getD_nonneg _),
      isSome_nonnegative, nonnegative_getD_pos]
    exact ⟨fun complete _ usd found isPositive => complete ⟨usd, found, isPositive⟩,
      fun complete ⟨usd, found, isPositive⟩ => complete isOperator usd found isPositive⟩
  · rw [if_neg isOperator, if_neg isOperator]
    exact ⟨fun _ member => absurd member isOperator, fun _ => rfl⟩

variable {address : Text}

theorem countedRoyalty_of_some (found : sale.royaltyRecipient = some address) :
    countedRoyalty evidence roles sale =
      if normalizedIn evidence address ∈ roles.operators then
        if normalizedIn evidence address ≠ [] ∧ positive sale.royaltyFeeNative ≠ none then
          positivePart sale.royaltyFeeUsd else 0
      else 0 := by
  rw [countedRoyalty, royaltyRecipient, found, Option.map_some]
  cases positive sale.royaltyFeeNative with
  | none => simp
  | some native =>
      by_cases isEmpty : normalizedIn evidence address = [] <;>
        simp [Option.filter, isEmpty]

theorem royaltyUsd_of_some (found : sale.royaltyRecipient = some address) :
    royaltyUsd evidence roles sale =
      if normalizedIn evidence address ∈ roles.operators then positivePart sale.royaltyFeeUsd
      else 0 := by
  rw [royaltyUsd, royaltyPayout, operatorRecipient, royaltyRecipient, found, Option.map_some]
  by_cases isOperator : normalizedIn evidence address ∈ roles.operators <;>
    simp [Option.filter, isOperator]

theorem countedRoyalty_of_none (missing : sale.royaltyRecipient = none) :
    countedRoyalty evidence roles sale = 0 ∧ royaltyUsd evidence roles sale = 0 := by
  rw [countedRoyalty, royaltyUsd, royaltyPayout, operatorRecipient, royaltyRecipient, missing]
  cases positive sale.royaltyFeeNative <;> exact ⟨rfl, rfl⟩

theorem countedRoyalty_le :
    countedRoyalty evidence roles sale ≤ royaltyUsd evidence roles sale := by
  cases found : sale.royaltyRecipient with
  | none => rw [(countedRoyalty_of_none found).1, (countedRoyalty_of_none found).2]
  | some address =>
      rw [countedRoyalty_of_some found, royaltyUsd_of_some found]
      split
      · split
        · exact le_rfl
        · exact positivePart_nonneg _
      · exact le_rfl

theorem countedRoyalty_eq_iff :
    countedRoyalty evidence roles sale = royaltyUsd evidence roles sale ↔
      ∀ address, sale.royaltyRecipient = some address →
        normalizedIn evidence address ∈ roles.operators →
          ∀ usd, sale.royaltyFeeUsd = some usd → 0 < usd →
            normalizedIn evidence address ≠ [] ∧
              ∃ native, sale.royaltyFeeNative = some native ∧ 0 < native := by
  cases found : sale.royaltyRecipient with
  | none =>
      rw [(countedRoyalty_of_none found).1, (countedRoyalty_of_none found).2]
      exact ⟨fun _ _ impossible => (nomatch impossible), fun _ => rfl⟩
  | some address =>
      rw [countedRoyalty_of_some found, royaltyUsd_of_some found]
      by_cases isOperator : normalizedIn evidence address ∈ roles.operators
      · rw [if_pos isOperator, if_pos isOperator, ite_eq_self_iff (positivePart_nonneg _),
          positivePart_pos, positive_ne_none]
        refine ⟨fun complete known same _ usd priced isPositive => ?_,
          fun complete ⟨usd, priced, isPositive⟩ =>
            complete address rfl isOperator usd priced isPositive⟩
        cases same
        exact complete ⟨usd, priced, isPositive⟩
      · rw [if_neg isOperator, if_neg isOperator]
        refine ⟨fun _ known same member => ?_, fun _ => rfl⟩
        cases same
        exact absurd member isOperator

theorem sum_mint_totals (transfers : List TransferEvent) :
    (transfers.map fun transfer =>
      ((0, 0, 0, 0, operatorMintUsd evidence roles transfer) : SharedTotals)).sum =
        (0, 0, 0, 0, (transfers.map (operatorMintUsd evidence roles)).sum) := by
  induction transfers with
  | nil => rfl
  | cons transfer rest induction =>
      rw [List.map_cons, List.sum_cons, induction]
      simp

end

/-- The economics and the value flow of a bundle agree exactly when no sale pays an operator an
amount in dollars whose native amount is missing. -/
theorem viewsAgree_iff (evidence : CandidateEvidence) (roles : RoleMap) :
    ViewsAgree evidence roles (computeEconomics evidence roles).1
        (buildValueFlow evidence roles) ↔
      ∀ sale ∈ evidence.events.sales, AmountsComplete evidence roles sale := by
  have economics := sharedTotals_computeEconomics evidence roles
  have flow := sharedTotals_buildValueFlow evidence roles
  have asTotals : ViewsAgree evidence roles (computeEconomics evidence roles).1
      (buildValueFlow evidence roles) ↔
        (computeEconomics evidence roles).1.sharedTotals =
          (buildValueFlow evidence roles).sharedTotals +
            (0, 0, 0, 0, (evidence.events.transfers.map (operatorMintUsd evidence roles)).sum) := by
    rw [sharedTotals, ValueFlowFacts.sharedTotals]
    simp only [Prod.mk_add_mk, add_zero, Prod.mk.injEq]
    exact ⟨fun agree => ⟨agree.gross, agree.marketplaceFee, agree.royaltyFee,
      agree.operatorRoyalty, agree.operatorOutput⟩,
      fun ⟨gross, fee, royalty, operatorRoyalty, output⟩ =>
        ⟨gross, fee, royalty, operatorRoyalty, output⟩⟩
  rw [asTotals, economics, flow, sum_mint_totals, add_left_inj, sum_eq_iff_of_le]
  · refine forall₂_congr fun sale member => ?_
    simp only [Prod.mk.injEq, true_and]
    rw [AmountsComplete, ← countedProceeds_eq_iff, ← countedRoyalty_eq_iff]
    refine ⟨fun ⟨royalty, output⟩ => ⟨?_, royalty⟩, fun ⟨proceeds, royalty⟩ => ⟨royalty, ?_⟩⟩
    · rw [royalty] at output
      exact add_right_cancel output
    · rw [proceeds, royalty]
  · intro sale member
    exact ⟨le_rfl, le_rfl, le_rfl, countedRoyalty_le,
      add_le_add countedProceeds_le countedRoyalty_le⟩

/-! A sale for a token: an operator receives dollars, the native amount is missing. -/

def tokenSale : SaleEvent where
  txHash := "0x1".toList
  tokenId := "1".toList
  seller := "0xoperator".toList
  buyer := "0xbuyer".toList
  timestamp := none
  blockNumber := none
  marketplace := none
  nativeAmount := none
  usdAmount := some 100
  currencySymbol := some "USDC".toList
  currencyAddress := none
  sellerProceedsNative := none
  sellerProceedsUsd := some 90
  marketplaceFeeNative := none
  marketplaceFeeUsd := some 10
  royaltyFeeNative := none
  royaltyFeeUsd := none
  royaltyRecipient := none
  gasNative := none
  feePayer := none

def tokenSaleEvidence : CandidateEvidence :=
  { CandidateEvidence.empty 0 "ethereum".toList "0xnft".toList with
    events := { CandidateEvents.empty with sales := [tokenSale] } }

def tokenSaleRoles : RoleMap :=
  (∅ : RoleMap).insert "0xoperator".toList .suspectedOperator

theorem viewsAgree_tokenSale_false :
    ¬ ViewsAgree tokenSaleEvidence tokenSaleRoles
      (computeEconomics tokenSaleEvidence tokenSaleRoles).1
      (buildValueFlow tokenSaleEvidence tokenSaleRoles) := by
  intro agree
  have output := agree.operatorOutput
  revert output
  decide +kernel

end NftData.Analysis2
