import NftData.Analysis2.Analysis.GasStages

namespace NftData.Analysis2

/-! # Economics

Attacker costs, operator output and paid exposure. Every amount that enters a total in dollars is
also a row of a ledger, from which the rollup computes its totals again. -/

/-! ## Facts -/

structure ValueFlowContribution where
  txHash : Text
  eventId : Option Text
  fromAddress : Text
  toAddress : Text
  kind : ValueFlowKind
  usd : Option ℚ
  deriving DecidableEq

structure GasContribution where
  txHash : Text
  stage : GasStage
  usd : ℚ
  deriving DecidableEq

inductive EconomicContributionKind where
  | grossSale
  | marketplaceFee
  | royaltyFee
  | operatorSaleProceeds
  | operatorRoyalty
  | honestSecondaryExposure
  | operatorMintPayment
  | honestMintExposure
  deriving DecidableEq, Repr

structure EconomicContribution where
  txHash : Text
  tokenId : Text
  fromAddress : Text
  toAddress : Text
  kind : EconomicContributionKind
  usd : ℚ
  deriving DecidableEq

structure EconomicFacts where
  grossRevenueNative : ℚ := 0
  grossRevenueUsd : ℚ := 0
  setupGasNative : ℚ := 0
  setupGasUsd : ℚ := 0
  lureGasNative : ℚ := 0
  lureGasUsd : ℚ := 0
  exitGasNative : ℚ := 0
  exitGasUsd : ℚ := 0
  totalGasNative : ℚ := 0
  totalGasUsd : ℚ := 0
  operatorOutputNative : ℚ := 0
  operatorOutputUsd : ℚ := 0
  marketplaceFeeNative : ℚ := 0
  marketplaceFeeUsd : ℚ := 0
  royaltyFeeNative : ℚ := 0
  royaltyFeeUsd : ℚ := 0
  operatorRoyaltyUsd : ℚ := 0
  outputInputRatio : Option ℚ := none
  outputInputRatioIsUsd : Bool := false
  attackerInputUsd : Option ℚ := none
  secondarySaleLossNative : ℚ := 0
  secondarySaleLossUsd : ℚ := 0
  paidMintLossNative : ℚ := 0
  paidMintLossUsd : ℚ := 0
  honestLossNative : ℚ := 0
  honestLossUsd : ℚ := 0
  stuckNftCount : Nat := 0
  fundingNative : ℚ := 0
  fundingUsd : ℚ := 0
  revenueBackflowNative : ℚ := 0
  revenueBackflowUsd : ℚ := 0
  withdrawalNative : ℚ := 0
  withdrawalUsd : ℚ := 0
  pricedValueFlowCount : Nat := 0
  unpricedValueFlowCount : Nat := 0
  saleCount : Nat := 0
  pricedSaleCount : Nat := 0
  unpricedSaleCount : Nat := 0
  amountlessSaleCount : Nat := 0
  assumedStablecoinPegSaleCount : Nat := 0
  operatorSaleCount : Nat := 0
  pricedOperatorSaleProceedsCount : Nat := 0
  unpricedOperatorSaleProceedsCount : Nat := 0
  unknownOperatorSaleProceedsCount : Nat := 0
  unknownRoyaltyRecipientCount : Nat := 0
  paidMintPaymentCount : Nat := 0
  operatorPaidMintPaymentCount : Nat := 0
  pricedOperatorPaidMintPaymentCount : Nat := 0
  unpricedOperatorPaidMintPaymentCount : Nat := 0
  unknownPaidMintReceiverCount : Nat := 0
  honestPaidMintLossCount : Nat := 0
  pricedHonestPaidMintLossCount : Nat := 0
  unpricedHonestPaidMintLossCount : Nat := 0
  gasCostObserved : Bool := false
  gasCostPriced : Bool := false
  valueFlowContributions : List ValueFlowContribution := []
  gasContributions : List GasContribution := []
  economicContributions : List EconomicContribution := []

structure EconomicsQuality where
  gas : EvidenceStatus
  valueFlows : EvidenceStatus
  notes : List Text
  deriving DecidableEq

def toAsciiUppercase (text : Text) : Text := text.map Char.toUpper

def isUsdStablecoin (symbol : Text) : Bool :=
  decide (toAsciiUppercase symbol.trim ∈
    ["USDC", "USDC.E", "USDT", "USDT.E", "DAI", "USDS", "PYUSD", "FDUSD", "TUSD", "USDG", "USDE",
      "GUSD", "LUSD", "FRAX", "CRVUSD"].map String.toList)

/-- `spot_rate`: the first positive price of the native coin of the chain. -/
def spotRate (chain : Text) (prices : List PriceBucket) : Option ℚ :=
  let isNative (symbol : Text) : Bool :=
    let name := chain.toAsciiLowercase
    if name = "ethereum".toList ∨ name = "base".toList then
      symbol.equalsIgnoringAsciiCase "ETH".toList
    else if name = "polygon".toList ∨ name = "matic".toList then
      symbol.equalsIgnoringAsciiCase "MATIC".toList || symbol.equalsIgnoringAsciiCase "POL".toList
    else if name = "solana".toList then
      symbol.equalsIgnoringAsciiCase "SOL".toList
    else
      false
  ((prices.find? fun price =>
    price.chain.equalsIgnoringAsciiCase chain && isNative price.symbol &&
      decide (0 < price.usdPerNative)).map PriceBucket.usdPerNative).filter fun rate => 0 < rate

def positivePart (amount : Option ℚ) : ℚ := max (amount.getD 0) 0

def nonnegative (amount : Option ℚ) : Option ℚ := amount.filter fun value => 0 ≤ value

def positive (amount : Option ℚ) : Option ℚ := amount.filter fun value => 0 < value

section
variable (evidence : CandidateEvidence) (roles : RoleMap)

/-- A sale in a stablecoin for which the bundle has no price. -/
def assumesPeg (sale : SaleEvent) : Bool :=
  sale.currencySymbol.any isUsdStablecoin &&
    !evidence.events.prices.any fun price =>
      let sameAddress := sale.currencyAddress.any fun address =>
        price.tokenAddress.any fun priced =>
          decide (normalizedIn evidence address = normalizedIn evidence priced)
      let sameSymbol := sale.currencySymbol.any fun symbol =>
        price.symbol.equalsIgnoringAsciiCase symbol
      (sameAddress || sameSymbol) && decide (0 < price.usdPerNative)

/-! ## Sales -/

/-- `honest_holders`: tokens that likely victims hold, with their owners. -/
def honestHolders : List (Text × Text) :=
  (evidence.events.holders.filter HolderRecord.isCurrent).filterMap fun holder =>
    let owner := normalizedIn evidence holder.owner
    if owner ∈ roles.victims then some (holder.tokenId, owner) else none

def countSale (sale : SaleEvent) (facts : EconomicFacts) : EconomicFacts :=
  let counted := { facts with saleCount := facts.saleCount + 1 }
  if (nonnegative sale.usdAmount).isSome then
    { counted with
      pricedSaleCount := counted.pricedSaleCount + 1
      assumedStablecoinPegSaleCount :=
        counted.assumedStablecoinPegSaleCount + if assumesPeg evidence sale then 1 else 0 }
  else if 0 < positivePart sale.nativeAmount then
    { counted with unpricedSaleCount := counted.unpricedSaleCount + 1 }
  else
    { counted with amountlessSaleCount := counted.amountlessSaleCount + 1 }

def saleRow (sale : SaleEvent) (receiver : Text) (kind : EconomicContributionKind) (usd : ℚ) :
    EconomicContribution where
  txHash := sale.txHash
  tokenId := sale.tokenId
  fromAddress := normalizedIn evidence sale.buyer
  toAddress := receiver
  kind := kind
  usd := usd

/-- Only positive amounts are rows. -/
def pushPositive (row : EconomicContribution) (ledger : List EconomicContribution) :
    List EconomicContribution :=
  if 0 < row.usd then ledger ++ [row] else ledger

def addGrossSale (sale : SaleEvent) (facts : EconomicFacts) : EconomicFacts :=
  let usd := positivePart sale.usdAmount
  { facts with
    grossRevenueNative := facts.grossRevenueNative + positivePart sale.nativeAmount
    grossRevenueUsd := facts.grossRevenueUsd + usd
    economicContributions := pushPositive
      (saleRow evidence sale (normalizedIn evidence sale.seller) .grossSale usd)
      facts.economicContributions }

def marketplaceLabel (marketplace : Option Text) : Text :=
  "marketplace:".toList ++ marketplace.getD "unknown".toList

def addMarketplaceFee (sale : SaleEvent) (facts : EconomicFacts) : EconomicFacts :=
  { facts with
    marketplaceFeeNative := facts.marketplaceFeeNative + positivePart sale.marketplaceFeeNative
    marketplaceFeeUsd := facts.marketplaceFeeUsd + positivePart sale.marketplaceFeeUsd
    economicContributions :=
      match positive sale.marketplaceFeeUsd with
      | none => facts.economicContributions
      | some fee => facts.economicContributions ++
          [saleRow evidence sale (marketplaceLabel sale.marketplace) .marketplaceFee fee] }

/-- `royalty_recipient`, normalized. -/
def royaltyRecipient (sale : SaleEvent) : Option Text :=
  sale.royaltyRecipient.map (normalizedIn evidence)

def addRoyaltyFee (sale : SaleEvent) (facts : EconomicFacts) : EconomicFacts :=
  { facts with
    royaltyFeeNative := facts.royaltyFeeNative + positivePart sale.royaltyFeeNative
    royaltyFeeUsd := facts.royaltyFeeUsd + positivePart sale.royaltyFeeUsd
    economicContributions :=
      match positive sale.royaltyFeeUsd with
      | none => facts.economicContributions
      | some fee => facts.economicContributions ++
          [saleRow evidence sale ((royaltyRecipient evidence sale).getD []) .royaltyFee fee] }

def addOperatorProceeds (sale : SaleEvent) (facts : EconomicFacts) : EconomicFacts :=
  let seller := normalizedIn evidence sale.seller
  if seller ∈ roles.operators then
    let counted := { facts with operatorSaleCount := facts.operatorSaleCount + 1 }
    match nonnegative sale.sellerProceedsNative with
    | none =>
        { counted with
          unknownOperatorSaleProceedsCount := counted.unknownOperatorSaleProceedsCount + 1 }
    | some sellerNative =>
        let received :=
          { counted with operatorOutputNative := counted.operatorOutputNative + sellerNative }
        match nonnegative sale.sellerProceedsUsd with
        | none =>
            { received with
              unpricedOperatorSaleProceedsCount := received.unpricedOperatorSaleProceedsCount + 1 }
        | some sellerUsd =>
            { received with
              operatorOutputUsd := received.operatorOutputUsd + sellerUsd
              pricedOperatorSaleProceedsCount := received.pricedOperatorSaleProceedsCount + 1
              economicContributions := pushPositive
                (saleRow evidence sale seller .operatorSaleProceeds sellerUsd)
                received.economicContributions }
  else
    facts

def addOperatorRoyalty (sale : SaleEvent) (facts : EconomicFacts) : EconomicFacts :=
  match positive sale.royaltyFeeNative with
  | none => facts
  | some royaltyNative =>
      match (royaltyRecipient evidence sale).filter fun address => address ≠ [] with
      | none =>
          { facts with unknownRoyaltyRecipientCount := facts.unknownRoyaltyRecipientCount + 1 }
      | some recipient =>
          if recipient ∈ roles.operators then
            let received :=
              { facts with operatorOutputNative := facts.operatorOutputNative + royaltyNative }
            match positive sale.royaltyFeeUsd with
            | none => received
            | some royaltyUsd =>
                { received with
                  operatorOutputUsd := received.operatorOutputUsd + royaltyUsd
                  operatorRoyaltyUsd := received.operatorRoyaltyUsd + royaltyUsd
                  economicContributions := received.economicContributions ++
                    [saleRow evidence sale recipient .operatorRoyalty royaltyUsd] }
          else
            facts

def isHonestPurchase (sale : SaleEvent) : Bool :=
  let buyer := normalizedIn evidence sale.buyer
  decide (buyer ∈ roles.victims) &&
    decide ((sale.tokenId, buyer) ∈ honestHolders evidence roles) &&
      (decide (0 < positivePart sale.nativeAmount) || decide (0 < positivePart sale.usdAmount))

def addHonestPurchase (sale : SaleEvent) (facts : EconomicFacts) : EconomicFacts :=
  if isHonestPurchase evidence roles sale then
    let nativeAmount := positivePart sale.nativeAmount
    let usd := positivePart sale.usdAmount
    { facts with
      secondarySaleLossNative := facts.secondarySaleLossNative + nativeAmount
      secondarySaleLossUsd := facts.secondarySaleLossUsd + usd
      honestLossNative := facts.honestLossNative + nativeAmount
      honestLossUsd := facts.honestLossUsd + usd
      economicContributions := pushPositive
        (saleRow evidence sale (normalizedIn evidence sale.seller) .honestSecondaryExposure usd)
        facts.economicContributions }
  else
    facts

def addSale (facts : EconomicFacts) (sale : SaleEvent) : EconomicFacts :=
  addHonestPurchase evidence roles sale (addOperatorRoyalty evidence roles sale
    (addOperatorProceeds evidence roles sale (addRoyaltyFee evidence sale
      (addMarketplaceFee evidence sale (addGrossSale evidence sale
        (countSale evidence sale facts))))))

def isPaidMint (transfer : TransferEvent) : Bool :=
  transfer.isMint &&
    (decide (0 < positivePart transfer.mintPaymentNative) ||
      decide (0 < positivePart transfer.mintPaymentUsd))

def receiverIsOperator (transfer : TransferEvent) : Bool :=
  transfer.mintPaymentReceiver.any fun address =>
    let receiver := normalizedIn evidence address
    decide (receiver ∈ roles.operators) ||
      decide (receiver = normalizedIn evidence evidence.address) ||
        evidence.events.controllers.any fun controller =>
          decide (receiver = normalizedIn evidence controller)

def mintRow (transfer : TransferEvent) (kind : EconomicContributionKind) (usd : ℚ) :
    EconomicContribution where
  txHash := transfer.txHash
  tokenId := transfer.tokenId
  fromAddress := normalizedIn evidence transfer.toAddress
  toAddress := (transfer.mintPaymentReceiver.map (normalizedIn evidence)).getD []
  kind := kind
  usd := usd

def addOperatorMint (transfer : TransferEvent) (facts : EconomicFacts) : EconomicFacts :=
  let usd := positivePart transfer.mintPaymentUsd
  if transfer.mintPaymentReceiver.isNone then
    { facts with unknownPaidMintReceiverCount := facts.unknownPaidMintReceiverCount + 1 }
  else if receiverIsOperator evidence roles transfer then
    let received :=
      { facts with
        operatorPaidMintPaymentCount := facts.operatorPaidMintPaymentCount + 1
        operatorOutputNative :=
          facts.operatorOutputNative + positivePart transfer.mintPaymentNative }
    if transfer.mintPaymentUsd.isSome then
      { received with
        pricedOperatorPaidMintPaymentCount := received.pricedOperatorPaidMintPaymentCount + 1
        operatorOutputUsd := received.operatorOutputUsd + usd
        economicContributions := pushPositive
          (mintRow evidence transfer .operatorMintPayment usd) received.economicContributions }
    else
      { received with
        unpricedOperatorPaidMintPaymentCount :=
          received.unpricedOperatorPaidMintPaymentCount + 1 }
  else
    facts

def isHonestMint (transfer : TransferEvent) : Bool :=
  let recipient := normalizedIn evidence transfer.toAddress
  decide (recipient ∈ roles.victims) &&
    decide ((transfer.tokenId, recipient) ∈ honestHolders evidence roles)

def addHonestMint (transfer : TransferEvent) (facts : EconomicFacts) : EconomicFacts :=
  if isHonestMint evidence roles transfer then
    let nativeAmount := positivePart transfer.mintPaymentNative
    let usd := positivePart transfer.mintPaymentUsd
    let isPriced := transfer.mintPaymentUsd.isSome
    { facts with
      honestPaidMintLossCount := facts.honestPaidMintLossCount + 1
      pricedHonestPaidMintLossCount :=
        facts.pricedHonestPaidMintLossCount + if isPriced then 1 else 0
      unpricedHonestPaidMintLossCount :=
        facts.unpricedHonestPaidMintLossCount + if isPriced then 0 else 1
      paidMintLossNative := facts.paidMintLossNative + nativeAmount
      paidMintLossUsd := facts.paidMintLossUsd + usd
      honestLossNative := facts.honestLossNative + nativeAmount
      honestLossUsd := facts.honestLossUsd + usd
      economicContributions := pushPositive
        (mintRow evidence transfer .honestMintExposure usd) facts.economicContributions }
  else
    facts

def addTransfer (facts : EconomicFacts) (transfer : TransferEvent) : EconomicFacts :=
  if isPaidMint transfer then
    addHonestMint evidence roles transfer (addOperatorMint evidence roles transfer
      { facts with paidMintPaymentCount := facts.paidMintPaymentCount + 1 })
  else
    facts

/-- `stuck_nfts`: the tokens that honest buyers paid for and hold. -/
def stuckNfts : List Text :=
  ((evidence.events.sales.filter (isHonestPurchase evidence roles)).map SaleEvent.tokenId ++
    (evidence.events.transfers.filter fun transfer =>
      isPaidMint transfer && isHonestMint evidence roles transfer).map
        TransferEvent.tokenId).dedup

def countValueFlow (edge : ValueFlowEdge) (facts : EconomicFacts) : EconomicFacts :=
  if (nonnegative edge.usdAmount).isSome then
    { facts with pricedValueFlowCount := facts.pricedValueFlowCount + 1 }
  else if 0 < (positive edge.nativeAmount).getD 0 then
    { facts with unpricedValueFlowCount := facts.unpricedValueFlowCount + 1 }
  else
    facts

def valueFlowRow (edge : ValueFlowEdge) : ValueFlowContribution where
  txHash := edge.txHash
  eventId := edge.eventId
  fromAddress := normalizedIn evidence edge.fromAddress
  toAddress := normalizedIn evidence edge.toAddress
  kind := edge.kind
  usd := nonnegative edge.usdAmount

def pushValueFlow (edge : ValueFlowEdge) (facts : EconomicFacts) : EconomicFacts :=
  if (nonnegative edge.usdAmount).isSome ∨ 0 < (positive edge.nativeAmount).getD 0 then
    { facts with
      valueFlowContributions := facts.valueFlowContributions ++ [valueFlowRow evidence edge] }
  else
    facts

def addFlowAmounts (edge : ValueFlowEdge) (facts : EconomicFacts) : EconomicFacts :=
  let nativeAmount := (positive edge.nativeAmount).getD 0
  let usd := (nonnegative edge.usdAmount).getD 0
  match edge.kind with
  | .funding =>
      { facts with
        fundingNative := facts.fundingNative + nativeAmount
        fundingUsd := facts.fundingUsd + usd }
  | .revenueBackflow =>
      { facts with
        revenueBackflowNative := facts.revenueBackflowNative + nativeAmount
        revenueBackflowUsd := facts.revenueBackflowUsd + usd }
  | .withdrawal | .cashout =>
      { facts with
        withdrawalNative := facts.withdrawalNative + nativeAmount
        withdrawalUsd := facts.withdrawalUsd + usd }

def addValueFlow (facts : EconomicFacts) (edge : ValueFlowEdge) : EconomicFacts :=
  addFlowAmounts edge (pushValueFlow evidence edge (countValueFlow edge facts))

def addGas (ledger : GasLedger) (facts : EconomicFacts) : EconomicFacts :=
  { facts with
    setupGasNative := ledger.stageTotal .setup
    lureGasNative := ledger.stageTotal .lure
    exitGasNative := ledger.stageTotal .exit
    totalGasNative := ledger.total }

def priceGas (rate : Option ℚ) (ledger : GasLedger) (facts : EconomicFacts) : EconomicFacts :=
  match rate with
  | none => facts
  | some rate =>
      { facts with
        setupGasUsd := facts.setupGasNative * rate
        lureGasUsd := facts.lureGasNative * rate
        exitGasUsd := facts.exitGasNative * rate
        totalGasUsd := facts.totalGasNative * rate
        gasContributions := ledger.byTx.entries.map fun entry =>
          { txHash := entry.1, stage := entry.2.1, usd := entry.2.2 * rate } }

/-- The ratio of output and input is only given when the output is complete. -/
def addRatio (rate : Option ℚ) (facts : EconomicFacts) : EconomicFacts :=
  let isObserved := decide (0 < facts.totalGasNative)
  let gasUsd := if isObserved && rate.isSome then some facts.totalGasUsd else none
  let outputComplete :=
    facts.unknownOperatorSaleProceedsCount = 0 ∧ facts.unpricedOperatorSaleProceedsCount = 0 ∧
      facts.unknownRoyaltyRecipientCount = 0 ∧ facts.unknownPaidMintReceiverCount = 0 ∧
        facts.unpricedOperatorPaidMintPaymentCount = 0
  let ratio :=
    ((if outputComplete then gasUsd else none).filter fun input => 0 < input).map fun input =>
      facts.operatorOutputUsd / input
  { facts with
    gasCostObserved := isObserved
    gasCostPriced := gasUsd.isSome
    attackerInputUsd := gasUsd
    outputInputRatio := ratio
    outputInputRatioIsUsd := ratio.isSome }

def isUnavailable (status : EvidenceStatus) : Bool :=
  decide (status = .notRequested ∨ status = .failed)

/-- A note about events that are left out, when there are some. -/
def countNote (count : Nat) (text : String) : List Text :=
  if 0 < count then [Text.ofNat count ++ text.toList] else []

def economicsNotes (facts : EconomicFacts) : List Text :=
  (if isUnavailable evidence.quality.gas then
    ["gas evidence incomplete; Setup/Lure/Exit USD costs are unavailable".toList] else []) ++
  (if isUnavailable evidence.quality.valueFlows then
    ["value_flows evidence incomplete; funding/withdrawal aggregates unavailable".toList]
    else []) ++
  countNote facts.unpricedSaleCount
    " sale(s) excluded from USD totals because payment-token pricing was unavailable" ++
  countNote facts.amountlessSaleCount
    " sale(s) excluded from USD totals because no usable payment amount was available" ++
  countNote facts.assumedStablecoinPegSaleCount
    " sale(s) used a 1 USD stablecoin peg because a run-time quote was unavailable" ++
  countNote facts.unpricedHonestPaidMintLossCount
    " honest-buyer paid mint exposure event(s) excluded from USD totals because pricing was unavailable" ++
  countNote facts.unpricedValueFlowCount
    " value-flow edge(s) excluded from USD totals because run-time native pricing was unavailable" ++
  countNote facts.unknownOperatorSaleProceedsCount
    " operator sale(s) excluded from output because seller net proceeds were unavailable" ++
  countNote facts.unknownPaidMintReceiverCount
    " paid mint payment(s) excluded from output because the receiver was unavailable"

def economicEvents : EconomicFacts :=
  let sold := evidence.events.sales.foldl (addSale evidence roles) {}
  let minted := evidence.events.transfers.foldl (addTransfer evidence roles) sold
  if evidence.quality.valueFlows.isUsable then
    evidence.events.valueFlows.foldl (addValueFlow evidence) minted
  else
    minted

/-- `compute_economics`. Its timestamp and its lifecycle are not read. -/
def computeEconomics : EconomicFacts × EconomicsQuality :=
  let ledger := gasLedger evidence roles
  let rate := spotRate evidence.chain evidence.events.prices
  let counted :=
    { economicEvents evidence roles with stuckNftCount := (stuckNfts evidence roles).length }
  let facts := addRatio rate (priceGas rate ledger (addGas ledger counted))
  (facts,
    { gas := evidence.quality.gas
      valueFlows := evidence.quality.valueFlows
      notes := economicsNotes evidence facts })

end

end NftData.Analysis2
