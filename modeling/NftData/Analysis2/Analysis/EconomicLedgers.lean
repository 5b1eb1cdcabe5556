import NftData.Analysis2.Analysis.Economics
import NftData.Foundation.Accumulation

namespace NftData.Analysis2

/-! # Totals and ledgers

The totals in dollars are the sums of the ledger rows of the kinds they aggregate. Each step of a
loop moves a total and its ledger together. -/

open List

def ledgerUsd (kinds : List EconomicContributionKind) (ledger : List EconomicContribution) : ℚ :=
  ((ledger.filter fun row => decide (row.kind ∈ kinds)).map EconomicContribution.usd).sum

def flowLedgerUsd (kinds : List ValueFlowKind) (ledger : List ValueFlowContribution) : ℚ :=
  ((ledger.filter fun row => decide (row.kind ∈ kinds)).map fun row => row.usd.getD 0).sum

@[simp] theorem ledgerUsd_append (kinds : List EconomicContributionKind)
    (ledger : List EconomicContribution) (row : EconomicContribution) :
    ledgerUsd kinds (ledger ++ [row]) =
      ledgerUsd kinds ledger + if row.kind ∈ kinds then row.usd else 0 := by
  rw [ledgerUsd, filter_append, map_append, sum_append, ← ledgerUsd]
  by_cases member : row.kind ∈ kinds <;> simp [member]

@[simp] theorem flowLedgerUsd_append (kinds : List ValueFlowKind)
    (ledger : List ValueFlowContribution) (row : ValueFlowContribution) :
    flowLedgerUsd kinds (ledger ++ [row]) =
      flowLedgerUsd kinds ledger + if row.kind ∈ kinds then row.usd.getD 0 else 0 := by
  rw [flowLedgerUsd, filter_append, map_append, sum_append, ← flowLedgerUsd]
  by_cases member : row.kind ∈ kinds <;> simp [member]

theorem ledgerUsd_pushPositive (kinds : List EconomicContributionKind)
    (ledger : List EconomicContribution) {row : EconomicContribution} (known : 0 ≤ row.usd) :
    ledgerUsd kinds (pushPositive row ledger) =
      ledgerUsd kinds ledger + if row.kind ∈ kinds then row.usd else 0 := by
  rw [pushPositive]
  split
  · exact ledgerUsd_append kinds ledger row
  · rename_i notPositive
    have nothing : row.usd = 0 := le_antisymm (not_lt.mp notPositive) known
    rw [nothing, ite_self, add_zero]

theorem positivePart_nonneg (amount : Option ℚ) : 0 ≤ positivePart amount := le_max_right _ _

theorem positivePart_eq (amount : Option ℚ) : positivePart amount = (positive amount).getD 0 := by
  cases amount with
  | none => rfl
  | some value =>
      by_cases isPositive : 0 < value
      · simp [positivePart, positive, Option.filter, isPositive, isPositive.le]
      · simp [positivePart, positive, Option.filter, isPositive, not_lt.mp isPositive]

theorem nonneg_of_nonnegative {amount : Option ℚ} {value : ℚ}
    (found : nonnegative amount = some value) : 0 ≤ value := by
  rw [nonnegative, Option.filter_eq_some_iff] at found
  exact of_decide_eq_true found.2

/-! ## Balance -/

/-- Totals equal their ledgers, and counts are partitioned. -/
structure LedgerBalance (facts : EconomicFacts) : Prop where
  gross : facts.grossRevenueUsd = ledgerUsd [.grossSale] facts.economicContributions
  marketplaceFee :
    facts.marketplaceFeeUsd = ledgerUsd [.marketplaceFee] facts.economicContributions
  royaltyFee : facts.royaltyFeeUsd = ledgerUsd [.royaltyFee] facts.economicContributions
  operatorRoyalty :
    facts.operatorRoyaltyUsd = ledgerUsd [.operatorRoyalty] facts.economicContributions
  operatorOutput :
    facts.operatorOutputUsd =
      ledgerUsd [.operatorSaleProceeds, .operatorRoyalty, .operatorMintPayment]
        facts.economicContributions
  secondarySale :
    facts.secondarySaleLossUsd =
      ledgerUsd [.honestSecondaryExposure] facts.economicContributions
  paidMint :
    facts.paidMintLossUsd = ledgerUsd [.honestMintExposure] facts.economicContributions
  honest :
    facts.honestLossUsd =
      ledgerUsd [.honestSecondaryExposure, .honestMintExposure] facts.economicContributions
  funding : facts.fundingUsd = flowLedgerUsd [.funding] facts.valueFlowContributions
  revenueBackflow :
    facts.revenueBackflowUsd = flowLedgerUsd [.revenueBackflow] facts.valueFlowContributions
  withdrawal :
    facts.withdrawalUsd = flowLedgerUsd [.withdrawal, .cashout] facts.valueFlowContributions
  sales : facts.saleCount =
    facts.pricedSaleCount + facts.unpricedSaleCount + facts.amountlessSaleCount
  operatorSales : facts.operatorSaleCount =
    facts.pricedOperatorSaleProceedsCount + facts.unpricedOperatorSaleProceedsCount +
      facts.unknownOperatorSaleProceedsCount
  operatorMints : facts.operatorPaidMintPaymentCount =
    facts.pricedOperatorPaidMintPaymentCount + facts.unpricedOperatorPaidMintPaymentCount
  honestMints : facts.honestPaidMintLossCount =
    facts.pricedHonestPaidMintLossCount + facts.unpricedHonestPaidMintLossCount

namespace LedgerBalance

section
variable {evidence : CandidateEvidence} {roles : RoleMap} {facts : EconomicFacts}

theorem initial : LedgerBalance {} := by
  constructor <;> rfl

section

variable (balance : LedgerBalance facts)
include balance

section

variable (sale : SaleEvent)

theorem countSale :
    LedgerBalance (countSale evidence sale facts) := by
  have counted := balance.sales
  rw [Analysis2.countSale]
  split
  · exact { balance with sales := by simp only; omega }
  · split
    · exact { balance with sales := by simp only; omega }
    · exact { balance with sales := by simp only; omega }

theorem addGrossSale :
    LedgerBalance (addGrossSale evidence sale facts) := by
  cases balance
  constructor <;>
    simp [Analysis2.addGrossSale, ledgerUsd_pushPositive, positivePart_nonneg, saleRow, *]

theorem addMarketplaceFee :
    LedgerBalance (addMarketplaceFee evidence sale facts) := by
  cases balance
  cases fee : positive sale.marketplaceFeeUsd <;> constructor <;>
    simp [Analysis2.addMarketplaceFee, positivePart_eq, saleRow, *]

theorem addRoyaltyFee :
    LedgerBalance (addRoyaltyFee evidence sale facts) := by
  cases balance
  cases fee : positive sale.royaltyFeeUsd <;> constructor <;>
    simp [Analysis2.addRoyaltyFee, positivePart_eq, saleRow, *]

theorem addOperatorProceeds :
    LedgerBalance (addOperatorProceeds evidence roles sale facts) := by
  rw [Analysis2.addOperatorProceeds]
  cases balance
  split
  · cases nonnegative sale.sellerProceedsNative with
    | none =>
        constructor <;> simp [*]
        omega
    | some sellerNative =>
        cases found : nonnegative sale.sellerProceedsUsd with
        | none =>
            constructor <;> simp [*]
            omega
        | some sellerUsd =>
            constructor <;>
              simp [ledgerUsd_pushPositive, nonneg_of_nonnegative found, saleRow, *]
            omega
  · constructor <;> assumption

theorem addOperatorRoyalty :
    LedgerBalance (addOperatorRoyalty evidence roles sale facts) := by
  rw [Analysis2.addOperatorRoyalty]
  cases balance
  cases positive sale.royaltyFeeNative with
  | none => constructor <;> assumption
  | some royaltyNative =>
      cases (royaltyRecipient evidence sale).filter fun address => address ≠ [] with
      | none => constructor <;> simp [*]
      | some recipient =>
          simp only
          split
          · cases positive sale.royaltyFeeUsd <;> constructor <;> simp [saleRow, *]
          · constructor <;> assumption

theorem addHonestPurchase :
    LedgerBalance (addHonestPurchase evidence roles sale facts) := by
  rw [Analysis2.addHonestPurchase]
  cases balance
  split
  · constructor <;> simp [ledgerUsd_pushPositive, positivePart_nonneg, saleRow, *]
  · constructor <;> assumption

theorem addSale :
    LedgerBalance (addSale evidence roles facts sale) :=
  addHonestPurchase (addOperatorRoyalty (addOperatorProceeds (addRoyaltyFee (addMarketplaceFee
    (addGrossSale (countSale balance sale) sale) sale) sale) sale) sale) sale

end

theorem addOperatorMint (transfer : TransferEvent) :
    LedgerBalance (addOperatorMint evidence roles transfer facts) := by
  rw [Analysis2.addOperatorMint]
  cases balance
  simp only
  split
  · constructor <;> simp [*]
  · split
    · split
      · constructor <;> simp [ledgerUsd_pushPositive, positivePart_nonneg, mintRow, *]
        omega
      · constructor <;> simp [*]
        omega
    · constructor <;> assumption

theorem addHonestMint (transfer : TransferEvent) :
    LedgerBalance (addHonestMint evidence roles transfer facts) := by
  rw [Analysis2.addHonestMint]
  cases balance
  split
  · constructor <;> simp [ledgerUsd_pushPositive, positivePart_nonneg, mintRow, *]
    split <;> omega
  · constructor <;> assumption

theorem addTransfer (transfer : TransferEvent) :
    LedgerBalance (addTransfer evidence roles facts transfer) := by
  rw [Analysis2.addTransfer]
  split
  · refine addHonestMint (addOperatorMint ?_ transfer) transfer
    cases balance
    constructor <;> assumption
  · exact balance

theorem countValueFlow (edge : ValueFlowEdge) :
    LedgerBalance (countValueFlow edge facts) := by
  rw [Analysis2.countValueFlow]
  cases balance
  split
  · constructor <;> assumption
  · split <;> constructor <;> assumption

/-- An edge without a row carries no dollars. -/
theorem addFlowAmounts_pushValueFlow (edge : ValueFlowEdge) :
    LedgerBalance (addFlowAmounts edge (pushValueFlow evidence edge facts)) := by
  rw [pushValueFlow]
  cases balance
  split
  · cases kind : edge.kind <;> constructor <;> simp [addFlowAmounts, valueFlowRow, *]
  · rename_i noRow
    have unpriced : nonnegative edge.usdAmount = none := by
      rw [not_or, Bool.not_eq_true, Option.isSome_eq_false_iff, Option.isNone_iff_eq_none] at noRow
      exact noRow.1
    cases kind : edge.kind <;> constructor <;> simp [addFlowAmounts, *]

theorem addValueFlow (edge : ValueFlowEdge) :
    LedgerBalance (addValueFlow evidence facts edge) :=
  addFlowAmounts_pushValueFlow (countValueFlow balance edge) edge

end

theorem foldl {Event : Type} {step : EconomicFacts → Event → EconomicFacts}
    (keeps : ∀ {facts}, LedgerBalance facts → ∀ event, LedgerBalance (step facts event))
    (events : List Event) (balance : LedgerBalance facts) :
    LedgerBalance (events.foldl step facts) := by
  induction events generalizing facts with
  | nil => exact balance
  | cons event rest induction => exact induction (keeps balance event)

theorem economicEvents (evidence : CandidateEvidence) (roles : RoleMap) :
    LedgerBalance (economicEvents evidence roles) := by
  have sold : LedgerBalance (evidence.events.sales.foldl (Analysis2.addSale evidence roles) {}) :=
    foldl addSale evidence.events.sales initial
  have minted : LedgerBalance (evidence.events.transfers.foldl
      (Analysis2.addTransfer evidence roles)
      (evidence.events.sales.foldl (Analysis2.addSale evidence roles) {})) :=
    foldl addTransfer evidence.events.transfers sold
  rw [Analysis2.economicEvents]
  split
  · exact foldl addValueFlow evidence.events.valueFlows minted
  · exact minted

theorem computeEconomics (evidence : CandidateEvidence) (roles : RoleMap) :
    LedgerBalance (computeEconomics evidence roles).1 := by
  have balance := economicEvents evidence roles
  rw [Analysis2.computeEconomics]
  cases balance
  cases spotRate evidence.chain evidence.events.prices <;> constructor <;> assumption

end

end LedgerBalance

/-! ## Receivers of mint payments -/

/-- A paid mint whose receiver is known and is not an operator. -/
def isPaidToOther (evidence : CandidateEvidence) (roles : RoleMap) (transfer : TransferEvent) :
    Bool :=
  isPaidMint transfer && transfer.mintPaymentReceiver.isSome &&
    !receiverIsOperator evidence roles transfer

/-- The counts of paid mints: all, those to operators and those to unknown receivers. -/
def mintCounts (facts : EconomicFacts) : Nat × Nat × Nat :=
  (facts.paidMintPaymentCount, facts.operatorPaidMintPaymentCount,
    facts.unknownPaidMintReceiverCount)

section
variable (evidence : CandidateEvidence) (roles : RoleMap) (facts : EconomicFacts)

section

variable (sale : SaleEvent)

@[simp] theorem mintCounts_countSale :
    mintCounts (countSale evidence sale facts) = mintCounts facts := by
  rw [countSale]
  split
  · rfl
  · split <;> rfl

@[simp] theorem mintCounts_addOperatorProceeds :
    mintCounts (addOperatorProceeds evidence roles sale facts) = mintCounts facts := by
  rw [addOperatorProceeds]
  split
  · cases nonnegative sale.sellerProceedsNative with
    | none => rfl
    | some sellerNative => cases nonnegative sale.sellerProceedsUsd <;> rfl
  · rfl

@[simp] theorem mintCounts_addOperatorRoyalty :
    mintCounts (addOperatorRoyalty evidence roles sale facts) = mintCounts facts := by
  rw [addOperatorRoyalty]
  split
  · rfl
  · split
    · rfl
    · split
      · cases positive sale.royaltyFeeUsd <;> rfl
      · rfl

@[simp] theorem mintCounts_addHonestPurchase :
    mintCounts (addHonestPurchase evidence roles sale facts) = mintCounts facts := by
  rw [addHonestPurchase]
  split <;> rfl

/-- Sales do not touch the counts of mints. -/
@[simp] theorem mintCounts_addSale :
    mintCounts (addSale evidence roles facts sale) = mintCounts facts := by
  rw [addSale, mintCounts_addHonestPurchase, mintCounts_addOperatorRoyalty,
    mintCounts_addOperatorProceeds]
  exact mintCounts_countSale evidence facts sale

end

@[simp] theorem mintCounts_addHonestMint (transfer : TransferEvent) :
    mintCounts (addHonestMint evidence roles transfer facts) = mintCounts facts := by
  rw [addHonestMint]
  split <;> rfl

@[simp] theorem mintCounts_countValueFlow (edge : ValueFlowEdge) :
    mintCounts (countValueFlow edge facts) = mintCounts facts := by
  rw [countValueFlow]
  split
  · rfl
  · split <;> rfl

@[simp] theorem mintCounts_pushValueFlow (edge : ValueFlowEdge) :
    mintCounts (pushValueFlow evidence edge facts) = mintCounts facts := by
  rw [pushValueFlow]
  split <;> rfl

@[simp] theorem mintCounts_addFlowAmounts (edge : ValueFlowEdge) :
    mintCounts (addFlowAmounts edge facts) = mintCounts facts := by
  rw [addFlowAmounts]
  cases edge.kind <;> rfl

@[simp] theorem mintCounts_addValueFlow (edge : ValueFlowEdge) :
    mintCounts (addValueFlow evidence facts edge) = mintCounts facts := by
  rw [addValueFlow, mintCounts_addFlowAmounts, mintCounts_pushValueFlow,
    mintCounts_countValueFlow]

end

/-- Paid mints by their receivers: operators, unknown ones and others. -/
def MintBalance (others : Nat) (counts : Nat × Nat × Nat) : Prop :=
  counts.1 = counts.2.1 + counts.2.2 + others

variable {evidence : CandidateEvidence} {facts : EconomicFacts} {roles : RoleMap} {others : Nat}

theorem mintBalance_addTransfer (balance : MintBalance others (mintCounts facts))
    (transfer : TransferEvent) :
    MintBalance (others + if isPaidToOther evidence roles transfer then 1 else 0)
      (mintCounts (addTransfer evidence roles facts transfer)) := by
  have counted : facts.paidMintPaymentCount =
      facts.operatorPaidMintPaymentCount + facts.unknownPaidMintReceiverCount + others := balance
  rw [addTransfer, isPaidToOther]
  by_cases paid : isPaidMint transfer
  · rw [if_pos paid, paid, mintCounts_addHonestMint, addOperatorMint]
    cases isUnknown : transfer.mintPaymentReceiver with
    | none =>
        simp [MintBalance, mintCounts]
        omega
    | some receiver =>
        cases isOperator : receiverIsOperator evidence roles transfer with
        | true =>
            cases transfer.mintPaymentUsd.isSome <;> simp [MintBalance, mintCounts] <;> omega
        | false =>
            simp [MintBalance, mintCounts]
            omega
  · simpa [paid] using balance

theorem mintBalance_foldl (balance : MintBalance others (mintCounts facts))
    (transfers : List TransferEvent) :
    MintBalance (others + transfers.countP (isPaidToOther evidence roles))
      (mintCounts (transfers.foldl (addTransfer evidence roles) facts)) := by
  induction transfers generalizing facts others with
  | nil => exact balance
  | cons transfer rest induction =>
      rw [countP_cons, add_comm (rest.countP _), ← add_assoc, foldl_cons]
      exact induction (mintBalance_addTransfer balance transfer)

theorem mintBalance_economicEvents (evidence : CandidateEvidence) (roles : RoleMap) :
    MintBalance (evidence.events.transfers.countP (isPaidToOther evidence roles))
      (mintCounts (economicEvents evidence roles)) := by
  have sold : MintBalance 0
      (mintCounts (evidence.events.sales.foldl (addSale evidence roles) {})) := by
    rw [foldl_unchanged (mintCounts_addSale evidence roles)]
    rfl
  have minted : MintBalance (0 + evidence.events.transfers.countP (isPaidToOther evidence roles))
      (mintCounts (evidence.events.transfers.foldl (addTransfer evidence roles)
        (evidence.events.sales.foldl (addSale evidence roles) {}))) :=
    mintBalance_foldl sold evidence.events.transfers
  rw [zero_add] at minted
  rw [economicEvents]
  split
  · rw [foldl_unchanged (mintCounts_addValueFlow evidence)]
    exact minted
  · exact minted

/-- The totals of the facts are the sums of their ledgers and the counts are partitioned; a paid
mint whose known receiver is no operator is in no other count. -/
theorem computeEconomics_balance (evidence : CandidateEvidence) (roles : RoleMap) :
    LedgerBalance (computeEconomics evidence roles).1 ∧
      MintBalance (evidence.events.transfers.countP (isPaidToOther evidence roles))
        (mintCounts (computeEconomics evidence roles).1) := by
  refine ⟨LedgerBalance.computeEconomics evidence roles, ?_⟩
  have balance := mintBalance_economicEvents evidence roles
  rw [computeEconomics]
  cases spotRate evidence.chain evidence.events.prices <;> exact balance

/-! A mint that was paid to an address which is not an operator. -/

def strangerMint : TransferEvent where
  txHash := "0x1".toList
  tokenId := "1".toList
  fromAddress := "0x0000000000000000000000000000000000000000".toList
  toAddress := "0xbuyer".toList
  timestamp := none
  blockNumber := none
  isMint := true
  gasNative := none
  feePayer := none
  mintPaymentNative := some 1
  mintPaymentUsd := some 1
  mintPaymentReceiver := some "0xstranger".toList

def strangerEvidence : CandidateEvidence :=
  { CandidateEvidence.empty 0 "ethereum".toList "0xnft".toList with
    events := { CandidateEvents.empty with transfers := [strangerMint] } }

theorem computeEconomics_unpartitioned :
    ¬ (LedgerBalance (computeEconomics strangerEvidence ∅).1 ∧
      (computeEconomics strangerEvidence ∅).1.paidMintPaymentCount =
        (computeEconomics strangerEvidence ∅).1.operatorPaidMintPaymentCount +
          (computeEconomics strangerEvidence ∅).1.unknownPaidMintReceiverCount) := by
  intro claimed
  have unpartitioned := claimed.2
  revert unpartitioned
  decide +kernel

end NftData.Analysis2
