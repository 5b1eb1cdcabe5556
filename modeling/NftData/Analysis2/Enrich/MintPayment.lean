import NftData.Analysis2.Enrich.Evidence

namespace NftData.Analysis2

/-! # Payments of mints

Native payments of the transaction of a mint are attached to the mint. What the mints of one buyer
in one transaction pay is one batch payment, which is divided evenly among them. -/

open List

/-- `chain_matches_symbol`. -/
def chainMatchesSymbol (chain symbol : Text) : Bool :=
  let name := chain.trim.toAsciiLowercase
  if name = "ethereum".toList ∨ name = "base".toList then
    symbol.equalsIgnoringAsciiCase "ETH".toList
  else if name = "polygon".toList ∨ name = "matic".toList then
    symbol.equalsIgnoringAsciiCase "MATIC".toList || symbol.equalsIgnoringAsciiCase "POL".toList
  else if name = "solana".toList then
    symbol.equalsIgnoringAsciiCase "SOL".toList
  else
    false

/-- `usd_for_runtime`: the first matching rate of the chain converts the amount. -/
def usdForRuntime (prices : List PriceBucket) (chain : Text) (native : ℚ) : Option ℚ :=
  match prices.find? fun price =>
      price.chain.equalsIgnoringAsciiCase chain && chainMatchesSymbol chain price.symbol &&
        decide (0 < price.usdPerNative) with
  | none => none
  | some rate => if 0 < rate.usdPerNative then some (native * rate.usdPerNative) else none

/-- `refresh_mint_payment_usd`. -/
def refreshMintPaymentUsd (prices : List PriceBucket) (chain : Text)
    (transfers : List TransferEvent) : List TransferEvent :=
  transfers.map fun transfer =>
    if transfer.isMint then
      { transfer with
        mintPaymentUsd := transfer.mintPaymentNative.bind (usdForRuntime prices chain) }
    else
      transfer

def outflows (chain transaction buyer : Text) (valueFlows : List ValueFlowEdge) : ℚ × List Text :=
  valueFlows.foldl
    (fun found edge =>
      if normalizeChainTransaction chain edge.txHash ≠ transaction then found
      else
        let amount := edge.nativeAmount.getD 0
        if amount ≤ 0 then found
        -- inflows of the buyer are refunds
        else if normalizeChainAddress chain edge.fromAddress = buyer then
          let receiver := normalizeChainAddress chain edge.toAddress
          (found.1 + amount,
            if receiver ≠ [] ∧ receiver ≠ buyer then found.2.insert receiver else found.2)
        else found)
    (0, [])

/-- `payment_from_value_flows`: what the buyer of a mint pays, if there is one receiver. -/
def paymentFromValueFlows (mint : TransferEvent) (valueFlows : List ValueFlowEdge)
    (chain : Text) : Option (ℚ × Text) :=
  let transaction := normalizeChainTransaction chain mint.txHash
  let buyer := normalizeChainAddress chain mint.toAddress
  if transaction = [] ∨ buyer = [] then none
  else
    match outflows chain transaction buyer valueFlows with
    | (total, [receiver]) => if total ≤ 0 then none else some (total, receiver)
    | _ => none

def payerTx (chain : Text) (mint : TransferEvent) : Text × Text :=
  (normalizeChainTransaction chain mint.txHash, normalizeChainAddress chain mint.toAddress)

abbrev ExtraNative := Text × Text → Option (ℚ × Text)

def ownPayment (mint : TransferEvent) : Option (ℚ × Text) :=
  match mint.mintPaymentNative, mint.mintPaymentReceiver with
  | some existing, some receiver => if 0 < existing then some (existing, receiver) else none
  | _, _ => none

def extraPayment (chain : Text) (extras : ExtraNative) (mint : TransferEvent) :
    Option (ℚ × Text) :=
  (extras (payerTx chain mint)).filter fun extra => 0 < extra.1

/-- `Iterator::max_by` on the amounts: the last one of equal maxima. -/
def maxByAmount : List (ℚ × Text) → Option (ℚ × Text)
  | [] => none
  | first :: rest =>
      some (rest.foldl (fun best next => if next.1 < best.1 then best else next) first)

def selectedPayment (valueFlows : List ValueFlowEdge) (chain : Text) (extras : ExtraNative)
    (mint : TransferEvent) : Option (ℚ × Text) :=
  maxByAmount ((paymentFromValueFlows mint valueFlows chain).toList ++ (ownPayment mint).toList ++
    (extraPayment chain extras mint).toList)

def isMintOf (chain : Text) (key : Text × Text) (transfer : TransferEvent) : Bool :=
  transfer.isMint && decide (payerTx chain transfer = key)

/-- `mint_count_by_payer_tx`. -/
def mintCount (chain : Text) (transfers : List TransferEvent) (key : Text × Text) : Nat :=
  transfers.countP (isMintOf chain key)

def attachMintPayment (valueFlows : List ValueFlowEdge) (prices : List PriceBucket) (chain : Text)
    (extras : ExtraNative) (count : Nat) (mint : TransferEvent) : TransferEvent :=
  match selectedPayment valueFlows chain extras mint with
  | none =>
      { mint with
        mintPaymentNative := none
        mintPaymentUsd := none
        mintPaymentReceiver := none }
  | some (totalNative, receiver) =>
      let native := totalNative / count
      { mint with
        mintPaymentNative := some native
        mintPaymentUsd := usdForRuntime prices chain native
        mintPaymentReceiver := some receiver }

/-- One turn of the loop of `attach_mint_payments`. -/
def attachTransfer (valueFlows : List ValueFlowEdge) (prices : List PriceBucket) (chain : Text)
    (extras : ExtraNative) (transfers : List TransferEvent) (transfer : TransferEvent) :
    TransferEvent :=
  if transfer.isMint then
    attachMintPayment valueFlows prices chain extras
      (max 1 (mintCount chain transfers (payerTx chain transfer))) transfer
  else
    transfer

/-- `attach_mint_payments`. -/
def attachMintPayments (valueFlows : List ValueFlowEdge) (prices : List PriceBucket)
    (chain : Text) (extras : ExtraNative) (transfers : List TransferEvent) :
    List TransferEvent :=
  transfers.map (attachTransfer valueFlows prices chain extras transfers)

/-- No payment is observed for a mint. -/
def ShowsNoPayment (valueFlows : List ValueFlowEdge) (chain : Text) (extras : ExtraNative)
    (mint : TransferEvent) : Prop :=
  paymentFromValueFlows mint valueFlows chain = none ∧ ownPayment mint = none ∧
    extraPayment chain extras mint = none

variable {mint : TransferEvent} {valueFlows : List ValueFlowEdge} {chain : Text} {extras :
  ExtraNative}

theorem selectedPayment_eq_none_iff :
    selectedPayment valueFlows chain extras mint = none ↔
      ShowsNoPayment valueFlows chain extras mint := by
  rw [selectedPayment, ShowsNoPayment]
  cases paymentFromValueFlows mint valueFlows chain <;> cases ownPayment mint <;>
    cases extraPayment chain extras mint <;> simp [maxByAmount]

theorem maxByAmount_mem {payments : List (ℚ × Text)} {best : ℚ × Text}
    (selected : maxByAmount payments = some best) : best ∈ payments := by
  cases payments with
  | nil => cases selected
  | cons first rest =>
      rw [maxByAmount, Option.some.injEq] at selected
      subst selected
      induction rest generalizing first with
      | nil => exact mem_cons_self
      | cons next rest induction =>
          rw [foldl_cons]
          split
          · rcases mem_cons.mp (induction first) with equal | member
            · rw [equal]
              exact mem_cons_self
            · exact mem_cons_of_mem _ (mem_cons_of_mem _ member)
          · exact mem_cons_of_mem _ (induction next)

variable {payment : ℚ × Text}

theorem paymentFromValueFlows_pos
    (observed : paymentFromValueFlows mint valueFlows chain = some payment) : 0 < payment.1 := by
  simp only [paymentFromValueFlows] at observed
  split at observed
  · cases observed
  · split at observed
    · split at observed
      · cases observed
      · cases observed
        exact not_le.mp ‹_›
    · cases observed

theorem ownPayment_pos (observed : ownPayment mint = some payment) : 0 < payment.1 := by
  rw [ownPayment] at observed
  split at observed
  · split at observed
    · cases observed
      assumption
    · cases observed
  · cases observed

theorem selectedPayment_pos (selected : selectedPayment valueFlows chain extras mint = some payment)
    : 0 < payment.1 := by
  have member := maxByAmount_mem selected
  rw [mem_append, mem_append, Option.mem_toList, Option.mem_toList,
    Option.mem_toList] at member
  rcases member with (fromFlows | own) | extra
  · exact paymentFromValueFlows_pos fromFlows
  · exact ownPayment_pos own
  · rw [extraPayment, Option.filter_eq_some_iff] at extra
    exact of_decide_eq_true extra.2

theorem maxByAmount_again {flow own extra laterFlow laterExtra : Option (ℚ × Text)}
    (selected : maxByAmount (flow.toList ++ own.toList ++ extra.toList) = some payment)
    (sameFlow : laterFlow = flow ∨ laterFlow = none)
    (sameExtra : laterExtra = extra ∨ laterExtra = none) :
    maxByAmount (laterFlow.toList ++ (some payment).toList ++ laterExtra.toList) =
      some payment := by
  cases flow <;> cases own <;> cases extra <;> rcases sameFlow with rfl | rfl <;>
    rcases sameExtra with rfl | rfl <;> simp [maxByAmount] at selected ⊢ <;> grind

def batchSum (chain : Text) (transfers : List TransferEvent) (key : Text × Text) : ℚ :=
  ((transfers.filter (isMintOf chain key)).map fun mint => mint.mintPaymentNative.getD 0).sum

variable {key : Text × Text}

section
variable (valueFlows : List ValueFlowEdge) (prices : List PriceBucket) (chain : Text)
  (extras : ExtraNative) (transfers : List TransferEvent) (transfer : TransferEvent)

@[simp] theorem txHash_attachTransfer :
    (attachTransfer valueFlows prices chain extras transfers transfer).txHash =
      transfer.txHash := by
  rw [attachTransfer]
  split
  · rw [attachMintPayment]
    split <;> rfl
  · rfl

@[simp] theorem toAddress_attachTransfer :
    (attachTransfer valueFlows prices chain extras transfers transfer).toAddress =
      transfer.toAddress := by
  rw [attachTransfer]
  split
  · rw [attachMintPayment]
    split <;> rfl
  · rfl

@[simp] theorem isMint_attachTransfer :
    (attachTransfer valueFlows prices chain extras transfers transfer).isMint =
      transfer.isMint := by
  rw [attachTransfer]
  split
  · rw [attachMintPayment]
    split <;> rfl
  · rfl

@[simp] theorem payerTx_attachTransfer :
    payerTx chain (attachTransfer valueFlows prices chain extras transfers transfer) =
      payerTx chain transfer := by
  simp [payerTx]

@[simp] theorem paymentFromValueFlows_attachTransfer (laterFlows : List ValueFlowEdge) :
    paymentFromValueFlows (attachTransfer valueFlows prices chain extras transfers transfer)
      laterFlows chain = paymentFromValueFlows transfer laterFlows chain := by
  simp [paymentFromValueFlows]

@[simp] theorem isMintOf_comp_attachTransfer (key : Text × Text) :
    isMintOf chain key ∘ attachTransfer valueFlows prices chain extras transfers =
      isMintOf chain key := by
  funext transfer
  simp [isMintOf]

@[simp] theorem mintCount_attachMintPayments (key : Text × Text) :
    mintCount chain (attachMintPayments valueFlows prices chain extras transfers) key =
      mintCount chain transfers key := by
  rw [mintCount, attachMintPayments, countP_map, isMintOf_comp_attachTransfer, mintCount]

variable {valueFlows chain extras transfers transfer}

theorem mintCount_pos (member : transfer ∈ transfers) (isMint : transfer.isMint = true) :
    0 < mintCount chain transfers (payerTx chain transfer) := by
  rw [mintCount, countP_pos_iff]
  exact ⟨transfer, member, by simp [isMintOf, isMint]⟩

theorem attachTransfer_of_some (member : transfer ∈ transfers) (isMint : transfer.isMint = true)
    (selected : selectedPayment valueFlows chain extras transfer = some payment) :
    attachTransfer valueFlows prices chain extras transfers transfer =
      { transfer with
        mintPaymentNative := some (payment.1 / mintCount chain transfers (payerTx chain transfer))
        mintPaymentUsd := usdForRuntime prices chain
          (payment.1 / mintCount chain transfers (payerTx chain transfer))
        mintPaymentReceiver := some payment.2 } := by
  have positive : 1 ≤ mintCount chain transfers (payerTx chain transfer) :=
    mintCount_pos member isMint
  simp only [attachTransfer, if_pos isMint, attachMintPayment, selected, max_eq_right positive]

theorem attachTransfer_of_none (isMint : transfer.isMint = true)
    (selected : selectedPayment valueFlows chain extras transfer = none) :
    attachTransfer valueFlows prices chain extras transfers transfer =
      { transfer with
        mintPaymentNative := none
        mintPaymentUsd := none
        mintPaymentReceiver := none } := by
  simp only [attachTransfer, if_pos isMint, attachMintPayment, selected]

theorem attachTransfer_of_not_mint (notMint : transfer.isMint = false) :
    attachTransfer valueFlows prices chain extras transfers transfer = transfer := by
  simp [attachTransfer, notMint]

theorem batchSum_attachMintPayments {total : ℚ} (nonempty : 0 < mintCount chain transfers key)
    (agree : ∀ mint ∈ transfers, isMintOf chain key mint = true →
      (selectedPayment valueFlows chain extras mint).map Prod.fst = some total) :
    batchSum chain (attachMintPayments valueFlows prices chain extras transfers) key = total := by
  have shares : ∀ mint ∈ transfers.filter (isMintOf chain key),
      ((fun mint => mint.mintPaymentNative.getD 0) ∘
        attachTransfer valueFlows prices chain extras transfers) mint =
          total / mintCount chain transfers key := by
    intro mint member
    rw [mem_filter] at member
    obtain ⟨isMint, sameKey⟩ : mint.isMint = true ∧ payerTx chain mint = key := by
      simpa [isMintOf] using member.2
    obtain ⟨payment, selected, amount⟩ := Option.map_eq_some_iff.mp (agree mint member.1 member.2)
    simp [attachTransfer_of_some prices member.1 isMint selected, sameKey, amount]
  rw [batchSum, attachMintPayments, filter_map, map_map, isMintOf_comp_attachTransfer,
    map_congr_left shares, map_const', sum_replicate,
    ← countP_eq_length_filter, nsmul_eq_mul]
  exact mul_div_cancel₀ total (Nat.cast_ne_zero.mpr nonempty.ne')

end

/-! ## Allocation -/

/-- Payments are allocated once: a batch sums to its selected payment, mints without a payment keep
none, and attaching again, also when flows or extras have gone, changes nothing. -/
structure AllocatedOnce (valueFlows : List ValueFlowEdge) (prices : List PriceBucket)
    (chain : Text) (extras : ExtraNative) (transfers : List TransferEvent) : Prop where
  sum_eq : ∀ mint ∈ transfers, mint.isMint = true → ∀ total receiver,
    selectedPayment valueFlows chain extras mint = some (total, receiver) →
      batchSum chain (attachMintPayments valueFlows prices chain extras transfers)
        (payerTx chain mint) = total
  keeps_none : ∀ mint ∈ transfers, mint.isMint = true →
    paymentFromValueFlows mint valueFlows chain = none → extraPayment chain extras mint = none →
      mint.mintPaymentNative = none →
        let attached := attachTransfer valueFlows prices chain extras transfers mint
        attached.mintPaymentNative = none ∧ attached.mintPaymentUsd = none ∧
          attached.mintPaymentReceiver = none
  rerun : ∀ (laterFlows : List ValueFlowEdge) (laterExtras : ExtraNative),
    laterFlows = valueFlows ∨ laterFlows = [] →
    (∀ key, laterExtras key = extras key ∨ laterExtras key = none) →
      attachMintPayments laterFlows prices chain laterExtras
          (attachMintPayments valueFlows prices chain extras transfers) =
        attachMintPayments valueFlows prices chain extras transfers

def PaidMintsAreSingle (valueFlows : List ValueFlowEdge) (chain : Text) (extras : ExtraNative)
    (transfers : List TransferEvent) : Prop :=
  ∀ mint ∈ transfers, mint.isMint = true →
    1 < mintCount chain transfers (payerTx chain mint) →
      ShowsNoPayment valueFlows chain extras mint

theorem paymentFromValueFlows_nil (mint : TransferEvent) (chain : Text) :
    paymentFromValueFlows mint [] chain = none := by
  simp [paymentFromValueFlows, outflows]

theorem ownPayment_of_some {amount : ℚ} {receiver : Text}
    (native : mint.mintPaymentNative = some amount)
    (sender : mint.mintPaymentReceiver = some receiver) (positive : 0 < amount) :
    ownPayment mint = some (amount, receiver) := by
  simp [ownPayment, native, sender, positive]

section
variable {valueFlows : List ValueFlowEdge} {prices : List PriceBucket} {chain : Text}
  {extras : ExtraNative} {transfers : List TransferEvent}

theorem attachMintPayments_again_iff {laterFlows : List ValueFlowEdge}
    {laterExtras : ExtraNative} :
    attachMintPayments laterFlows prices chain laterExtras
        (attachMintPayments valueFlows prices chain extras transfers) =
      attachMintPayments valueFlows prices chain extras transfers ↔
    ∀ transfer ∈ transfers,
      attachTransfer laterFlows prices chain laterExtras
          (attachMintPayments valueFlows prices chain extras transfers)
          (attachTransfer valueFlows prices chain extras transfers transfer) =
        attachTransfer valueFlows prices chain extras transfers transfer := by
  conv_lhs => rw [attachMintPayments]
  conv_lhs => lhs; arg 2; rw [attachMintPayments]
  conv_lhs => rhs; rw [attachMintPayments]
  rw [map_map, map_inj_left]
  rfl

section
variable {laterFlows : List ValueFlowEdge} {laterExtras : ExtraNative} {mint : TransferEvent}
  (sameFlows : laterFlows = valueFlows ∨ laterFlows = [])
  (sameExtras : ∀ key, laterExtras key = extras key ∨ laterExtras key = none)
include sameFlows sameExtras

variable (chain) in
theorem later_payments (mint : TransferEvent) :
    (paymentFromValueFlows mint laterFlows chain = paymentFromValueFlows mint valueFlows chain ∨
      paymentFromValueFlows mint laterFlows chain = none) ∧
    (extraPayment chain laterExtras mint = extraPayment chain extras mint ∨
      extraPayment chain laterExtras mint = none) := by
  refine ⟨?_, ?_⟩
  · rcases sameFlows with rfl | rfl
    · exact Or.inl rfl
    · exact Or.inr (paymentFromValueFlows_nil mint chain)
  · rw [extraPayment, extraPayment]
    rcases sameExtras (payerTx chain mint) with same | gone
    · exact Or.inl (by rw [same])
    · exact Or.inr (by rw [gone, Option.filter_none])

theorem attachTransfer_again_of_none (isMint : mint.isMint = true)
    (selected : selectedPayment valueFlows chain extras mint = none) :
    attachTransfer laterFlows prices chain laterExtras
        (attachMintPayments valueFlows prices chain extras transfers)
        (attachTransfer valueFlows prices chain extras transfers mint) =
      attachTransfer valueFlows prices chain extras transfers mint := by
  obtain ⟨noFlow, -, noExtra⟩ := selectedPayment_eq_none_iff.mp selected
  obtain ⟨flowSame, extraSame⟩ := later_payments chain sameFlows sameExtras mint
  have again : selectedPayment laterFlows chain laterExtras
      (attachTransfer valueFlows prices chain extras transfers mint) = none := by
    rw [selectedPayment_eq_none_iff, ShowsNoPayment, paymentFromValueFlows_attachTransfer,
      extraPayment, payerTx_attachTransfer, ← extraPayment]
    refine ⟨?_, ?_, ?_⟩
    · rcases flowSame with same | gone
      · rw [same, noFlow]
      · exact gone
    · rw [attachTransfer_of_none prices isMint selected]
      rfl
    · rcases extraSame with same | gone
      · rw [same, noExtra]
      · exact gone
  rw [attachTransfer_of_none prices (by rw [isMint_attachTransfer, isMint]) again,
    attachTransfer_of_none prices isMint selected]

theorem attachTransfer_again_of_single (member : mint ∈ transfers) (isMint : mint.isMint = true)
    (single : mintCount chain transfers (payerTx chain mint) = 1)
    (selected : selectedPayment valueFlows chain extras mint = some payment) :
    attachTransfer laterFlows prices chain laterExtras
        (attachMintPayments valueFlows prices chain extras transfers)
        (attachTransfer valueFlows prices chain extras transfers mint) =
      attachTransfer valueFlows prices chain extras transfers mint := by
  obtain ⟨flowSame, extraSame⟩ := later_payments chain sameFlows sameExtras mint
  have attached := attachTransfer_of_some prices member isMint selected
  have memberAttached : attachTransfer valueFlows prices chain extras transfers mint ∈
      attachMintPayments valueFlows prices chain extras transfers :=
    mem_map_of_mem member
  have own : ownPayment (attachTransfer valueFlows prices chain extras transfers mint) =
      some payment := by
    rw [attached]
    simp only [single, Nat.cast_one, div_one]
    exact ownPayment_of_some rfl rfl (selectedPayment_pos selected)
  have again : selectedPayment laterFlows chain laterExtras
      (attachTransfer valueFlows prices chain extras transfers mint) = some payment := by
    rw [selectedPayment, paymentFromValueFlows_attachTransfer, own, extraPayment,
      payerTx_attachTransfer, ← extraPayment]
    exact maxByAmount_again selected flowSame extraSame
  rw [attachTransfer_of_some prices memberAttached (by rw [isMint_attachTransfer, isMint]) again,
    payerTx_attachTransfer, mintCount_attachMintPayments, attached]

end

theorem attachTransfer_divides (member : mint ∈ transfers) (isMint : mint.isMint = true)
    (batch : 1 < mintCount chain transfers (payerTx chain mint))
    (selected : selectedPayment valueFlows chain extras mint = some payment) :
    attachTransfer [] prices chain (fun _ => none)
        (attachMintPayments valueFlows prices chain extras transfers)
        (attachTransfer valueFlows prices chain extras transfers mint) ≠
      attachTransfer valueFlows prices chain extras transfers mint := by
  have attached := attachTransfer_of_some prices member isMint selected
  have memberAttached : attachTransfer valueFlows prices chain extras transfers mint ∈
      attachMintPayments valueFlows prices chain extras transfers :=
    mem_map_of_mem member
  have several : (1 : ℚ) < mintCount chain transfers (payerTx chain mint) := by
    exact_mod_cast batch
  have share : 0 < payment.1 / mintCount chain transfers (payerTx chain mint) :=
    div_pos (selectedPayment_pos selected) (by linarith)
  have again : selectedPayment [] chain (fun _ => none)
      (attachTransfer valueFlows prices chain extras transfers mint) =
        some (payment.1 / mintCount chain transfers (payerTx chain mint), payment.2) := by
    rw [selectedPayment, paymentFromValueFlows_nil, extraPayment, Option.filter_none, attached,
      ownPayment_of_some rfl rfl share]
    rfl
  intro same
  rw [attachTransfer_of_some prices memberAttached (by rw [isMint_attachTransfer, isMint]) again,
    payerTx_attachTransfer, mintCount_attachMintPayments, attached] at same
  have native := congrArg TransferEvent.mintPaymentNative same
  rw [Option.some.injEq] at native
  exact absurd native (div_lt_self share several).ne

theorem eq_of_mintCount_eq_one (single : mintCount chain transfers key = 1)
    {first second : TransferEvent} (firstMember : first ∈ transfers)
    (firstOf : isMintOf chain key first = true) (secondMember : second ∈ transfers)
    (secondOf : isMintOf chain key second = true) : first = second := by
  rw [mintCount, countP_eq_length_filter, length_eq_one_iff] at single
  obtain ⟨only, filtered⟩ := single
  have isOnly : ∀ transfer ∈ transfers, isMintOf chain key transfer = true → transfer = only :=
    fun transfer member isMint =>
      mem_singleton.mp (filtered ▸ mem_filter.mpr ⟨member, isMint⟩)
  rw [isOnly first firstMember firstOf, isOnly second secondMember secondOf]

theorem PaidMintsAreSingle.count_eq_one
    (single : PaidMintsAreSingle valueFlows chain extras transfers) (member : mint ∈ transfers)
    (isMint : mint.isMint = true)
    (selected : selectedPayment valueFlows chain extras mint = some payment) :
    mintCount chain transfers (payerTx chain mint) = 1 := by
  have positive : 0 < mintCount chain transfers (payerTx chain mint) :=
    mintCount_pos member isMint
  by_contra several
  have batch : 1 < mintCount chain transfers (payerTx chain mint) := by omega
  rw [selectedPayment_eq_none_iff.mpr (single mint member isMint batch)] at selected
  cases selected

end

/-- Payments of mints are allocated once exactly when no mint with an observed payment shares its
transaction and its buyer with another mint: what a batch was allocated is divided again. -/
theorem attachMintPayments_allocatedOnce_iff (valueFlows : List ValueFlowEdge)
    (prices : List PriceBucket) (chain : Text) (extras : ExtraNative)
    (transfers : List TransferEvent) :
    AllocatedOnce valueFlows prices chain extras transfers ↔
      PaidMintsAreSingle valueFlows chain extras transfers := by
  refine ⟨fun once mint member isMint batch => ?_, fun single => ⟨?_, ?_, ?_⟩⟩
  · -- attaching again without flows divides the payment of a batch once more
    rw [← selectedPayment_eq_none_iff]
    cases selected : selectedPayment valueFlows chain extras mint with
    | none => rfl
    | some payment =>
        have rerun := once.rerun [] (fun _ => none) (Or.inr rfl) fun _ => Or.inr rfl
        exact absurd (attachMintPayments_again_iff.mp rerun mint member)
          (attachTransfer_divides member isMint batch selected)
  · intro mint member isMint total receiver selected
    have positive : 0 < mintCount chain transfers (payerTx chain mint) :=
      mintCount_pos member isMint
    refine batchSum_attachMintPayments prices positive fun other otherMember otherOf => ?_
    rw [eq_of_mintCount_eq_one (single.count_eq_one member isMint selected) otherMember otherOf
      member (by simp [isMintOf, isMint]), selected]
    rfl
  · intro mint member isMint noFlow noExtra noOwn
    have selected : selectedPayment valueFlows chain extras mint = none :=
      selectedPayment_eq_none_iff.mpr ⟨noFlow, by simp [ownPayment, noOwn], noExtra⟩
    simp [attachTransfer_of_none prices isMint selected]
  · intro laterFlows laterExtras sameFlows sameExtras
    rw [attachMintPayments_again_iff]
    intro transfer member
    cases isMint : transfer.isMint with
    | false =>
        rw [attachTransfer_of_not_mint prices isMint, attachTransfer_of_not_mint prices isMint]
    | true =>
        cases selected : selectedPayment valueFlows chain extras transfer with
        | none => exact attachTransfer_again_of_none sameFlows sameExtras isMint selected
        | some payment =>
            exact attachTransfer_again_of_single sameFlows sameExtras member isMint
              (single.count_eq_one member isMint selected) selected

/-! A batch of two mints that paid 0.1 together: re-processed without the value flows, its mints
share 0.05. -/

def batchBuyer : Text := "0xbuyer".toList

def batchMint (tokenId : String) : TransferEvent where
  txHash := "0xbatch".toList
  tokenId := tokenId.toList
  fromAddress := "0x0000000000000000000000000000000000000000".toList
  toAddress := batchBuyer
  timestamp := some 1700000000
  blockNumber := some 1
  isMint := true
  gasNative := none
  feePayer := none
  mintPaymentNative := none
  mintPaymentUsd := none
  mintPaymentReceiver := none

def batchFlow : ValueFlowEdge where
  txHash := "0xbatch".toList
  eventId := none
  fromAddress := batchBuyer
  toAddress := "0xcontract".toList
  kind := .withdrawal
  nativeAmount := some (1 / 10)
  usdAmount := none
  gasNative := none
  feePayer := none

theorem attachMintPayments_not_allocatedOnce :
    ¬ AllocatedOnce [batchFlow] [] "ethereum".toList (fun _ => none)
      [batchMint "1", batchMint "2"] := by
  intro once
  have rerun := once.rerun [] (fun _ => none) (Or.inr rfl) fun _ => Or.inl rfl
  have payments := congrArg (List.map TransferEvent.mintPaymentNative) rerun
  revert payments
  decide +kernel

end NftData.Analysis2
