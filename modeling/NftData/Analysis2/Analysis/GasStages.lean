import NftData.Analysis2.Analysis.Roles

namespace NftData.Analysis2

/-! # Gas stages

Gas that operators pay, by transaction. A transaction belongs to one stage. -/

inductive GasStage where
  | setup
  | lure
  | exit
  deriving DecidableEq, Repr

namespace GasStage

def rank : GasStage → Nat
  | setup => 1
  | lure => 2
  | exit => 3

theorem rank_injective : Function.Injective rank := by
  intro first second same
  cases first <;> cases second <;> first | rfl | cases same

instance : LinearOrder GasStage := LinearOrder.lift' rank rank_injective

def ofKind : ValueFlowKind → GasStage
  | .funding => setup
  | .revenueBackflow => lure
  | .withdrawal => exit
  | .cashout => exit

end GasStage

/-- `gas_usable`, `value_flows_usable`. -/
def EvidenceStatus.isUsable (status : EvidenceStatus) : Bool :=
  match status with
  | .complete => true
  | .truncated => true
  | _ => false

/-- `gas_by_tx` and `gas_native_by_tx`. -/
structure GasLedger where
  byTx : KeyedMap Text (GasStage × ℚ)
  nativeByTx : KeyedMap Text ℚ

namespace GasLedger

def empty : GasLedger := ⟨∅, ∅⟩

def raise (txHash : Text) (stage : GasStage) (gas : ℚ) (ledger : GasLedger) : GasLedger :=
  let entry := (ledger.byTx.lookup txHash).getD (stage, 0)
  { ledger with byTx := ledger.byTx.insert txHash (max entry.1 stage, max entry.2 gas) }

def assign (txHash : Text) (stage : GasStage) (gas : ℚ) (ledger : GasLedger) : GasLedger :=
  let entry := (ledger.byTx.lookup txHash).getD (stage, 0)
  { ledger with byTx := ledger.byTx.insert txHash (stage, max entry.2 gas) }

def raiseNative (txHash : Text) (gas : ℚ) (ledger : GasLedger) : GasLedger :=
  let entry := (ledger.nativeByTx.lookup txHash).getD 0
  { ledger with nativeByTx := ledger.nativeByTx.insert txHash (max entry gas) }

end GasLedger

section
variable (evidence : CandidateEvidence) (roles : RoleMap)

def operatorGas (gas : Option ℚ) (feePayer : Option Text) : Option ℚ :=
  match gas.filter fun value => 0 < value, feePayer with
  | some paid, some payer =>
      if normalizedIn evidence payer ∈ roles.operators then some paid else none
  | _, _ => none

def addDeploymentGas (ledger : GasLedger) : GasLedger :=
  match evidence.events.deployment with
  | none => ledger
  | some deployment =>
      match operatorGas evidence roles deployment.gasNative deployment.feePayer with
      | none => ledger
      | some gas =>
          { byTx := ledger.byTx.insert deployment.txHash (.setup, gas)
            nativeByTx := ledger.nativeByTx.insert deployment.txHash gas }

def addEventGas (txHash : Text) (gas : Option ℚ) (ledger : GasLedger) : GasLedger :=
  match gas with
  | none => ledger
  | some paid => (ledger.raiseNative txHash paid).raise txHash .lure paid

def saleGas (sale : SaleEvent) : Option ℚ :=
  operatorGas evidence roles sale.gasNative sale.feePayer

def transferGas (transfer : TransferEvent) : Option ℚ :=
  operatorGas evidence roles transfer.gasNative
    (some (transfer.feePayer.getD
      (if transfer.isMint then transfer.toAddress else transfer.fromAddress)))

def flowGas (edge : ValueFlowEdge) : Option ℚ :=
  operatorGas evidence roles edge.gasNative edge.feePayer

def applyFlowKind (edge : ValueFlowEdge) (ledger : GasLedger) : GasLedger :=
  match edge.kind with
  | .funding =>
      match ledger.nativeByTx.lookup edge.txHash with
      | none => ledger
      | some gas => ledger.assign edge.txHash .setup gas
  | .revenueBackflow => ledger
  | .withdrawal | .cashout =>
      match ledger.nativeByTx.lookup edge.txHash with
      | none => ledger
      | some gas => ledger.raise edge.txHash .exit gas

def addFlowGas (ledger : GasLedger) (edge : ValueFlowEdge) : GasLedger :=
  let gas := if evidence.quality.gas.isUsable then flowGas evidence roles edge else none
  let raised :=
    match gas with
    | none => ledger
    | some paid => ledger.raise edge.txHash (.ofKind edge.kind) paid
  applyFlowKind edge raised

/-- The gas maps of `compute_economics`. Its loops touch nothing else that they read. -/
def gasLedger : GasLedger :=
  let afterEvents :=
    if evidence.quality.gas.isUsable then
      let deployed := addDeploymentGas evidence roles .empty
      let sold := evidence.events.sales.foldl
        (fun ledger sale => addEventGas sale.txHash (saleGas evidence roles sale) ledger) deployed
      evidence.events.transfers.foldl
        (fun ledger transfer =>
          addEventGas transfer.txHash (transferGas evidence roles transfer) ledger) sold
    else
      .empty
  if evidence.quality.valueFlows.isUsable then
    evidence.events.valueFlows.foldl (addFlowGas evidence roles) afterEvents
  else
    afterEvents

def GasLedger.stageTotal (stage : GasStage) (ledger : GasLedger) : ℚ :=
  ((ledger.byTx.entries.filter fun entry => decide (entry.2.1 = stage)).map
    fun entry => entry.2.2).sum

def GasLedger.total (ledger : GasLedger) : ℚ :=
  (ledger.byTx.entries.map fun entry => entry.2.2).sum

end

end NftData.Analysis2
