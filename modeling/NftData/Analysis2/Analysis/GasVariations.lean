import NftData.Analysis2.Analysis.GasAttribution
import NftData.Foundation.Substrings

namespace NftData.Analysis2

/-! # Variations of a bundle

The same events in another order, with hexadecimal hashes in another case. The gas rule does not see
the difference, the maps do. -/

open List

/-- The same hash, on chains other than Solana up to the case of its letters. -/
def SameHash (chain first second : Text) : Prop :=
  if chain.trim.equalsIgnoringAsciiCase "solana".toList then first = second
  else first.toAsciiLowercase = second.toAsciiLowercase

variable {second first : Text}

theorem SameHash.normalized {chain : Text} (same : SameHash chain first second) :
    normalizeChainTransaction chain first = normalizeChainTransaction chain second := by
  rw [SameHash] at same
  rw [normalizeChainTransaction, normalizeChainTransaction]
  split
  · rename_i isSolana
    rw [if_pos isSolana] at same
    rw [same]
  · rename_i notSolana
    rw [if_neg notSolana] at same
    rw [Text.trim_toAsciiLowercase, same, ← Text.trim_toAsciiLowercase]

/-! ## Variations -/

def DeploymentEvent.Respelled (chain : Text) (first second : DeploymentEvent) : Prop :=
  SameHash chain first.txHash second.txHash ∧ second = { first with txHash := second.txHash }

def SaleEvent.Respelled (chain : Text) (first second : SaleEvent) : Prop :=
  SameHash chain first.txHash second.txHash ∧ second = { first with txHash := second.txHash }

def TransferEvent.Respelled (chain : Text) (first second : TransferEvent) : Prop :=
  SameHash chain first.txHash second.txHash ∧ second = { first with txHash := second.txHash }

def ValueFlowEdge.Respelled (chain : Text) (first second : ValueFlowEdge) : Prop :=
  SameHash chain first.txHash second.txHash ∧ second = { first with txHash := second.txHash }

def Reordered {α : Type} (respelled : α → α → Prop) (first second : List α) : Prop :=
  ∃ middle, List.Forall₂ respelled first middle ∧ middle.Perm second

/-- The same bundle with respelled hashes and reordered events. -/
structure Variation (evidence other : CandidateEvidence) : Prop where
  rest : other =
    { evidence with
      events :=
        { evidence.events with
          deployment := other.events.deployment
          sales := other.events.sales
          transfers := other.events.transfers
          valueFlows := other.events.valueFlows } }
  deployment : Option.Rel (DeploymentEvent.Respelled evidence.chain) evidence.events.deployment
    other.events.deployment
  sales : Reordered (SaleEvent.Respelled evidence.chain) evidence.events.sales other.events.sales
  transfers : Reordered (TransferEvent.Respelled evidence.chain) evidence.events.transfers
    other.events.transfers
  valueFlows : Reordered (ValueFlowEdge.Respelled evidence.chain) evidence.events.valueFlows
    other.events.valueFlows

theorem SameHash.refl (chain txHash : Text) : SameHash chain txHash txHash := by
  rw [SameHash]
  split <;> rfl

theorem Reordered.refl {α : Type} {respelled : α → α → Prop}
    (known : ∀ event, respelled event event) (events : List α) :
    Reordered respelled events events :=
  ⟨events, forall₂_same.mpr fun event _ => known event, .refl _⟩

theorem Variation.refl (evidence : CandidateEvidence) : Variation evidence evidence where
  rest := rfl
  deployment := by
    cases evidence.events.deployment with
    | none => exact .none
    | some deployment => exact .some ⟨SameHash.refl _ _, rfl⟩
  sales := Reordered.refl (fun sale => ⟨SameHash.refl _ sale.txHash, rfl⟩) _
  transfers := Reordered.refl (fun transfer => ⟨SameHash.refl _ transfer.txHash, rfl⟩) _
  valueFlows := Reordered.refl (fun edge => ⟨SameHash.refl _ edge.txHash, rfl⟩) _

theorem Reordered.filterMap {α β : Type} {respelled : α → α → Prop} {first second : List α}
    (reordered : Reordered respelled first second) {read other : α → Option β}
    (same : ∀ left right, respelled left right → read left = other right) :
    (first.filterMap read).Perm (second.filterMap other) := by
  obtain ⟨middle, each, perm⟩ := reordered
  have equal : first.filterMap read = middle.filterMap other := by
    clear perm
    induction each with
    | nil => rfl
    | cons related _ induction =>
        rw [filterMap_cons, filterMap_cons, same _ _ related, induction]
  rw [equal]
  exact perm.filterMap other

theorem bind_eq_of_rel {α β : Type} {respelled : α → α → Prop} {first second : Option α}
    (related : Option.Rel respelled first second) {read other : α → Option β}
    (same : ∀ left right, respelled left right → read left = other right) :
    first.bind read = second.bind other := by
  cases related with
  | none => rfl
  | some related => exact same _ _ related

/-- A source under its normalized hash. -/
def normalizedSource (evidence : CandidateEvidence) (source : GasSource) : GasSource :=
  { source with txHash := normalizedTx evidence source.txHash }

theorem normalizedSource_map (evidence : CandidateEvidence) (txHash : Text) (stage : GasStage)
    (gas : Option ℚ) :
    (gas.map fun paid => (⟨txHash, stage, paid⟩ : GasSource)).map (normalizedSource evidence) =
      gas.map fun paid => ⟨normalizedTx evidence txHash, stage, paid⟩ := by
  cases gas <;> rfl

section
variable {evidence other : CandidateEvidence} (variation : Variation evidence other)
  (roles : RoleMap)
include variation

theorem Variation.chain_eq : other.chain = evidence.chain := by
  have same := congrArg ContractEvidence.chain variation.rest
  exact same

theorem Variation.quality_eq : other.quality = evidence.quality := by
  have same := congrArg ContractEvidence.quality variation.rest
  exact same

theorem Variation.normalizedTx_eq (same : SameHash evidence.chain first second) :
    normalizedTx evidence first = normalizedTx other second := by
  rw [normalizedTx, normalizedTx, variation.chain_eq]
  exact same.normalized

theorem Variation.operatorGas_eq (gas : Option ℚ) (feePayer : Option Text) :
    operatorGas evidence roles gas feePayer = operatorGas other roles gas feePayer := by
  unfold operatorGas normalizedIn
  rw [variation.chain_eq]

theorem Variation.gasSources_perm :
    ((gasSources evidence roles).map (normalizedSource evidence)).Perm
      ((gasSources other roles).map (normalizedSource other)) := by
  have deployed : (deploymentSource evidence roles).map (normalizedSource evidence) =
      (deploymentSource other roles).map (normalizedSource other) := by
    rw [deploymentSource, deploymentSource, Option.map_bind, Option.map_bind]
    refine bind_eq_of_rel variation.deployment fun first second related => ?_
    rw [Function.comp_apply, Function.comp_apply, normalizedSource_map, normalizedSource_map,
      variation.operatorGas_eq roles, variation.normalizedTx_eq related.1, related.2]
  have sold : (evidence.events.sales.filterMap fun sale =>
      (saleSource evidence roles sale).map (normalizedSource evidence)).Perm
        (other.events.sales.filterMap fun sale =>
          (saleSource other roles sale).map (normalizedSource other)) := by
    refine variation.sales.filterMap fun first second related => ?_
    rw [saleSource, saleSource, normalizedSource_map, normalizedSource_map, saleGas, saleGas,
      variation.operatorGas_eq roles, variation.normalizedTx_eq related.1, related.2]
  have transferred : (evidence.events.transfers.filterMap fun transfer =>
      (transferSource evidence roles transfer).map (normalizedSource evidence)).Perm
        (other.events.transfers.filterMap fun transfer =>
          (transferSource other roles transfer).map (normalizedSource other)) := by
    refine variation.transfers.filterMap fun first second related => ?_
    rw [transferSource, transferSource, normalizedSource_map, normalizedSource_map, transferGas,
      transferGas, variation.operatorGas_eq roles, variation.normalizedTx_eq related.1, related.2]
  rw [gasSources, gasSources, variation.quality_eq]
  split
  · rw [map_append, map_append, map_append, map_append, map_filterMap,
      map_filterMap, map_filterMap, map_filterMap, ← Option.toList_map,
      ← Option.toList_map, deployed]
    exact (sold.append transferred).append_left _
  · exact .refl _

theorem Variation.usableFlows_reordered :
    Reordered (ValueFlowEdge.Respelled evidence.chain) (usableFlows evidence)
      (usableFlows other) := by
  rw [usableFlows, usableFlows, variation.quality_eq]
  split
  · exact variation.valueFlows
  · exact ⟨[], .nil, .refl _⟩

theorem Variation.gasView_same :
    GasView.Same (gasView evidence roles) (gasView other roles) where
  sources := by
    have flows : ((usableFlows evidence).filterMap fun edge =>
        (flowSource evidence roles edge).map (normalizedSource evidence)).Perm
          ((usableFlows other).filterMap fun edge =>
            (flowSource other roles edge).map (normalizedSource other)) := by
      refine variation.usableFlows_reordered.filterMap fun first second related => ?_
      rw [flowSource, flowSource, normalizedSource_map, normalizedSource_map, paidFlow, paidFlow,
        flowGas, flowGas, variation.operatorGas_eq roles, variation.quality_eq,
        variation.normalizedTx_eq related.1, related.2]
    have events := (variation.gasSources_perm roles).append flows
    rw [← map_filterMap, ← map_filterMap, ← map_append, ← map_append] at events
    exact events
  native := by
    have events := (variation.gasSources_perm roles).map GasSource.txHash
    rw [map_map, map_map] at events
    exact events
  kinds := by
    have kinds : ((usableFlows evidence).filterMap fun edge =>
        some (normalizedTx evidence edge.txHash, GasStage.ofKind edge.kind)).Perm
          ((usableFlows other).filterMap fun edge =>
            some (normalizedTx other edge.txHash, GasStage.ofKind edge.kind)) := by
      refine variation.usableFlows_reordered.filterMap fun first second related => ?_
      rw [variation.normalizedTx_eq related.1, related.2]
    rw [filterMap_eq_map', filterMap_eq_map'] at kinds
    exact kinds

end

/-! ## Economics -/

def EconomicFacts.stageGas (facts : EconomicFacts) : GasStage → ℚ
  | .setup => facts.setupGasNative
  | .lure => facts.lureGasNative
  | .exit => facts.exitGasNative

theorem stageGas_computeEconomics (evidence : CandidateEvidence) (roles : RoleMap)
    (stage : GasStage) :
    (computeEconomics evidence roles).1.stageGas stage =
      (gasLedger evidence roles).stageTotal stage := by
  rw [computeEconomics]
  cases spotRate evidence.chain evidence.events.prices <;> cases stage <;> rfl

theorem totalGasNative_computeEconomics (evidence : CandidateEvidence) (roles : RoleMap) :
    (computeEconomics evidence roles).1.totalGasNative = (gasLedger evidence roles).total := by
  rw [computeEconomics]
  cases spotRate evidence.chain evidence.events.prices <;> rfl

theorem total_eq_stageTotals (ledger : GasLedger) :
    ledger.total = ledger.stageTotal .setup + ledger.stageTotal .lure + ledger.stageTotal .exit := by
  rw [GasLedger.total, GasLedger.stageTotal, GasLedger.stageTotal, GasLedger.stageTotal,
    sum_map_filter, sum_map_filter, sum_map_filter, ← sum_map_add, ← sum_map_add]
  refine congrArg List.sum (map_congr_left fun entry _ => ?_)
  cases entry.2.1 <;> simp

/-- Every operator-paid transaction has one stage, the one of the rule, with its highest fee; the
total is that of the stages; and no variation of the bundle changes a stage total. -/
structure GasAssignedOnce (evidence : CandidateEvidence) (roles : RoleMap) : Prop where
  attributed : ((gasLedger evidence roles).byTx.entries.map fun entry =>
      (normalizedTx evidence entry.1, entry.2)).Perm
    ((gasView evidence roles).transactions.map fun transaction =>
      (transaction, (gasView evidence roles).stage transaction,
        (gasView evidence roles).gas transaction))
  total : (computeEconomics evidence roles).1.totalGasNative =
    (computeEconomics evidence roles).1.stageGas .setup +
      (computeEconomics evidence roles).1.stageGas .lure +
        (computeEconomics evidence roles).1.stageGas .exit
  unchanged : ∀ other, Variation evidence other → ∀ stage,
    (computeEconomics other roles).1.stageGas stage =
      (computeEconomics evidence roles).1.stageGas stage

variable {evidence : CandidateEvidence} {roles : RoleMap}

theorem totalsByRule_of_attributed
    (attributed : ((gasLedger evidence roles).byTx.entries.map fun entry =>
        (normalizedTx evidence entry.1, entry.2)).Perm
      ((gasView evidence roles).transactions.map fun transaction =>
        (transaction, (gasView evidence roles).stage transaction,
          (gasView evidence roles).gas transaction))) : TotalsByRule evidence roles := by
  intro stage
  have same := ((attributed.filter fun entry => decide (entry.2.1 = stage)).map
    fun entry => entry.2.2).sum_eq
  rw [filter_map, filter_map, map_map, map_map] at same
  exact same

/-- Where the rule's stages stand, the entries are those of the rule. -/
theorem AssignedByRule.attributed (assigned : AssignedByRule evidence roles) :
    ((gasLedger evidence roles).byTx.entries.map fun entry =>
        (normalizedTx evidence entry.1, entry.2)).Perm
      ((gasView evidence roles).transactions.map fun transaction =>
        (transaction, (gasView evidence roles).stage transaction,
          (gasView evidence roles).gas transaction)) := by
  have ofRule : ∀ source ∈ paidSources evidence roles,
      (finalStage evidence roles source.txHash, finalGas evidence roles source.txHash) =
        ((gasView evidence roles).stage (normalizedTx evidence source.txHash),
          (gasView evidence roles).gas (normalizedTx evidence source.txHash)) :=
    fun source member => Prod.ext
      ((finalStage_eq_rule_iff source.txHash).mpr (assigned.stands source member))
      (finalGas_eq_rule assigned.injOn member)
  have keysNodup : ((gasLedger evidence roles).byTx.entries.map Sigma.fst).Nodup :=
    (gasLedger evidence roles).byTx.keys_nodup
  have entriesNodup : ((gasLedger evidence roles).byTx.entries.map fun entry =>
      (normalizedTx evidence entry.1, entry.2)).Nodup := by
    refine List.Nodup.map_on (fun first firstMember second secondMember same => ?_)
      (List.Nodup.of_map _ keysNodup)
    have sameKey := assigned.injOn
      (mem_paidHashes.mpr (mem_entries_gasLedger.mp firstMember).1)
      (mem_paidHashes.mpr (mem_entries_gasLedger.mp secondMember).1) (Prod.ext_iff.mp same).1
    exact inj_on_of_nodup_map keysNodup firstMember secondMember sameKey
  have ruleNodup : ((gasView evidence roles).transactions.map fun transaction =>
      (transaction, (gasView evidence roles).stage transaction,
        (gasView evidence roles).gas transaction)).Nodup :=
    List.Nodup.map (fun first second same => (Prod.ext_iff.mp same).1) (nodup_dedup _)
  refine (perm_ext_iff_of_nodup entriesNodup ruleNodup).mpr fun assignedEntry => ?_
  rw [mem_map, mem_map]
  constructor
  · intro fromMaps
    rcases fromMaps with ⟨⟨txHash, entry⟩, member, rfl⟩
    obtain ⟨⟨source, isSource, atTx⟩, isFinal⟩ := mem_entries_gasLedger.mp member
    simp only at atTx isFinal
    subst atTx
    refine ⟨normalizedTx evidence source.txHash, ?_, ?_⟩
    · rw [GasView.transactions, mem_dedup, mem_map]
      exact ⟨_, mem_view_sources.mpr ⟨source, isSource, rfl⟩, rfl⟩
    · rw [isFinal, ofRule source isSource]
  · intro fromRule
    rcases fromRule with ⟨transaction, member, rfl⟩
    rw [GasView.transactions, mem_dedup, mem_map] at member
    rcases member with ⟨viewed, isViewed, rfl⟩
    obtain ⟨source, isSource, rfl⟩ := mem_view_sources.mp isViewed
    refine ⟨⟨source.txHash, finalStage evidence roles source.txHash,
      finalGas evidence roles source.txHash⟩,
        mem_entries_gasLedger.mpr ⟨⟨source, isSource, rfl⟩, rfl⟩, ?_⟩
    exact congrArg (Prod.mk (normalizedTx evidence source.txHash)) (ofRule source isSource)

def fundedTransferEvidence : CandidateEvidence :=
  { CandidateEvidence.empty 0 "ethereum".toList "0xnft".toList with
    events :=
      { CandidateEvents.empty with
        transfers :=
          [{ txHash := "0x1".toList
             tokenId := "1".toList
             fromAddress := "0xoperator".toList
             toAddress := "0xbuyer".toList
             timestamp := none
             blockNumber := none
             isMint := false
             gasNative := some 1
             feePayer := none
             mintPaymentNative := none
             mintPaymentUsd := none
             mintPaymentReceiver := none }]
        valueFlows :=
          [{ txHash := "0x1".toList
             eventId := none
             fromAddress := "0xfunder".toList
             toAddress := "0xoperator".toList
             kind := .funding
             nativeAmount := some 1
             usdAmount := none
             gasNative := none
             feePayer := none }] }
    quality := { EvidenceQuality.unknown with gas := .complete, valueFlows := .complete } }

def fundedTransferRoles : RoleMap := (∅ : RoleMap).insert "0xoperator".toList .suspectedOperator

end NftData.Analysis2
