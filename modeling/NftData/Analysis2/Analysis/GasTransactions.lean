import NftData.Analysis2.Analysis.GasStages

namespace NftData.Analysis2

open Option

/-! # Gas by transaction

What the gas maps hold for one transaction hash, after all events. -/

open List

def highestStage (stages : List GasStage) : GasStage := stages.foldl max .setup

def highestGas (fees : List ℚ) : ℚ := fees.foldl max 0

theorem setup_le (stage : GasStage) : GasStage.setup ≤ stage := by
  cases stage <;> decide

section
variable {α : Type*} [LinearOrder α]

theorem le_foldl_max (values : List α) (start : α) : start ≤ values.foldl max start := by
  induction values generalizing start with
  | nil => exact le_rfl
  | cons value rest induction =>
      exact (le_max_left start value).trans (induction (max start value))

theorem le_foldl_max_of_mem {values : List α} {value : α} (member : value ∈ values) (start : α) :
    value ≤ values.foldl max start := by
  induction values generalizing start with
  | nil => cases member
  | cons first rest induction =>
      rcases mem_cons.mp member with same | inRest
      · rw [same]
        exact (le_max_right start first).trans (le_foldl_max rest (max start first))
      · exact induction inRest (max start first)

theorem foldl_max_mem (values : List α) (start : α) :
    values.foldl max start = start ∨ values.foldl max start ∈ values := by
  induction values generalizing start with
  | nil => exact Or.inl rfl
  | cons first rest induction =>
      rw [foldl_cons]
      rcases induction (max start first) with same | member
      · rw [same]
        rcases max_choice start first with isStart | isFirst
        · exact Or.inl isStart
        · rw [isFirst]
          exact Or.inr mem_cons_self
      · exact Or.inr (mem_cons_of_mem first member)

theorem foldl_max_perm {first second : List α} (same : first.Perm second) (start : α) :
    first.foldl max start = second.foldl max start :=
  same.foldl_eq' (fun left _ right _ value => max_right_comm value left right) start

end

@[simp] theorem highestStage_nil : highestStage [] = .setup := rfl

@[simp] theorem highestGas_nil : highestGas [] = 0 := rfl

@[simp] theorem highestStage_append (stages : List GasStage) (stage : GasStage) :
    highestStage (stages ++ [stage]) = max (highestStage stages) stage := by
  rw [highestStage, List.foldl_append]
  rfl

@[simp] theorem highestGas_append (fees : List ℚ) (gas : ℚ) :
    highestGas (fees ++ [gas]) = max (highestGas fees) gas := by
  rw [highestGas, List.foldl_append]
  rfl

theorem highestGas_le_append (fees more : List ℚ) :
    highestGas fees ≤ highestGas (fees ++ more) := by
  rw [highestGas, highestGas, List.foldl_append]
  exact le_foldl_max more _

theorem highestStage_exit_twice (stages : List GasStage) :
    highestStage (stages ++ [.exit, .exit]) = max (highestStage stages) .exit := by
  rw [append_cons, highestStage_append, highestStage_append, max_assoc, max_self]

theorem highestStage_eq_or_mem (stages : List GasStage) :
    highestStage stages = .setup ∨ highestStage stages ∈ stages :=
  foldl_max_mem stages .setup

variable {stages : List GasStage}

theorem le_highestStage {stage : GasStage} (member : stage ∈ stages) :
    stage ≤ highestStage stages :=
  le_foldl_max_of_mem member .setup

/-- Gas that an operator paid for an event. -/
structure GasSource where
  txHash : Text
  stage : GasStage
  gas : ℚ
  deriving DecidableEq

variable {gas : ℚ}

section
variable (evidence : CandidateEvidence) (roles : RoleMap)

def deploymentSource : Option GasSource :=
  evidence.events.deployment.bind fun deployment =>
    (operatorGas evidence roles deployment.gasNative deployment.feePayer).map fun gas =>
      ⟨deployment.txHash, .setup, gas⟩

def saleSource (sale : SaleEvent) : Option GasSource :=
  (saleGas evidence roles sale).map fun gas => ⟨sale.txHash, .lure, gas⟩

def transferSource (transfer : TransferEvent) : Option GasSource :=
  (transferGas evidence roles transfer).map fun gas => ⟨transfer.txHash, .lure, gas⟩

/-- The deployment and the NFT events whose gas an operator paid. -/
def gasSources : List GasSource :=
  if evidence.quality.gas.isUsable then
    (deploymentSource evidence roles).toList ++
      (evidence.events.sales.filterMap (saleSource evidence roles) ++
        evidence.events.transfers.filterMap (transferSource evidence roles))
  else
    []

def usableFlows : List ValueFlowEdge :=
  if evidence.quality.valueFlows.isUsable then evidence.events.valueFlows else []

def paidFlow (edge : ValueFlowEdge) : Option ℚ :=
  if evidence.quality.gas.isUsable then flowGas evidence roles edge else none

def flowSource (edge : ValueFlowEdge) : Option GasSource :=
  (paidFlow evidence roles edge).map fun gas => ⟨edge.txHash, .ofKind edge.kind, gas⟩

def paidSources : List GasSource :=
  gasSources evidence roles ++ (usableFlows evidence).filterMap (flowSource evidence roles)

variable {evidence roles}

theorem operatorGas_pos {gas : Option ℚ} {feePayer : Option Text} {paid : ℚ}
    (found : operatorGas evidence roles gas feePayer = some paid) : 0 < paid := by
  unfold operatorGas at found
  cases known : gas.filter fun value => 0 < value with
  | none =>
      rw [known] at found
      cases found
  | some value =>
      rw [known] at found
      cases feePayer with
      | none => cases found
      | some payer =>
          simp only [ite_none_right_eq_some, Option.some.injEq] at found
          rw [← found.2]
          exact of_decide_eq_true (filter_eq_some_iff.mp known).2

variable {source : GasSource}

theorem gas_pos_of_mem_gasSources (member : source ∈ gasSources evidence roles) :
    0 < source.gas := by
  rw [gasSources] at member
  split at member
  · simp only [mem_append, mem_toList, mem_filterMap] at member
    rcases member with deployed | ⟨sale, -, sold⟩ | ⟨transfer, -, transferred⟩
    · obtain ⟨deployment, -, found⟩ := bind_eq_some_iff.mp deployed
      obtain ⟨gas, paid, rfl⟩ := map_eq_some_iff.mp found
      exact operatorGas_pos paid
    · obtain ⟨gas, paid, rfl⟩ := map_eq_some_iff.mp sold
      exact operatorGas_pos paid
    · obtain ⟨gas, paid, rfl⟩ := map_eq_some_iff.mp transferred
      exact operatorGas_pos paid
  · cases member

theorem paidFlow_pos {edge : ValueFlowEdge} (found : paidFlow evidence roles edge = some gas) :
    0 < gas := by
  rw [paidFlow] at found
  split at found
  · exact operatorGas_pos found
  · cases found

theorem gas_pos_of_mem_paidSources (member : source ∈ paidSources evidence roles) :
    0 < source.gas := by
  rw [paidSources, mem_append, mem_filterMap] at member
  rcases member with nftEvent | ⟨edge, -, flow⟩
  · exact gas_pos_of_mem_gasSources nftEvent
  · obtain ⟨gas, paid, rfl⟩ := map_eq_some_iff.mp flow
    exact paidFlow_pos paid

end

namespace GasLedger

def addSource (ledger : GasLedger) (source : GasSource) : GasLedger :=
  (ledger.raiseNative source.txHash source.gas).raise source.txHash source.stage source.gas

theorem lookup_insert {Value : Type} (entries : AList fun _ : Text => Value) (txHash other : Text)
    (value : Value) :
    (entries.insert txHash value).lookup other =
      if other = txHash then some value else entries.lookup other := by
  by_cases same : other = txHash
  · rw [if_pos same, same]
    exact AList.lookup_insert entries
  · rw [if_neg same]
    exact AList.lookup_insert_ne same

section

variable (ledger : GasLedger) (txHash : Text)

theorem lookup_raise (stage : GasStage) (gas : ℚ) (other : Text) :
    (ledger.raise txHash stage gas).byTx.lookup other =
      if other = txHash then
        some (max ((ledger.byTx.lookup txHash).getD (stage, 0)).1 stage,
          max ((ledger.byTx.lookup txHash).getD (stage, 0)).2 gas)
      else ledger.byTx.lookup other :=
  lookup_insert ledger.byTx txHash other _

theorem lookup_assign (stage : GasStage) (gas : ℚ) (other : Text) :
    (ledger.assign txHash stage gas).byTx.lookup other =
      if other = txHash then
        some (stage, max ((ledger.byTx.lookup txHash).getD (stage, 0)).2 gas)
      else ledger.byTx.lookup other :=
  lookup_insert ledger.byTx txHash other _

theorem lookup_raiseNative (gas : ℚ) (other : Text) :
    (ledger.raiseNative txHash gas).nativeByTx.lookup other =
      if other = txHash then some (max ((ledger.nativeByTx.lookup txHash).getD 0) gas)
      else ledger.nativeByTx.lookup other :=
  lookup_insert ledger.nativeByTx txHash other _

@[simp] theorem nativeByTx_raise (stage : GasStage)
    (gas : ℚ) : (ledger.raise txHash stage gas).nativeByTx = ledger.nativeByTx := rfl

@[simp] theorem byTx_raiseNative (gas : ℚ) :
    (ledger.raiseNative txHash gas).byTx = ledger.byTx := rfl

end

end GasLedger

def sourcesAt (txHash : Text) (sources : List GasSource) : List GasSource :=
  sources.filter fun source => decide (source.txHash = txHash)

/-- The entry of a transaction with these stages and fees. -/
def gasEntry (stages : List GasStage) (fees : List ℚ) : Option (GasStage × ℚ) :=
  if fees = [] then none else some (highestStage stages, highestGas fees)

theorem lookup_addSources (sources : List GasSource) (txHash : Text) :
    (sources.foldl GasLedger.addSource .empty).byTx.lookup txHash =
      gasEntry ((sourcesAt txHash sources).map GasSource.stage)
        ((sourcesAt txHash sources).map GasSource.gas) ∧
    (sources.foldl GasLedger.addSource .empty).nativeByTx.lookup txHash =
      if sourcesAt txHash sources = [] then none
      else some (highestGas ((sourcesAt txHash sources).map GasSource.gas)) := by
  induction sources using List.reverseRecOn with
  | nil => exact ⟨rfl, rfl⟩
  | append_singleton sources source induction =>
      rw [List.foldl_append, foldl_cons, foldl_nil, GasLedger.addSource,
        GasLedger.lookup_raise, GasLedger.nativeByTx_raise, GasLedger.byTx_raiseNative,
        GasLedger.lookup_raiseNative]
      by_cases same : txHash = source.txHash
      · subst same
        have known : sourcesAt source.txHash (sources ++ [source]) =
            sourcesAt source.txHash sources ++ [source] := by
          simp [sourcesAt, filter_append]
        rw [if_pos rfl, if_pos rfl, known, induction.1, induction.2]
        by_cases fresh : sourcesAt source.txHash sources = []
        · simp [fresh, gasEntry, highestStage, highestGas, setup_le]
        · simp [fresh, gasEntry]
      · have known : sourcesAt txHash (sources ++ [source]) = sourcesAt txHash sources := by
          simp [sourcesAt, filter_append, Ne.symm same]
        rw [if_neg same, if_neg same, known]
        exact induction

section
variable (evidence : CandidateEvidence) (roles : RoleMap)

theorem addDeploymentGas_empty :
    addDeploymentGas evidence roles .empty =
      (deploymentSource evidence roles).toList.foldl GasLedger.addSource .empty := by
  rw [addDeploymentGas, deploymentSource]
  cases evidence.events.deployment with
  | none => rfl
  | some deployment =>
      rw [bind_some]
      cases found : operatorGas evidence roles deployment.gasNative deployment.feePayer with
      | none => simp [found]
      | some gas =>
          have isPositive := operatorGas_pos found
          simp [found, GasLedger.addSource, GasLedger.raise, GasLedger.raiseNative,
            GasLedger.empty, isPositive.le]

theorem foldl_addEventGas {Event : Type} (txHash : Event → Text) (gas : Event → Option ℚ)
    (events : List Event) (ledger : GasLedger) :
    events.foldl (fun ledger event => addEventGas (txHash event) (gas event) ledger) ledger =
      (events.filterMap fun event =>
        (gas event).map fun paid => (⟨txHash event, .lure, paid⟩ : GasSource)).foldl
          GasLedger.addSource ledger := by
  induction events generalizing ledger with
  | nil => rfl
  | cons event rest induction =>
      rw [foldl_cons, induction, filterMap_cons]
      cases gas event <;> rfl

/-- The maps are those of the sources, changed by the usable edges. -/
theorem gasLedger_eq :
    gasLedger evidence roles =
      (usableFlows evidence).foldl (addFlowGas evidence roles)
        ((gasSources evidence roles).foldl GasLedger.addSource .empty) := by
  have events : (if evidence.quality.gas.isUsable = true then
      evidence.events.transfers.foldl (fun ledger transfer =>
          addEventGas transfer.txHash (transferGas evidence roles transfer) ledger)
        (evidence.events.sales.foldl (fun ledger sale =>
          addEventGas sale.txHash (saleGas evidence roles sale) ledger)
            (addDeploymentGas evidence roles .empty))
      else .empty) = (gasSources evidence roles).foldl GasLedger.addSource .empty := by
    rw [gasSources]
    split
    · rw [List.foldl_append, List.foldl_append, addDeploymentGas_empty, foldl_addEventGas,
        foldl_addEventGas]
      rfl
    · rfl
  rw [← events, gasLedger, usableFlows]
  split <;> rfl

section
variable (ledger : GasLedger) (edge : ValueFlowEdge)

def paidEntry (entry : Option (GasStage × ℚ)) : Option (GasStage × ℚ) :=
  match paidFlow evidence roles edge with
  | none => entry
  | some gas =>
      let known := entry.getD (.ofKind edge.kind, 0)
      some (max known.1 (.ofKind edge.kind), max known.2 gas)

/-- The entry after the kind of an edge, where NFT events have paid gas. -/
def kindEntry (native : Option ℚ) (entry : Option (GasStage × ℚ)) : Option (GasStage × ℚ) :=
  match native with
  | none => entry
  | some gas =>
      match edge.kind with
      | .funding => some (.setup, max (entry.getD (.setup, 0)).2 gas)
      | .revenueBackflow => entry
      | .withdrawal | .cashout =>
          some (max (entry.getD (.exit, 0)).1 .exit, max (entry.getD (.exit, 0)).2 gas)

theorem nativeByTx_addFlowGas :
    (addFlowGas evidence roles ledger edge).nativeByTx = ledger.nativeByTx := by
  have kind (ledger : GasLedger) : (applyFlowKind edge ledger).nativeByTx = ledger.nativeByTx := by
    rw [applyFlowKind]
    split
    · split <;> rfl
    · rfl
    · split <;> rfl
    · split <;> rfl
  rw [addFlowGas, kind]
  split <;> rfl

theorem lookup_applyFlowKind (txHash : Text) :
    (applyFlowKind edge ledger).byTx.lookup txHash =
      if txHash = edge.txHash then
        kindEntry edge (ledger.nativeByTx.lookup txHash) (ledger.byTx.lookup txHash)
      else ledger.byTx.lookup txHash := by
  by_cases same : txHash = edge.txHash
  · subst same
    unfold applyFlowKind kindEntry
    cases ledger.nativeByTx.lookup edge.txHash <;> cases edge.kind <;>
      simp [GasLedger.lookup_raise, GasLedger.lookup_assign]
  · unfold applyFlowKind
    cases ledger.nativeByTx.lookup edge.txHash <;> cases edge.kind <;>
      simp [GasLedger.lookup_raise, GasLedger.lookup_assign, same]

theorem lookup_addFlowGas (txHash : Text) :
    (addFlowGas evidence roles ledger edge).byTx.lookup txHash =
      if txHash = edge.txHash then
        kindEntry edge (ledger.nativeByTx.lookup txHash)
          (paidEntry evidence roles edge (ledger.byTx.lookup txHash))
      else ledger.byTx.lookup txHash := by
  rw [addFlowGas, lookup_applyFlowKind, ← paidFlow, paidEntry]
  by_cases same : txHash = edge.txHash
  · subst same
    cases paidFlow evidence roles edge <;> simp [GasLedger.lookup_raise]
  · cases paidFlow evidence roles edge <;> simp [GasLedger.lookup_raise, same]

end

/-! ## The stages that stand -/

/-- The stages that stand for a transaction, after one more edge: a funding edge strikes the stages
of a transaction that NFT events have paid for. -/
def standingStep (txHash : Text) (stood : List GasStage) (edge : ValueFlowEdge) : List GasStage :=
  let isNative := decide (sourcesAt txHash (gasSources evidence roles) ≠ [])
  if edge.txHash = txHash then
    if isNative then
      if edge.kind = .funding then []
      else if (paidFlow evidence roles edge).isSome = true ∨ GasStage.ofKind edge.kind = .exit then
        stood ++ [.ofKind edge.kind]
      else stood
    else if (paidFlow evidence roles edge).isSome then stood ++ [.ofKind edge.kind]
    else stood
  else stood

def standing (txHash : Text) (flows : List ValueFlowEdge) : List GasStage :=
  flows.foldl (standingStep evidence roles txHash)
    ((sourcesAt txHash (gasSources evidence roles)).map GasSource.stage)

/-- The fees of a transaction, from NFT events and some edges. -/
def feesAt (txHash : Text) (flows : List ValueFlowEdge) : List ℚ :=
  (sourcesAt txHash (gasSources evidence roles ++
    flows.filterMap (flowSource evidence roles))).map GasSource.gas

section
variable {evidence roles} {txHash : Text} {flows : List ValueFlowEdge} {edge : ValueFlowEdge}

theorem feesAt_eq : feesAt evidence roles txHash flows =
    (sourcesAt txHash (gasSources evidence roles)).map GasSource.gas ++
      (sourcesAt txHash (flows.filterMap (flowSource evidence roles))).map GasSource.gas := by
  rw [feesAt, sourcesAt, filter_append, map_append, ← sourcesAt, ← sourcesAt]

theorem feesAt_append : feesAt evidence roles txHash (flows ++ [edge]) =
    feesAt evidence roles txHash flows ++
      if edge.txHash = txHash then (paidFlow evidence roles edge).toList else [] := by
  rw [feesAt, filterMap_append, ← List.append_assoc, sourcesAt, filter_append,
    map_append, ← sourcesAt, ← feesAt]
  congr 1
  by_cases same : edge.txHash = txHash <;>
    cases paid : paidFlow evidence roles edge <;> simp [flowSource, paid, same]

theorem standing_append : standing evidence roles txHash (flows ++ [edge]) =
    standingStep evidence roles txHash (standing evidence roles txHash flows) edge := by
  rw [standing, List.foldl_append]
  rfl

/-- Without a fee nothing stands. -/
theorem standing_eq_nil (noFee : feesAt evidence roles txHash flows = []) :
    standing evidence roles txHash flows = [] := by
  induction flows using List.reverseRecOn with
  | nil =>
      rw [feesAt, filterMap_nil, append_nil, map_eq_nil_iff] at noFee
      rw [standing, foldl_nil, noFee]
      rfl
  | append_singleton flows edge induction =>
      rw [feesAt_append, append_eq_nil_iff] at noFee
      have noSource : sourcesAt txHash (gasSources evidence roles) = [] := by
        have noFee := noFee.1
        rw [feesAt, map_eq_nil_iff, sourcesAt, filter_append,
          append_eq_nil_iff] at noFee
        exact noFee.1
      rw [standing_append, induction noFee.1, standingStep]
      by_cases same : edge.txHash = txHash
      · have unpaid : paidFlow evidence roles edge = none := by
          simpa [same] using noFee.2
        simp [noSource, unpaid]
      · simp [same]

end

variable {fees : List ℚ}

theorem paidEntry_gasEntry (noFee : fees = [] → stages = []) (edge : ValueFlowEdge)
    :
    paidEntry evidence roles edge (gasEntry stages fees) =
      gasEntry
        (stages ++ if (paidFlow evidence roles edge).isSome then [.ofKind edge.kind] else [])
        (fees ++ (paidFlow evidence roles edge).toList) := by
  rw [paidEntry]
  cases paid : paidFlow evidence roles edge with
  | none => simp
  | some gas =>
      by_cases fresh : fees = []
      · simp [gasEntry, fresh, noFee fresh, setup_le, highestStage, highestGas]
      · simp [gasEntry, fresh]

theorem kindEntry_gasEntry (hasFee : fees ≠ []) (known : gas ≤ highestGas fees)
    (edge : ValueFlowEdge) :
    kindEntry edge (some gas) (gasEntry stages fees) =
      gasEntry
        (if edge.kind = .funding then []
        else if GasStage.ofKind edge.kind = .exit then stages ++ [.exit] else stages) fees := by
  rw [gasEntry, if_neg hasFee, gasEntry, if_neg hasFee]
  cases kind : edge.kind <;> simp [kindEntry, kind, GasStage.ofKind, known]

theorem lookup_addFlows (flows : List ValueFlowEdge) (txHash : Text) :
    let ledger := flows.foldl (addFlowGas evidence roles)
      ((gasSources evidence roles).foldl GasLedger.addSource .empty)
    ledger.byTx.lookup txHash =
        gasEntry (standing evidence roles txHash flows) (feesAt evidence roles txHash flows) ∧
      ledger.nativeByTx.lookup txHash =
        if sourcesAt txHash (gasSources evidence roles) = [] then none
        else some (highestGas
          ((sourcesAt txHash (gasSources evidence roles)).map GasSource.gas)) := by
  induction flows using List.reverseRecOn with
  | nil =>
      have initial := lookup_addSources (gasSources evidence roles) txHash
      simpa [standing, feesAt] using initial
  | append_singleton flows edge induction =>
      rw [List.foldl_append, foldl_cons, foldl_nil]
      simp only [nativeByTx_addFlowGas, lookup_addFlowGas]
      refine ⟨?_, induction.2⟩
      rw [induction.1, induction.2, feesAt_append, standing_append, standingStep]
      by_cases same : txHash = edge.txHash
      · rw [if_pos same, if_pos same.symm, if_pos same.symm,
          paidEntry_gasEntry evidence roles standing_eq_nil]
        by_cases noSource : sourcesAt txHash (gasSources evidence roles) = []
        · cases paid : paidFlow evidence roles edge <;> simp [noSource, kindEntry]
        · -- NFT events paid gas, so the kind of the edge is applied
          have hasFee : feesAt evidence roles txHash flows ++
              (paidFlow evidence roles edge).toList ≠ [] := by
            simp [feesAt_eq, noSource]
          rw [if_neg noSource, kindEntry_gasEntry hasFee
            (by rw [feesAt_eq, List.append_assoc]; exact highestGas_le_append _ _)]
          cases paid : paidFlow evidence roles edge <;> cases kind : edge.kind <;>
            simp [noSource, gasEntry, GasStage.ofKind, highestStage_exit_twice]
      · have different : edge.txHash ≠ txHash := fun equal => same equal.symm
        rw [if_neg same, if_neg different, if_neg different, append_nil]

end

end NftData.Analysis2
