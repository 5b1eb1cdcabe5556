import NftData.Analysis2.Enrich.Types

namespace NftData.Analysis2

/-! # Candidate analyses by relation scope

A candidate is analysed once. For each reporting scope the analysis is projected onto the
seed relations of the scope instead of being run again. -/

structure LegitSignals where
  seedOpenLicense : Bool
  verifiedMigration : Bool
  authorizedReissue : Bool
  officialControllerContinuity : Bool
  officialCollectionRelation : Bool
  seedNftInteraction : Bool
  evidenceKeys : List Text
  /-- Whether verification was attempted to completion. -/
  verificationComplete : Bool
  deriving DecidableEq, Repr

namespace LegitSignals

def default : LegitSignals := ⟨false, false, false, false, false, false, [], false⟩

def isLegitDuplicate (signals : LegitSignals) : Bool :=
  signals.seedOpenLicense || signals.verifiedMigration || signals.authorizedReissue ||
    signals.officialControllerContinuity || signals.officialCollectionRelation ||
    signals.seedNftInteraction

def mergeOr (signals other : LegitSignals) : LegitSignals where
  seedOpenLicense := signals.seedOpenLicense || other.seedOpenLicense
  verifiedMigration := signals.verifiedMigration || other.verifiedMigration
  authorizedReissue := signals.authorizedReissue || other.authorizedReissue
  officialControllerContinuity :=
    signals.officialControllerContinuity || other.officialControllerContinuity
  officialCollectionRelation :=
    signals.officialCollectionRelation || other.officialCollectionRelation
  seedNftInteraction := signals.seedNftInteraction || other.seedNftInteraction
  evidenceKeys := other.evidenceKeys.foldl
    (fun keys key => if key ∈ keys then keys else keys ++ [key]) signals.evidenceKeys
  verificationComplete := signals.verificationComplete || other.verificationComplete

end LegitSignals

structure LegitClassification where
  isLegitDuplicate : Bool
  verificationComplete : Bool
  evidenceKeys : List Text
  reasons : List Text
  deriving DecidableEq, Repr

def classify (signals : LegitSignals) : LegitClassification where
  isLegitDuplicate := signals.isLegitDuplicate
  verificationComplete := signals.verificationComplete
  evidenceKeys := signals.evidenceKeys
  reasons :=
    [(signals.seedOpenLicense, "seed_open_license"),
      (signals.verifiedMigration, "verified_migration"),
      (signals.authorizedReissue, "authorized_reissue"),
      (signals.officialControllerContinuity, "official_controller_continuity"),
      (signals.officialCollectionRelation, "official_collection_relation"),
      (signals.seedNftInteraction, "seed_nft_interaction")].filterMap
      fun (given, reason) => if given then some reason.toList else none

/-- A `BTreeMap` by its entries in key order. -/
abbrev RelationSignals := List (Text × LegitSignals)

/-- What the providers say about a contract. `events` stands for its transfers, sales,
holders, prices, value flows, controllers and deployment. -/
structure ContractEvidence (Events : Type) where
  contractId : Nat
  chain : Text
  address : Text
  events : Events
  collectionNftCount : Option Nat
  collectionNftCountComplete : Bool
  quality : EvidenceQuality

/-- The evidence of a candidate, together with what its seed relations say about its
legitimacy. -/
structure EvidenceBundle (Events : Type) extends ContractEvidence Events where
  legit : LegitSignals
  /-- Per-seed relation signals keyed by `"chain:address"`. -/
  relationLegit : RelationSignals

namespace EvidenceBundle

variable {Events : Type}

/-- Finalize the top-level signals after the relation probes, or when none ran. -/
def finalizeLegitSignals (bundle : EvidenceBundle Events) : EvidenceBundle Events :=
  if !bundle.relationLegit.isEmpty then
    let (merged, anyComplete) := bundle.relationLegit.foldl
      (fun state entry => (state.1.mergeOr entry.2, state.2 || entry.2.verificationComplete))
      (LegitSignals.default, false)
    if merged.isLegitDuplicate || anyComplete then
      { bundle with legit := { merged with verificationComplete := true } }
    else
      { bundle with legit := merged }
  else if bundle.legit.isLegitDuplicate then
    { bundle with legit := { bundle.legit with verificationComplete := true } }
  else
    { bundle with legit := { bundle.legit with verificationComplete := false } }

/-- Retain only the seed relations of a scope. -/
def filteredForAnalysis (bundle : EvidenceBundle Events) (seedKeys : Finset Text) :
    EvidenceBundle Events :=
  finalizeLegitSignals { bundle with
    legit := .default
    relationLegit := bundle.relationLegit.filter fun entry => decide (entry.1 ∈ seedKeys) }

end EvidenceBundle

structure PaperConfig where
  minCycleSize : Nat
  layeredPathAddresses : Nat
  fanOut : Nat
  topConcentrationFraction : ℚ
  analysisTimestamp : Int
  deriving DecidableEq

section Analysis

variable {Events Attribution Lifecycle ValueFlow Behaviors BehaviorInstance Economics
  EconomicsQuality : Type}

/-- What the deep analysis finds out. -/
structure DeepFacts (Attribution Lifecycle ValueFlow Behaviors BehaviorInstance Economics
    EconomicsQuality : Type) where
  attribution : List (Text × Attribution)
  lifecycle : Lifecycle
  valueFlow : ValueFlow
  behaviors : Behaviors
  behaviorInstances : List BehaviorInstance
  economics : Economics
  economicsQuality : EconomicsQuality
  deriving DecidableEq

structure CandidateAnalysis (Attribution Lifecycle ValueFlow Behaviors BehaviorInstance
    Economics EconomicsQuality : Type) extends
    DeepFacts Attribution Lifecycle ValueFlow Behaviors BehaviorInstance Economics
      EconomicsQuality where
  contractId : Nat
  chain : Text
  address : Text
  legit : LegitClassification
  legitBySeed : List (Text × LegitClassification)
  evidenceQuality : EvidenceQuality
  collectionNftCount : Option Nat
  collectionNftCountComplete : Bool
  analysisTimestamp : Int
  deriving DecidableEq

variable [Inhabited Lifecycle] [Inhabited ValueFlow] [Inhabited Behaviors]
  [Inhabited Economics] [Inhabited EconomicsQuality]

/-- The facts of a candidate that is not analysed. -/
def DeepFacts.empty : DeepFacts Attribution Lifecycle ValueFlow Behaviors BehaviorInstance
    Economics EconomicsQuality where
  attribution := []
  lifecycle := default
  valueFlow := default
  behaviors := default
  behaviorInstances := []
  economics := default
  economicsQuality := default

def classifyAll (relations : RelationSignals) : List (Text × LegitClassification) :=
  relations.map fun entry => (entry.1, classify entry.2)

def isFullyLegit (legitBySeed : List (Text × LegitClassification)) : Bool :=
  !legitBySeed.isEmpty && legitBySeed.all fun entry => entry.2.isLegitDuplicate

variable (deepAnalysis : ContractEvidence Events → PaperConfig →
  DeepFacts Attribution Lifecycle ValueFlow Behaviors BehaviorInstance Economics
    EconomicsQuality)

/-- Analyse one candidate. The deep analysis of attribution, lifecycle, value flow,
behaviors and economics is a parameter: none of its modules reads the signals. -/
def analyzeCandidate (store : ResidentStore) (contract : Nat)
    (evidence : EvidenceBundle Events) (config : PaperConfig) :
    Except Analysis2Error (CandidateAnalysis Attribution Lifecycle ValueFlow Behaviors
      BehaviorInstance Economics EconomicsQuality) :=
  match store.contracts[contract]? with
  | none => .error (.invalid ("unknown contract id ".toList ++ Text.ofNat contract))
  | some contractRow =>
      if evidence.contractId ≠ contract then
        .error (.invalid ("evidence contract_id ".toList ++ Text.ofNat evidence.contractId ++
          " != requested ".toList ++ Text.ofNat contract))
      else do
        let legit := classify evidence.legit
        let legitBySeed := classifyAll evidence.relationLegit
        let facts :=
          if isFullyLegit legitBySeed then .empty
          else deepAnalysis evidence.toContractEvidence config
        let chain ← store.chainName contractRow.chainId
        .ok { facts with
          contractId := contract
          chain := chain
          address := contractRow.address
          legit := legit
          legitBySeed := legitBySeed
          evidenceQuality := evidence.quality
          collectionNftCount := evidence.collectionNftCount
          collectionNftCountComplete := evidence.collectionNftCountComplete
          analysisTimestamp := config.analysisTimestamp }

/-- Reuse a contract-wide analysis for a relation scope: only legitimacy changes by scope,
and a fully legitimate scope has no facts. -/
def CandidateAnalysis.projectRelationSignals
    (analysis : CandidateAnalysis Attribution Lifecycle ValueFlow Behaviors BehaviorInstance
      Economics EconomicsQuality) (relationSignals : RelationSignals) :
    CandidateAnalysis Attribution Lifecycle ValueFlow Behaviors BehaviorInstance Economics
      EconomicsQuality :=
  let (merged, anyComplete) := relationSignals.foldl
    (fun state entry => (state.1.mergeOr entry.2, state.2 || entry.2.verificationComplete))
    (LegitSignals.default, false)
  let merged := if merged.isLegitDuplicate || anyComplete then
    { merged with verificationComplete := true } else merged
  let projected := { analysis with
    legit := classify merged
    legitBySeed := classifyAll relationSignals }
  if isFullyLegit projected.legitBySeed then
    { projected with toDeepFacts := .empty }
  else
    projected

/-! ## Projection and reanalysis -/

def EvidenceBundle.relationsIn (evidence : EvidenceBundle Events) (seedKeys : Finset Text) :
    RelationSignals :=
  evidence.relationLegit.filter fun entry => decide (entry.1 ∈ seedKeys)

/-- Every relation of the candidate is legitimate, so it was not analysed, but the scope
has none of its relations. -/
def EvidenceBundle.LosesFacts (evidence : EvidenceBundle Events) (seedKeys : Finset Text) :
    Prop :=
  isFullyLegit (classifyAll evidence.relationLegit) = true ∧
    evidence.relationsIn seedKeys = []

instance (evidence : EvidenceBundle Events) (seedKeys : Finset Text) :
    Decidable (evidence.LosesFacts seedKeys) :=
  inferInstanceAs (Decidable (_ ∧ _))

def mergedSignals (relations : RelationSignals) : LegitSignals :=
  let (merged, anyComplete) := relations.foldl
    (fun state entry => (state.1.mergeOr entry.2, state.2 || entry.2.verificationComplete))
    (LegitSignals.default, false)
  if merged.isLegitDuplicate || anyComplete then
    { merged with verificationComplete := true }
  else
    merged

theorem EvidenceBundle.finalizeLegitSignals_eq (evidence : ContractEvidence Events)
    (relations : RelationSignals) :
    finalizeLegitSignals ⟨evidence, .default, relations⟩ =
      ⟨evidence, mergedSignals relations, relations⟩ := by
  cases relations with
  | nil => rfl
  | cons entry rest =>
      unfold finalizeLegitSignals mergedSignals
      rw [if_pos (by rfl)]
      simp only
      split <;> rfl

theorem EvidenceBundle.filteredForAnalysis_eq (evidence : EvidenceBundle Events)
    (seedKeys : Finset Text) :
    evidence.filteredForAnalysis seedKeys = { evidence with
      legit := mergedSignals (evidence.relationsIn seedKeys)
      relationLegit := evidence.relationsIn seedKeys } :=
  finalizeLegitSignals_eq _ _

variable {evidence : EvidenceBundle Events}

theorem EvidenceBundle.isFullyLegit_relationsIn {seedKeys : Finset Text}
    (fullyLegit : isFullyLegit (classifyAll evidence.relationLegit) = true)
    (some : evidence.relationsIn seedKeys ≠ []) :
    isFullyLegit (classifyAll (evidence.relationsIn seedKeys)) = true := by
  rw [isFullyLegit, Bool.and_eq_true, List.all_eq_true] at fullyLegit ⊢
  constructor
  · simpa [classifyAll] using some
  · intro entry member
    apply fullyLegit.2
    rw [classifyAll, List.mem_map] at member ⊢
    rcases member with ⟨relation, inScope, equal⟩
    exact ⟨relation, (List.mem_filter.mp inScope).1, equal⟩

variable {deepAnalysis}

theorem analyzeCandidate_eq_ok {store : ResidentStore} {contract : Nat} {config : PaperConfig}
    {analysis : CandidateAnalysis Attribution Lifecycle ValueFlow Behaviors
      BehaviorInstance Economics EconomicsQuality}
    (analyzed : analyzeCandidate deepAnalysis store contract evidence config = .ok analysis)
    (legit : LegitSignals) (relations : RelationSignals) :
    analyzeCandidate deepAnalysis store contract
        { evidence with legit := legit, relationLegit := relations } config =
      .ok { analysis with
        toDeepFacts := if isFullyLegit (classifyAll relations) then .empty
          else deepAnalysis evidence.toContractEvidence config
        legit := classify legit
        legitBySeed := classifyAll relations } ∧
      analysis.toDeepFacts =
        if isFullyLegit (classifyAll evidence.relationLegit) then .empty
        else deepAnalysis evidence.toContractEvidence config := by
  unfold analyzeCandidate at analyzed ⊢
  cases row : store.contracts[contract]? with
  | none =>
      rw [row] at analyzed
      cases analyzed
  | some contractRow =>
      rw [row] at analyzed
      simp only at analyzed ⊢
      by_cases same : evidence.contractId = contract
      · rw [if_neg (not_not.mpr same)] at analyzed ⊢
        rcases bind_eq_ok analyzed with ⟨chain, named, equal⟩
        rw [Except.ok.injEq] at equal
        rw [named, ← equal]
        exact ⟨rfl, rfl⟩
      · rw [if_pos same] at analyzed
        cases analyzed

/-- Projecting an analysis onto a scope is analysing the scope, unless the candidate was
not analysed at all and the scope has none of its relations: then the facts of the
candidate are missing from the projection. -/
theorem analyzeCandidate_filtered_eq_project_iff (store : ResidentStore) (contract : Nat)
    (evidence : EvidenceBundle Events) (config : PaperConfig) (seedKeys : Finset Text)
    {analysis : CandidateAnalysis Attribution Lifecycle ValueFlow Behaviors
      BehaviorInstance Economics EconomicsQuality}
    (analyzed : analyzeCandidate deepAnalysis store contract evidence config =
      .ok analysis) :
    analyzeCandidate deepAnalysis store contract (evidence.filteredForAnalysis seedKeys)
        config =
      .ok (analysis.projectRelationSignals (evidence.relationsIn seedKeys)) ↔
    ¬ evidence.LosesFacts seedKeys ∨
      deepAnalysis evidence.toContractEvidence config = .empty := by
  have reanalyzed := analyzeCandidate_eq_ok analyzed
    (mergedSignals (evidence.relationsIn seedKeys)) (evidence.relationsIn seedKeys)
  have projected : analysis.projectRelationSignals (evidence.relationsIn seedKeys) =
      { analysis with
        toDeepFacts := if isFullyLegit (classifyAll (evidence.relationsIn seedKeys)) then
          .empty else analysis.toDeepFacts
        legit := classify (mergedSignals (evidence.relationsIn seedKeys))
        legitBySeed := classifyAll (evidence.relationsIn seedKeys) } := by
    change (if isFullyLegit (classifyAll (evidence.relationsIn seedKeys)) then _ else _) = _
    split <;> rfl
  rw [evidence.filteredForAnalysis_eq, reanalyzed.1, projected, Except.ok.injEq]
  by_cases scopeLegit :
      isFullyLegit (classifyAll (evidence.relationsIn seedKeys)) = true
  · have keeps : ¬ evidence.LosesFacts seedKeys := by
      intro loses
      rw [loses.2] at scopeLegit
      cases scopeLegit
    rw [if_pos scopeLegit, if_pos scopeLegit]
    exact iff_of_true rfl (.inl keeps)
  · rw [if_neg scopeLegit, if_neg scopeLegit, reanalyzed.2]
    by_cases fullyLegit : isFullyLegit (classifyAll evidence.relationLegit) = true
    · have loses : evidence.LosesFacts seedKeys := by
        refine ⟨fullyLegit, ?_⟩
        by_contra some
        exact scopeLegit (evidence.isFullyLegit_relationsIn fullyLegit some)
      rw [if_pos fullyLegit]
      constructor
      · intro same
        exact .inr (congrArg CandidateAnalysis.toDeepFacts same)
      · intro empty
        rw [empty.resolve_left (not_not.mpr loses)]
    · rw [if_neg fullyLegit]
      exact iff_of_true rfl (.inl fun loses => fullyLegit loses.1)

abbrev ActivityFacts := DeepFacts Unit (Option Int) Unit Unit Unit Unit Unit

abbrev ActivityAnalysis := CandidateAnalysis Unit (Option Int) Unit Unit Unit Unit Unit

/-- An analysis that reports the first activity, for evidence that consists of the times
of its transfers. -/
def firstActivity (evidence : ContractEvidence (List Int)) (_ : PaperConfig) :
    ActivityFacts :=
  ⟨[], evidence.events.min?, (), (), [], (), ()⟩

def migratedCandidate : EvidenceBundle (List Int) where
  contractId := 0
  chain := "ethereum".toList
  address := "0xb".toList
  events := [100]
  collectionNftCount := none
  collectionNftCountComplete := false
  quality := ⟨.complete, .notRequested, .notRequested, .notRequested, .notRequested,
    .notRequested, .notRequested, .notRequested, false, none, [], []⟩
  legit := { LegitSignals.default with verifiedMigration := true }
  relationLegit := [("ethereum:0xa".toList,
    { LegitSignals.default with verifiedMigration := true })]

def candidateStore : ResidentStore :=
  { ResidentStore.withOptions none ∅ with
    chains := ["ethereum".toList]
    contracts := [⟨0, 0, "0xb".toList, 1, none, []⟩] }

def paperConfig : PaperConfig := ⟨2, 3, 3, 1 / 10, 1000⟩

/-- Within the scope of its relation the candidate is projected as it is analysed. -/
theorem analyzeCandidate_filtered_eq_project_in_scope :
    ∃ analysis : ActivityAnalysis,
      analyzeCandidate firstActivity candidateStore 0
          (migratedCandidate.filteredForAnalysis {"ethereum:0xa".toList}) paperConfig =
        .ok (analysis.projectRelationSignals
          (migratedCandidate.relationsIn {"ethereum:0xa".toList})) := by
  have analyzed : ∃ analysis : ActivityAnalysis, analyzeCandidate firstActivity
      candidateStore 0 migratedCandidate paperConfig = .ok analysis := ⟨_, rfl⟩
  rcases analyzed with ⟨analysis, analyzed⟩
  exact ⟨analysis, (analyzeCandidate_filtered_eq_project_iff candidateStore 0
    migratedCandidate paperConfig _ analyzed).mpr (.inl (by decide))⟩

/-- Outside of it the reanalysis reports the first activity, and the projection of the
candidate's analysis does not. -/
theorem analyzeCandidate_filtered_ne_project :
    (analyzeCandidate firstActivity candidateStore 0 migratedCandidate paperConfig).map
        (fun analysis : ActivityAnalysis => (analysis.projectRelationSignals
          (migratedCandidate.relationsIn ∅)).lifecycle) = .ok none ∧
      (analyzeCandidate firstActivity candidateStore 0
        (migratedCandidate.filteredForAnalysis ∅) paperConfig).map
          (fun analysis : ActivityAnalysis => analysis.lifecycle) = .ok (some 100) := by
  constructor <;> rfl

end Analysis

end NftData.Analysis2
