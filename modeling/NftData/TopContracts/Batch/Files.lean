import NftData.TopContracts.Types

namespace NftData.TopContracts

/-! # Files of a batch

A batch writes one report for each seed and secondary chain, one completion marker for each
seed and one manifest for itself into its output directory. The text form of JSON belongs
to a library, so a file is recorded as the value it holds. -/

open List

def runManifestSchemaVersion : Nat := 1

def scopedSeedReportSchemaVersion : Nat := 4

def seedCompletionSchemaVersion : Nat := 1

/-- What the batch takes from its libraries: SHA-256 in lowercase hexadecimal, and what
reading back statistics gives that were written as JSON. -/
structure BatchLibraries (Stats : Type) where
  digest : Text → Text
  readBack : Stats → Option Stats

structure SeedContractPayload where
  chain : Text
  contractAddress : Text

structure SingleReportPayload (Stats : Type) where
  seedContract : SeedContractPayload
  paperStats : Stats

structure ScopedSeedReport (Stats : Type) where
  schemaVersion : Nat
  analysisFingerprint : Text
  seedAttemptId : Text
  scope : Text
  primaryChain : Text
  secondaryChain : Text
  report : SingleReportPayload Stats

structure SeedCompletionMarker where
  schemaVersion : Nat
  runId : Text
  seedAttemptId : Text
  primaryChain : Text
  seedAddress : Text
  scopeFingerprints : List (Text × Text)

inductive RunStatus where
  | incomplete
  | complete
  deriving DecidableEq, Repr

structure RunManifest where
  schemaVersion : Nat
  runId : Text
  analysisTimestamp : Int
  configFingerprint : Text
  seedSetIdentity : Text
  snapshotIdentities : List (Text × Text)
  startedAt : Int
  updatedAt : Int
  status : RunStatus

structure BatchFailurePayload where
  primaryChain : Text
  seedAddress : Text
  secondaryChain : Text
  stage : Text
  provider : Text
  retryable : Bool
  error : Text
  deriving DecidableEq, Repr

/-- The statistics that `merge_paper_stats` is given, for every primary and secondary chain
with any, each with the seed that it is for. -/
abbrev ScopedStats (Stats : Type) := List (Chain × List (Chain × List (ContractId × Stats)))

structure MultiChainBatchResult (Stats : Type) where
  scopedStats : ScopedStats Stats
  failures : List BatchFailurePayload

inductive FileContent (Stats : Type) where
  | report (content : ScopedSeedReport Stats)
  | marker (content : SeedCompletionMarker)
  | manifest (content : RunManifest)
  | summary (content : MultiChainBatchResult Stats)
  | failures (content : List BatchFailurePayload)

/-! ## Names -/

def ContractId.fileStem (seed : ContractId) : Text :=
  seed.chain.asStr ++ "__".toList ++ lowercaseHex (utf8Bytes seed.address)

def scopedSeedReportPath (seed : ContractId) (secondaryChain : Chain) : Text :=
  seed.fileStem ++ "__vs__".toList ++ secondaryChain.asStr ++ ".json".toList

def seedCompletionMarkerPath (seed : ContractId) : Text :=
  seed.fileStem ++ "__complete.json".toList

inductive OutputFile where
  | report (seed : ContractId) (secondaryChain : Chain)
  | marker (seed : ContractId)
  | manifest
  | summary
  | failures
  deriving DecidableEq, Repr

def OutputFile.path : OutputFile → Text
  | .report seed secondaryChain => scopedSeedReportPath seed secondaryChain
  | .marker seed => seedCompletionMarkerPath seed
  | .manifest => "run-manifest.json".toList
  | .summary => "summary.json".toList
  | .failures => "failures.json".toList

variable {rightRest leftRest : Text}

/-- Texts are equal up to the first underscore. -/
theorem append_underscore {left right : Text} (leftPlain : '_' ∉ left) (rightPlain : '_' ∉ right)
    (same : left ++ '_' :: leftRest = right ++ '_' :: rightRest) :
    left = right ∧ leftRest = rightRest := by
  induction left generalizing right with
  | nil =>
      cases right with
      | nil => simpa using same
      | cons character rest =>
          rw [nil_append, cons_append, List.cons.injEq] at same
          exact absurd (same.1 ▸ mem_cons_self) rightPlain
  | cons head tail induction =>
      cases right with
      | nil =>
          rw [nil_append, cons_append, List.cons.injEq] at same
          exact absurd (same.1 ▸ mem_cons_self) leftPlain
      | cons character rest =>
          rw [cons_append, cons_append, List.cons.injEq] at same
          have equal := induction (fun member => leftPlain (mem_cons_of_mem _ member))
            (fun member => rightPlain (mem_cons_of_mem _ member)) same.2
          exact ⟨by rw [same.1, equal.1], equal.2⟩

variable {right left : ContractId}

theorem fileStem_append
    (same : left.fileStem ++ '_' :: leftRest = right.fileStem ++ '_' :: rightRest) :
    left = right ∧ leftRest = rightRest := by
  have stems : left.chain.asStr ++ '_' :: ('_' :: (lowercaseHex (utf8Bytes left.address) ++
        '_' :: leftRest)) =
      right.chain.asStr ++ '_' :: ('_' :: (lowercaseHex (utf8Bytes right.address) ++
        '_' :: rightRest)) := by
    simpa [ContractId.fileStem] using same
  have chains := append_underscore (Chain.not_mem_asStr _) (Chain.not_mem_asStr _) stems
  have digits (address : Text) : '_' ∉ lowercaseHex (utf8Bytes address) :=
    not_mem_lowercaseHex (by decide)
  have addresses := append_underscore (digits _) (digits _) (List.cons.inj chains.2).2
  have address : left.address = right.address :=
    utf8Bytes_injective (lowercaseHex_injective addresses.1)
  refine ⟨?_, addresses.2⟩
  cases left
  cases right
  rw [ContractId.mk.injEq]
  exact ⟨Chain.asStr_injective chains.1, address⟩

theorem scopedSeedReportPath_inj {leftChain rightChain : Chain}
    (same : scopedSeedReportPath left leftChain = scopedSeedReportPath right rightChain) :
    left = right ∧ leftChain = rightChain := by
  have names : left.fileStem ++ '_' :: ("_vs__".toList ++ leftChain.asStr ++ ".json".toList) =
      right.fileStem ++ '_' :: ("_vs__".toList ++ rightChain.asStr ++ ".json".toList) := by
    simpa [scopedSeedReportPath] using same
  have parts := fileStem_append names
  exact ⟨parts.1, Chain.asStr_injective (by simpa using parts.2)⟩

theorem seedCompletionMarkerPath_inj
    (same : seedCompletionMarkerPath left = seedCompletionMarkerPath right) : left = right := by
  have names : left.fileStem ++ '_' :: "_complete.json".toList =
      right.fileStem ++ '_' :: "_complete.json".toList := by
    simpa [seedCompletionMarkerPath] using same
  exact (fileStem_append names).1

theorem scopedSeedReportPath_ne_marker {secondaryChain : Chain} :
    scopedSeedReportPath left secondaryChain ≠ seedCompletionMarkerPath right := by
  intro same
  have names : left.fileStem ++ '_' ::
        ("_vs__".toList ++ secondaryChain.asStr ++ ".json".toList) =
      right.fileStem ++ '_' :: "_complete.json".toList := by
    simpa [scopedSeedReportPath, seedCompletionMarkerPath] using same
  have rests := (fileStem_append names).2
  cases congrArg (fun text => text[1]?) rests

theorem mem_fileStem (seed : ContractId) : '_' ∈ seed.fileStem := by
  have underscore : '_' ∈ "__".toList := of_decide_eq_true rfl
  simp only [ContractId.fileStem, mem_append, underscore, or_true, true_or]

theorem mem_path_iff (file : OutputFile) :
    '_' ∈ file.path ↔ file ≠ .manifest ∧ file ≠ .summary ∧ file ≠ .failures := by
  cases file with
  | report seed secondaryChain =>
      have member : '_' ∈ scopedSeedReportPath seed secondaryChain := by
        simp only [scopedSeedReportPath, mem_append, mem_fileStem, true_or]
      exact iff_of_true member ⟨nofun, nofun, nofun⟩
  | marker seed =>
      have member : '_' ∈ seedCompletionMarkerPath seed := by
        simp only [seedCompletionMarkerPath, mem_append, mem_fileStem, true_or]
      exact iff_of_true member ⟨nofun, nofun, nofun⟩
  | manifest => exact iff_of_false (of_decide_eq_true rfl) fun other => other.1 rfl
  | summary => exact iff_of_false (of_decide_eq_true rfl) fun other => other.2.1 rfl
  | failures => exact iff_of_false (of_decide_eq_true rfl) fun other => other.2.2 rfl

theorem OutputFile.path_injective : Function.Injective OutputFile.path := by
  intro left right same
  have underscore : '_' ∈ left.path ↔ '_' ∈ right.path := by rw [same]
  rw [mem_path_iff, mem_path_iff] at underscore
  cases left <;> cases right <;> simp at underscore <;> try rfl
  · rcases scopedSeedReportPath_inj same with ⟨rfl, rfl⟩
    rfl
  · exact absurd same scopedSeedReportPath_ne_marker
  · exact absurd same.symm scopedSeedReportPath_ne_marker
  · rw [seedCompletionMarkerPath_inj same]
  all_goals exact absurd (String.toList_inj.mp same) (by decide)

abbrev OutputDirectory (Stats : Type) := Text → Option (FileContent Stats)

namespace OutputDirectory

variable {Stats : Type} (directory : OutputDirectory Stats)

def read (file : OutputFile) : Option (FileContent Stats) := directory file.path

/-- `write_json_atomic`. -/
def write (file : OutputFile) (content : FileContent Stats) : OutputDirectory Stats :=
  Function.update directory file.path (some content)

def remove (file : OutputFile) : OutputDirectory Stats :=
  Function.update directory file.path none

@[simp]
theorem read_write (file other : OutputFile) (content : FileContent Stats) :
    (directory.write file content).read other =
      if other = file then some content else directory.read other := by
  simp [read, write, Function.update_apply, OutputFile.path_injective.eq_iff]

@[simp]
theorem read_remove (file other : OutputFile) :
    (directory.remove file).read other = if other = file then none else directory.read other := by
  simp [read, remove, Function.update_apply, OutputFile.path_injective.eq_iff]

end OutputDirectory

end NftData.TopContracts
