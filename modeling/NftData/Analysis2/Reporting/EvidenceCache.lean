import NftData.Analysis2.Candidate.Projection
import NftData.Foundation.LineFile

namespace NftData.Analysis2

open LineFile

/-! # Evidence cache

Evidence is appended to a JSONL file while candidates are enriched, next to a meta file with
the parameters, and written as one snapshot at the end. Lines are bytes, since writes may be
cut off anywhere; meta file and snapshot are recorded as the values they hold. -/

def evidenceCacheVersion : Nat := 15

def minReusableEvidenceCacheVersion : Nat := 15

abbrev EvidenceKey := Text × Text

/-- The parameters of the run that fills a cache. Its seeds, the pricing day and the
provider keys are its provenance. -/
structure EvidenceCacheParams (Provenance : Type) where
  provenance : Provenance
  maxTransferPages : Nat
  maxHolderPages : Nat
  maxSalePages : Nat
  maxSolanaAssets : Nat
  maxHistoryAssets : Nat
  maxSignaturesPerAsset : Nat

structure EvidenceCacheFile (Events Provenance : Type) where
  version : Nat
  params : EvidenceCacheParams Provenance
  bundles : List (EvidenceBundle Events)

structure EvidenceCacheMeta (Provenance : Type) where
  version : Nat
  params : EvidenceCacheParams Provenance

/-- The text of bundles. Encoding and parsing belong to a JSON library, and reading text
from bytes to the standard one. -/
structure BundleFormat (Events : Type) where
  encode : EvidenceBundle Events → List UInt8
  decodeText : List UInt8 → Except Text Text
  parse : Text → Except Text (EvidenceBundle Events)

structure EvidenceCachePaths where
  path : Text
  jsonlPath : Text
  stem : Text

structure EvidenceCacheDisk (Events Provenance : Type) where
  metaFile : Option (EvidenceCacheMeta Provenance)
  jsonl : Option (List UInt8)
  snapshot : Option (EvidenceCacheFile Events Provenance)

def lineBreak : UInt8 := 10

section Bundles

variable {Events : Type}

def EvidenceBundle.portable (bundle : EvidenceBundle Events) : EvidenceBundle Events :=
  { bundle with
    contractId := 0 }

/-- `bundle_key`. -/
def EvidenceBundle.key (bundle : EvidenceBundle Events) : EvidenceKey :=
  (bundle.chain.toAsciiLowercase, normalizeChainAddress bundle.chain bundle.address)

abbrev EvidenceIndex (Events : Type) := AList fun _ : EvidenceKey => EvidenceBundle Events

def EvidenceIndex.add (all : EvidenceIndex Events) (bundle : EvidenceBundle Events) :
    EvidenceIndex Events :=
  all.insert bundle.key bundle

def EvidenceIndex.addAll (all : EvidenceIndex Events)
    (bundles : List (EvidenceBundle Events)) : EvidenceIndex Events :=
  bundles.foldl EvidenceIndex.add all

def bundleOrder (first second : EvidenceBundle Events) : Bool :=
  decide (first.chain < second.chain ∨
    first.chain = second.chain ∧ first.address ≤ second.address)

def EvidenceIndex.sortedBundles (all : EvidenceIndex Events) :
    List (EvidenceBundle Events) :=
  (all.entries.map Sigma.snd).mergeSort bundleOrder

end Bundles

section Loading

variable {Events Provenance : Type} (format : BundleFormat Events)
  (paths : EvidenceCachePaths)

def checkEvidenceCacheVersion (version : Nat) : Except Analysis2Error Unit :=
  if minReusableEvidenceCacheVersion ≤ version ∧ version ≤ evidenceCacheVersion then
    .ok ()
  else
    .error (.invalid ("evidence cache version ".toList ++ Text.ofNat version ++
      " is incompatible; supported versions are ".toList ++
      Text.ofNat minReusableEvidenceCacheVersion ++ "..=".toList ++
      Text.ofNat evidenceCacheVersion))

/-- The message about a line that is not read. -/
def evidenceLineError (action : String) (lineNo : Nat) (detail : Text) : Analysis2Error :=
  .invalid (action.toList ++ " evidence jsonl ".toList ++ paths.jsonlPath ++
    ": line ".toList ++ Text.ofNat (lineNo + 1) ++ ": ".toList ++ detail)

/-- Every line that is not blank holds a bundle. The last one of a key is kept. -/
def loadEvidenceLines : (lineNo : Nat) → EvidenceIndex Events → List (List UInt8) →
    Except Analysis2Error (EvidenceIndex Events)
  | _, all, [] => .ok all
  | lineNo, all, line :: rest =>
      match format.decodeText line with
      | .error detail => .error (evidenceLineError paths "read" lineNo detail)
      | .ok text =>
          if text.trim.isEmpty then
            loadEvidenceLines (lineNo + 1) all rest
          else
            match format.parse text.trim with
            | .error detail => .error (evidenceLineError paths "parse" lineNo detail)
            | .ok bundle => loadEvidenceLines (lineNo + 1) (all.add bundle) rest

def loadEvidenceCache (file : EvidenceCacheFile Events Provenance) :
    Except Analysis2Error (EvidenceCacheFile Events Provenance) := do
  checkEvidenceCacheVersion file.version
  pure file

/-- Lines are preferred when they have a meta file, and the snapshot is read otherwise. -/
def loadEvidenceCacheResumable (disk : EvidenceCacheDisk Events Provenance) :
    Except Analysis2Error (EvidenceCacheFile Events Provenance) :=
  match disk.metaFile, disk.jsonl with
  | some metaFile, some content => do
      checkEvidenceCacheVersion metaFile.version
      let all ← loadEvidenceLines format paths 0 ∅ (lines lineBreak content)
      pure ⟨metaFile.version, metaFile.params, all.sortedBundles⟩
  | _, _ =>
      match disk.snapshot with
      | some file => loadEvidenceCache file
      | none => .error (.invalid ("evidence cache not found at ".toList ++ paths.path ++
          " (or ".toList ++ paths.stem ++ ".jsonl + meta)".toList))

def EvidenceCacheParams.bounds (params : EvidenceCacheParams Provenance) : List Nat :=
  [params.maxTransferPages, params.maxHolderPages, params.maxSalePages,
    params.maxSolanaAssets, params.maxHistoryAssets, params.maxSignaturesPerAsset]

def validateEvidenceCache (cache : EvidenceCacheFile Events Provenance)
    (expected : EvidenceCacheParams Provenance) : Except Analysis2Error Unit :=
  if cache.params.bounds ≠ expected.bounds then
    .error (.invalid
      "evidence cache pagination limits do not match current HttpLimits".toList)
  else
    .ok ()

end Loading

structure EvidenceCacheSink (Events Provenance : Type) where
  params : EvidenceCacheParams Provenance
  batchSize : Nat
  pending : List (EvidenceBundle Events)
  all : EvidenceIndex Events

namespace EvidenceCacheSink

variable {Events Provenance : Type} (format : BundleFormat Events)
  (paths : EvidenceCachePaths)

def resume (disk : EvidenceCacheDisk Events Provenance)
    (params : EvidenceCacheParams Provenance) :
    EvidenceCacheDisk Events Provenance × EvidenceIndex Events :=
  if disk.snapshot.isSome ∨ (disk.metaFile.isSome ∧ disk.jsonl.isSome) then
    match loadEvidenceCacheResumable format paths disk with
    | .ok existing =>
        match validateEvidenceCache existing params with
        | .ok () => (disk, EvidenceIndex.addAll ∅ existing.bundles)
        | .error _ => ({ disk with jsonl := none }, ∅)
    | .error _ => ({ disk with jsonl := none }, ∅)
  else
    (disk, ∅)

def create (disk : EvidenceCacheDisk Events Provenance)
    (params : EvidenceCacheParams Provenance) (batchSize : Nat) :
    EvidenceCacheDisk Events Provenance × EvidenceCacheSink Events Provenance :=
  let resumed := resume format paths disk params
  let all := resumed.2
  let jsonl :=
    if resumed.1.jsonl.isNone ∧ all.entries ≠ [] then
      some (appended lineBreak format.encode all.sortedBundles)
    else
      resumed.1.jsonl
  ({ resumed.1 with
      metaFile := some ⟨evidenceCacheVersion, params⟩
      jsonl := jsonl },
    ⟨params, max batchSize 1, [], all⟩)

def noteCached (sink : EvidenceCacheSink Events Provenance)
    (bundle : EvidenceBundle Events) : EvidenceCacheSink Events Provenance :=
  { sink with
    all := sink.all.add bundle.portable }

def replacePending (bundle : EvidenceBundle Events) :
    List (EvidenceBundle Events) → List (EvidenceBundle Events)
  | [] => [bundle]
  | pending :: rest =>
      if pending.key = bundle.key then
        bundle :: rest
      else
        pending :: replacePending bundle rest

def buffer (sink : EvidenceCacheSink Events Provenance) (bundle : EvidenceBundle Events) :
    EvidenceCacheSink Events Provenance :=
  { sink with
    all := sink.all.add bundle.portable
    pending := replacePending bundle.portable sink.pending }

/-- The file after bytes are appended to it. It is created where it is missing. -/
def appendBytes (disk : EvidenceCacheDisk Events Provenance) (bytes : List UInt8) :
    EvidenceCacheDisk Events Provenance :=
  { disk with
    jsonl := some (disk.jsonl.getD [] ++ bytes) }

def flush (disk : EvidenceCacheDisk Events Provenance)
    (sink : EvidenceCacheSink Events Provenance) :
    EvidenceCacheDisk Events Provenance × EvidenceCacheSink Events Provenance :=
  if sink.pending = [] then
    (disk, sink)
  else
    (appendBytes disk (appended lineBreak format.encode sink.pending), { sink with
      pending := [] })

def interruptedFlush (disk : EvidenceCacheDisk Events Provenance)
    (sink : EvidenceCacheSink Events Provenance) (bytes : Nat) :
    EvidenceCacheDisk Events Provenance :=
  if sink.pending = [] then
    disk
  else
    appendBytes disk ((appended lineBreak format.encode sink.pending).take bytes)

def push (disk : EvidenceCacheDisk Events Provenance)
    (sink : EvidenceCacheSink Events Provenance) (bundle : EvidenceBundle Events) :
    EvidenceCacheDisk Events Provenance × EvidenceCacheSink Events Provenance :=
  if sink.batchSize ≤ (sink.buffer bundle).pending.length then
    flush format disk (sink.buffer bundle)
  else
    (disk, sink.buffer bundle)

def finish (disk : EvidenceCacheDisk Events Provenance)
    (sink : EvidenceCacheSink Events Provenance) :
    EvidenceCacheDisk Events Provenance × EvidenceCacheFile Events Provenance :=
  let flushed := flush format disk sink
  let cache := ⟨evidenceCacheVersion, flushed.2.params, flushed.2.all.sortedBundles⟩
  ({ flushed.1 with
      snapshot := some cache
      jsonl := some (appended lineBreak format.encode cache.bundles) }, cache)

end EvidenceCacheSink

end NftData.Analysis2
