import NftData.Analysis2.Entity.Types
import NftData.Foundation.Json

namespace NftData.Analysis2

/-! # Seed NFT caches

One file for each seed contract: a header line, one line for each NFT and a footer line,
each the JSON form of its value. Compression and the text form of JSON belong to
libraries, so a line is recorded as the value it holds. -/

open List
open Json (asStr? asU64?_ofNat object)

def maxSeedNftsPerContract : Nat := 50000

def cacheVersion : Nat := 2

structure SeedRecord where
  chain : Text
  address : Text
  rank : Option Nat
  deriving DecidableEq, Repr

structure SeedNftRecord where
  tokenId : Text
  nameNorm : Text
  tokenUriNorm : Text
  imageUriNorm : Text
  metadataJson : Text
  deriving DecidableEq, Repr

/-- The `kind` of the first line. -/
def headerKind : Text := "header".toList

/-- The `kind` of the last line. -/
def completeKind : Text := "complete".toList

structure CacheHeader where
  kind : Text
  version : Nat
  chain : Text
  address : Text
  maxNfts : Nat
  deriving DecidableEq, Repr

structure CacheFooter where
  kind : Text
  itemCount : Nat
  providerTotal : Option Nat
  truncated : Bool
  deriving DecidableEq, Repr

structure SeedNftCacheRef where
  seed : SeedRecord
  itemCount : Nat
  providerTotal : Option Nat
  truncated : Bool
  reused : Bool
  residentRecords : Option (List SeedNftRecord)
  deriving DecidableEq, Repr

/-- A line of a file that is read back. -/
inductive CacheLine where
  | blank
  | json (value : Json)
  | malformed

/-! ## JSON forms -/

def CacheHeader.toJson (header : CacheHeader) : Json :=
  .object [
    ("kind", .string header.kind),
    ("version", .integer header.version),
    ("chain", .string header.chain),
    ("address", .string header.address),
    ("max_nfts", .integer header.maxNfts)]

def CacheHeader.ofJson (value : Json) : Option CacheHeader := do
  let kind ← (← value.get? "kind").asStr?
  let version ← (← value.get? "version").asU64?
  let chain ← (← value.get? "chain").asStr?
  let address ← (← value.get? "address").asStr?
  let maxNfts ← (← value.get? "max_nfts").asU64?
  if version < 2 ^ 32 then
    some ⟨kind, version, chain, address, maxNfts⟩
  else
    none

/-- An optional number, which is null when it is absent. -/
def optionalToJson : Option Nat → Json
  | some number => .integer number
  | none => .null

def optionalOfJson : Option Json → Option (Option Nat)
  | none => some none
  | some .null => some none
  | some value => value.asU64?.map some

def CacheFooter.toJson (footer : CacheFooter) : Json :=
  .object [
    ("kind", .string footer.kind),
    ("item_count", .integer footer.itemCount),
    ("provider_total", optionalToJson footer.providerTotal),
    ("truncated", .bool footer.truncated)]

def CacheFooter.ofJson (value : Json) : Option CacheFooter := do
  let kind ← (← value.get? "kind").asStr?
  let itemCount ← (← value.get? "item_count").asU64?
  let providerTotal ← optionalOfJson (value.get? "provider_total")
  let truncated ← (← value.get? "truncated").asBool?
  pure ⟨kind, itemCount, providerTotal, truncated⟩

/-- A field that is left out when it is empty. -/
def nonemptyField (name : String) (value : Text) : List (String × Json) :=
  if value.isEmpty then [] else [(name, .string value)]

def SeedNftRecord.toJson (record : SeedNftRecord) : Json :=
  .object ([("token_id", .string record.tokenId)] ++
    nonemptyField "name_norm" record.nameNorm ++
    nonemptyField "token_uri_norm" record.tokenUriNorm ++
    nonemptyField "image_uri_norm" record.imageUriNorm ++
    nonemptyField "metadata_json" record.metadataJson)

/-- A text field that is empty when it is missing. -/
def defaultedText : Option Json → Option Text
  | none => some []
  | some value => value.asStr?

def SeedNftRecord.ofJson (value : Json) : Option SeedNftRecord := do
  let tokenId ← (← value.get? "token_id").asStr?
  let nameNorm ← defaultedText (value.get? "name_norm")
  let tokenUriNorm ← defaultedText (value.get? "token_uri_norm")
  let imageUriNorm ← defaultedText (value.get? "image_uri_norm")
  let metadataJson ← defaultedText (value.get? "metadata_json")
  pure ⟨tokenId, nameNorm, tokenUriNorm, imageUriNorm, metadataJson⟩

theorem optionalOfJson_optionalToJson {number : Option Nat}
    (bounded : ∀ value, number = some value → value < 2 ^ 64) :
    optionalOfJson (some (optionalToJson number)) = some number := by
  cases number with
  | none => rfl
  | some value =>
      rw [optionalToJson, optionalOfJson, asU64?_ofNat (bounded value rfl)]
      · rfl
      · intro isNull
        cases isNull

variable {header : CacheHeader}

theorem CacheHeader.ofJson_toJson (version : header.version < 2 ^ 32)
    (maxNfts : header.maxNfts < 2 ^ 64) : CacheHeader.ofJson header.toJson = some header := by
  have versionRead := asU64?_ofNat (version.trans (by norm_num))
  simpa [ofJson, toJson, asStr?, versionRead, asU64?_ofNat maxNfts] using version

variable {footer : CacheFooter}

theorem CacheFooter.ofJson_toJson (itemCount : footer.itemCount < 2 ^ 64)
    (providerTotal : ∀ total, footer.providerTotal = some total → total < 2 ^ 64) :
    CacheFooter.ofJson footer.toJson = some footer := by
  simp [ofJson, toJson, asStr?, Json.asBool?, asU64?_ofNat itemCount,
    optionalOfJson_optionalToJson providerTotal]

theorem get?_nonemptyField_ne {name field : String} (value : Text) (different : name ≠ field) :
    (object (nonemptyField name value)).get? field = none := by
  rw [nonemptyField]
  split <;> simp [different]

theorem defaultedText_nonemptyField (name : String) (value : Text) :
    defaultedText ((object (nonemptyField name value)).get? name) = some value := by
  rw [nonemptyField]
  split
  · next empty => simp [defaultedText, List.isEmpty_iff.mp empty]
  · simp [defaultedText, asStr?]

theorem SeedNftRecord.ofJson_toJson (record : SeedNftRecord) :
    SeedNftRecord.ofJson record.toJson = some record := by
  have name : defaultedText (record.toJson.get? "name_norm") = some record.nameNorm := by
    simp [toJson, get?_nonemptyField_ne, defaultedText_nonemptyField]
  have tokenUri : defaultedText (record.toJson.get? "token_uri_norm") =
      some record.tokenUriNorm := by
    simp [toJson, get?_nonemptyField_ne, defaultedText_nonemptyField]
  have imageUri : defaultedText (record.toJson.get? "image_uri_norm") =
      some record.imageUriNorm := by
    simp [toJson, get?_nonemptyField_ne, defaultedText_nonemptyField]
  have metadata : defaultedText (record.toJson.get? "metadata_json") =
      some record.metadataJson := by
    simp [toJson, get?_nonemptyField_ne, defaultedText_nonemptyField]
  have tokenId : record.toJson.get? "token_id" = some (.string record.tokenId) := by
    simp [toJson]
  simp [ofJson, tokenId, name, tokenUri, imageUri, metadata, asStr?]

def cacheHeader (seed : SeedRecord) : CacheHeader where
  kind := headerKind
  version := cacheVersion
  chain := seed.chain
  address := seed.address
  maxNfts := maxSeedNftsPerContract

structure CacheStreamWriter where
  lines : List Json
  count : Nat

namespace CacheStreamWriter

def create (seed : SeedRecord) : CacheStreamWriter where
  lines := [(cacheHeader seed).toJson]
  count := 0

def push (writer : CacheStreamWriter) (record : SeedNftRecord) : CacheStreamWriter where
  lines := writer.lines ++ [record.toJson]
  count := writer.count + 1

def finish (writer : CacheStreamWriter) (providerTotal : Option Nat) (truncated : Bool) :
    CacheFooter × List CacheLine :=
  let footer : CacheFooter := {
    kind := completeKind
    itemCount := writer.count
    providerTotal := providerTotal
    truncated := truncated }
  (footer, (writer.lines ++ [footer.toJson]).map .json)

end CacheStreamWriter

def cacheRef (seed : SeedRecord) (footer : CacheFooter) (reused : Bool)
    (residentRecords : Option (List SeedNftRecord)) : SeedNftCacheRef where
  seed := seed
  itemCount := footer.itemCount
  providerTotal := footer.providerTotal
  truncated := footer.truncated
  reused := reused
  residentRecords := residentRecords

/-- Visit the parsed lines with their numbers. Blank lines are skipped, and a line that is
not JSON is an error. -/
def readCache {State : Type*} (callback : State → Nat → Json → Except Analysis2Error State) :
    Nat → State → List CacheLine → Except Analysis2Error State
  | _, state, [] => .ok state
  | lineNo, state, .blank :: lines => readCache callback (lineNo + 1) state lines
  | lineNo, _, .malformed :: _ =>
      .error (.invalid ("parse seed NFT cache line ".toList ++ Text.ofNat (lineNo + 1)))
  | lineNo, state, .json value :: lines => do
      let state ← callback state lineNo value
      readCache callback (lineNo + 1) state lines

structure CacheContents where
  header : Option CacheHeader
  footer : Option CacheFooter
  residentRecords : List SeedNftRecord

namespace CacheContents

def empty : CacheContents := ⟨none, none, []⟩

def isComplete (value : Json) : Bool :=
  decide ((value.get? "kind").bind asStr? = some completeKind)

def addLine (contents : CacheContents) (lineNo : Nat) (value : Json) :
    Except Analysis2Error CacheContents :=
  if lineNo = 0 then
    match CacheHeader.ofJson value with
    | some header => .ok { contents with header := some header }
    | none => .error (.invalid "parse seed NFT cache header".toList)
  else if isComplete value then
    match CacheFooter.ofJson value with
    | some footer => .ok { contents with footer := some footer }
    | none => .error (.invalid "parse seed NFT cache footer".toList)
  else
    match SeedNftRecord.ofJson value with
    | some record =>
        .ok { contents with residentRecords := contents.residentRecords ++ [record] }
    | none => .error (.invalid "parse seed NFT cache row".toList)

end CacheContents

/-- What the totals of a footer must not say about `count` records. -/
def invalidCompletion (footer : CacheFooter) (count : Nat) : Bool :=
  if footer.truncated then
    decide (count ≠ maxSeedNftsPerContract) || footer.providerTotal.any (· ≤ count)
  else
    footer.providerTotal.any (· ≠ count)

def validateCache (file : Option (List CacheLine)) (seed : SeedRecord) :
    Except Analysis2Error SeedNftCacheRef := do
  let lines ← file.elim (.error (.invalid "open seed NFT cache".toList)) .ok
  let contents ← readCache CacheContents.addLine 0 CacheContents.empty lines
  let header ← contents.header.elim
    (.error (.invalid "seed NFT cache missing header".toList)) .ok
  let footer ← contents.footer.elim (.error (.invalid "seed NFT cache incomplete".toList)) .ok
  let count := contents.residentRecords.length
  if header.kind ≠ headerKind ∨ footer.kind ≠ completeKind ∨
      header.version ≠ cacheVersion ∨ header.chain ≠ seed.chain ∨
      header.address ≠ seed.address ∨ header.maxNfts ≠ maxSeedNftsPerContract ∨
      footer.itemCount ≠ count ∨ maxSeedNftsPerContract < count ∨
      invalidCompletion footer count = true then
    .error (.invalid "seed NFT cache identity/count mismatch".toList)
  else
    .ok (cacheRef seed footer true (some contents.residentRecords))

def CacheStreamWriter.writing (seed : SeedRecord) (records : List SeedNftRecord) :
    CacheStreamWriter :=
  records.foldl push (create seed)

namespace CacheStreamWriter

theorem writing_concat (seed : SeedRecord) (records : List SeedNftRecord)
    (record : SeedNftRecord) :
    writing seed (records ++ [record]) = (writing seed records).push record := by
  rw [writing, foldl_concat, ← writing]

theorem count_writing (seed : SeedRecord) (records : List SeedNftRecord) :
    (writing seed records).count = records.length := by
  induction records using List.reverseRecOn with
  | nil => rfl
  | append_singleton records record induction =>
      rw [writing_concat, push, induction, length_append, length_singleton]

theorem lines_writing (seed : SeedRecord) (records : List SeedNftRecord) :
    (writing seed records).lines =
      (create seed).lines ++ records.map SeedNftRecord.toJson := by
  induction records using List.reverseRecOn with
  | nil => exact (append_nil _).symm
  | append_singleton records record induction =>
      rw [writing_concat, push, induction, map_append, List.append_assoc]
      rfl

end CacheStreamWriter

namespace CacheContents

variable {value : Json}

theorem addLine_header (contents : CacheContents) (read : CacheHeader.ofJson value = some header) :
    addLine contents 0 value = .ok { contents with header := some header } := by
  rw [addLine, if_pos rfl, read]

theorem addLine_footer (contents : CacheContents) {lineNo : Nat} (afterHeader : lineNo ≠ 0)
    (complete : isComplete value = true) (read : CacheFooter.ofJson value = some footer) :
    addLine contents lineNo value = .ok { contents with footer := some footer } := by
  rw [addLine, if_neg afterHeader, if_pos complete, read]

theorem isComplete_record (record : SeedNftRecord) : isComplete record.toJson = false := by
  have absent : record.toJson.get? "kind" = none := by
    simp [SeedNftRecord.toJson, get?_nonemptyField_ne]
  simp [isComplete, absent]

theorem readCache_records (records : List SeedNftRecord) (later : List CacheLine)
    (contents : CacheContents) (lineNo : Nat) (afterHeader : lineNo ≠ 0) :
    readCache addLine lineNo contents
        (records.map (fun record => .json record.toJson) ++ later) =
      readCache addLine (lineNo + records.length)
        { contents with residentRecords := contents.residentRecords ++ records } later := by
  induction records generalizing contents lineNo with
  | nil => simp
  | cons record records induction =>
      have added : addLine contents lineNo record.toJson =
          .ok { contents with residentRecords := contents.residentRecords ++ [record] } := by
        simp [addLine, afterHeader, isComplete_record, SeedNftRecord.ofJson_toJson]
      simp only [map_cons, cons_append, readCache, added, ok_bind]
      rw [induction _ _ (Nat.succ_ne_zero lineNo)]
      simp [Nat.add_comm, Nat.add_left_comm]

end CacheContents

theorem file_finish (seed : SeedRecord) (records : List SeedNftRecord)
    (providerTotal : Option Nat) (truncated : Bool) :
    ((CacheStreamWriter.writing seed records).finish providerTotal truncated).2 =
      .json (cacheHeader seed).toJson ::
        (records.map (fun record => .json record.toJson) ++
          [.json (CacheFooter.toJson
            ⟨completeKind, records.length, providerTotal, truncated⟩)]) := by
  simp only [CacheStreamWriter.finish, CacheStreamWriter.lines_writing,
    CacheStreamWriter.count_writing, CacheStreamWriter.create, map_append, map_map,
    map_cons, map_nil, singleton_append]
  rfl

variable {records : List SeedNftRecord} {providerTotal : Option Nat}

theorem readCache_file_finish (seed : SeedRecord) (smallCount : records.length < 2 ^ 64)
    (bounded : ∀ total, providerTotal = some total → total < 2 ^ 64) (truncated : Bool) :
    readCache CacheContents.addLine 0 CacheContents.empty
        ((CacheStreamWriter.writing seed records).finish providerTotal truncated).2 =
      .ok {
        header := some (cacheHeader seed)
        footer := some ⟨completeKind, records.length, providerTotal, truncated⟩
        residentRecords := records } := by
  have headerRead : CacheHeader.ofJson (cacheHeader seed).toJson = some (cacheHeader seed) :=
    CacheHeader.ofJson_toJson (by norm_num [cacheHeader, cacheVersion])
      (by norm_num [cacheHeader, maxSeedNftsPerContract])
  have footerRead : CacheFooter.ofJson (CacheFooter.toJson
      ⟨completeKind, records.length, providerTotal, truncated⟩) = some _ :=
    CacheFooter.ofJson_toJson smallCount bounded
  have footerComplete : CacheContents.isComplete (CacheFooter.toJson
      ⟨completeKind, records.length, providerTotal, truncated⟩) = true := by
    simp [CacheContents.isComplete, CacheFooter.toJson, asStr?]
  have afterHeader : 0 + 1 + records.length ≠ 0 := by omega
  rw [file_finish, readCache, CacheContents.addLine_header _ headerRead, ok_bind,
    CacheContents.readCache_records _ _ _ _ Nat.one_ne_zero, readCache,
    CacheContents.addLine_footer _ afterHeader footerComplete footerRead, ok_bind, readCache]
  rfl

/-- A finished file holds its seed, its records and its footer, so the footer alone
decides whether it is accepted. -/
theorem validateCache_finish (seed : SeedRecord) (fits : records.length ≤ maxSeedNftsPerContract)
    (bounded : ∀ total, providerTotal = some total → total < 2 ^ 64) (truncated : Bool) :
    validateCache (some ((CacheStreamWriter.writing seed records).finish providerTotal
        truncated).2) seed =
      let footer : CacheFooter :=
        ⟨completeKind, records.length, providerTotal, truncated⟩
      if invalidCompletion footer records.length then
        .error (.invalid "seed NFT cache identity/count mismatch".toList)
      else
        .ok (cacheRef seed footer true (some records)) := by
  have smallCount : records.length < 2 ^ 64 :=
    fits.trans_lt (by norm_num [maxSeedNftsPerContract])
  have notLong : ¬ maxSeedNftsPerContract < records.length := by omega
  rw [validateCache, Option.elim_some, ok_bind,
    readCache_file_finish seed smallCount bounded truncated, ok_bind]
  simp only [Option.elim_some, ok_bind, cacheHeader, ne_eq, not_true_eq_false, false_or,
    notLong]

end NftData.Analysis2
