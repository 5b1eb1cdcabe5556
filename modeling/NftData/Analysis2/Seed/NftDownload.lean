import NftData.Analysis2.Enrich.Types
import NftData.Analysis2.Seed.NftCache
import NftData.Foundation.TakeDistinct

namespace NftData.Analysis2

/-! # Seed NFT downloads

The two providers' pagination loops. A provider is the sequence of its replies: one entry
for each turn of a loop, with a reply for every request the turn can make. -/

/-- The normalization functions, which belong to libraries for Unicode, regular
expressions and JSON, and the printed form of a JSON value. -/
structure Normalization where
  normalizeName : Text → Text
  normalizeUrl : Text → Option Text
  validatedMetadata : Text → Option Text
  printJson : Json → Text

/-- A text that is not blank, trimmed. -/
def text (value : Option Json) : Option Text :=
  ((value.bind Json.asStr?).map Text.trim).filter (fun trimmed => !trimmed.isEmpty)

def canonicalMetadata (normalization : Normalization) : Option Json → Text
  | none => []
  | some value =>
      match value.asStr? with
      | some raw => (normalization.validatedMetadata raw).getD []
      | none => (normalization.validatedMetadata (normalization.printJson value)).getD []

def parseAlchemyNft (normalization : Normalization) (row : Json) : Option SeedNftRecord := do
  let tokenId ← text (row.get? "tokenId")
  let raw := row.get? "raw"
  let metadata := raw.bind (·.get? "metadata")
  let image := row.get? "image"
  some {
    tokenId := tokenId
    nameNorm := (((text (row.get? "name")).or
      (metadata.bind fun value => text (value.get? "name"))).map
        normalization.normalizeName).getD []
    tokenUriNorm := (((text (raw.bind (·.get? "tokenUri"))).or
      (text (row.get? "tokenUri"))).bind normalization.normalizeUrl).getD []
    imageUriNorm := ((((metadata.bind fun value => text (value.get? "image")).or
      (text (image.bind (·.get? "originalUrl")))).or
      (text (image.bind (·.get? "cachedUrl")))).bind normalization.normalizeUrl).getD []
    metadataJson := canonicalMetadata normalization metadata }

def parseHeliusNft (normalization : Normalization) (row : Json) : Option SeedNftRecord := do
  let tokenId ← text (row.get? "id")
  let content := row.get? "content"
  let metadata := content.bind (·.get? "metadata")
  let firstFile := (content.bind (·.get? "files")).bind fun files =>
    files.asArray?.bind List.head?
  let image := (((content.bind (·.get? "links")).bind fun links => text (links.get? "image")).or
    ((metadata.bind fun value => text (value.get? "image")).or
      (firstFile.bind fun file => text (file.get? "uri")))).getD []
  some {
    tokenId := tokenId
    nameNorm := ((metadata.bind fun value => text (value.get? "name")).map
      normalization.normalizeName).getD []
    tokenUriNorm := ((content.bind fun value => text (value.get? "json_uri")).bind
      normalization.normalizeUrl).getD []
    imageUriNorm := (normalization.normalizeUrl image).getD []
    metadataJson := canonicalMetadata normalization metadata }

def parseDigits (digits : Text) : Option Nat :=
  if digits.isEmpty ∨ ¬ digits.all Text.isAsciiDigit ∨
      2 ^ 64 ≤ Nat.ofDigitChars 10 digits 0 then
    none
  else
    some (Nat.ofDigitChars 10 digits 0)

def parseUsize (digits : Text) : Option Nat :=
  parseDigits (if digits.head? = some '+' then digits.tail else digits)

variable {number : Nat}

theorem lt_of_parseDigits {digits : Text} (parsed : parseDigits digits = some number) :
    number < 2 ^ 64 := by
  rw [parseDigits] at parsed
  split at parsed
  · cases parsed
  · next inRange =>
      cases parsed
      omega

def jsonUsize (value : Option Json) : Option Nat :=
  value.bind fun value => value.asU64?.or (value.asStr?.bind parseUsize)

theorem lt_of_jsonUsize {value : Option Json} (read : jsonUsize value = some number) :
    number < 2 ^ 64 := by
  cases value with
  | none => cases read
  | some value =>
      rw [jsonUsize, Option.bind_some, Option.or_eq_some_iff] at read
      rcases read with direct | ⟨-, printed⟩
      · exact Json.lt_of_asU64? direct
      · rcases Option.bind_eq_some_iff.mp printed with ⟨digits, -, parsed⟩
        exact lt_of_parseDigits parsed

def heliusRowIsExplicitlyNonNft (row : Json) : Bool :=
  ((row.get? "interface").bind Json.asStr?).any fun interface =>
    ["fungibleasset".toList, "fungibletoken".toList, "identity".toList, "executable".toList,
      "mplcorecollection".toList, "mplcoregroup".toList].contains interface.toAsciiLowercase

/-- What a loop has written and keeps in memory. -/
structure Collected where
  writer : CacheStreamWriter
  seenTokens : List Text
  residentRecords : List SeedNftRecord

namespace Collected

def start (seed : SeedRecord) : Collected := ⟨.create seed, [], []⟩

def push (collected : Collected) (record : SeedNftRecord) : Collected where
  writer := collected.writer.push record
  seenTokens := collected.seenTokens ++ [record.tokenId]
  residentRecords := collected.residentRecords ++ [record]

def pushRecords : Collected → List SeedNftRecord → Collected
  | collected, [] => collected
  | collected, record :: records =>
      if record.tokenId ∈ collected.seenTokens then
        pushRecords collected records
      else if maxSeedNftsPerContract ≤ (collected.push record).writer.count then
        collected.push record
      else
        pushRecords (collected.push record) records

end Collected

/-! ## Alchemy -/

/-- The replies of one turn: to the listing, to its repetition without metadata, to the
metadata batch and to its legacy form. -/
structure AlchemyExchange where
  listing : Reply
  fallbackListing : Reply
  metadataBatch : Reply
  legacyMetadataBatch : Reply

def isHttpStatus (error : Analysis2Error) (status : Nat) : Bool :=
  match error with
  | .http message =>
      message.toAsciiLowercase.contains ("http ".toList ++ Text.ofNat status) ||
        message.toAsciiLowercase.contains ("status=".toList ++ Text.ofNat status)
  | _ => false

def isAlchemyCollectionMetadataError (error : Analysis2Error) : Bool :=
  let lower := error.toText.toAsciiLowercase
  lower.contains "error fetching metadata for that collection".toList ||
    (isHttpStatus error 500 && lower.contains "metadata".toList)

def alchemyListing (metadataFallback : Bool) (exchange : AlchemyExchange) :
    Except Analysis2Error (Json × Bool) :=
  match exchange.listing with
  | .ok payload => .ok (payload, metadataFallback)
  | .error error =>
      if !metadataFallback && isAlchemyCollectionMetadataError error then
        exchange.fallbackListing.map fun payload => (payload, true)
      else
        .error error

def parseAlchemyRows (normalization : Normalization) (rows : List Json) :
    Except Analysis2Error (List SeedNftRecord) :=
  rows.mapM fun row =>
    (parseAlchemyNft normalization row).elim
      (.error (.http "Alchemy getNFTsForContract NFT omitted tokenId".toList)) .ok

/-- The last record of each token. -/
def hydratedByToken (records : List SeedNftRecord) (tokenId : Text) : Option SeedNftRecord :=
  records.foldl
    (fun found record => if record.tokenId = tokenId then some record else found) none

def replaceHydrated : (Text → Option SeedNftRecord) → List SeedNftRecord → List SeedNftRecord
  | _, [] => []
  | hydrated, base :: bases =>
      (hydrated base.tokenId).getD base ::
        replaceHydrated (Function.update hydrated base.tokenId none) bases

def alchemyMetadataBatch (exchange : AlchemyExchange) : Reply :=
  match exchange.metadataBatch with
  | .ok payload => .ok payload
  | .error primary =>
      match exchange.legacyMetadataBatch with
      | .ok payload => .ok payload
      | .error legacy => .error (.http (
          "Alchemy getNFTMetadataBatch failed with current and legacy request bodies: ".toList
            ++ "current=".toList ++ primary.toText ++ "; legacy=".toList ++ legacy.toText))

def hydrateAlchemyPage (normalization : Normalization) (seed : SeedRecord)
    (exchange : AlchemyExchange) (rows : List Json) :
    Except Analysis2Error (List SeedNftRecord) := do
  let baseRecords ← parseAlchemyRows normalization rows
  if baseRecords.isEmpty then
    .ok baseRecords
  else
    let payload ← alchemyMetadataBatch exchange
    let items ← (payload.asArray?.or ((payload.get? "nfts").bind Json.asArray?)).elim
      (.error (.http ("Alchemy metadata batch returned no NFT array for ".toList ++ seed.chain
        ++ " / ".toList ++ seed.address))) .ok
    let hydrated := hydratedByToken (items.filterMap (parseAlchemyNft normalization))
    if baseRecords.any fun record => (hydrated record.tokenId).isNone then
      .error (.http ("Alchemy metadata batch omitted one or more NFTs for ".toList ++ seed.chain
        ++ " / ".toList ++ seed.address))
    else
      .ok (replaceHydrated hydrated baseRecords)

structure AlchemyState where
  collected : Collected
  pageKey : Option Text
  seenKeys : List Text
  providerTotal : Option Nat
  metadataFallback : Bool

/-- Whether a loop takes another turn. -/
inductive Turn (State : Type) where
  | continues (state : State)
  | breaks (state : State)

def alchemyTotal (payload : Json) : Option Nat :=
  jsonUsize ((payload.get? "totalCount").or (payload.get? "total"))

def alchemyRows (payload : Json) : Except Analysis2Error (List Json) :=
  ((payload.get? "nfts").bind Json.asArray?).elim
    (.error (.http "Alchemy getNFTsForContract omitted nfts".toList)) .ok

def alchemyNext (payload : Json) (rows : List Json) : Option Text :=
  if rows.isEmpty then none else text (payload.get? "pageKey")

def alchemyRecords (normalization : Normalization) (seed : SeedRecord)
    (metadataFallback : Bool) (exchange : AlchemyExchange) (rows : List Json) :
    Except Analysis2Error (List SeedNftRecord) :=
  if metadataFallback then
    hydrateAlchemyPage normalization seed exchange rows
  else
    parseAlchemyRows normalization rows

def alchemyTurn (normalization : Normalization) (seed : SeedRecord) (state : AlchemyState)
    (exchange : AlchemyExchange) : Except Analysis2Error (Turn AlchemyState) := do
  let (payload, metadataFallback) ← alchemyListing state.metadataFallback exchange
  let providerTotal := (alchemyTotal payload).or state.providerTotal
  let rows ← alchemyRows payload
  let records ← alchemyRecords normalization seed metadataFallback exchange rows
  let collected := state.collected.pushRecords records
  match alchemyNext payload rows with
  | none => .ok (.breaks { state with
      collected := collected
      pageKey := none
      providerTotal := providerTotal
      metadataFallback := metadataFallback })
  | some next =>
      if next ∈ state.seenKeys then
        .error (.http "Alchemy repeated getNFTsForContract pageKey".toList)
      else
        .ok (.continues {
          collected := collected
          pageKey := some next
          seenKeys := next :: state.seenKeys
          providerTotal := providerTotal
          metadataFallback := metadataFallback })

/-- A loop over the turns of a provider. There is no result when the provider's replies end
before the loop does. -/
def runTurns {State Exchange : Type} (turn : State → Exchange → Except Analysis2Error (Turn State))
    (collected : State → Collected) (capReached : State → State) :
    State → List Exchange → Option (Except Analysis2Error State)
  | state, exchanges =>
      if maxSeedNftsPerContract ≤ (collected state).writer.count then
        some (.ok (capReached state))
      else
        match exchanges with
        | [] => none
        | exchange :: exchanges =>
            match turn state exchange with
            | .error error => some (.error error)
            | .ok (.breaks state) => some (.ok state)
            | .ok (.continues state) => runTurns turn collected capReached state exchanges

theorem runTurns_of_capReached {State Exchange : Type}
    {turn : State → Exchange → Except Analysis2Error (Turn State)}
    {collected : State → Collected} {capReached : State → State} {state : State}
    (reached : maxSeedNftsPerContract ≤ (collected state).writer.count)
    (exchanges : List Exchange) :
    runTurns turn collected capReached state exchanges = some (.ok (capReached state)) := by
  rw [runTurns.eq_def]
  exact if_pos reached

/-- A published cache: the reference that is returned and the lines of the file. -/
structure Published where
  cache : SeedNftCacheRef
  file : List CacheLine

def publish (seed : SeedRecord) (collected : Collected) (providerTotal : Option Nat)
    (truncated : Bool) : Published :=
  let (footer, file) := collected.writer.finish providerTotal truncated
  ⟨cacheRef seed footer false (some collected.residentRecords), file⟩

def finishAlchemy (seed : SeedRecord) (state : AlchemyState) :
    Except Analysis2Error Published :=
  let count := state.collected.writer.count
  let capped := decide (maxSeedNftsPerContract ≤ count)
  match state.providerTotal.filter fun total =>
      decide (total < count) || (decide (count < total) && !capped) with
  | some total => .error (.http ("Alchemy getNFTsForContract totalCount=".toList ++
      Text.ofNat total ++ " disagrees with ".toList ++ Text.ofNat count ++
      " downloaded NFTs".toList))
  | none =>
      let truncated := capped &&
        (state.pageKey.isSome || state.providerTotal.any fun total => decide (count < total))
      .ok (publish seed state.collected state.providerTotal truncated)

def AlchemyState.start (seed : SeedRecord) : AlchemyState where
  collected := .start seed
  pageKey := none
  seenKeys := []
  providerTotal := none
  metadataFallback := false

def downloadAlchemy (normalization : Normalization) (seed : SeedRecord)
    (exchanges : List AlchemyExchange) : Option (Except Analysis2Error Published) :=
  (runTurns (alchemyTurn normalization seed) AlchemyState.collected id
    (.start seed) exchanges).map fun outcome =>
      outcome.bind (finishAlchemy seed)

def heliusPageSize : Nat := 1000

structure HeliusState where
  collected : Collected
  hasMore : Bool
  seenPages : List Text

def pushHeliusRows (normalization : Normalization) :
    Collected → List Json → Except Analysis2Error Collected
  | collected, [] => .ok collected
  | collected, row :: rows =>
      if heliusRowIsExplicitlyNonNft row then
        pushHeliusRows normalization collected rows
      else
        match parseHeliusNft normalization row with
        | none => .error (.http "Helius getAssetsByGroup item omitted id".toList)
        | some record =>
            if record.tokenId ∈ collected.seenTokens then
              pushHeliusRows normalization collected rows
            else if maxSeedNftsPerContract ≤ (collected.push record).writer.count then
              .ok (collected.push record)
            else
              pushHeliusRows normalization (collected.push record) rows

def heliusRows (normalization : Normalization) (payload : Json) :
    Except Analysis2Error (List Json) :=
  match payload.get? "error" with
  | some error =>
      .error (.http ("Helius getAssetsByGroup: ".toList ++ normalization.printJson error))
  | none =>
      match payload.get? "result" with
      | none => .error (.http "Helius getAssetsByGroup omitted result".toList)
      | some result =>
          ((result.get? "items").bind Json.asArray?).elim
            (.error (.http "Helius getAssetsByGroup omitted items".toList)) .ok

def heliusTurn (normalization : Normalization) (state : HeliusState) (reply : Reply) :
    Except Analysis2Error (Turn HeliusState) := do
  let payload ← reply
  let rows ← heliusRows normalization payload
  let identity := pageIdentity rows
  if ¬ identity.isEmpty ∧ identity ∈ state.seenPages then
    .error (.http "Helius getAssetsByGroup repeated an asset page".toList)
  else
    let seenPages := if identity.isEmpty then state.seenPages else identity :: state.seenPages
    let collected ← pushHeliusRows normalization state.collected rows
    let next : HeliusState := {
      collected := collected
      hasMore := decide (heliusPageSize ≤ rows.length)
      seenPages := seenPages }
    if rows.length < heliusPageSize then
      .ok (.breaks next)
    else
      .ok (.continues next)

def finishHelius (seed : SeedRecord) (state : HeliusState) : Published :=
  let capped := decide (maxSeedNftsPerContract ≤ state.collected.writer.count)
  publish seed state.collected none (capped && state.hasMore)

def downloadHelius (normalization : Normalization) (seed : SeedRecord)
    (replies : List Reply) : Option (Except Analysis2Error Published) :=
  (runTurns (heliusTurn normalization) HeliusState.collected
    (fun state => { state with hasMore := true }) ⟨.start seed, false, []⟩ replies).map
      fun outcome => outcome.map (finishHelius seed)

end NftData.Analysis2
