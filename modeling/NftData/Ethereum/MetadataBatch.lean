import NftData.Ethereum.BlacklistAppend
import NftData.Ethereum.Logs
import NftData.Foundation.Chunks
import NftData.Foundation.Json

namespace NftData.Ethereum

/-! # A batch of the metadata fetcher

What a worker makes of the rows it has claimed. The provider is asked for chunks of tokens,
and its entries are matched with the rows by their place. -/

/-- A contract address as the tables hold it. -/
structure Address where
  text : Text
  isAddress : IsAddress text
  lower : text.toAsciiLowercase = text
  deriving DecidableEq

/-- A row of the temp table. -/
structure PendingRow where
  id : Nat
  contract : Address
  tokenId : Nat
  standard : TokenStandard
  firstSeenBlock : Int
  deriving DecidableEq

/-- A row of the main table. -/
structure NftRow where
  contract : Address
  tokenId : Nat
  tokenUri : Text
  imageUri : Option Text
  name : Option Text
  symbol : Option Text
  metadata : Option Json
  standard : TokenStandard
  firstSeenBlock : Int

def PendingRow.key (row : PendingRow) : Address × Nat := (row.contract, row.tokenId)

def NftRow.key (row : NftRow) : Address × Nat := (row.contract, row.tokenId)

/-- The fields that are read of an entry of a reply. -/
structure AlchemyEntry where
  error : Bool
  tokenUri : Option Text
  /-- The first image of the metadata. -/
  image : Option Text
  metadata : Option Json
  contractName : Option Text
  contractSymbol : Option Text

/-- What is known of a token. -/
structure TokenAnswer where
  tokenUri : Option Text
  imageUrl : Option Text
  contractName : Option Text
  contractSymbol : Option Text
  metadata : Option Json

def TokenAnswer.empty : TokenAnswer := ⟨none, none, none, none, none⟩

/-- `value or None`. -/
def nonempty (text : Option Text) : Option Text := text.filter fun value => !value.isEmpty

def readEntry (entry : AlchemyEntry) : TokenAnswer :=
  if entry.error then
    .empty
  else
    ⟨nonempty entry.tokenUri, entry.metadata.bind fun _ => nonempty entry.image,
      nonempty entry.contractName, nonempty entry.contractSymbol, entry.metadata⟩

/-- What the request for one chunk comes to after its retries. -/
inductive ChunkReply where
  | failed
  | answered (entries : List AlchemyEntry)

/-- `fetch_alchemy_batch`: a failed request and a missing entry both yield an empty answer. -/
def fetchAlchemyBatch (count : Nat) : ChunkReply → List TokenAnswer
  | .failed => List.replicate count .empty
  | .answered entries =>
      entries.map readEntry ++ List.replicate (count - entries.length) .empty

structure FetcherConfig where
  claimBatchSize : Nat
  reclaimAfter : Nat
  alchemyBatchSize : Nat
  /-- The variable `DEFI_BLACKLIST` of the process. -/
  blacklistVariable : Text
  /-- Decode a payload as base64 or as quoted text, and parse it as JSON. -/
  parsePayload : Bool → Text → Option Json

def isTruthy : Json → Bool
  | .null => false
  | .bool value => value
  | .integer value => value != 0
  | .float value => value != 0
  | .string text => !text.isEmpty
  | .array items => !items.isEmpty
  | .object fields => !fields.isEmpty

/-- `obj.get("image") or obj.get("image_url")`, if it is a text. -/
def imageOf (value : Json) : Option Text :=
  match (value.get? "image").filter isTruthy with
  | some image => image.asStr?
  | none => ((value.get? "image_url").filter isTruthy).bind Json.asStr?

def decodeInlineImage (config : FetcherConfig) (uri : Text) : Option Text :=
  match uri.span (· != ',') with
  | (_, []) => none
  | (header, _ :: payload) =>
      let base64 := decide (";base64".toList <:+: Text.toAsciiLowercase header)
      (config.parsePayload base64 payload).bind fun value => (imageOf value).map strip

def withInlineImage (config : FetcherConfig) (answer : TokenAnswer) : TokenAnswer :=
  match answer.tokenUri, answer.imageUrl with
  | some uri, none =>
      if "data:application/".toList.isPrefixOf uri then
        { answer with imageUrl := nonempty (decodeInlineImage config uri) }
      else
        answer
  | _, _ => answer

def isOnchainImage (answer : TokenAnswer) : Bool :=
  answer.imageUrl.any "data:image".toList.isPrefixOf

def isInvalidUri (uri : Text) : Bool := "api.tierlock.com/uri/".toList.isPrefixOf uri

def paddedHex (tokenId : Nat) : Text :=
  let digits := Nat.toDigits 16 tokenId
  List.replicate (64 - digits.length) '0' ++ digits

def replaceTokenIdPlaceholder (tokenId : Nat) : Text → Text
  | [] => []
  | '{' :: 'i' :: 'd' :: '}' :: rest =>
      paddedHex tokenId ++ replaceTokenIdPlaceholder tokenId rest
  | character :: rest => character :: replaceTokenIdPlaceholder tokenId rest

/-- The answer is no reason to keep the token: its URI is empty or rejected. -/
def Rejected (answer : TokenAnswer) : Prop :=
  ∀ uri ∈ answer.tokenUri, isInvalidUri uri = true

/-- The rows a worker has claimed, and what its requests came to. -/
structure Batch where
  pending : List PendingRow
  replies : List ChunkReply

namespace Batch

variable (config : FetcherConfig)

def chunks (batch : Batch) : List (List PendingRow) :=
  NftData.chunks batch.pending config.alchemyBatchSize

def Complete (batch : Batch) : Prop :=
  0 < config.alchemyBatchSize ∧ batch.replies.length = (batch.chunks config).length

instance (batch : Batch) : Decidable (batch.Complete config) :=
  inferInstanceAs (Decidable (_ ∧ _))

def results (batch : Batch) : List TokenAnswer :=
  (List.zipWith (fun chunk reply => fetchAlchemyBatch chunk.length reply) (batch.chunks config)
    batch.replies).flatten

def matched (batch : Batch) : List (PendingRow × TokenAnswer) :=
  batch.pending.zip (batch.results config)

def decoded (batch : Batch) : List (PendingRow × TokenAnswer) :=
  (batch.matched config).map fun entry => (entry.1, withInlineImage config entry.2)

def onchainImageContracts (batch : Batch) : List Address :=
  ((batch.decoded config).filter fun entry => isOnchainImage entry.2).map
    fun entry => entry.1.contract

def insertOf (onchain : List Address) (entry : PendingRow × TokenAnswer) : Option NftRow :=
  if entry.1.contract ∈ onchain then
    none
  else
    match entry.2.tokenUri with
    | none => none
    | some uri =>
        if isInvalidUri uri then
          none
        else
          some {
            contract := entry.1.contract
            tokenId := entry.1.tokenId
            tokenUri := replaceTokenIdPlaceholder entry.1.tokenId uri
            imageUri := entry.2.imageUrl
            name := entry.2.contractName
            symbol := entry.2.contractSymbol
            metadata := entry.2.metadata
            standard := entry.1.standard
            firstSeenBlock := entry.1.firstSeenBlock }

def inserts (batch : Batch) : List NftRow :=
  (batch.decoded config).filterMap (insertOf (batch.onchainImageContracts config))

def provided (batch : Batch) : List (PendingRow × TokenAnswer) :=
  (List.zipWith
    (fun chunk reply =>
      match reply with
      | .failed => []
      | .answered entries => chunk.zip (entries.map readEntry))
    (batch.chunks config) batch.replies).flatten

def failedRows (batch : Batch) : List PendingRow :=
  (List.zipWith
    (fun chunk reply =>
      match reply with
      | .failed => chunk
      | .answered _ => [])
    (batch.chunks config) batch.replies).flatten

def isListed (blacklist : List Text) (contract : Address) : Bool :=
  decide (contract.text ∈ blacklist)

def blacklistedRows (batch : Batch) (blacklist : List Text) : List PendingRow :=
  batch.pending.filter fun row => isListed blacklist row.contract

def remainingRows (batch : Batch) (blacklist : List Text) : List PendingRow :=
  batch.pending.filter fun row => !isListed blacklist row.contract

def keptInserts (batch : Batch) (blacklist : List Text) : List NftRow :=
  (batch.inserts config).filter fun row => !isListed blacklist row.contract

variable {config} {batch : Batch} {blacklist : List Text}

theorem tokenUri_withInlineImage (config : FetcherConfig) (answer : TokenAnswer) :
    (withInlineImage config answer).tokenUri = answer.tokenUri := by
  unfold withInlineImage
  split
  · split <;> rfl
  · rfl

theorem rejected_or_mem_keptInserts {row : PendingRow} {answer : TokenAnswer}
    (isMatched : (row, answer) ∈ batch.matched config)
    (detected : ∀ contract ∈ batch.onchainImageContracts config, contract.text ∈ blacklist)
    (remains : row ∈ batch.remainingRows blacklist) :
    Rejected answer ∨ ∃ record ∈ batch.keptInserts config blacklist, record.key = row.key := by
  rw [or_iff_not_imp_left]
  intro accepted
  have unlisted := (List.mem_filter.mp remains).2
  have clean : row.contract ∉ batch.onchainImageContracts config := by
    intro onchain
    simp [isListed, detected row.contract onchain] at unlisted
  cases known : answer.tokenUri with
  | none =>
      apply absurd _ accepted
      intro uri isUri
      rw [known] at isUri
      cases isUri
  | some uri =>
      have valid : ¬ isInvalidUri uri = true := by
        intro invalid
        apply accepted
        intro other isUri
        rw [known] at isUri
        cases isUri
        exact invalid
      have isDecoded : (row, withInlineImage config answer) ∈ batch.decoded config :=
        List.mem_map.mpr ⟨_, isMatched, rfl⟩
      have inserted : ∃ record, insertOf (batch.onchainImageContracts config)
          (row, withInlineImage config answer) = some record ∧ record.key = row.key := by
        rw [insertOf, if_neg clean, tokenUri_withInlineImage, known]
        simp only [if_neg valid]
        exact ⟨_, rfl, rfl⟩
      rcases inserted with ⟨record, isInsert, key⟩
      refine ⟨record, List.mem_filter.mpr ⟨?_, ?_⟩, key⟩
      · exact List.mem_filterMap.mpr ⟨_, isDecoded, isInsert⟩
      · rw [show record.contract = row.contract from congrArg Prod.fst key]
        exact unlisted

end Batch

end NftData.Ethereum
