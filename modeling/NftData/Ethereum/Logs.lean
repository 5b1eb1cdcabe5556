import NftData.Foundation.Text

namespace NftData.Ethereum

/-! # Event logs

A log of the chain as the scanner sees it after parsing, and the NFTs it names. -/

abbrev Bytes := List UInt8

/-- `int.from_bytes(bytes, "big")`. -/
def fromBytes (bytes : Bytes) : Nat :=
  bytes.foldl (fun value byte => value * 256 + byte.toNat) 0

example : fromBytes [1, 2] = 258 := by decide

def toBytes : Nat → Nat → Bytes
  | 0, _ => []
  | count + 1, value => toBytes count (value / 256) ++ [UInt8.ofNat value]

def slice (bytes : Bytes) (start stop : Nat) : Bytes := (bytes.take stop).drop start

structure Log where
  address : Text
  topics : List Bytes
  data : Bytes
  blockNumber : Int
  deriving DecidableEq

def erc721TransferTopic : Bytes :=
  toBytes 32 0xddf252ad1be2c89b69c2b068fc378daa952ba7f163c4a11628f55a4df523b3ef

def erc1155SingleTopic : Bytes :=
  toBytes 32 0xc3d58168c5ae7397731d063d5bbf3d657854427343f4c083240f7aacaa2d0f62

def erc1155BatchTopic : Bytes :=
  toBytes 32 0x4a39dc06d4c0dbc64b70af90fd698a233a518aa5d07e595d983b8c0526c8f7fb

def allTopics : List Bytes := [erc721TransferTopic, erc1155SingleTopic, erc1155BatchTopic]

inductive TokenStandard where
  | erc721
  | erc1155
  deriving DecidableEq, Repr

/-- `(contract, token id)`. -/
abbrev NftKey := Text × Nat

/-- What `extract_nfts` reports of one NFT. -/
structure FoundNft where
  contract : Text
  tokenId : Nat
  standard : TokenStandard
  deriving DecidableEq

def FoundNft.key (nft : FoundNft) : NftKey := (nft.contract, nft.tokenId)

def decodeSingle (raw : Bytes) : Nat := fromBytes (slice raw 0 32)

/-- Read up to `count` words from `start` on, as far as the data goes. -/
def decodeIds (raw : Bytes) : Nat → Nat → List Nat
  | 0, _ => []
  | count + 1, start =>
      if raw.length < start + 32 then
        []
      else
        fromBytes (slice raw start (start + 32)) :: decodeIds raw count (start + 32)

def decodeBatch (raw : Bytes) : List Nat :=
  if raw.length < 64 then
    []
  else
    let idsOffset := fromBytes (slice raw 0 32)
    if raw.length < idsOffset + 32 then
      []
    else
      decodeIds raw (fromBytes (slice raw idsOffset (idsOffset + 32))) (idsOffset + 32)

def extractNfts (log : Log) : List FoundNft :=
  match log.topics with
  | [topic0, _, _, topic3] =>
      let address := log.address.toAsciiLowercase
      if topic0 = erc721TransferTopic then
        [⟨address, fromBytes topic3, .erc721⟩]
      else if topic0 = erc1155SingleTopic then
        if 32 ≤ log.data.length then
          [⟨address, decodeSingle log.data, .erc1155⟩]
        else
          []
      else if topic0 = erc1155BatchTopic then
        (decodeBatch log.data).map fun tokenId => ⟨address, tokenId, .erc1155⟩
      else
        []
  | _ => []

theorem exists_topic_of_extractNfts {log : Log} {nft : FoundNft}
    (found : nft ∈ extractNfts log) : ∃ topic ∈ allTopics, log.topics.head? = some topic := by
  rw [extractNfts] at found
  split at found
  · next topic0 _ _ _ topics =>
      rw [topics]
      refine ⟨topic0, ?_, rfl⟩
      simp only at found
      split at found
      · next isTransfer => simp [allTopics, isTransfer]
      · split at found
        · next isSingle => simp [allTopics, isSingle]
        · split at found
          · next isBatch => simp [allTopics, isBatch]
          · cases found
  · cases found

end NftData.Ethereum
