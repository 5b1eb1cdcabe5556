import NftData.Dedup.Uri.Accumulator

namespace NftData.Dedup

/-! # Token URI hits

A worker handles groups of postings with one token URI. It counts the hits of each scope
and remembers the NFTs that were hit, for the image stage. -/

def compactChains : Nat := 64

/-- A hash map yields its keys in some order. -/
structure IterationOrder where
  order : List Nat → List Nat
  perm : ∀ keys, (order keys).Perm keys

def setBits (mask : Nat) : List Nat := (List.range compactChains).filter mask.testBit

inductive MatrixWorkerHits
  | compact (entries : List (Nat × Nat))
  | wide (entries : List (Nat × Nat))

structure TokenWorker where
  uri : LocalUriAccumulator
  intra : List Nat
  crossSummary : List Nat
  matrix : MatrixWorkerHits

namespace TokenWorker

def new (chainCount : Nat) : TokenWorker where
  uri := .empty
  intra := []
  crossSummary := []
  matrix := if chainCount ≤ compactChains then .compact [] else .wide []

def addIntra (worker : TokenWorker) (posting : UriPosting) : TokenWorker :=
  { worker with
    intra := worker.intra ++ posting.nftIds
    uri := worker.uri.add posting posting.nftIds.length .tokenUri .intraChain none }

def addCrossSummary (worker : TokenWorker) (posting : UriPosting) : TokenWorker :=
  { worker with
    crossSummary := worker.crossSummary ++ posting.nftIds
    uri := worker.uri.add posting posting.nftIds.length .tokenUri .crossChainSummary none }

def addMatrix (worker : TokenWorker) (posting : UriPosting) (peerChains : List Nat) :
    TokenWorker :=
  let uri := peerChains.foldl
    (fun uri secondary =>
      if secondary ≠ posting.chainId then
        uri.add posting posting.nftIds.length .tokenUri .chainMatrix (some secondary)
      else uri)
    worker.uri
  match worker.matrix with
  | .compact entries =>
      let peerMask := peerChains.foldl
        (fun mask chain => if chain = posting.chainId then mask else mask ||| 1 <<< chain) 0
      { worker with
        uri := uri
        matrix := .compact (entries ++ posting.nftIds.map fun nftId => (nftId, peerMask)) }
  | .wide entries =>
      { worker with
        uri := uri
        matrix := .wide (peerChains.foldl
          (fun entries secondary =>
            if secondary ≠ posting.chainId then
              entries ++ posting.nftIds.map fun nftId => (nftId, secondary)
            else entries)
          entries) }

def merge (worker other : TokenWorker) : TokenWorker where
  uri := worker.uri.merge other.uri
  intra := worker.intra ++ other.intra
  crossSummary := worker.crossSummary ++ other.crossSummary
  matrix :=
    match worker.matrix, other.matrix with
    | .compact left, .compact right => .compact (left ++ right)
    | .wide left, .wide right => .wide (left ++ right)
    | unreachable, _ => unreachable

end TokenWorker

/-- The chains of the postings, each with its postings. -/
def postingsByChain (iteration : IterationOrder) (members : List UriPosting) :
    List (Nat × List UriPosting) :=
  (iteration.order (members.map UriPosting.chainId).dedup).map fun chain =>
    (chain, members.filter fun posting => posting.chainId = chain)

def accumulateTokenScopeHitsCompact (members : List UriPosting) (worker : TokenWorker) :
    TokenWorker :=
  let postingCounts := fun chain => members.countP fun posting => posting.chainId = chain
  let presentMask := members.foldl (fun mask posting => mask ||| 1 <<< posting.chainId) 0
  let chains := setBits presentMask
  members.foldl
    (fun worker posting =>
      let worker :=
        if 2 ≤ postingCounts posting.chainId then worker.addIntra posting else worker
      if 2 ≤ chains.length then
        (worker.addCrossSummary posting).addMatrix posting chains
      else worker)
    worker

def accumulateTokenScopeHitsWide (iteration : IterationOrder) (members : List UriPosting)
    (worker : TokenWorker) : TokenWorker :=
  let byChain := postingsByChain iteration members
  let chains := byChain.map Prod.fst
  byChain.foldl
    (fun worker entry =>
      let worker := if 2 ≤ entry.2.length then entry.2.foldl .addIntra worker else worker
      let worker :=
        if 2 ≤ chains.length then entry.2.foldl .addCrossSummary worker else worker
      if 2 ≤ chains.length then
        entry.2.foldl (fun worker posting => worker.addMatrix posting chains) worker
      else worker)
    worker

def accumulateTokenScopeHits (iteration : IterationOrder) (members : List UriPosting)
    (worker : TokenWorker) : TokenWorker :=
  if members.length < 2 then
    worker
  else
    match worker.matrix with
    | .compact _ => accumulateTokenScopeHitsCompact members worker
    | .wide _ => accumulateTokenScopeHitsWide iteration members worker

end NftData.Dedup
