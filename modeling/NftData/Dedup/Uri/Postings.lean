import NftData.Foundation.Outcome
import NftData.Foundation.Runs
import NftData.Dedup.Entity.Invariant

namespace NftData.Dedup

/-! # URI postings

The NFTs of one contract with one URI make a posting; the postings are sorted by URI. -/

open List

/-- `sort_u32_triples`: the lexicographic order. -/
def sortU32Triples (triples : List (Nat × Nat × Nat)) : List (Nat × Nat × Nat) :=
  triples.insertionSort fun left right =>
    (toLex (left.1, toLex left.2) : Nat ×ₗ Nat ×ₗ Nat) ≤ toLex (right.1, toLex right.2)

def Nft.uriId (tokenDimension : Bool) (nft : Nft) : Option Nat :=
  if tokenDimension then nft.tokenUriId else nft.imageUriId

def uriTuples (nfts : List Nft) (tokenDimension : Bool) : List (Nat × Nat × Nat) :=
  nfts.filterMap fun nft =>
    (nft.uriId tokenDimension).map fun uri => (uri, nft.contractId, nft.id)

def tupleKey (tuple : Nat × Nat × Nat) : Nat ×ₗ Nat := toLex (tuple.1, tuple.2.1)

def buildUriPostings (contracts : List Contract) (nfts : List Nft) (tokenDimension : Bool) :
    Except DedupError (List UriPosting) :=
  (runs tupleKey (sortU32Triples (uriTuples nfts tokenDimension))).mapM fun run => do
    let contract ← indexed contracts (ofLex run.1).2
    .ok
      { contractId := (ofLex run.1).2
        chainId := contract.chainId
        uriId := (ofLex run.1).1
        nftIds := run.2.map fun tuple => tuple.2.2 }

namespace EntityStore

def rebuildUriPostings (store : EntityStore) : Except DedupError EntityStore := do
  let tokenUriPostings ← buildUriPostings store.contracts store.nfts true
  let imageUriPostings ← buildUriPostings store.contracts store.nfts false
  .ok { store with
    tokenUriPostings := tokenUriPostings
    imageUriPostings := imageUriPostings }

end EntityStore

/-! ## What the postings are -/

def EntityStore.chainOfNft (store : EntityStore) (nft : Nft) : Option Nat :=
  (store.contracts[nft.contractId]?).map Contract.chainId

/-- Every NFT with a URI is in exactly one posting. -/
structure IsPostings (store : EntityStore) (tokenDimension : Bool) (postings : List UriPosting) :
    Prop where
  nodup : (postings.map fun posting => (posting.uriId, posting.contractId)).Nodup
  sorted : (postings.map UriPosting.uriId).Pairwise (· ≤ ·)
  nonempty : ∀ posting ∈ postings, posting.nftIds ≠ []
  chain : ∀ posting ∈ postings,
    (store.contracts[posting.contractId]?).map Contract.chainId = some posting.chainId
  mem_nftIds : ∀ posting ∈ postings, ∀ id, id ∈ posting.nftIds ↔
    ∃ nft ∈ store.nfts, nft.id = id ∧ nft.uriId tokenDimension = some posting.uriId ∧
      nft.contractId = posting.contractId
  complete : ∀ nft ∈ store.nfts, ∀ uri ∈ nft.uriId tokenDimension,
    ∃ posting ∈ postings, posting.uriId = uri ∧ posting.contractId = nft.contractId
  ids_nodup : (postings.flatMap UriPosting.nftIds).Nodup

variable {postings : List UriPosting}

theorem IsPostings.withPostings {store : EntityStore} {tokenDimension : Bool}
    (isPostings : IsPostings store tokenDimension postings)
    (tokenUriPostings imageUriPostings : List UriPosting) :
    IsPostings { store with
      tokenUriPostings := tokenUriPostings
      imageUriPostings := imageUriPostings } tokenDimension postings :=
  ⟨isPostings.nodup, isPostings.sorted, isPostings.nonempty, isPostings.chain,
    isPostings.mem_nftIds, isPostings.complete, isPostings.ids_nodup⟩

section Postings

variable {store : EntityStore} (tokenDimension : Bool)

theorem mem_uriTuples {nfts : List Nft} {tuple : Nat × Nat × Nat} :
    tuple ∈ uriTuples nfts tokenDimension ↔
      ∃ nft ∈ nfts, nft.id = tuple.2.2 ∧ nft.uriId tokenDimension = some tuple.1 ∧
        nft.contractId = tuple.2.1 := by
  rw [uriTuples, mem_filterMap]
  constructor
  · rintro ⟨nft, member, made⟩
    rcases Option.map_eq_some_iff.mp made with ⟨uri, isUri, equal⟩
    subst equal
    exact ⟨nft, member, rfl, isUri, rfl⟩
  · rintro ⟨nft, member, isId, isUri, isContract⟩
    refine ⟨nft, member, ?_⟩
    rw [isUri, Option.map_some, isId, isContract]

theorem perm_sortU32Triples (triples : List (Nat × Nat × Nat)) :
    (sortU32Triples triples).Perm triples :=
  perm_insertionSort _ _

/-- Sorted tuples have sorted keys. -/
theorem sortU32Triples_sorted (triples : List (Nat × Nat × Nat)) :
    (sortU32Triples triples).Pairwise fun left right => tupleKey left ≤ tupleKey right := by
  have total : Std.Total fun left right : Nat × Nat × Nat =>
      (toLex (left.1, toLex left.2) : Nat ×ₗ Nat ×ₗ Nat) ≤ toLex (right.1, toLex right.2) :=
    ⟨fun left right => le_total _ _⟩
  have transitive : IsTrans (Nat × Nat × Nat) fun left right =>
      (toLex (left.1, toLex left.2) : Nat ×ₗ Nat ×ₗ Nat) ≤ toLex (right.1, toLex right.2) :=
    ⟨fun _ _ _ => le_trans⟩
  apply (pairwise_insertionSort _ triples).imp
  intro left right le
  simp only [tupleKey, Prod.Lex.toLex_le_toLex] at *
  omega

def postingOf (contracts : List Contract) (run : (Nat ×ₗ Nat) × List (Nat × Nat × Nat)) :
    UriPosting where
  contractId := (ofLex run.1).2
  chainId := ((contracts[(ofLex run.1).2]?).map Contract.chainId).getD 0
  uriId := (ofLex run.1).1
  nftIds := run.2.map fun tuple => tuple.2.2

theorem buildUriPostings_eq (valid : store.Valid) :
    buildUriPostings store.contracts store.nfts tokenDimension =
      .ok ((runs tupleKey (sortU32Triples (uriTuples store.nfts tokenDimension))).map
        (postingOf store.contracts)) := by
  apply mapM_eq_ok
  intro run member
  rcases exists_mem_of_ne_nil _ (key_of_mem_runs member).1 with ⟨tuple, inRun⟩
  have isKey := (key_of_mem_runs member).2 tuple inRun
  have inTuples : tuple ∈ uriTuples store.nfts tokenDimension := by
    rw [← (perm_sortU32Triples _).mem_iff, ← runs_flatMap tupleKey (sortU32Triples _)]
    exact mem_flatMap.mpr ⟨run, member, inRun⟩
  rcases (mem_uriTuples tokenDimension).mp inTuples with ⟨nft, inNfts, _, _, isContract⟩
  have contractId : (ofLex run.1).2 = nft.contractId := by
    rw [← isKey, isContract]
    rfl
  have found := List.getElem?_eq_getElem (valid.nftContracts nft inNfts)
  rw [postingOf, contractId, indexed_eq_ok found, found]
  rfl

theorem map_id_nfts (valid : store.Valid) :
    store.nfts.map Nft.id = List.range store.nfts.length := by
  apply ext_getElem
  · simp
  · intro position inside _
    rw [length_map] at inside
    rw [getElem_map, getElem_range]
    exact valid.nftIds position _ (List.getElem?_eq_getElem inside)

theorem nodup_ids_uriTuples (valid : store.Valid) :
    ((uriTuples store.nfts tokenDimension).map fun tuple => tuple.2.2).Nodup := by
  have distinct : (store.nfts.map Nft.id).Nodup := map_id_nfts valid ▸ nodup_range
  rw [List.Nodup, pairwise_map] at distinct ⊢
  rw [uriTuples, pairwise_filterMap]
  apply distinct.imp
  intro left right different leftTuple isLeft rightTuple isRight
  rcases Option.map_eq_some_iff.mp isLeft with ⟨_, _, leftEqual⟩
  rcases Option.map_eq_some_iff.mp isRight with ⟨_, _, rightEqual⟩
  rw [← leftEqual, ← rightEqual]
  exact different

/-- What `build_uri_postings` builds. -/
theorem isPostings_buildUriPostings (valid : store.Valid)
    (built : buildUriPostings store.contracts store.nfts tokenDimension = .ok postings) :
    IsPostings store tokenDimension postings := by
  rw [buildUriPostings_eq tokenDimension valid] at built
  cases built
  have increasing : ((runs tupleKey
      (sortU32Triples (uriTuples store.nfts tokenDimension))).map Prod.fst).Pairwise (· < ·) :=
    keys_runs_sorted (sortU32Triples_sorted (uriTuples store.nfts tokenDimension))
  have distinct : ((runs tupleKey
      (sortU32Triples (uriTuples store.nfts tokenDimension))).map Prod.fst).Nodup :=
    increasing.imp fun less => ne_of_lt less
  have members : ∀ run ∈ runs tupleKey
      (sortU32Triples (uriTuples store.nfts tokenDimension)), ∀ tuple,
      tuple ∈ run.2 ↔ tuple ∈ uriTuples store.nfts tokenDimension ∧ tupleKey tuple = run.1 := by
    intro run member tuple
    rw [run_eq_filter distinct member, mem_filter, (perm_sortU32Triples _).mem_iff,
      decide_eq_true_eq]
  refine ⟨?_, ?_, ?_, ?_, ?_, ?_, ?_⟩
  · rw [map_map]
    have same : ((runs tupleKey (sortU32Triples (uriTuples store.nfts tokenDimension))).map
        ((fun posting : UriPosting => (posting.uriId, posting.contractId)) ∘
          postingOf store.contracts)) =
        ((runs tupleKey (sortU32Triples (uriTuples store.nfts tokenDimension))).map
          Prod.fst).map ofLex := by
      rw [map_map]
      rfl
    rw [same]
    exact distinct.map ofLex.injective
  · rw [map_map, pairwise_map]
    apply (pairwise_map.mp increasing).imp
    intro left right less
    rcases (Prod.Lex.lt_iff).mp less with first | ⟨same, _⟩
    · exact first.le
    · exact same.le
  · intro posting member
    rcases mem_map.mp member with ⟨run, inRuns, equal⟩
    subst equal
    simpa [postingOf] using (key_of_mem_runs inRuns).1
  · intro posting member
    rcases mem_map.mp member with ⟨run, inRuns, equal⟩
    subst equal
    rcases exists_mem_of_ne_nil _ (key_of_mem_runs inRuns).1 with ⟨tuple, inRun⟩
    rcases (members run inRuns tuple).mp inRun with ⟨inTuples, isKey⟩
    rcases (mem_uriTuples tokenDimension).mp inTuples with ⟨nft, inNfts, _, _, isContract⟩
    have contractId : (ofLex run.1).2 = nft.contractId := by
      rw [← isKey, isContract]
      rfl
    have found := List.getElem?_eq_getElem (valid.nftContracts nft inNfts)
    simp only [postingOf, contractId, found, Option.map_some, Option.getD_some]
  · intro posting member id
    rcases mem_map.mp member with ⟨run, inRuns, equal⟩
    subst equal
    constructor
    · intro inside
      rcases mem_map.mp inside with ⟨tuple, inRun, isId⟩
      rcases (members run inRuns tuple).mp inRun with ⟨inTuples, isKey⟩
      rcases (mem_uriTuples tokenDimension).mp inTuples with
        ⟨nft, inNfts, nftId, isUri, isContract⟩
      refine ⟨nft, inNfts, nftId.trans isId, ?_, ?_⟩
      · rw [isUri, postingOf, ← isKey]
        rfl
      · rw [isContract, postingOf, ← isKey]
        rfl
    · rintro ⟨nft, inNfts, nftId, isUri, isContract⟩
      apply mem_map.mpr
      refine ⟨((ofLex run.1).1, (ofLex run.1).2, id), ?_, rfl⟩
      apply (members run inRuns _).mpr
      exact ⟨(mem_uriTuples tokenDimension).mpr ⟨nft, inNfts, nftId, isUri, isContract⟩, rfl⟩
  · intro nft inNfts uri isUri
    have inTuples : (uri, nft.contractId, nft.id) ∈ uriTuples store.nfts tokenDimension :=
      (mem_uriTuples tokenDimension).mpr ⟨nft, inNfts, rfl, isUri, rfl⟩
    have known : toLex (uri, nft.contractId) ∈ (runs tupleKey
        (sortU32Triples (uriTuples store.nfts tokenDimension))).map Prod.fst :=
      mem_keys_runs.mpr ⟨_, (perm_sortU32Triples _).mem_iff.mpr inTuples, rfl⟩
    rcases mem_map.mp known with ⟨run, inRuns, isKey⟩
    refine ⟨postingOf store.contracts run, mem_map.mpr ⟨run, inRuns, rfl⟩, ?_, ?_⟩
    · rw [postingOf, isKey]
      rfl
    · rw [postingOf, isKey]
      rfl
  · have flattened : ((runs tupleKey
        (sortU32Triples (uriTuples store.nfts tokenDimension))).map
          (postingOf store.contracts)).flatMap UriPosting.nftIds =
        (sortU32Triples (uriTuples store.nfts tokenDimension)).map fun tuple => tuple.2.2 := by
      conv_rhs => rw [← runs_flatMap tupleKey (sortU32Triples _)]
      rw [flatMap_map, map_flatMap]
      rfl
    rw [flattened, ((perm_sortU32Triples _).map _).nodup_iff]
    exact nodup_ids_uriTuples tokenDimension valid

end Postings

end NftData.Dedup
