import NftData.Ethereum.MetadataFetcherPending

namespace NftData.Ethereum

/-! # Whose metadata a batch returns

An entry of a reply names the contract and the token that it describes. Both callers of the
endpoint pass over that name and take the entry at the place of a token for the token's. -/

open List

abbrev TokenKey := Address × Nat

/-- An entry of a reply with the token that it names. -/
structure Described (Entry : Type) where
  key : TokenKey
  entry : Entry

section Placed

variable {Entry Answer : Type} (read : Entry → Answer) (blank : Answer)

def SaidOf (reply : List (Described Entry)) (token : TokenKey) (answer : Answer) : Prop :=
  ∃ nft ∈ reply, nft.key = token ∧ read nft.entry = answer

def Attributed (reply : List (Described Entry)) (tokens : List TokenKey)
    (answers : List Answer) : Prop :=
  List.Forall₂ (fun token answer => answer = blank ∨ SaidOf read reply token answer) tokens answers

/-- Every entry that says anything stands at the place of its own token, or of a token whose
own entry says the same. -/
def InPlace (reply : List (Described Entry)) (tokens : List TokenKey) : Prop :=
  ∀ place ∈ tokens.zip reply,
    read place.2.entry ≠ blank → SaidOf read reply place.1 (read place.2.entry)

/-- The answers by place, with blank ones for the tokens behind the last entry. -/
def placed (count : Nat) (reply : List (Described Entry)) : List Answer :=
  (reply.map fun nft => read nft.entry) ++ List.replicate (count - reply.length) blank

variable {read blank}

theorem forall₂_placed_iff {Says : TokenKey → Answer → Prop} {tokens : List TokenKey}
    {reply : List (Described Entry)} :
    List.Forall₂ (fun token answer => answer = blank ∨ Says token answer) tokens
        (placed read blank tokens.length reply) ↔
      reply.length ≤ tokens.length ∧ ∀ place ∈ tokens.zip reply,
        read place.2.entry ≠ blank → Says place.1 (read place.2.entry) := by
  induction tokens generalizing reply with
  | nil => cases reply <;> simp [placed]
  | cons token tokens induction =>
      cases reply with
      | nil => simpa [placed, replicate_succ] using @induction []
      | cons nft reply =>
          have rest := @induction reply
          simp only [placed, length_cons, Nat.add_sub_add_right, map_cons,
            cons_append, forall₂_cons, zip_cons_cons, forall_mem_cons,
            Nat.add_le_add_iff_right, ← or_iff_not_imp_left] at rest ⊢
          rw [rest]
          tauto

variable {reply : List (Described Entry)} {tokens : List TokenKey}

theorem attributed_placed_iff :
    Attributed read blank reply tokens (placed read blank tokens.length reply) ↔
      reply.length ≤ tokens.length ∧ InPlace read blank reply tokens :=
  forall₂_placed_iff

theorem inPlace_take :
    (∀ place ∈ tokens.zip (reply.take tokens.length),
        read place.2.entry ≠ blank → SaidOf read reply place.1 (read place.2.entry)) ↔
      InPlace read blank reply tokens := by
  have same : tokens.zip (reply.take tokens.length) = tokens.zip reply := by
    rw [@List.zip_eq_zip_take_min _ _ tokens reply,
      @List.zip_eq_zip_take_min _ _ tokens (reply.take tokens.length)]
    simp [take_take]
  rw [same, InPlace]

end Placed

namespace Backfill

/-- The fields that the backfill reads of an entry. -/
structure AlchemyNft where
  /-- The metadata, if it is an object. -/
  metadata : Option (List (String × Json))
  image : Option Json

/-- A text that is not blank, stripped. -/
def strippedText (value : Option Json) : Option Text :=
  (value.bind Json.asStr?).bind fun text => nonempty (some (strip text))

def imageSizes : List String := ["originalUrl", "cachedUrl", "thumbnailUrl", "pngUrl"]

def extractImageFromMetadata (nft : AlchemyNft) : Option Text :=
  let named := nft.metadata.bind fun fields =>
    strippedText ((((Json.object fields).get? "image").filter isTruthy).or
      (((Json.object fields).get? "image_url").filter isTruthy))
  named.or (imageSizes.findSome? fun size => strippedText (nft.image.bind (Json.get? · size)))

/-- A claimed row. -/
structure BackfillRow where
  rowId : Nat
  contract : Address
  tokenId : Nat

def BackfillRow.key (row : BackfillRow) : TokenKey := (row.contract, row.tokenId)

abbrev Fetched := Option (List (String × Json)) × Option Text

def readNft (nft : AlchemyNft) : Fetched := (nft.metadata, extractImageFromMetadata nft)

/-- `nft_list[idx] if idx < len(nft_list) ... else {}` for each row. -/
def fetchAlchemyBatch (rows : List BackfillRow) (nftList : List AlchemyNft) :
    List (Nat × Fetched) :=
  rows.zipIdx.map fun entry =>
    (entry.1.rowId, readNft (nftList[entry.2]?.getD ⟨none, none⟩))

theorem map_fetchAlchemyBatch (rows : List BackfillRow) (reply : List (Described AlchemyNft)) :
    (fetchAlchemyBatch rows (reply.map (·.entry))).map Prod.snd =
      placed readNft (none, none) (rows.map BackfillRow.key).length (reply.take rows.length) := by
  apply ext_getElem
  · simp [fetchAlchemyBatch, placed]
  · intro index inRows _
    have inside : index < rows.length := by simpa [fetchAlchemyBatch] using inRows
    by_cases known : index < reply.length
    · simp [fetchAlchemyBatch, placed, known, inside]
    · simp [fetchAlchemyBatch, placed, getElem_append, known, readNft,
        extractImageFromMetadata, strippedText, imageSizes]

end Backfill

/-- Both readers of a reply attribute it to the tokens it names exactly if its entries stand at
their places. One more entry than tokens breaks the fetcher, which returns it, and leaves the
backfill alone, which does not. -/
theorem fetchAlchemyBatch_attributed_iff (tokens : List TokenKey)
    (reply : List (Described AlchemyEntry)) (rows : List Backfill.BackfillRow)
    (nftReply : List (Described Backfill.AlchemyNft)) :
    (Attributed readEntry .empty reply tokens
        (fetchAlchemyBatch tokens.length (.answered (reply.map (·.entry)))) ↔
      reply.length ≤ tokens.length ∧ InPlace readEntry .empty reply tokens) ∧
    ((Backfill.fetchAlchemyBatch rows (nftReply.map (·.entry))).map Prod.fst =
      rows.map (·.rowId)) ∧
    (Attributed Backfill.readNft (none, none) nftReply (rows.map (·.key))
        ((Backfill.fetchAlchemyBatch rows (nftReply.map (·.entry))).map Prod.snd) ↔
      InPlace Backfill.readNft (none, none) nftReply (rows.map (·.key))) := by
  refine ⟨?_, ?_, ?_⟩
  · rw [← attributed_placed_iff, placed, fetchAlchemyBatch, map_map, length_map]
    rfl
  · have rowsOf := congrArg (List.map (·.rowId)) (zipIdx_map_fst 0 rows)
    rw [← rowsOf, Backfill.fetchAlchemyBatch, map_map, map_map]
    rfl
  · have placedIff := @forall₂_placed_iff _ _ Backfill.readNft (none, none)
      (SaidOf Backfill.readNft nftReply) (rows.map (·.key)) (nftReply.take rows.length)
    rw [Attributed, Backfill.map_fetchAlchemyBatch, placedIff, ← inPlace_take,
      length_map]
    exact and_iff_right (length_take_le _ _)

open FetcherWorld in
/-- Two tokens are asked for and only the second is answered: both readers give its metadata
to the first. -/
theorem fetchAlchemyBatch_shifted :
    (∃ tokens reply, ¬ Attributed readEntry .empty reply tokens
      (fetchAlchemyBatch tokens.length (.answered (reply.map (·.entry))))) ∧
    ∃ (rows : List Backfill.BackfillRow) (reply : List (Described Backfill.AlchemyNft)),
      ¬ Attributed Backfill.readNft (none, none) reply (rows.map (·.key))
        ((Backfill.fetchAlchemyBatch rows (reply.map (·.entry))).map Prod.snd) := by
  constructor
  · refine ⟨[(smallAddress, 1), (smallAddress, 2)], [⟨(smallAddress, 2), smallEntry⟩],
      fun attributed => ?_⟩
    rcases (forall₂_cons.mp attributed).1 with blank | ⟨nft, member, named, -⟩
    · exact absurd (congrArg (·.tokenUri) blank) (by decide)
    · rw [mem_singleton.mp member] at named
      exact absurd (congrArg Prod.snd named) (by decide)
  · refine ⟨[⟨10, smallAddress, 1⟩, ⟨11, smallAddress, 2⟩],
      [⟨(smallAddress, 2), ⟨some [], none⟩⟩], fun attributed => ?_⟩
    rcases (forall₂_cons.mp attributed).1 with blank | ⟨nft, member, named, -⟩
    · exact absurd (congrArg (fun fetched => fetched.1.isSome) blank) (by decide)
    · rw [mem_singleton.mp member] at named
      exact absurd (congrArg Prod.snd named) (by decide)

end NftData.Ethereum
