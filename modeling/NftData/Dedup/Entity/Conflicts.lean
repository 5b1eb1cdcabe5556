import NftData.Foundation.KeyedBounds
import NftData.Dedup.Entity.Table

namespace NftData.Dedup

open Option
open Table (loadedRows)
open InputRow (chain contractName nftEntry)
open NftValue (combine)

/-! # Which rows load

Rows fail to load when two of them give one NFT different URIs of one kind, or when there
are more chains, contracts or NFTs than identifiers. -/

def UriAgrees (first second : Option Text) : Prop :=
  ∀ left ∈ first, ∀ right ∈ second, left = right

def UriBelow (first second : Option Text) : Prop :=
  ∀ uri ∈ first, second = some uri

theorem combineUri_joins : Joins combineUri UriBelow where
  refl := fun _ _ isUri => isUri
  trans := by
    intro first second third firstBelow secondBelow uri isUri
    exact secondBelow uri (firstBelow uri isUri)
  left := by
    intro first second combined ok uri isUri
    cases first with
    | none => cases isUri
    | some value =>
        cases isUri
        cases second with
        | none =>
            cases ok
            rfl
        | some other =>
            simp only [combineUri] at ok
            split at ok
            · cases ok
              rfl
            · cases ok
  right := by
    intro first second combined ok uri isUri
    cases second with
    | none => cases isUri
    | some value =>
        cases isUri
        cases first with
        | none =>
            cases ok
            rfl
        | some other =>
            simp only [combineUri] at ok
            split at ok
            · next same =>
                cases ok
                rw [same]
            · cases ok
  bounded := by
    intro first second bound firstBelow secondBelow
    cases first with
    | none => exact ⟨second, rfl, secondBelow⟩
    | some value =>
        have isBound := firstBelow value rfl
        cases second with
        | none => exact ⟨some value, rfl, firstBelow⟩
        | some other =>
            have same : value = other :=
              Option.some.inj (isBound.symm.trans (secondBelow other rfl))
            exact ⟨some value, if_pos same, firstBelow⟩

structure NftValue.Below (first second : NftValue) : Prop where
  tokenUri : UriBelow first.tokenUri second.tokenUri
  imageUri : UriBelow first.imageUri second.imageUri

theorem NftValue.combine_joins : Joins combine NftValue.Below where
  refl := fun value => ⟨combineUri_joins.refl _, combineUri_joins.refl _⟩
  trans := fun first second => ⟨combineUri_joins.trans first.tokenUri second.tokenUri,
    combineUri_joins.trans first.imageUri second.imageUri⟩
  left := by
    intro first second combined ok
    rcases bind_eq_some_iff.mp ok with ⟨tokenUri, tokenOk, rest⟩
    rcases map_eq_some_iff.mp rest with ⟨imageUri, imageOk, equal⟩
    rw [← equal]
    exact ⟨combineUri_joins.left tokenOk, combineUri_joins.left imageOk⟩
  right := by
    intro first second combined ok
    rcases bind_eq_some_iff.mp ok with ⟨tokenUri, tokenOk, rest⟩
    rcases map_eq_some_iff.mp rest with ⟨imageUri, imageOk, equal⟩
    rw [← equal]
    exact ⟨combineUri_joins.right tokenOk, combineUri_joins.right imageOk⟩
  bounded := by
    intro first second bound firstBelow secondBelow
    rcases combineUri_joins.bounded firstBelow.tokenUri secondBelow.tokenUri with
      ⟨tokenUri, tokenOk, tokenBelow⟩
    rcases combineUri_joins.bounded firstBelow.imageUri secondBelow.imageUri with
      ⟨imageUri, imageOk, imageBelow⟩
    refine ⟨⟨first.name.or second.name, tokenUri, imageUri, first.sourceOrder⟩, ?_,
      tokenBelow, imageBelow⟩
    rw [combine, tokenOk, bind_some, imageOk, map_some]

/-- No two entries of one NFT disagree about a URI. -/
def NoConflict (entries : List (NftName × NftValue)) : Prop :=
  ∀ first ∈ entries, ∀ second ∈ entries, first.1 = second.1 →
    UriAgrees first.2.tokenUri second.2.tokenUri ∧
      UriAgrees first.2.imageUri second.2.imageUri

theorem uriAgrees_of_below {first second bound : Option Text}
    (firstBelow : UriBelow first bound) (secondBelow : UriBelow second bound) :
    UriAgrees first second := by
  intro left isLeft right isRight
  exact Option.some.inj ((firstBelow left isLeft).symm.trans (secondBelow right isRight))

/-- The first URI that the entries of an NFT give. -/
def firstUri (entries : List (NftName × NftValue)) (column : NftValue → Option Text)
    (name : NftName) : Option Text :=
  entries.findSome? fun entry => if entry.1 = name then column entry.2 else none

theorem below_firstUri {entries : List (NftName × NftValue)}
    {column : NftValue → Option Text} (agree : ∀ first ∈ entries, ∀ second ∈ entries,
      first.1 = second.1 → UriAgrees (column first.2) (column second.2))
    {entry : NftName × NftValue} (member : entry ∈ entries) :
    UriBelow (column entry.2) (firstUri entries column entry.1) := by
  intro uri isUri
  cases found : firstUri entries column entry.1 with
  | none =>
      have missing := List.findSome?_eq_none_iff.mp found entry member
      rw [if_pos rfl] at missing
      rw [missing] at isUri
      cases isUri
  | some first =>
      rcases List.exists_of_findSome?_eq_some found with ⟨other, inEntries, isFirst⟩
      split at isFirst
      · next sameName =>
          rw [agree other inEntries entry member sameName first isFirst uri isUri]
      · cases isFirst

theorem absorbAll_isSome_iff (entries : List (NftName × NftValue)) :
    (∃ absorbed, absorbAll combine [] entries = some absorbed) ↔
      NoConflict entries := by
  constructor
  · intro ok first firstMember second secondMember sameName
    rcases ok with ⟨absorbed, ok⟩
    rcases compatible_of_absorbAll NftValue.combine_joins ok firstMember secondMember
      sameName with ⟨bound, firstBelow, secondBelow⟩
    exact ⟨uriAgrees_of_below firstBelow.tokenUri secondBelow.tokenUri,
      uriAgrees_of_below firstBelow.imageUri secondBelow.imageUri⟩
  · intro noConflict
    let bound : NftName → NftValue := fun name =>
      ⟨none, firstUri entries NftValue.tokenUri name,
        firstUri entries NftValue.imageUri name, ⟨0, 0⟩⟩
    have below : ∀ entry ∈ entries, NftValue.Below entry.2 (bound entry.1) := by
      intro entry member
      refine ⟨below_firstUri ?_ member, below_firstUri ?_ member⟩
      · intro first firstMember second secondMember sameName
        exact (noConflict first firstMember second secondMember sameName).1
      · intro first firstMember second secondMember sameName
        exact (noConflict first firstMember second secondMember sameName).2
    exact absorbAll_bounded NftValue.combine_joins entries below (by simp)

/-- There are identifiers for all keys of the rows. -/
structure FitsIdentifiers (rows : List InputRow) : Prop where
  chains : (rows.map chain).toFinset.card ≤ chainIdCapacity
  contracts : (rows.map contractName).toFinset.card ≤ contractIdCapacity
  nfts : (rows.map fun row => row.nftEntry.1).toFinset.card ≤ nftIdCapacity

theorem length_pushKeys {Key : Type*} [DecidableEq Key] (keys : List Key) :
    (pushKeys [] keys).length = keys.toFinset.card := by
  rw [← List.toFinset_card_of_nodup (nodup_pushKeys keys List.nodup_nil)]
  congr 1
  ext key
  rw [List.mem_toFinset, List.mem_toFinset, mem_pushKeys]
  simp

theorem addRows_fits_iff (rows : List InputRow) :
    (∃ table, (Table.empty.addRows rows).filter Table.fits = some table) ↔
      NoConflict ((loadedRows rows).map nftEntry) ∧
        FitsIdentifiers (loadedRows rows) := by
  have fits : ∀ nfts, absorbAll combine []
      ((loadedRows rows).map nftEntry) = some nfts →
      ((⟨pushKeys [] ((loadedRows rows).map chain),
        pushKeys [] ((loadedRows rows).map contractName), nfts⟩ :
          Table).fits = true ↔ FitsIdentifiers (loadedRows rows)) := by
    intro nfts absorbed
    have nftLength := congrArg List.length (keys_absorbAll absorbed)
    rw [List.length_map, List.map_nil, length_pushKeys, List.map_map] at nftLength
    rw [Table.fits_iff, length_pushKeys, length_pushKeys]
    constructor
    · intro fits
      exact ⟨fits.1, fits.2.1, by rw [nftLength] at fits; exact fits.2.2⟩
    · intro fits
      exact ⟨fits.chains, fits.contracts, by rw [nftLength]; exact fits.nfts⟩
  rw [Table.addRows_eq, ← absorbAll_isSome_iff]
  simp only [Table.empty]
  cases absorbed : absorbAll combine []
      ((loadedRows rows).map nftEntry) with
  | none => simp
  | some nfts =>
      rw [map_some, filter_some, ← fits nfts absorbed]
      constructor
      · intro ok
        rcases ok with ⟨table, ok⟩
        split at ok
        · next isFit => exact ⟨⟨nfts, rfl⟩, isFit⟩
        · cases ok
      · intro both
        rw [if_pos both.2]
        exact ⟨_, rfl⟩

end NftData.Dedup
