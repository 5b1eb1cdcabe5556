import NftData.Dedup.Direct.Index
import NftData.Dedup.Direct.Prepared

namespace NftData.Dedup.Direct

/-! # Index safety

Every lookup of the build stays inside its list, except one: the renumbering looks up
the placeholder key 0 of a contract off the EVM chains, which is outside the table when
no EVM token was interned. -/

open List

section Renumbering

variable {store : EntityStore} {tokenCount documentCount : Nat} {remap : List Nat}
  {raw : RawProfile}

/-- With a token in the table every key can be renumbered. -/
theorem remapTokens_guarded (remaps : Remaps tokenCount remap)
    (fits : RawFits store tokenCount documentCount raw)
    (known : raw.key.isEvm = true ∨ 0 < tokenCount) :
    Guarded .panicked
      (fun renumbered => ProfileFits store tokenCount documentCount renumbered.key.isEvm
        renumbered.key.anchors [renumbered.member])
      (raw.remapTokens remap) := by
  have inside : ∀ anchor ∈ raw.key.anchors, anchor.1 < remap.length := by
    intro anchor member
    rw [remaps.length_eq]
    cases kind : raw.key.isEvm with
    | true => exact fits.fits.tokens kind anchor member
    | false =>
        rw [fits.placeholder kind anchor member]
        exact known.resolve_left (by simp [kind])
  have each : ∀ anchor ∈ raw.key.anchors,
      Guarded .panicked
        (fun renumbered : Nat × Nat => renumbered.1 < tokenCount ∧ renumbered.2 = anchor.2)
        (do
          let token ← indexed remap anchor.1
          .ok (token, anchor.2)) := by
    intro anchor member
    apply (indexed_guarded (inside anchor member)).bind
    intro token _ tokenAt
    exact ⟨remaps.below token (mem_of_getElem? tokenAt), rfl⟩
  rw [RawProfile.remapTokens]
  apply (Guarded.mapM each).bind
  intro anchors _ renumbered
  have lengths := renumbered.length_eq
  have pointwise : ∀ anchor ∈ anchors, anchor.1 < tokenCount ∧
      ∃ old ∈ raw.key.anchors, anchor.2 = old.2 := by
    intro anchor member
    rcases exists_of_mem_forall₂ renumbered member with ⟨old, inOld, below, equal⟩
    exact ⟨below, old, inOld, equal⟩
  constructor
  · intro empty
    change anchors = [] at empty
    rw [empty] at lengths
    exact fits.fits.nonempty (length_eq_zero_iff.mp lengths)
  · intro anchor member
    rcases (pointwise anchor member).2 with ⟨old, inOld, equal⟩
    rw [equal]
    exact fits.fits.documents old inOld
  · intro _ anchor member
    exact (pointwise anchor member).1
  · intro member isMember
    change MemberFits store _ anchors.length member
    rw [← lengths]
    exact fits.fits.members member isMember

theorem remapTokens_panics (fits : RawFits store tokenCount documentCount raw)
    (placeholder : raw.key.isEvm = false) (empty : remap = []) :
    raw.remapTokens remap = .error .panicked := by
  rw [RawProfile.remapTokens]
  rcases exists_cons_of_ne_nil fits.fits.nonempty with ⟨first, rest, anchors⟩
  have isZero := fits.placeholder placeholder first (by simp [anchors])
  rw [anchors, mapM_cons, isZero, empty, indexed_panicked (by simp)]
  rfl

end Renumbering

/-- Grouping keeps a property of a key together with each of its members. -/
theorem addMember_fits {Key : Type} [DecidableEq Key] {Fits : Key → MetadataMember → Prop}
    {key : Key} {member : MetadataMember} (fits : Fits key member) (chainId : Nat)
    {builders : List (ProfileBuilder Key)}
    (known : ∀ builder ∈ builders, ∀ other ∈ builder.members.toList, Fits builder.key other) :
    ∀ builder ∈ addMember key member chainId builders,
      ∀ other ∈ builder.members.toList, Fits builder.key other := by
  induction builders with
  | nil =>
      intro builder isBuilder other isOther
      rw [addMember, mem_singleton] at isBuilder
      subst isBuilder
      rw [ProfileMembers.toList, mem_singleton] at isOther
      exact isOther ▸ fits
  | cons first rest induction =>
      rcases forall_mem_cons.mp known with ⟨firstFits, restFit⟩
      rw [addMember]
      split
      · next sameKey =>
          intro builder isBuilder
          rcases mem_cons.mp isBuilder with isFirst | inRest
          · rw [isFirst]
            split
            · intro other isOther
              rw [ProfileMembers.toList, mem_cons, mem_append,
                mem_singleton] at isOther
              rcases isOther with isOld | inOld | isMember
              · exact firstFits other (isOld ▸ mem_cons_self)
              · exact firstFits other (mem_cons_of_mem _ inOld)
              · rw [isMember]
                exact sameKey ▸ fits
            · exact firstFits
          · exact restFit builder inRest
      · intro builder isBuilder
        rcases mem_cons.mp isBuilder with isFirst | inRest
        · exact isFirst ▸ firstFits
        · exact induction restFit builder inRest

theorem foldl_addMember_fits {Raw Key : Type} [DecidableEq Key]
    (Fits : Key → MetadataMember → Prop) {key : Raw → Key} {member : Raw → MetadataMember}
    {chainId : Raw → Nat} {bucket : List Raw}
    (fits : ∀ raw ∈ bucket, Fits (key raw) (member raw)) :
    ∀ {builders : List (ProfileBuilder Key)},
      (∀ builder ∈ builders, ∀ other ∈ builder.members.toList, Fits builder.key other) →
      ∀ builder ∈ bucket.foldl
          (fun builders raw => addMember (key raw) (member raw) (chainId raw) builders) builders,
        ∀ other ∈ builder.members.toList, Fits builder.key other := by
  induction bucket with
  | nil => exact fun known => known
  | cons raw bucket induction =>
      intro builders known
      rw [foldl_cons]
      apply induction fun other inside => fits other (mem_cons_of_mem _ inside)
      exact addMember_fits (fits raw mem_cons_self) _ known

section Fits

variable {store : EntityStore} {tokenCount documentCount : Nat}

def UnpackedProfile.Fits (store : EntityStore) (tokenCount documentCount : Nat)
    (profile : UnpackedProfile) : Prop :=
  ProfileFits store tokenCount documentCount profile.isEvm profile.anchors
    profile.members.toList

theorem groupProfiles_fits {bucket : List RawProfile}
    (fits : ∀ raw ∈ bucket, ProfileFits store tokenCount documentCount raw.key.isEvm
      raw.key.anchors [raw.member]) :
    ∀ profile ∈ groupProfiles bucket, profile.Fits store tokenCount documentCount := by
  intro profile isProfile
  rcases mem_map.mp isProfile with ⟨builder, isBuilder, equal⟩
  have each := foldl_addMember_fits
    (fun (key : ProfileKey) member =>
      ProfileFits store tokenCount documentCount key.isEvm key.anchors [member])
    fits (by simp) builder isBuilder
  have first := each builder.members.first mem_cons_self
  subst equal
  exact ⟨first.nonempty, first.documents, first.tokens, fun member inside =>
    (each member inside).members member (mem_singleton_self _)⟩

theorem groupSolanaProfiles_fits {bucket : List RawSolanaProfile}
    (fits : ∀ raw ∈ bucket, RawSolanaFits store documentCount raw) :
    ∀ profile ∈ groupSolanaProfiles bucket, profile.Fits store tokenCount documentCount := by
  intro profile isProfile
  rcases mem_map.mp isProfile with ⟨builder, isBuilder, equal⟩
  have each := foldl_addMember_fits
    (fun (document : Nat) member =>
      document < documentCount ∧ MemberFits store false 1 member)
    (fun raw inside => ⟨(fits raw inside).document, (fits raw inside).member⟩)
    (by simp) builder isBuilder
  have first := each builder.members.first mem_cons_self
  subst equal
  refine ⟨by simp [unpackSolanaProfile], ?_, ?_, fun member inside => (each member inside).2⟩
  · intro anchor isAnchor
    rw [unpackSolanaProfile, mem_singleton] at isAnchor
    rw [isAnchor]
    exact first.1
  · intro isEvm
    cases isEvm

end Fits

end NftData.Dedup.Direct
