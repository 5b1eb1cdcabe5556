import NftData.Dedup.Metadata.CanonicalVariants

namespace NftData.Dedup

/-! # Leaks

A document that is not plain, or has attributes that tie, has a variant with another canonical
text. -/

open List
open Related (eq_of_perm_middle exists_middle forall₂_middle)

variable {result value other : Document} {tree : Document}

section Leaks

variable {serde : SerdeJson} {unicode : CaseFolding}

/-! ## Ties keep their order -/

theorem filter_sortAttributes (attributes : List Document) (key : Text ×ₗ Text) :
    (sortAttributes serde attributes).filter (fun value => attrKey serde value = key) =
      attributes.filter fun value => attrKey serde value = key := by
  rw [sortAttributes]
  split
  · rfl
  · have tied : (attributes.filter fun value => attrKey serde value = key).Pairwise
        (AttrLE serde) := by
      rw [pairwise_iff_forall_sublist]
      intro first second sublist
      have firstKey := (mem_filter.mp (sublist.subset mem_cons_self)).2
      have secondKey := (mem_filter.mp
        (sublist.subset (mem_cons_of_mem _ mem_cons_self))).2
      rw [AttrLE, of_decide_eq_true firstKey, of_decide_eq_true secondKey]
    have kept := (sublist_insertionSort tied filter_sublist).filter
      fun value => decide (attrKey serde value = key)
    rw [filter_filter] at kept
    simp only [Bool.and_self] at kept
    apply (kept.eq_of_length _).symm
    exact ((perm_insertionSort (AttrLE serde) attributes).filter _).symm.length_eq

theorem exists_tied_split {values : List Document} {left right : Document}
    (leftMember : left ∈ values) (rightMember : right ∈ values) (different : left ≠ right)
    (keys : attrKey serde left = attrKey serde right) :
    ∃ before first between second after,
      values = before ++ first :: (between ++ second :: after) ∧ first ≠ second ∧
        attrKey serde first = attrKey serde second := by
  rcases append_of_mem leftMember with ⟨before, behind, rfl⟩
  rcases mem_append.mp rightMember with inBefore | inBehind
  · rcases append_of_mem inBefore with ⟨front, between, rfl⟩
    exact ⟨front, right, between, left, behind, by simp, different.symm, keys.symm⟩
  · rcases mem_cons.mp inBehind with same | inBehind
    · exact absurd same.symm different
    · rcases append_of_mem inBehind with ⟨between, after, rfl⟩
      exact ⟨before, left, between, right, after, rfl, different, keys⟩

variable {before after : List Document}

theorem sortAttributes_swap_ne {between : List Document} {first second : Document}
    (different : first ≠ second) (keys : attrKey serde first = attrKey serde second) :
    sortAttributes serde (before ++ second :: (between ++ first :: after)) ≠
      sortAttributes serde (before ++ first :: (between ++ second :: after)) := by
  intro same
  have filtered := congrArg
    (List.filter fun value => decide (attrKey serde value = attrKey serde first)) same
  rw [filter_sortAttributes, filter_sortAttributes, filter_append, filter_append]
    at filtered
  have behind := append_cancel_left filtered
  rw [filter_cons_of_pos (by simp [keys]), filter_cons_of_pos (by simp)] at behind
  exact different (List.cons.inj behind).1.symm

/-- Values that stay different when they are sorted as attributes. -/
def Apart : Document → Document → Prop
  | .array values, .array others => ¬ values.Perm others
  | value, other => value ≠ other

theorem Apart.ne (apart : Apart value other) : value ≠ other := by
  rintro rfl
  cases value with
  | array values => exact apart (.refl _)
  | _ => exact apart rfl

theorem Apart.sortIfArray_ne (apart : Apart value other) :
    sortIfArray serde value ≠ sortIfArray serde other := by
  intro same
  cases value with
  | array values =>
      cases other with
      | array others =>
          have sorted := JsonTree.array.inj same
          apply apart
          exact (@sortAttributes_perm_self serde values).symm.trans
            (sorted ▸ sortAttributes_perm_self others)
      | _ => cases same
  | _ =>
      cases other with
      | array others => cases same
      | _ => exact apart.ne same

theorem exists_unstable (unstable : ¬ (IsPlain tree ∧ IsTieFree serde unicode tree)) :
    ¬ PlainNode tree ∨ ¬ TieFreeNode serde unicode tree ∨
      ∃ child ∈ tree.children, ¬ (IsPlain child ∧ IsTieFree serde unicode child) := by
  by_contra none
  rw [not_or, not_or, not_not, not_not] at none
  rcases none with ⟨plain, tieFree, below⟩
  have each : ∀ child ∈ tree.children, IsPlain child ∧ IsTieFree serde unicode child := by
    intro child member
    by_contra childUnstable
    exact below ⟨child, member, childUnstable⟩
  exact unstable ⟨.intro plain fun child member => (each child member).1,
    .intro tieFree fun child member => (each child member).2⟩

def Leaks (serde : SerdeJson) (unicode : CaseFolding) (tree result : Document) : Prop :=
  ∃ variant other, Variant unicode tree variant ∧ (IsPlain tree → IsPlain variant) ∧
    canonicalValue serde unicode variant = some other ∧ Apart result other

theorem leaks_number {literal : NumberLiteral} (outside : ¬ InRange literal) :
    Leaks serde unicode (.number literal) (.number (serde.normalRead literal)) := by
  refine ⟨.number literal.longer, _, .number literal.number_longer.symm,
    fun plain => absurd plain.here outside, canonicalValue_number _, ?_⟩
  intro same
  exact SerdeJson.normalRead_longer_ne outside (JsonTree.number.inj same).symm

variable {members : List (Text × Document)}

theorem leaks_token (token : beginsWithToken members)
    (isResult : canonicalValue serde unicode (.object members) = some result) :
    Leaks serde unicode (.object members) result := by
  rcases (canonicalValue_token token).mp isResult with ⟨literal, rfl, rfl⟩
  have sameKey := (normalizeString_normalizeString unicode numberToken).symm
  have ordinary : ¬ beginsWithToken
      [(normalizeString unicode numberToken, (.string literal.text : Document))] := by
    apply @not_beginsWithToken unicode
    intro entry member
    rw [mem_singleton.mp member]
    exact sameKey.symm
  have isEntry : EntryOf (normalizeString unicode) (canonicalValue serde unicode)
      (normalizeString unicode numberToken, .string literal.text)
      (normalizeString unicode (normalizeString unicode numberToken),
        .string (normalizeString unicode literal.text)) := ⟨rfl, canonicalValue_string _⟩
  refine ⟨_, _, .object (.cons (.value sameKey (.string literal.text)) .nil) (.refl _),
    fun plain => absurd token plain.here,
    (canonicalValue_object ordinary).mpr ⟨[_], .cons isEntry .nil, nodup_singleton _, rfl⟩,
    ?_⟩
  intro same
  cases same

/-- A variant of one member changes the value of the object. -/
theorem leaks_member {before after : List (Text × Document)} {key : Text}
    (ordinary : ¬ beginsWithToken (before ++ (key, value) :: after))
    (isResult : canonicalValue serde unicode (.object (before ++ (key, value) :: after)) =
      some result) (variant : MemberVariant unicode (Variant unicode) (key, value) (key, other))
    (otherPlain : IsPlain value → IsPlain other)
    (changes : ∀ entryValue, canonicalValue serde unicode value = some entryValue →
      ∃ otherValue, canonicalValue serde unicode other = some otherValue ∧
        sortEntry serde (normalizeString unicode key, entryValue) ≠
          sortEntry serde (normalizeString unicode key, otherValue)) :
    Leaks serde unicode (.object (before ++ (key, value) :: after)) result := by
  rcases (canonicalValue_object ordinary).mp isResult with ⟨entries, related, nodup, rfl⟩
  rcases exists_middle related with ⟨front, entry, back, rfl, fronts, isEntry, backs⟩
  rcases entry with ⟨entryKey, entryValue⟩
  have isKey : entryKey = normalizeString unicode key := isEntry.1
  subst isKey
  rcases changes entryValue isEntry.2 with ⟨otherValue, isOther, different⟩
  have otherOrdinary : ¬ beginsWithToken (before ++ (key, other) :: after) := by
    rw [beginsWithToken] at ordinary ⊢
    cases before with
    | nil | cons head tail => exact ordinary
  have isChanged := forall₂_middle fronts
    (show EntryOf (normalizeString unicode) (canonicalValue serde unicode) (key, other)
      (normalizeString unicode key, otherValue) from ⟨rfl, isOther⟩) backs
  have otherNodup : ((front ++ (normalizeString unicode key, otherValue) :: back).map
      Prod.fst).Nodup := by
    simpa using nodup
  have refls : ∀ members : List (Text × Document),
      List.Forall₂ (MemberVariant unicode (Variant unicode)) members members :=
    fun members => forall₂_same.mpr fun entry _ => .value rfl (Variant.refl entry.2)
  refine ⟨_, _, .object (forall₂_middle (refls before) variant (refls after)) (.refl _),
    fun plain => .intro otherOrdinary ?_,
    (canonicalValue_object otherOrdinary).mpr ⟨_, isChanged, otherNodup, rfl⟩, ?_⟩
  · intro child inChildren
    rcases mem_map.mp inChildren with ⟨member, inMembers, rfl⟩
    rcases mem_append.mp inMembers with inBefore | inRest
    · exact plain.value (mem_append_left _ inBefore)
    · rcases mem_cons.mp inRest with rfl | inAfter
      · exact otherPlain (plain.value (mem_append_right _ mem_cons_self))
      · exact plain.value (mem_append_right _ (mem_cons_of_mem _ inAfter))
  · intro same
    have sorted := JsonTree.object.inj same
    have perm : ((front ++ (normalizeString unicode key, entryValue) :: back).map
        (sortEntry serde)).Perm
        ((front ++ (normalizeString unicode key, otherValue) :: back).map (sortEntry serde)) :=
      (sortEntries_self_perm _).symm.trans (sorted ▸ sortEntries_self_perm _)
    rw [map_append, map_append, map_cons, map_cons] at perm
    exact different (eq_of_perm_middle perm)

/-- What a value leaks, the object leaks. -/
theorem Leaks.object {before after : List (Text × Document)} {key : Text} {value : Document}
    {result : Document} (ordinary : ¬ beginsWithToken (before ++ (key, value) :: after))
    (isResult : canonicalValue serde unicode (.object (before ++ (key, value) :: after)) =
      some result)
    (leaks : ∀ entryValue, canonicalValue serde unicode value = some entryValue →
      Leaks serde unicode value entryValue) :
    Leaks serde unicode (.object (before ++ (key, value) :: after)) result := by
  rcases (canonicalValue_object ordinary).mp isResult with ⟨entries, related, _, _⟩
  rcases exists_middle related with ⟨front, entry, back, _, _, isEntry, _⟩
  rcases leaks entry.2 isEntry.2 with ⟨changed, other, isVariant, keepsPlain, isOther, apart⟩
  apply leaks_member ordinary isResult (.value rfl isVariant) keepsPlain
  intro entryValue isEntryValue
  rw [isEntry.2, Option.some.injEq] at isEntryValue
  refine ⟨other, isOther, ?_⟩
  rw [← isEntryValue, sortEntry, sortEntry]
  intro same
  split at same
  · exact apart.sortIfArray_ne (congrArg Prod.snd same)
  · exact apart.ne (congrArg Prod.snd same)

/-- What an item leaks, the array leaks. -/
theorem Leaks.array {item : Document}
    (isResult : canonicalValue serde unicode (.array (before ++ item :: after)) = some result)
    (leaks : ∀ value, canonicalValue serde unicode item = some value →
      Leaks serde unicode item value) :
    Leaks serde unicode (.array (before ++ item :: after)) result := by
  rcases canonicalValue_array.mp isResult with ⟨values, related, rfl⟩
  rcases exists_middle related with ⟨front, value, back, rfl, fronts, isValue, backs⟩
  rcases leaks value isValue with ⟨changed, other, isVariant, keepsPlain, isOther, apart⟩
  have refls : ∀ items : List Document, List.Forall₂ (Variant unicode) items items :=
    fun items => forall₂_same.mpr fun item _ => Variant.refl item
  refine ⟨_, _, .array (forall₂_middle (refls before) isVariant (refls after)),
    fun plain => .intro trivial ?_,
    canonicalValue_array.mpr ⟨_, forall₂_middle fronts isOther backs, rfl⟩, ?_⟩
  · intro child inChildren
    rcases mem_append.mp inChildren with inBefore | inRest
    · exact plain.item (mem_append_left _ inBefore)
    · rcases mem_cons.mp inRest with rfl | inAfter
      · exact keepsPlain (plain.item (mem_append_right _ mem_cons_self))
      · exact plain.item (mem_append_right _ (mem_cons_of_mem _ inAfter))
  · exact fun perm => apart.ne (eq_of_perm_middle perm)

/-- Attributes that tie leak their order. -/
theorem leaks_ties (ordinary : ¬ beginsWithToken members)
    (isResult : canonicalValue serde unicode (.object members) = some result)
    (ties : ¬ TieFreeNode serde unicode (.object members)) :
    Leaks serde unicode (.object members) result := by
  rw [TieFreeNode] at ties
  push Not at ties
  rcases ties with ⟨key, items, inMembers, isAttributes, itemsTied⟩
  rw [TieFreeItems] at itemsTied
  push Not at itemsTied
  rcases itemsTied with
    ⟨item, inItems, another, inItems', left, right, isLeft, isRight, keys, different⟩
  rcases append_of_mem inMembers with ⟨before, after, rfl⟩
  rcases (canonicalValue_object ordinary).mp isResult with ⟨entries, related, _, _⟩
  rcases exists_middle related with ⟨front, entry, back, _, _, isEntry, _⟩
  rcases canonicalValue_array.mp isEntry.2 with ⟨values, itemValues, isArray⟩
  have inValues : ∀ {item value}, item ∈ items →
      canonicalValue serde unicode item = some value → value ∈ values := by
    intro item value inItems isValue
    rcases Related.exists_right itemValues inItems with ⟨same, inValues, isSame⟩
    rw [isValue, Option.some.injEq] at isSame
    rw [isSame]
    exact inValues
  rcases exists_tied_split (inValues inItems isLeft) (inValues inItems' isRight)
    different keys with ⟨start, first, between, second, rest, rfl, apart, tiedKeys⟩
  rcases exists_middle itemValues.flip with
    ⟨items₁, firstItem, tail, rfl, starts, isFirst, tails⟩
  rcases exists_middle tails with
    ⟨items₂, secondItem, items₃, rfl, betweens, isSecond, rests⟩
  have perm : (items₁ ++ firstItem :: (items₂ ++ secondItem :: items₃)).Perm
      (items₁ ++ secondItem :: (items₂ ++ firstItem :: items₃)) := by
    apply List.Perm.append_left
    apply (perm_middle.cons firstItem).trans
    apply (List.Perm.swap ..).trans
    exact (perm_middle.symm).cons secondItem
  apply leaks_member ordinary isResult
    (.attributes rfl isAttributes (forall₂_same.mpr fun item _ => Variant.refl item) perm)
  · exact fun plain => .intro trivial fun child member => plain.item (perm.mem_iff.mpr member)
  · intro entryValue isEntryValue
    rw [isEntry.2, Option.some.injEq] at isEntryValue
    refine ⟨.array (start ++ second :: (between ++ first :: rest)),
      canonicalValue_array.mpr ⟨_, forall₂_middle starts.flip isSecond
        (forall₂_middle betweens.flip isFirst rests.flip), rfl⟩, ?_⟩
    rw [← isEntryValue, isArray, sortEntry, if_pos isAttributes, sortEntry, if_pos isAttributes]
    intro same
    have arrays := JsonTree.array.inj (congrArg Prod.snd same)
    exact sortAttributes_swap_ne apart tiedKeys arrays.symm

theorem leaks_of_unstable (tree : Document) :
    ∀ {result : Document}, canonicalValue serde unicode tree = some result →
      ¬ (IsPlain tree ∧ IsTieFree serde unicode tree) → Leaks serde unicode tree result := by
  induction tree using JsonTree.induction with
  | step tree below =>
      intro result isResult unstable
      rcases exists_unstable unstable with here | ties | ⟨child, inChildren, childUnstable⟩
      · cases tree with
        | number literal =>
            rw [canonicalValue_number, Option.some.injEq] at isResult
            rw [← isResult]
            exact leaks_number here
        | object members => exact leaks_token (not_not.mp here) isResult
        | _ => exact absurd trivial here
      · cases tree with
        | object members =>
            by_cases token : beginsWithToken members
            · exact leaks_token token isResult
            · exact leaks_ties token isResult ties
        | _ => exact absurd trivial ties
      · cases tree with
        | array items =>
            rcases append_of_mem inChildren with ⟨before, after, rfl⟩
            exact .array isResult fun value isValue => below child inChildren isValue childUnstable
        | object members =>
            by_cases token : beginsWithToken members
            · exact leaks_token token isResult
            · rcases mem_map.mp inChildren with ⟨⟨key, value⟩, inMembers, rfl⟩
              rcases append_of_mem inMembers with ⟨before, after, rfl⟩
              exact .object token isResult fun value isValue =>
                below _ inChildren isValue childUnstable
        | _ => exact absurd inChildren not_mem_nil

/-! ## The texts of variants -/

/-- A variant is as deep as the document. -/
theorem Variant.withinDepth {depth : Nat} {tree variant : Document}
    (isVariant : Variant unicode tree variant) (within : tree.WithinDepth depth) :
    variant.WithinDepth depth := by
  induction depth generalizing tree variant with
  | zero =>
      cases isVariant with
      | array | object => exact within.elim
      | _ => trivial
  | succ depth induction =>
      cases isVariant with
      | array each =>
          intro child member
          rcases exists_of_mem_forall₂ each member with ⟨item, inItems, itemVariant⟩
          exact induction itemVariant (within item inItems)
      | object each perm =>
          intro child inChildren
          rcases mem_map.mp inChildren with ⟨member, inPermuted, rfl⟩
          rcases exists_of_mem_forall₂ each (perm.mem_iff.mpr inPermuted) with
            ⟨original, inMembers, memberVariant⟩
          have withinValue := within original.2 (mem_map_of_mem inMembers)
          cases memberVariant with
          | value _ valueVariant => exact induction valueVariant withinValue
          | attributes _ _ itemEach itemPerm =>
              have arrays := induction (.array itemEach) withinValue
              cases depth with
              | zero => exact arrays.elim
              | succ depth => exact fun child member => arrays child (itemPerm.mem_iff.mpr member)
      | _ =>
          apply JsonTree.IsLeaf.withinDepth
          trivial

end Leaks

theorem SerdeJson.eq_of_print_eq (serde : SerdeJson)
    (within : value.WithinDepth serde.recursionLimit)
    (otherWithin : other.WithinDepth serde.recursionLimit)
    (same : serde.print value = serde.print other) : value = other := by
  have parsed := serde.parse_print value within
  rw [same, serde.parse_print other otherWithin] at parsed
  exact (Option.some.inj parsed).symm

theorem canonicalizeJson_eq_iff {serde : SerdeJson} {unicode : CaseFolding}
    {raw otherRaw out : Text} {variant : Document} (parsed : serde.parse raw.trim = some tree)
    (otherParsed : serde.parse otherRaw.trim = some variant)
    (isResult : canonicalValue serde unicode tree = some result) (isOut : serde.print result = out)
    :
    canonicalizeJson serde unicode otherRaw = some out ↔
      canonicalValue serde unicode variant = some result := by
  rw [canonicalizeJson, otherParsed, Option.bind_some, Option.map_eq_some_iff]
  constructor
  · rintro ⟨other, isOther, printed⟩
    have same := serde.eq_of_print_eq
      (withinDepth_canonicalValue (serde.within_parse _ _ otherParsed) isOther)
      (withinDepth_canonicalValue (serde.within_parse _ _ parsed) isResult)
      (printed.trans isOut.symm)
    rw [isOther, same]
  · exact fun isOther => ⟨result, isOther, isOut⟩

def tiedAttribute (flag : Bool) : Document :=
  .object [("trait_type".toList, .string ['a']), ("x".toList, .bool flag)]

/-- `{"attributes":[{"trait_type":"a","x":true},{"trait_type":"a","x":false}]}`, if the first
flag is `true`. -/
def tiedDocument (first : Bool) : Document :=
  .object [(attributesKey, .array [tiedAttribute first, tiedAttribute !first])]

theorem canonicalizeJson_tiedDocument (first : Bool) :
    canonicalizeJson compactJson asciiFolding (compactJson.print (tiedDocument first)) =
      some (compactJson.print (tiedDocument first)) := by
  have within : (tiedDocument first).WithinDepth 127 := by
    intro attributes isAttributes item member flag isFlag
    rw [mem_singleton.mp isAttributes] at member
    have leaf : flag.IsLeaf := by
      rcases mem_cons.mp member with rfl | inTail
      · rcases mem_cons.mp isFlag with rfl | inRest
        · trivial
        · rw [mem_singleton.mp inRest]
          trivial
      · rw [mem_singleton.mp inTail] at isFlag
        rcases mem_cons.mp isFlag with rfl | inRest
        · trivial
        · rw [mem_singleton.mp inRest]
          trivial
    exact leaf.withinDepth _
  have value : canonicalValue compactJson asciiFolding (tiedDocument first) =
      some (tiedDocument first) := by
    cases first <;> rfl
  rw [canonicalizeJson, compactJson.parse_print _ within, Option.bind_some, value]
  rfl

end NftData.Dedup
