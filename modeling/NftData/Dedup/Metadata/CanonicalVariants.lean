import NftData.Dedup.Metadata.CanonicalJson

namespace NftData.Dedup

/-! # Variants of a document

Documents that say the same: members of objects and attributes may come in another order,
keys may differ by letter case and white space, and numbers may be spelled differently. -/

open List
open JsonTree (objectCount_array objectCount_object)
open Related (exists_common exists_right forall₂_of_sum_eq imp_of_mem sum_eq sum_le)

/-- A member of an object and a variant of it, given the variants of values. -/
inductive MemberVariant (unicode : CaseFolding) (variant : Document → Document → Prop) :
    Text × Document → Text × Document → Prop
  | value {key otherKey : Text} {value other : Document}
      (sameKey : normalizeString unicode key = normalizeString unicode otherKey)
      (isVariant : variant value other) :
      MemberVariant unicode variant (key, value) (otherKey, other)
  | attributes {key otherKey : Text} {items others permuted : List Document}
      (sameKey : normalizeString unicode key = normalizeString unicode otherKey)
      (isAttributes : normalizeString unicode key = attributesKey)
      (each : List.Forall₂ variant items others) (perm : others.Perm permuted) :
      MemberVariant unicode variant (key, .array items) (otherKey, .array permuted)

inductive Variant (unicode : CaseFolding) : Document → Document → Prop
  | null : Variant unicode .null .null
  | bool (value : Bool) : Variant unicode (.bool value) (.bool value)
  | string (text : Text) : Variant unicode (.string text) (.string text)
  | number {literal other : NumberLiteral} (same : literal.number = other.number) :
      Variant unicode (.number literal) (.number other)
  | array {items others : List Document}
      (each : List.Forall₂ (Variant unicode) items others) :
      Variant unicode (.array items) (.array others)
  | object {members others permuted : List (Text × Document)}
      (each : List.Forall₂ (MemberVariant unicode (Variant unicode)) members others)
      (perm : others.Perm permuted) : Variant unicode (.object members) (.object permuted)

/-- A number has a canonical spelling, and an object is not taken for a number. -/
def PlainNode : Document → Prop
  | .number literal => InRange literal
  | .object members => ¬ beginsWithToken members
  | _ => True

def IsPlain (tree : Document) : Prop := tree.EveryNode PlainNode

/-- Attributes with the same sort key are the same. -/
def TieFreeItems (serde : SerdeJson) (unicode : CaseFolding) (items : List Document) : Prop :=
  ∀ item ∈ items, ∀ other ∈ items, ∀ value otherValue,
    canonicalValue serde unicode item = some value →
    canonicalValue serde unicode other = some otherValue →
    attrKey serde value = attrKey serde otherValue → value = otherValue

def TieFreeNode (serde : SerdeJson) (unicode : CaseFolding) : Document → Prop
  | .object members => ∀ key items, (key, .array items) ∈ members →
      normalizeString unicode key = attributesKey → TieFreeItems serde unicode items
  | _ => True

def IsTieFree (serde : SerdeJson) (unicode : CaseFolding) (tree : Document) : Prop :=
  tree.EveryNode (TieFreeNode serde unicode)

section Variants

variable {serde : SerdeJson} {unicode : CaseFolding}

theorem Variant.refl (tree : Document) : Variant unicode tree tree := by
  induction tree using JsonTree.induction with
  | step tree below =>
      cases tree with
      | null => exact .null
      | bool value => exact .bool value
      | number literal => exact .number rfl
      | string text => exact .string text
      | array items => exact .array (forall₂_same.mpr below)
      | object members =>
          refine .object (forall₂_same.mpr fun entry member => ?_) (.refl _)
          exact .value rfl (below entry.2 (mem_map_of_mem member))

theorem sortAttributes_perm {first second : List Document} (perm : first.Perm second)
    (noTies : ∀ left ∈ first, ∀ right ∈ first, attrKey serde left = attrKey serde right →
      left = right) : sortAttributes serde first = sortAttributes serde second := by
  have sorted : first.insertionSort (AttrLE serde) = second.insertionSort (AttrLE serde) :=
    insertionSort_eq_of_perm perm fun left leftMember right rightMember before after =>
      noTies left leftMember right rightMember (le_antisymm before after)
  rw [sortAttributes, sortAttributes, ← perm.length_eq, sorted]
  split
  · next short =>
      cases first with
      | nil => exact (nil_perm.mp perm).symm
      | cons head tail =>
          have noTail : tail = [] := by
            cases tail with
            | nil => rfl
            | cons other rest =>
                simp only [length_cons] at short
                omega
          rw [noTail] at perm ⊢
          exact singleton_perm.mp perm
  · rfl

theorem exists_entryOf_variant {member other entry : Text × Document}
    (variant : MemberVariant unicode (Variant unicode) member other)
    (isEntry : EntryOf (normalizeString unicode) (canonicalValue serde unicode) member entry)
    (tieFree : ∀ items, member.2 = .array items →
      normalizeString unicode member.1 = attributesKey → TieFreeItems serde unicode items)
    (plain : IsPlain other.2)
    (same : ∀ value, Variant unicode member.2 value → IsPlain value →
      canonicalValue serde unicode value = some entry.2) :
    ∃ otherEntry,
      EntryOf (normalizeString unicode) (canonicalValue serde unicode) other otherEntry ∧
        (otherEntry.1 = entry.1 ∧ sortEntry serde otherEntry = sortEntry serde entry) := by
  cases variant with
  | value sameKey isVariant =>
      refine ⟨entry, ⟨isEntry.1.trans sameKey, same _ isVariant plain⟩, rfl, rfl⟩
  | @attributes key otherKey items others permuted sameKey isAttributes each perm =>
      have othersPlain : IsPlain (.array others) :=
        .intro trivial fun child member => plain.item (perm.mem_iff.mp member)
      have arrays := same (.array others) (.array each) othersPlain
      rcases canonicalValue_array.mp arrays with ⟨values, related, isArray⟩
      rcases perm_comp_forall₂ perm.symm related with ⟨permutedValues, isValues, valuesPerm⟩
      have original := isEntry.2
      rw [isArray] at original
      rcases canonicalValue_array.mp original with ⟨_, itemValues, equal⟩
      cases equal
      have noTies : ∀ left ∈ values, ∀ right ∈ values,
          attrKey serde left = attrKey serde right → left = right := by
        intro left leftMember right rightMember keys
        rcases exists_of_mem_forall₂ itemValues leftMember with ⟨item, inItems, isLeft⟩
        rcases exists_of_mem_forall₂ itemValues rightMember with ⟨another, inItems', isRight⟩
        exact tieFree items rfl isAttributes item inItems another inItems' left right isLeft
          isRight keys
      have isKey : entry.1 = attributesKey := isEntry.1.trans isAttributes
      refine ⟨(entry.1, .array permutedValues),
        ⟨isEntry.1.trans sameKey, canonicalValue_array.mpr ⟨permutedValues, isValues, rfl⟩⟩,
        rfl, ?_⟩
      rw [sortEntry, if_pos isKey, sortEntry, if_pos isKey, isArray]
      simp only [sortIfArray, sortAttributes_perm valuesPerm.symm noTies]

/-- Plain variants of a plain document without ties have its value. -/
theorem canonicalValue_variant (tree : Document) :
    ∀ {variant result : Document}, IsTieFree serde unicode tree → IsPlain tree →
      Variant unicode tree variant → IsPlain variant →
      canonicalValue serde unicode tree = some result →
      canonicalValue serde unicode variant = some result := by
  induction tree using JsonTree.induction with
  | step tree below =>
      intro variant result tieFree plain isVariant variantPlain isResult
      cases isVariant with
      | null | bool value | string text => exact isResult
      | number same =>
          rw [canonicalValue_number] at isResult ⊢
          rw [← isResult, SerdeJson.normalRead_eq plain.here variantPlain.here same]
      | array each =>
          rcases canonicalValue_array.mp isResult with ⟨values, related, rfl⟩
          rcases exists_common each related
            (fun other value => canonicalValue serde unicode other = some value)
            (fun value same => same = value)
            (fun item inItems other inOthers value _ itemVariant isValue =>
              ⟨value, below item inItems (tieFree.item inItems) (plain.item inItems) itemVariant
                (variantPlain.item inOthers) isValue, rfl⟩) with ⟨results, isResults, same⟩
          have equal : values = results := by
            clear isResults isResult related
            induction same with
            | nil => rfl
            | cons head _ induction => rw [head, induction]
          rw [equal]
          exact canonicalValue_array.mpr ⟨results, isResults, rfl⟩
      | @object members others permuted each perm =>
          rcases (canonicalValue_object plain.here).mp isResult with ⟨entries, related, nodup, rfl⟩
          rcases exists_common each related
            (EntryOf (normalizeString unicode) (canonicalValue serde unicode))
            (fun entry other : Text × Document =>
              other.1 = entry.1 ∧ sortEntry serde other = sortEntry serde entry)
            (fun member inMembers other inOthers entry _ memberVariant isEntry =>
              exists_entryOf_variant memberVariant isEntry
                (fun items isArray isAttributes => tieFree.here member.1 items
                  (by rw [← isArray]; exact inMembers) isAttributes)
                (variantPlain.value (perm.mem_iff.mp inOthers))
                fun value valueVariant valuePlain =>
                  below member.2 (mem_map_of_mem inMembers) (tieFree.value inMembers)
                    (plain.value inMembers) valueVariant valuePlain isEntry.2)
            with ⟨otherEntries, isEntries, same⟩
          rcases perm_comp_forall₂ perm.symm isEntries with
            ⟨permutedEntries, isPermuted, entriesPerm⟩
          have keys : otherEntries.map Prod.fst = entries.map Prod.fst ∧
              otherEntries.map (sortEntry serde) = entries.map (sortEntry serde) := by
            clear isEntries isPermuted entriesPerm related nodup isResult
            induction same with
            | nil => exact ⟨rfl, rfl⟩
            | cons head _ induction =>
                simp only [map_cons, head.1, head.2, induction.1, induction.2, and_self]
          have otherNodup : (otherEntries.map Prod.fst).Nodup := by
            rw [keys.1]
            exact nodup
          refine (canonicalValue_object variantPlain.here).mpr
            ⟨permutedEntries, isPermuted,
              ((entriesPerm.map Prod.fst).nodup_iff).mpr otherNodup, ?_⟩
          rw [← keys.2, sortEntries_perm (entriesPerm.symm.map (sortEntry serde))]
          rwa [map_sortEntry_keys]

/-! ## Only plain variants have the value of a plain document -/

def OrdinaryNode : Document → Prop
  | .object members => ¬ beginsWithToken members
  | _ => True

def InRangeNode : Document → Prop
  | .number literal => InRange literal
  | _ => True

theorem isPlain_iff (tree : Document) :
    IsPlain tree ↔ tree.EveryNode OrdinaryNode ∧ tree.EveryNode InRangeNode := by
  induction tree using JsonTree.induction with
  | step tree below =>
      constructor
      · intro plain
        have each := fun child member => (below child member).mp (plain.child member)
        have here := plain.here
        refine ⟨.intro ?_ fun child member => (each child member).1,
          .intro ?_ fun child member => (each child member).2⟩
        · cases tree with
          | object members => exact here
          | _ => trivial
        · cases tree with
          | number literal => exact here
          | _ => trivial
      · rintro ⟨ordinary, inRange⟩
        refine .intro ?_ fun child member =>
          (below child member).mpr ⟨ordinary.child member, inRange.child member⟩
        cases tree with
        | object members => exact ordinary.here
        | number literal => exact inRange.here
        | _ => trivial

theorem objectCount_sortEntry (entry : Text × Document) :
    (sortEntry serde entry).2.objectCount = entry.2.objectCount := by
  rw [sortEntry]
  split
  · rcases entry with ⟨key, value⟩
    cases value with
    | array attributes =>
        simp only [sortIfArray, objectCount_array]
        exact ((sortAttributes_perm_self attributes).map _).sum_eq
    | _ => rfl
  · rfl

theorem objectCount_sortEntries (entries : List (Text × Document)) :
    (JsonTree.object (sortEntries (entries.map (sortEntry serde)))).objectCount =
      1 + (entries.map fun entry => entry.2.objectCount).sum := by
  rw [objectCount_object, ((sortEntries_self_perm _).map _).sum_eq, map_map]
  congr 2
  apply map_congr_left
  intro entry _
  exact objectCount_sortEntry entry

/-- Only an object that is taken for a number is lost. -/
theorem objectCount_canonicalValue (tree : Document) :
    ∀ result, canonicalValue serde unicode tree = some result →
      result.objectCount ≤ tree.objectCount ∧
        (result.objectCount = tree.objectCount ↔ tree.EveryNode OrdinaryNode) := by
  have leaf : ∀ {leaf result : Document}, leaf.IsLeaf → leaf.children = [] →
      OrdinaryNode leaf → result.objectCount = 0 → leaf.objectCount = 0 →
      result.objectCount ≤ leaf.objectCount ∧
        (result.objectCount = leaf.objectCount ↔ leaf.EveryNode OrdinaryNode) := by
    intro leaf result _ none here zero leafZero
    rw [zero, leafZero]
    refine ⟨le_rfl, fun _ => .intro here fun child member => ?_, fun _ => rfl⟩
    rw [none] at member
    exact absurd member not_mem_nil
  induction tree using JsonTree.induction with
  | step tree below =>
      intro result isResult
      cases tree with
      | null | bool | number | string =>
          simp only [canonicalValue_null, canonicalValue_bool, canonicalValue_number,
            canonicalValue_string] at isResult
          cases isResult
          exact leaf trivial rfl trivial rfl rfl
      | array items =>
          rcases canonicalValue_array.mp isResult with ⟨values, related, rfl⟩
          have smaller : List.Forall₂
              (fun item value : Document => value.objectCount ≤ item.objectCount) items values :=
            imp_of_mem related fun item inItems value _ isValue => (below item inItems value isValue).1
          rw [objectCount_array, objectCount_array]
          refine ⟨sum_le smaller, ?_, ?_⟩
          · intro equal
            have counts := forall₂_of_sum_eq smaller equal
            refine .intro trivial fun item inItems => ?_
            rcases exists_right (Related.both related counts) inItems with
              ⟨value, _, isValue, sameCount⟩
            exact (below item inItems value isValue).2.mp sameCount
          · intro ordinary
            apply sum_eq
            exact imp_of_mem related fun item inItems value _ isValue =>
              (below item inItems value isValue).2.mpr (ordinary.item inItems)
      | object members =>
          by_cases token : beginsWithToken members
          · rcases (canonicalValue_token token).mp isResult with ⟨literal, _, rfl⟩
            rw [objectCount_object]
            refine ⟨Nat.zero_le _, fun equal => ?_, fun ordinary => absurd token ordinary.here⟩
            have zero : (JsonTree.number (serde.normalRead literal)).objectCount = 0 := rfl
            omega
          · rcases (canonicalValue_object token).mp isResult with ⟨entries, related, _, rfl⟩
            have smaller : List.Forall₂ (fun member entry : Text × Document =>
                entry.2.objectCount ≤ member.2.objectCount) members entries :=
              imp_of_mem related fun member inMembers entry _ isEntry =>
                (below member.2 (mem_map_of_mem inMembers) entry.2 isEntry.2).1
            rw [objectCount_sortEntries, objectCount_object]
            refine ⟨Nat.add_le_add_left (sum_le smaller) 1, ?_, ?_⟩
            · intro equal
              have counts := forall₂_of_sum_eq smaller (Nat.add_left_cancel equal)
              refine .intro token fun child inChildren => ?_
              rcases mem_map.mp inChildren with ⟨member, inMembers, rfl⟩
              rcases exists_right (Related.both related counts) inMembers with
                ⟨entry, _, isEntry, sameCount⟩
              exact (below member.2 inChildren entry.2 isEntry.2).2.mp sameCount
            · intro ordinary
              congr 1
              apply sum_eq
              exact imp_of_mem related fun member inMembers entry _ isEntry =>
                (below member.2 (mem_map_of_mem inMembers) entry.2 isEntry.2).2.mpr
                  (ordinary.value inMembers)

theorem objectCount_variant (tree : Document) :
    ∀ {variant : Document}, Variant unicode tree variant →
      variant.objectCount = tree.objectCount := by
  induction tree using JsonTree.induction with
  | step tree below =>
      intro variant isVariant
      cases isVariant with
      | array each =>
          rw [objectCount_array, objectCount_array]
          apply sum_eq
          exact imp_of_mem each fun item inItems _ _ itemVariant =>
            below item inItems itemVariant
      | object each perm =>
          rw [objectCount_object, objectCount_object,
            (perm.symm.map fun entry => entry.2.objectCount).sum_eq]
          congr 1
          apply sum_eq
          refine imp_of_mem each fun member inMembers other _ memberVariant => ?_
          have inChildren : member.2 ∈ (JsonTree.object _).children := mem_map_of_mem inMembers
          cases memberVariant with
          | value _ isVariant => exact below _ inChildren isVariant
          | attributes _ _ itemEach itemPerm =>
              have arrays := below _ inChildren (.array itemEach)
              rw [← arrays]
              simp only [objectCount_array]
              exact (itemPerm.symm.map _).sum_eq
      | _ => rfl

/-- The numbers of a value are in range if and only if those of the document are. -/
theorem inRange_canonicalValue (tree : Document) :
    ∀ result, tree.EveryNode OrdinaryNode → canonicalValue serde unicode tree = some result →
      (result.EveryNode InRangeNode ↔ tree.EveryNode InRangeNode) := by
  have leaf : ∀ {first second : Document}, first.children = [] → second.children = [] →
      (InRangeNode first ↔ InRangeNode second) →
      (first.EveryNode InRangeNode ↔ second.EveryNode InRangeNode) := by
    intro first second noChild noOther here
    constructor
    · refine fun every => .intro (here.mp every.here) fun child member => ?_
      rw [noOther] at member
      exact absurd member not_mem_nil
    · refine fun every => .intro (here.mpr every.here) fun child member => ?_
      rw [noChild] at member
      exact absurd member not_mem_nil
  induction tree using JsonTree.induction with
  | step tree below =>
      intro result ordinary isResult
      cases tree with
      | null | bool | string =>
          simp only [canonicalValue_null, canonicalValue_bool, canonicalValue_string] at isResult
          cases isResult
          exact leaf rfl rfl Iff.rfl
      | number literal =>
          rw [canonicalValue_number] at isResult
          cases isResult
          exact leaf rfl rfl (SerdeJson.inRange_normalRead literal)
      | array items =>
          rcases canonicalValue_array.mp isResult with ⟨values, related, rfl⟩
          constructor
          · refine fun every => .intro trivial fun item inItems => ?_
            rcases exists_right related inItems with ⟨value, inValues, isValue⟩
            exact (below item inItems value (ordinary.item inItems) isValue).mp
              (every.item inValues)
          · refine fun every => .intro trivial fun value inValues => ?_
            rcases exists_of_mem_forall₂ related inValues with ⟨item, inItems, isValue⟩
            exact (below item inItems value (ordinary.item inItems) isValue).mpr
              (every.item inItems)
      | object members =>
          rcases (canonicalValue_object ordinary.here).mp isResult with ⟨entries, related, _, rfl⟩
          have perm := sortEntries_self_perm (entries.map (sortEntry serde))
          have sorted : ∀ entry : Text × Document,
              ((sortEntry serde entry).2.EveryNode InRangeNode ↔
                entry.2.EveryNode InRangeNode) := by
            intro entry
            rw [sortEntry]
            split
            · rcases entry with ⟨key, value⟩
              cases value with
              | array attributes =>
                  have attributesPerm := @sortAttributes_perm_self serde attributes
                  exact ⟨fun every => .intro trivial fun child member =>
                      every.item (attributesPerm.mem_iff.mpr member),
                    fun every => .intro trivial fun child member =>
                      every.item (attributesPerm.mem_iff.mp member)⟩
              | _ => exact Iff.rfl
            · exact Iff.rfl
          constructor
          · refine fun every => .intro trivial fun child inChildren => ?_
            rcases mem_map.mp inChildren with ⟨member, inMembers, rfl⟩
            rcases exists_right related inMembers with ⟨entry, inEntries, isEntry⟩
            have inSorted : sortEntry serde entry ∈ sortEntries (entries.map (sortEntry serde)) :=
              perm.mem_iff.mpr (mem_map_of_mem inEntries)
            exact (below member.2 inChildren entry.2 (ordinary.value inMembers) isEntry.2).mp
              ((sorted entry).mp (every.value inSorted))
          · refine fun every => .intro trivial fun child inChildren => ?_
            rcases mem_map.mp inChildren with ⟨sortedEntry, inSorted, rfl⟩
            rcases mem_map.mp (perm.mem_iff.mp inSorted) with ⟨entry, inEntries, rfl⟩
            rcases exists_of_mem_forall₂ related inEntries with ⟨member, inMembers, isEntry⟩
            exact (sorted entry).mpr ((below member.2 (mem_map_of_mem inMembers) entry.2
              (ordinary.value inMembers) isEntry.2).mpr (every.value inMembers))

/-- A variant with the value of a plain document is plain. -/
theorem isPlain_of_canonicalValue {tree variant result : Document} (plain : IsPlain tree)
    (isVariant : Variant unicode tree variant)
    (isResult : canonicalValue serde unicode tree = some result)
    (sameResult : canonicalValue serde unicode variant = some result) : IsPlain variant := by
  have parts := (isPlain_iff tree).mp plain
  have ordinary : variant.EveryNode OrdinaryNode := by
    apply (objectCount_canonicalValue variant result sameResult).2.mp
    rw [objectCount_variant tree isVariant]
    exact (objectCount_canonicalValue tree result isResult).2.mpr parts.1
  have inRange : result.EveryNode InRangeNode :=
    (inRange_canonicalValue tree result parts.1 isResult).mpr parts.2
  exact (isPlain_iff variant).mpr ⟨ordinary,
    (inRange_canonicalValue variant result ordinary sameResult).mp inRange⟩

end Variants

end NftData.Dedup
