import NftData.Foundation.Related
import NftData.Foundation.Sorting
import NftData.Dedup.Metadata.CompactJson

namespace NftData.Dedup

open Option
open Prod (fst)
open Related (collect_eq_some forall₂_comp)

/-! # Canonical documents

A document is read without repeated keys, normalized and printed. -/

open List

/-- `ARBITRARY_PRECISION_NUMBER_TOKEN`. -/
def numberToken : Text := "$serde_json::private::Number".toList

def attributesKey : Text := "attributes".toList

def KeyLE (left right : Text × Document) : Prop := left.1 ≤ right.1

instance : DecidableRel KeyLE := fun left right =>
  inferInstanceAs (Decidable (left.1 ≤ right.1))

instance : Std.Total KeyLE := ⟨fun _ _ => le_total _ _⟩

instance : IsTrans (Text × Document) KeyLE := ⟨fun _ _ _ => le_trans⟩

def sortEntries (entries : List (Text × Document)) : List (Text × Document) :=
  entries.insertionSort KeyLE

/-- `map.get`. -/
def lookup (key : Text) (map : List (Text × Document)) : Option Document :=
  (map.find? fun entry => entry.1 = key).map Prod.snd

def asStr : Document → Option Text
  | .string text => some text
  | _ => none

section Canonical

variable (serde : SerdeJson) (unicode : CaseFolding)

def visitNumberToken : List (Text × Document) → Option Document
  | [(_, .string raw)] => (serde.parseNumber raw).map .number
  | _ => none

def beginsWithToken (members : List (Text × Document)) : Prop :=
  (members.head?.map fst) = some numberToken

instance (members : List (Text × Document)) : Decidable (beginsWithToken members) :=
  inferInstanceAs (Decidable (_ = _))

mutual

/-- `StrictVisitor`: repeated keys are rejected. -/
def strictValue : Document → Option Document
  | .null => some .null
  | .bool value => some (.bool value)
  | .number literal => some (.number (serde.read literal))
  | .string text => some (.string text)
  | .array items => (strictItems items).map .array
  | .object members =>
      if beginsWithToken members then
        visitNumberToken serde members
      else
        (strictMembers members).bind fun entries =>
          if (entries.map fst).Nodup then some (.object (sortEntries entries)) else none

def strictItems : List Document → Option (List Document)
  | [] => some []
  | item :: rest =>
      (strictValue item).bind fun value => (strictItems rest).map (value :: ·)

def strictMembers : List (Text × Document) → Option (List (Text × Document))
  | [] => some []
  | (key, value) :: rest =>
      (strictValue value).bind fun value => (strictMembers rest).map ((key, value) :: ·)

end

def attrKey : Document → Text ×ₗ Text
  | .object map =>
      toLex (((lookup "trait_type".toList map).bind asStr).getD [],
        ((lookup "value".toList map).map serde.print).getD [])
  | value => toLex ([], serde.print value)

def AttrLE (left right : Document) : Prop := attrKey serde left ≤ attrKey serde right

instance : DecidableRel (AttrLE serde) := fun left right =>
  inferInstanceAs (Decidable (attrKey serde left ≤ attrKey serde right))

instance : Std.Total (AttrLE serde) := ⟨fun _ _ => le_total _ _⟩

instance : IsTrans Document (AttrLE serde) := ⟨fun _ _ _ => le_trans⟩

def sortAttributes (attributes : List Document) : List Document :=
  if attributes.length < 2 then attributes else attributes.insertionSort (AttrLE serde)

def sortIfArray : Document → Document
  | .array attributes => .array (sortAttributes serde attributes)
  | other => other

/-- The first entry with the key of the attributes has them sorted. -/
def sortFirstAttributes : List (Text × Document) → List (Text × Document)
  | [] => []
  | (key, value) :: rest =>
      if key = attributesKey then (key, sortIfArray serde value) :: rest
      else (key, value) :: sortFirstAttributes rest

mutual

def normalizeValue : Document → Option Document
  | .string value => some (.string (normalizeString unicode value))
  | .number number => some (.number (normalizeNumber serde.parseNumber number))
  | .array items => (normalizeItems items).map .array
  | .object map =>
      (normalizeMembers map).bind fun entries =>
        if (entries.map fst).Nodup then
          some (.object (sortEntries (sortFirstAttributes serde entries)))
        else none
  | .null => some .null
  | .bool value => some (.bool value)

def normalizeItems : List Document → Option (List Document)
  | [] => some []
  | item :: rest =>
      (normalizeValue item).bind fun value => (normalizeItems rest).map (value :: ·)

def normalizeMembers : List (Text × Document) → Option (List (Text × Document))
  | [] => some []
  | (key, value) :: rest =>
      (normalizeValue value).bind fun value =>
        (normalizeMembers rest).map ((normalizeString unicode key, value) :: ·)

end

def canonicalValue (tree : Document) : Option Document :=
  (strictValue serde tree).bind (normalizeValue serde unicode)

def canonicalizeJson (raw : Text) : Option Text :=
  (serde.parse raw.trim).bind fun tree => (canonicalValue serde unicode tree).map serde.print

end Canonical

section Steps

variable {serde : SerdeJson} {unicode : CaseFolding} {items : List Document} {values : List
  Document}

theorem strictItems_iff :
    strictItems serde items = some values ↔
      List.Forall₂ (fun item value => strictValue serde item = some value) items values :=
  collect_eq_some (by rw [strictItems]) fun _ _ => by rw [strictItems]

theorem normalizeItems_iff :
    normalizeItems serde unicode items = some values ↔
      List.Forall₂ (fun item value => normalizeValue serde unicode item = some value)
        items values :=
  collect_eq_some (by rw [normalizeItems]) fun _ _ => by rw [normalizeItems]

def EntryOf (change : Text → Text) (result : Document → Option Document)
    (member entry : Text × Document) : Prop :=
  entry.1 = change member.1 ∧ result member.2 = some entry.2

theorem entryOf_eq (change : Text → Text) (result : Document → Option Document) :
    EntryOf change result = fun member entry =>
      ((result member.2).map fun value => (change member.1, value)) = some entry := by
  funext member entry
  rcases entry with ⟨key, value⟩
  rw [EntryOf, map_eq_some_iff, eq_iff_iff]
  constructor
  · rintro ⟨rfl, isValue⟩
    exact ⟨value, isValue, rfl⟩
  · rintro ⟨other, isValue, same⟩
    cases same
    exact ⟨rfl, isValue⟩

variable {members entries : List (Text × Document)}

theorem strictMembers_iff :
    strictMembers serde members = some entries ↔
      List.Forall₂ (EntryOf id (strictValue serde)) members entries := by
  rw [entryOf_eq]
  apply collect_eq_some (by rw [strictMembers])
  rintro ⟨key, value⟩ tail
  rw [strictMembers, bind_map]
  rfl

theorem normalizeMembers_iff :
    normalizeMembers serde unicode members = some entries ↔
      List.Forall₂ (EntryOf (normalizeString unicode) (normalizeValue serde unicode))
        members entries := by
  rw [entryOf_eq]
  apply collect_eq_some (by rw [normalizeMembers])
  rintro ⟨key, value⟩ tail
  rw [normalizeMembers, bind_map]
  rfl

variable {result : Document}

theorem canonicalValue_array :
    canonicalValue serde unicode (.array items) = some result ↔
      ∃ values, List.Forall₂ (fun item value => canonicalValue serde unicode item = some value)
        items values ∧ result = .array values := by
  simp only [canonicalValue, strictValue, bind_eq_some_iff, map_eq_some_iff,
    strictItems_iff]
  constructor
  · rintro ⟨_, ⟨values, related, rfl⟩, normalized⟩
    rw [normalizeValue, map_eq_some_iff] at normalized
    rcases normalized with ⟨results, isResults, rfl⟩
    exact ⟨results, forall₂_comp.mpr ⟨values, related, normalizeItems_iff.mp isResults⟩,
      rfl⟩
  · rintro ⟨results, related, rfl⟩
    rcases forall₂_comp.mp related with ⟨values, strict, normalized⟩
    refine ⟨_, ⟨values, strict, rfl⟩, ?_⟩
    rw [normalizeValue, normalizeItems_iff.mpr normalized]
    rfl

/-- Sort the attributes of an entry, if it is the one of the attributes. -/
def sortEntry (serde : SerdeJson) (entry : Text × Document) : Text × Document :=
  if entry.1 = attributesKey then (entry.1, sortIfArray serde entry.2) else entry

@[simp] theorem sortEntry_key (entry : Text × Document) :
    (sortEntry serde entry).1 = entry.1 := by
  rw [sortEntry]
  split <;> rfl

theorem map_sortEntry_keys (entries : List (Text × Document)) :
    (entries.map (sortEntry serde)).map fst = entries.map fst := by
  simp

theorem sortFirstAttributes_eq (nodup : (entries.map fst).Nodup) :
    sortFirstAttributes serde entries = entries.map (sortEntry serde) := by
  induction entries with
  | nil => rfl
  | cons head tail induction =>
      rcases head with ⟨key, value⟩
      rw [map_cons, nodup_cons] at nodup
      rw [sortFirstAttributes, map_cons, sortEntry]
      by_cases isAttributes : key = attributesKey
      · have kept : tail.map (sortEntry serde) = tail := by
          conv_rhs => rw [← map_id tail]
          apply map_congr_left
          intro entry member
          rw [sortEntry, if_neg, id]
          intro alsoAttributes
          exact nodup.1 (mem_map.mpr ⟨entry, member, alsoAttributes.trans isAttributes.symm⟩)
        rw [if_pos isAttributes, if_pos isAttributes, kept]
      · rw [if_neg isAttributes, if_neg isAttributes, induction nodup.2]

theorem sortEntries_perm {first second : List (Text × Document)} (perm : first.Perm second)
    (nodup : (first.map fst).Nodup) : sortEntries first = sortEntries second :=
  insertionSort_eq_of_perm perm fun _ leftMember _ rightMember before after =>
    inj_on_of_nodup_map nodup leftMember rightMember (le_antisymm before after)

theorem sortEntries_self_perm (entries : List (Text × Document)) :
    (sortEntries entries).Perm entries :=
  perm_insertionSort ..

theorem canonicalValue_object (ordinary : ¬ beginsWithToken members) :
    canonicalValue serde unicode (.object members) = some result ↔
      ∃ entries, List.Forall₂
          (EntryOf (normalizeString unicode) (canonicalValue serde unicode)) members entries ∧
        (entries.map fst).Nodup ∧
        result = .object (sortEntries (entries.map (sortEntry serde))) := by
  have twoSteps : ∀ entries : List (Text × Document),
      List.Forall₂ (EntryOf (normalizeString unicode) (canonicalValue serde unicode))
          members entries ↔
        ∃ strict, List.Forall₂ (EntryOf id (strictValue serde)) members strict ∧
          List.Forall₂ (EntryOf (normalizeString unicode) (normalizeValue serde unicode))
            strict entries := by
    intro entries
    rw [← forall₂_comp]
    have steps : (fun member entry : Text × Document => ∃ other,
          EntryOf id (strictValue serde) member other ∧
            EntryOf (normalizeString unicode) (normalizeValue serde unicode) other entry) =
        EntryOf (normalizeString unicode) (canonicalValue serde unicode) := by
      funext member entry
      rw [eq_iff_iff, EntryOf, canonicalValue, bind_eq_some_iff]
      constructor
      · rintro ⟨other, ⟨rawKey, isStrict⟩, key, isNormal⟩
        exact ⟨by rw [key, rawKey]; rfl, other.2, isStrict, isNormal⟩
      · rintro ⟨key, value, isStrict, isNormal⟩
        exact ⟨(member.1, value), ⟨rfl, isStrict⟩, key, isNormal⟩
    rw [steps]
  rw [canonicalValue, strictValue, if_neg ordinary]
  simp only [bind_eq_some_iff, ite_none_right_eq_some, Option.some.injEq,
    strictMembers_iff]
  constructor
  · rintro ⟨_, ⟨strict, isStrict, _, rfl⟩, normalized⟩
    simp only [normalizeValue, bind_eq_some_iff, ite_none_right_eq_some,
      Option.some.injEq, normalizeMembers_iff] at normalized
    rcases normalized with ⟨sorted, isSorted, nodup, rfl⟩
    rcases perm_comp_forall₂ (sortEntries_self_perm strict).symm isSorted with
      ⟨entries, isEntries, perm⟩
    have entriesNodup : (entries.map fst).Nodup :=
      ((perm.map fst).nodup_iff).mpr nodup
    refine ⟨entries, (twoSteps entries).mpr ⟨strict, isStrict, isEntries⟩, entriesNodup, ?_⟩
    rw [sortFirstAttributes_eq nodup, sortEntries_perm (perm.map (sortEntry serde))]
    rwa [map_sortEntry_keys]
  · rintro ⟨entries, isEntries, nodup, rfl⟩
    rcases (twoSteps entries).mp isEntries with ⟨strict, isStrict, isNormal⟩
    rcases perm_comp_forall₂ (sortEntries_self_perm strict) isNormal with
      ⟨sorted, isSorted, perm⟩
    have sortedNodup : (sorted.map fst).Nodup :=
      ((perm.map fst).nodup_iff).mpr nodup
    have keys : entries.map fst =
        (strict.map fst).map (normalizeString unicode) := by
      clear isStrict isSorted perm isEntries nodup
      induction isNormal with
      | nil => rfl
      | cons head _ induction => simp [induction, head.1]
    have strictNodup : (strict.map fst).Nodup := by
      rw [keys] at nodup
      exact nodup.of_map
    refine ⟨_, ⟨strict, isStrict, strictNodup, rfl⟩, ?_⟩
    simp only [normalizeValue, bind_eq_some_iff, ite_none_right_eq_some,
      Option.some.injEq, normalizeMembers_iff]
    refine ⟨sorted, isSorted, sortedNodup, ?_⟩
    rw [sortFirstAttributes_eq sortedNodup, sortEntries_perm (perm.map (sortEntry serde))]
    rwa [map_sortEntry_keys]

theorem canonicalValue_token (token : beginsWithToken members) :
    canonicalValue serde unicode (.object members) = some result ↔
      ∃ literal : NumberLiteral, members = [(numberToken, .string literal.text)] ∧
        result = .number (serde.normalRead literal) := by
  rw [canonicalValue, strictValue, if_pos token]
  constructor
  · intro isResult
    rcases bind_eq_some_iff.mp isResult with ⟨value, visited, normalized⟩
    rw [visitNumberToken.eq_def] at visited
    split at visited
    · next key raw =>
        rcases map_eq_some_iff.mp visited with ⟨number, parsed, rfl⟩
        rcases (serde.parseNumber_iff _ _).mp parsed with ⟨literal, rfl, rfl⟩
        have isToken : key = numberToken := Option.some.inj token
        rw [normalizeValue, Option.some.injEq] at normalized
        exact ⟨literal, by rw [isToken], normalized.symm⟩
    · cases visited
  · rintro ⟨literal, rfl, rfl⟩
    have parsed : serde.parseNumber literal.text = some (serde.read literal) :=
      (serde.parseNumber_iff _ _).mpr ⟨literal, rfl, rfl⟩
    rw [visitNumberToken, parsed]
    rfl

theorem canonicalValue_null : canonicalValue serde unicode .null = some .null := by
  simp [canonicalValue, strictValue, normalizeValue]

theorem canonicalValue_bool (value : Bool) :
    canonicalValue serde unicode (.bool value) = some (.bool value) := by
  simp [canonicalValue, strictValue, normalizeValue]

theorem canonicalValue_number (literal : NumberLiteral) :
    canonicalValue serde unicode (.number literal) = some (.number (serde.normalRead literal)) := by
  simp [canonicalValue, strictValue, normalizeValue, SerdeJson.normalRead]

theorem canonicalValue_string (text : Text) :
    canonicalValue serde unicode (.string text) =
      some (.string (normalizeString unicode text)) := by
  simp [canonicalValue, strictValue, normalizeValue]

/-! ## Canonical documents are canonical -/

def CanonicalNode (serde : SerdeJson) (unicode : CaseFolding) : Document → Prop
  | .number literal =>
      serde.read literal = literal ∧ normalizeNumber serde.parseNumber literal = literal
  | .string text => normalizeString unicode text = text
  | .object members =>
      members.Pairwise KeyLE ∧ (members.map fst).Nodup ∧
        (∀ entry ∈ members, normalizeString unicode entry.1 = entry.1) ∧
        ∀ entry ∈ members, sortEntry serde entry = entry
  | _ => True

def IsCanonical (serde : SerdeJson) (unicode : CaseFolding) (tree : Document) : Prop :=
  tree.EveryNode (CanonicalNode serde unicode)

theorem sortAttributes_perm_self (attributes : List Document) :
    (sortAttributes serde attributes).Perm attributes := by
  rw [sortAttributes]
  split
  · exact .refl _
  · exact perm_insertionSort ..

theorem sortAttributes_sortAttributes (attributes : List Document) :
    sortAttributes serde (sortAttributes serde attributes) = sortAttributes serde attributes := by
  have sorted : (attributes.insertionSort (AttrLE serde)).insertionSort (AttrLE serde) =
      attributes.insertionSort (AttrLE serde) :=
    (pairwise_insertionSort (AttrLE serde) attributes).insertionSort_eq
  by_cases short : attributes.length < 2
  · simp only [sortAttributes, if_pos short]
  · simp only [sortAttributes, if_neg short, length_insertionSort, sorted]

theorem sortEntry_sortEntry (entry : Text × Document) :
    sortEntry serde (sortEntry serde entry) = sortEntry serde entry := by
  by_cases isAttributes : entry.1 = attributesKey
  · simp only [sortEntry, if_pos isAttributes, Prod.mk.injEq, true_and]
    cases entry.2 with
    | array attributes => simp only [sortIfArray, sortAttributes_sortAttributes]
    | _ => rfl
  · have same : sortEntry serde entry = entry := if_neg isAttributes
    rw [same, same]

variable {entry : Text × Document}

theorem IsCanonical.sortEntry (canonical : IsCanonical serde unicode entry.2) :
    IsCanonical serde unicode (sortEntry serde entry).2 := by
  rw [Dedup.sortEntry]
  split
  · rcases entry with ⟨key, value⟩
    cases value with
    | array attributes =>
        refine .intro trivial fun child member => canonical.item ?_
        exact (sortAttributes_perm_self attributes).mem_iff.mp member
    | _ => exact canonical
  · exact canonical

/-- The value of a document is canonical. -/
theorem isCanonical_of_canonicalValue (tree : Document) :
    ∀ result, canonicalValue serde unicode tree = some result →
      IsCanonical serde unicode result := by
  have leaf : ∀ {leaf : Document}, leaf.children = [] → CanonicalNode serde unicode leaf →
      IsCanonical serde unicode leaf := by
    intro leaf none here
    refine .intro here fun child member => ?_
    rw [none] at member
    exact absurd member not_mem_nil
  induction tree using JsonTree.induction with
  | step tree below =>
      intro result isResult
      cases tree with
      | null | bool =>
          simp only [canonicalValue_null, canonicalValue_bool] at isResult
          cases isResult
          exact leaf rfl trivial
      | number literal =>
          rw [canonicalValue_number] at isResult
          cases isResult
          exact leaf rfl (SerdeJson.normalRead_fixed literal)
      | string text =>
          rw [canonicalValue_string] at isResult
          cases isResult
          exact leaf rfl (normalizeString_normalizeString unicode text)
      | array items =>
          rcases canonicalValue_array.mp isResult with ⟨values, related, rfl⟩
          refine .intro trivial fun child member => ?_
          rcases exists_of_mem_forall₂ related member with ⟨item, inItems, isChild⟩
          exact below item inItems child isChild
      | object members =>
          by_cases token : beginsWithToken members
          · rcases (canonicalValue_token token).mp isResult with ⟨literal, rfl, rfl⟩
            exact leaf rfl (SerdeJson.normalRead_fixed literal)
          · rcases (canonicalValue_object token).mp isResult with ⟨entries, related, nodup, rfl⟩
            have perm := sortEntries_self_perm (entries.map (sortEntry serde))
            have sorted : ∀ entry ∈ sortEntries (entries.map (sortEntry serde)),
                ∃ original ∈ entries, sortEntry serde original = entry :=
              fun entry member => mem_map.mp (perm.mem_iff.mp member)
            refine .intro ⟨pairwise_insertionSort .., ?_, ?_, ?_⟩ ?_
            · rw [(perm.map fst).nodup_iff, map_sortEntry_keys]
              exact nodup
            · intro entry member
              rcases sorted entry member with ⟨original, inEntries, rfl⟩
              rcases exists_of_mem_forall₂ related inEntries with ⟨source, _, key, _⟩
              rw [sortEntry_key, key, normalizeString_normalizeString]
            · intro entry member
              rcases sorted entry member with ⟨original, _, rfl⟩
              exact sortEntry_sortEntry original
            · intro child member
              rcases mem_map.mp member with ⟨entry, inObject, rfl⟩
              rcases sorted entry inObject with ⟨original, inEntries, rfl⟩
              rcases exists_of_mem_forall₂ related inEntries with ⟨source, inMembers, _, isValue⟩
              apply IsCanonical.sortEntry
              exact below source.2 (mem_map_of_mem inMembers) original.2 isValue

theorem not_beginsWithToken {members : List (Text × Document)}
    (normal : ∀ entry ∈ members, normalizeString unicode entry.1 = entry.1) :
    ¬ beginsWithToken members := by
  intro token
  cases members with
  | nil => cases token
  | cons head tail =>
      have isToken : head.1 = numberToken := Option.some.inj token
      have capital : 'N' ∈ normalizeString unicode head.1 := by
        rw [normal head mem_cons_self, isToken]
        decide
      exact absurd (not_isUpper_normalizeString unicode capital) (by decide)

/-- A canonical document is its own value. -/
theorem canonicalValue_of_isCanonical (tree : Document) :
    IsCanonical serde unicode tree → canonicalValue serde unicode tree = some tree := by
  induction tree using JsonTree.induction with
  | step tree below =>
      intro canonical
      cases tree with
      | null => exact canonicalValue_null
      | bool value => exact canonicalValue_bool value
      | number literal =>
          have fixed : serde.normalRead literal = literal := by
            rw [SerdeJson.normalRead, canonical.here.1, canonical.here.2]
          rw [canonicalValue_number, fixed]
      | string text =>
          have fixed : normalizeString unicode text = text := canonical.here
          rw [canonicalValue_string, fixed]
      | array items =>
          refine canonicalValue_array.mpr ⟨items, forall₂_same.mpr ?_, rfl⟩
          exact fun item member => below item member (canonical.item member)
      | object members =>
          rcases canonical.here with ⟨sorted, nodup, normal, attributes⟩
          have kept : members.map (sortEntry serde) = members := by
            conv_rhs => rw [← map_id members]
            exact map_congr_left attributes
          refine (canonicalValue_object (not_beginsWithToken normal)).mpr
            ⟨members, forall₂_same.mpr ?_, nodup, ?_⟩
          · intro entry member
            exact ⟨(normal entry member).symm,
              below entry.2 (mem_map_of_mem member) (canonical.value member)⟩
          · rw [kept, sortEntries, sorted.insertionSort_eq]

variable {tree : Document}

theorem isLeaf_canonicalValue (leaf : tree.IsLeaf)
    (isResult : canonicalValue serde unicode tree = some result) : result.IsLeaf := by
  cases tree with
  | null | bool | number | string =>
      simp only [canonicalValue_null, canonicalValue_bool, canonicalValue_number,
        canonicalValue_string] at isResult
      cases isResult
      exact trivial
  | array items | object members => exact leaf.elim

variable {depth : Nat}

theorem withinDepth_sortEntry (within : entry.2.WithinDepth depth) :
    (sortEntry serde entry).2.WithinDepth depth := by
  rw [sortEntry]
  split
  · rcases entry with ⟨key, value⟩
    cases value with
    | array attributes =>
        cases depth with
        | zero => exact within.elim
        | succ depth =>
            intro child member
            exact within child ((sortAttributes_perm_self attributes).mem_iff.mp member)
    | _ => exact within
  · exact within

theorem withinDepth_canonicalValue (within : tree.WithinDepth depth)
    (isResult : canonicalValue serde unicode tree = some result) : result.WithinDepth depth := by
  induction depth generalizing tree result with
  | zero => exact isLeaf_canonicalValue within isResult
  | succ depth induction =>
      cases tree with
      | array items =>
          rcases canonicalValue_array.mp isResult with ⟨values, related, rfl⟩
          intro child member
          rcases exists_of_mem_forall₂ related member with ⟨item, inItems, isChild⟩
          exact induction (within item inItems) isChild
      | object members =>
          by_cases token : beginsWithToken members
          · rcases (canonicalValue_token token).mp isResult with ⟨literal, rfl, rfl⟩
            have leaf : (JsonTree.number (serde.normalRead literal)).IsLeaf := trivial
            exact leaf.withinDepth _
          · rcases (canonicalValue_object token).mp isResult with ⟨entries, related, nodup, rfl⟩
            intro child member
            rcases mem_map.mp member with ⟨entry, inObject, rfl⟩
            rcases mem_map.mp ((sortEntries_self_perm _).mem_iff.mp inObject) with
              ⟨original, inEntries, rfl⟩
            rcases exists_of_mem_forall₂ related inEntries with ⟨source, inMembers, _, isValue⟩
            apply withinDepth_sortEntry
            exact induction (within source.2 (mem_map_of_mem inMembers)) isValue
      | _ =>
          apply JsonTree.IsLeaf.withinDepth
          apply isLeaf_canonicalValue _ isResult
          exact trivial

end Steps

/-- Canonical text is its own canonical text. -/
theorem canonicalizeJson_idempotent (serde : SerdeJson) (unicode : CaseFolding) (raw out : Text)
    (accepted : canonicalizeJson serde unicode raw = some out) :
    canonicalizeJson serde unicode out = some out := by
  rcases bind_eq_some_iff.mp accepted with ⟨tree, parsed, printed⟩
  rcases map_eq_some_iff.mp printed with ⟨value, isValue, rfl⟩
  have within := withinDepth_canonicalValue (serde.within_parse _ _ parsed) isValue
  have again := canonicalValue_of_isCanonical value (isCanonical_of_canonicalValue tree value isValue)
  rw [canonicalizeJson, serde.parse_print value within, bind_some, again]
  rfl

/-- `{"Name":" A ","Id":true}`. -/
def namedDocument : Document :=
  .object [("Name".toList, .string " A ".toList), ("Id".toList, .bool true)]

/-- `{"id":true,"name":"a"}`. -/
def namedResult : Document :=
  .object [("id".toList, .bool true), ("name".toList, .string ['a'])]

theorem parse_namedDocument :
    compactJson.parse (compactJson.print namedDocument).trim = some namedDocument :=
  compactJson.parse_print namedDocument fun child member => by
    rcases mem_cons.mp member with rfl | inTail
    · exact @JsonTree.IsLeaf.withinDepth _ (.string " A ".toList) trivial _
    · rw [mem_singleton.mp inTail]
      exact @JsonTree.IsLeaf.withinDepth _ (.bool true) trivial _

theorem canonicalizeJson_named :
    canonicalizeJson compactJson asciiFolding (compactJson.print namedDocument) =
      some (compactJson.print namedResult) := by
  have value : canonicalValue compactJson asciiFolding namedDocument = some namedResult := rfl
  rw [canonicalizeJson, parse_namedDocument, bind_some, value]
  rfl

theorem canonicalizeJson_idempotent_named :
    canonicalizeJson compactJson asciiFolding
        (compactJson.print (.object [("id".toList, .bool true), ("name".toList, .string ['a'])])) =
      some (compactJson.print
        (.object [("id".toList, .bool true), ("name".toList, .string ['a'])])) :=
  canonicalizeJson_idempotent compactJson asciiFolding (compactJson.print namedDocument)
    (compactJson.print namedResult) canonicalizeJson_named

end NftData.Dedup
