import NftData.Ethereum.BlacklistFile

namespace NftData.Ethereum

open Option

/-! # The image of a metadata document

A search through a document in which containers, lists and all other fields are walked in
turn. It remembers the objects that it has been in. -/

open List

/-- A value of the interpreter. Dictionaries and lists have an address. -/
inductive PyValue where
  | null
  | bool (value : Bool)
  | number (value : ℚ)
  | str (text : Text)
  | dict (address : Nat) (items : List (String × PyValue))
  | list (address : Nat) (items : List PyValue)

variable {value : PyValue} {items : List (String × PyValue)} {key : String}

namespace PyValue

/-- `value.get(key)`. -/
def get? (key : String) (items : List (String × PyValue)) : Option PyValue :=
  (items.find? fun item => item.1 = key).map Prod.snd

theorem mem_of_get? (found : get? key items = some value) : (key, value) ∈ items := by
  rcases map_eq_some_iff.mp found with ⟨⟨name, _⟩, isItem, rfl⟩
  have named : name = key := by simpa using List.find?_some isItem
  exact named ▸ List.mem_of_find?_eq_some isItem

def isTruthy : PyValue → Bool
  | .null => false
  | .bool value => value
  | .number value => value != 0
  | .str text => !text.isEmpty
  | .dict _ items => !items.isEmpty
  | .list _ items => !items.isEmpty

def isDict : PyValue → Bool
  | .dict _ _ => true
  | _ => false

def isList : PyValue → Bool
  | .list _ _ => true
  | _ => false

end PyValue

def imageKeys : List String :=
  ["image", "image_url", "imageurl", "image_uri", "imageuri", "image_data", "image_preview_url",
    "imagepreviewurl", "image_original_url", "imageoriginalurl", "featured_image", "featuredimage"]

def urlKeys : List String :=
  ["originalUrl", "original_url", "cachedUrl", "cached_url", "gateway", "url", "uri", "href", "src",
    "pngUrl", "png_url", "thumbnailUrl", "thumbnail_url"]

def imageFields : List String := ["image", "image_url", "imageUrl", "image_uri", "imageUri"]

def containerKeys : List String :=
  ["properties", "content", "media", "asset", "assets", "collection", "data"]

def listKeys : List String := ["files", "images", "media", "assets"]

def normalizeText : PyValue → Option Text
  | .str text =>
      let text := strip text
      if text.isEmpty || ["null".toList, "none".toList].contains text.toAsciiLowercase then
        none
      else
        some text
  | _ => none

def keyName (key : Text) : Text :=
  Text.toAsciiLowercase <| (strip key).map fun character =>
    if character = '-' ∨ character = ' ' then '_' else character

def IsImageKey (key : String) : Prop := keyName key.toList ∈ imageKeys.map String.toList

def AsksForImage (key : String) : Prop :=
  IsImageKey key ∨ keyName key.toList ∈ urlKeys.map (fun url => keyName url.toList) ∧
    "image".toList <:+: keyName key.toList

instance (key : String) : Decidable (IsImageKey key) := inferInstanceAs (Decidable (_ ∈ _))

instance (key : String) : Decidable (AsksForImage key) := inferInstanceAs (Decidable (_ ∨ _))

theorem asksForImage_iff : AsksForImage key ↔ IsImageKey key := by
  refine or_iff_left fun ⟨isUrl, hasImage⟩ => ?_
  have never : ∀ url ∈ urlKeys.map (fun url => keyName url.toList), ¬ "image".toList <:+: url := by
    decide +kernel
  exact never _ isUrl hasImage

def candidateFromObject (value : PyValue) : Option Text :=
  (normalizeText value).or <|
    match value with
    | .dict _ items =>
        (urlKeys ++ imageFields).findSome? fun key => (PyValue.get? key items).bind normalizeText
    | _ => none

/-- A part of the search: what it yields and where it has been, from where the search has been. -/
abbrev Pass := List Nat → List Text × List Nat

namespace Pass

/-- `yield`, if there is a candidate. -/
def yield (candidates : List Text) : Pass := fun seen => (candidates, seen)

def andThen (first second : Pass) : Pass := fun seen =>
  let (found, seen) := first seen
  let (more, seen) := second seen
  (found ++ more, seen)

def all (passes : List Pass) : Pass := passes.foldr andThen (yield [])

def orElse (candidate : Option Text) (pass : Pass) : Pass :=
  candidate.elim pass fun candidate => yield [candidate]

def when (condition : Bool) (pass : Pass) : Pass := if condition then pass else yield []

def once (address : Nat) (pass : Pass) : Pass := fun seen =>
  if address ∈ seen then ([], seen) else pass (address :: seen)

end Pass

section Search

-- `str(value)` of what is not a text.
variable (spell : PyValue → Text)

/-- `_key_name(item.get(...) or item.get(...) or "")`. -/
def nameOf (keys : List String) (items : List (String × PyValue)) : Text :=
  match keys.findSome? fun key => (PyValue.get? key items).filter PyValue.isTruthy with
  | some (.str text) => keyName text
  | some value => keyName (spell value)
  | none => []

def isImageLike : PyValue → Bool
  | .dict _ items =>
      decide ("image".toList <:+: nameOf spell ["mimeType", "mime_type", "type"] items ∨
        "image".toList <:+: nameOf spell ["kind", "category"] items)
  | _ => false

mutual

/-- `_iter_image_candidates`. -/
def iterImageCandidates : PyValue → Pass
  | .dict address items => .once address <| .all [
      .yield (imageFields.filterMap fun key => (PyValue.get? key items).bind candidateFromObject),
      .all (containerKeys.map fun key => iterField false key items),
      .all (listKeys.map fun key => iterField true key items),
      iterItems items]
  | .list address items => .once address (.andThen (iterEntries true items) (iterEntries false items))
  | .str text => .yield (normalizeText (.str text)).toList
  | .null | .bool _ | .number _ => .yield []

/-- The value of one key, or only a list there. -/
def iterField (onlyList : Bool) (key : String) : List (String × PyValue) → Pass
  | [] => .yield []
  | (name, value) :: items =>
      if name = key then
        .when (!onlyList || value.isList) (iterImageCandidates value)
      else
        iterField onlyList key items

def iterItems : List (String × PyValue) → Pass
  | [] => .yield []
  | (name, value) :: items =>
      .andThen
        (.orElse (if AsksForImage name then candidateFromObject value else none)
          (.when (value.isDict || value.isList) (iterImageCandidates value)))
        (iterItems items)

def iterEntries (imageLike : Bool) : List PyValue → Pass
  | [] => .yield []
  | value :: items =>
      .andThen
        (.when (isImageLike spell value == imageLike)
          (.orElse (candidateFromObject value)
            (.when (value.isDict || value.isList) (iterImageCandidates value))))
        (iterEntries imageLike items)

end

/-- The document of the metadata. A text is parsed first, if it can be. -/
def documentOf (loads : Text → Option PyValue) : PyValue → Option PyValue
  | .null => none
  | .str text => loads text
  | metadata => some metadata

def extractImageUri (loads : Text → Option PyValue) (metadata : PyValue) : Option Text :=
  (documentOf loads metadata).bind fun value => (iterImageCandidates spell value []).1.head?

end Search

/-! ## What is found -/

def FieldOf (value : PyValue) (found : Text) : Prop :=
  ∃ address items, value = .dict address items ∧ ∃ key ∈ urlKeys ++ imageFields, ∃ field,
    (key, field) ∈ items ∧ normalizeText field = some found

/-- Where in a document an image is found. With `plain`, also a text that is the entry of a list
or stands under a container key. -/
inductive FoundIn (plain : Bool) : PyValue → Text → Prop
  | image {address : Nat} {items : List (String × PyValue)} {key : String} {value : PyValue}
      {found : Text} (member : (key, value) ∈ items) (isImage : IsImageKey key)
      (reads : normalizeText value = some found ∨ FieldOf value found) :
      FoundIn plain (.dict address items) found
  | entry {address : Nat} {items : List PyValue} {value : PyValue} {found : Text}
      (member : value ∈ items)
      (reads : plain = true ∧ normalizeText value = some found ∨ FieldOf value found) :
      FoundIn plain (.list address items) found
  | container {address : Nat} {items : List (String × PyValue)} {key : String}
      {value : PyValue} {found : Text} (isPlain : plain = true) (member : (key, value) ∈ items)
      (isContainer : key ∈ containerKeys) (reads : normalizeText value = some found) :
      FoundIn plain (.dict address items) found
  | insideField {address : Nat} {items : List (String × PyValue)} {key : String}
      {value : PyValue} {found : Text} (member : (key, value) ∈ items)
      (inside : FoundIn plain value found) : FoundIn plain (.dict address items) found
  | insideEntry {address : Nat} {items : List PyValue} {value : PyValue} {found : Text}
      (member : value ∈ items) (inside : FoundIn plain value found) :
      FoundIn plain (.list address items) found

variable {found : Text}

theorem not_text_of_nested (nested : (value.isDict || value.isList) = true) :
    normalizeText value ≠ some found := by
  cases value <;> simp_all [PyValue.isDict, PyValue.isList, normalizeText]

theorem text_or_fieldOf (candidate : candidateFromObject value = some found) :
    normalizeText value = some found ∨ FieldOf value found := by
  rcases or_eq_some_iff.mp candidate with text | ⟨-, field⟩
  · exact .inl text
  · cases value with
    | dict address items =>
        rcases List.exists_of_findSome?_eq_some field with ⟨key, isKey, isField⟩
        rcases bind_eq_some_iff.mp isField with ⟨value, isValue, text⟩
        exact .inr ⟨address, items, rfl, key, isKey, value, PyValue.mem_of_get? isValue, text⟩
    | _ => cases field

def Pass.Yields (pass : Pass) (Good : Text → Prop) : Prop :=
  ∀ seen, ∀ found ∈ (pass seen).1, Good found

namespace Pass.Yields

variable {Good Better : Text → Prop} {first second : Pass} {passes : List Pass}
  {candidates : List Text} {address : Nat}

theorem yield (good : ∀ found ∈ candidates, Good found) : (Pass.yield candidates).Yields Good :=
  fun _ => good

theorem andThen (one : first.Yields Good) (two : second.Yields Good) :
    (first.andThen second).Yields Good := by
  intro seen found member
  rcases mem_append.mp member with inFirst | inSecond
  · exact one _ found inFirst
  · exact two _ found inSecond

theorem all (every : ∀ pass ∈ passes, pass.Yields Good) : (Pass.all passes).Yields Good := by
  induction passes with
  | nil => exact yield fun _ => nofun
  | cons pass passes induction =>
      exact andThen (every pass mem_cons_self)
        (induction fun other inside => every other (mem_cons_of_mem _ inside))

theorem once (good : first.Yields Good) : (first.once address).Yields Good := by
  intro seen found member
  rw [Pass.once] at member
  split at member
  · cases member
  · exact good _ found member

theorem orElse {candidate : Option Text} (one : ∀ found ∈ candidate, Good found)
    (two : first.Yields Good) : (Pass.orElse candidate first).Yields Good := by
  cases candidate with
  | none => exact two
  | some candidate => exact yield (forall_mem_singleton.mpr (one candidate rfl))

theorem when {condition : Bool} (good : condition = true → first.Yields Good) :
    (Pass.when condition first).Yields Good := by
  rw [Pass.when]
  split
  · exact good ‹_›
  · exact yield fun _ => nofun

theorem mono (good : first.Yields Good) (weaker : ∀ found, Good found → Better found) :
    first.Yields Better :=
  fun seen found member => weaker found (good seen found member)

end Pass.Yields

section Search

variable {spell : PyValue → Text}

mutual

theorem iterImageCandidates_yields : ∀ value : PyValue,
    (iterImageCandidates spell value).Yields fun found =>
      normalizeText value = some found ∨ FoundIn true value found
  | .dict address items => by
      rw [iterImageCandidates]
      refine .once (.mono (.all ?_) fun _ => Or.inr)
      simp only [forall_mem_cons, not_mem_nil, false_implies, implies_true, and_true]
      refine ⟨.yield fun found member => ?_, .all fun pass member => ?_, .all fun pass member => ?_,
        .mono (iterItems_yields items) ?_⟩
      · rcases mem_filterMap.mp member with ⟨key, isKey, candidate⟩
        rcases bind_eq_some_iff.mp candidate with ⟨value, isValue, candidate⟩
        have named : ∀ key ∈ imageFields, IsImageKey key := by decide +kernel
        exact .image (PyValue.mem_of_get? isValue) (named key isKey) (text_or_fieldOf candidate)
      · rcases mem_map.mp member with ⟨key, isKey, rfl⟩
        refine .mono (iterField_yields false key items) ?_
        rintro found ⟨value, isItem, ⟨-, text⟩ | inside⟩
        · exact .container rfl isItem isKey text
        · exact .insideField isItem inside
      · rcases mem_map.mp member with ⟨key, isKey, rfl⟩
        refine .mono (iterField_yields true key items) ?_
        rintro found ⟨value, isItem, ⟨never, -⟩ | inside⟩
        · cases never
        · exact .insideField isItem inside
      · rintro found ⟨name, value, isItem, ⟨isImage, reads⟩ | inside⟩
        · exact .image isItem isImage reads
        · exact .insideField isItem inside
  | .list address items => by
      rw [iterImageCandidates]
      have every : ∀ imageLike, (iterEntries spell imageLike items).Yields
          (FoundIn true (.list address items)) := by
        intro imageLike
        refine .mono (iterEntries_yields imageLike items) ?_
        rintro found ⟨value, isItem, text | field | inside⟩
        · exact .entry isItem (.inl ⟨rfl, text⟩)
        · exact .entry isItem (.inr field)
        · exact .insideEntry isItem inside
      exact .once (.mono (.andThen (every true) (every false)) fun _ => Or.inr)
  | .str text => by
      rw [iterImageCandidates]
      exact .yield fun found member => .inl (mem_toList.mp member)
  | .null | .bool value | .number value => by
      rw [iterImageCandidates]
      exact .yield fun _ => nofun

theorem iterField_yields (onlyList : Bool) (key : String) :
    ∀ items : List (String × PyValue),
      (iterField spell onlyList key items).Yields fun found => ∃ value, (key, value) ∈ items ∧
        (onlyList = false ∧ normalizeText value = some found ∨ FoundIn true value found)
  | [] => by
      rw [iterField]
      exact .yield fun _ => nofun
  | (name, value) :: items => by
      have here := iterImageCandidates_yields value
      have rest := iterField_yields onlyList key items
      rw [iterField]
      split
      · next named =>
          refine .when fun visited => here.mono fun found reads =>
            ⟨value, named ▸ mem_cons_self, ?_⟩
          refine reads.imp_left fun text => ⟨?_, text⟩
          cases value <;> simp_all [normalizeText, PyValue.isList]
      · exact rest.mono fun found ⟨value, isItem, reads⟩ =>
          ⟨value, mem_cons_of_mem _ isItem, reads⟩

theorem iterItems_yields : ∀ items : List (String × PyValue),
    (iterItems spell items).Yields fun found => ∃ name value, (name, value) ∈ items ∧
      (IsImageKey name ∧ (normalizeText value = some found ∨ FieldOf value found) ∨
        FoundIn true value found)
  | [] => by
      rw [iterItems]
      exact .yield fun _ => nofun
  | (name, value) :: items => by
      have here := iterImageCandidates_yields value
      have rest := iterItems_yields items
      rw [iterItems]
      refine .andThen (.orElse ?_ (.when fun nested => here.mono ?_)) (rest.mono ?_)
      · intro found candidate
        split at candidate
        · next asks => exact ⟨name, value, mem_cons_self,
            .inl ⟨asksForImage_iff.mp asks, text_or_fieldOf candidate⟩⟩
        · cases candidate
      · intro found reads
        exact ⟨name, value, mem_cons_self, .inr (reads.resolve_left (not_text_of_nested nested))⟩
      · rintro found ⟨name, value, isItem, reads⟩
        exact ⟨name, value, mem_cons_of_mem _ isItem, reads⟩

theorem iterEntries_yields (imageLike : Bool) : ∀ items : List PyValue,
    (iterEntries spell imageLike items).Yields fun found => ∃ value ∈ items,
      normalizeText value = some found ∨ FieldOf value found ∨ FoundIn true value found
  | [] => by
      rw [iterEntries]
      exact .yield fun _ => nofun
  | value :: items => by
      have here := iterImageCandidates_yields value
      have rest := iterEntries_yields imageLike items
      rw [iterEntries]
      refine .andThen (.when fun _ => .orElse ?_ (.when fun nested => here.mono ?_)) (rest.mono ?_)
      · exact fun found candidate => ⟨value, mem_cons_self,
          (text_or_fieldOf candidate).imp_right .inl⟩
      · exact fun found reads => ⟨value, mem_cons_self, .inr (.inr
          (reads.resolve_left (not_text_of_nested nested)))⟩
      · rintro found ⟨value, isItem, reads⟩
        exact ⟨value, mem_cons_of_mem _ isItem, reads⟩

end

theorem head?_iterImageCandidates {address : Nat} {text : PyValue}
    (image : PyValue.get? "image" items = some text) (reads : normalizeText text = some found) :
    (iterImageCandidates spell (.dict address items) []).1.head? = some found := by
  have first : candidateFromObject text = some found := by
    unfold candidateFromObject
    rw [reads, some_or]
  rw [iterImageCandidates]
  simp [Pass.once, Pass.all, Pass.andThen, Pass.yield, imageFields, image, first]

/-- What is returned is an image of the document, or a text that is an entry of a list, stands
under a container key or is the document itself. A text in the image field is returned. -/
theorem extractImageUri_found (loads : Text → Option PyValue) (metadata : PyValue) :
    (∀ found, extractImageUri spell loads metadata = some found →
      ∃ value, documentOf loads metadata = some value ∧
        (normalizeText value = some found ∨ FoundIn true value found)) ∧
    ∀ address items text found, documentOf loads metadata = some (.dict address items) →
      PyValue.get? "image" items = some text → normalizeText text = some found →
        extractImageUri spell loads metadata = some found := by
  constructor
  · intro found extracted
    rcases bind_eq_some_iff.mp extracted with ⟨value, isDocument, first⟩
    exact ⟨value, isDocument, iterImageCandidates_yields value [] found (List.mem_of_head? first)⟩
  · intro address items text found isDocument image reads
    rw [extractImageUri, isDocument, bind_some]
    exact head?_iterImageCandidates image reads

theorem extractImageUri_found_collection :
    extractImageUri (fun _ => []) (fun _ => none) (.dict 0 [("image", .str "a".toList)]) =
      some "a".toList :=
  (extractImageUri_found _ _).2 _ _ _ _ rfl rfl (by decide)

/-- The name of a collection is returned, and a text in the image field is not, if it spells the
absence of a value. -/
theorem extractImageUri_collection :
    (∃ metadata found, extractImageUri (fun _ => []) (fun _ => none) metadata = some found ∧
      normalizeText metadata = none ∧ ¬ FoundIn false metadata found) ∧
    ∃ address items, PyValue.get? "image" items = some (.str "none".toList) ∧
      extractImageUri (fun _ => []) (fun _ => none) (.dict address items) =
        some "ipfs://1".toList := by
  constructor
  · refine ⟨.dict 0 [("collection", .str "Cool Cats".toList)], "Cool Cats".toList, ?_, rfl, ?_⟩
    · decide +kernel
    · intro found
      cases found with
      | image member isImage _ =>
          cases mem_singleton.mp member
          exact absurd isImage (by decide)
      | container isPlain _ _ _ => cases isPlain
      | insideField member inside =>
          cases mem_singleton.mp member
          cases inside
  · refine ⟨0, [("image", .str "none".toList), ("image_url", .str "ipfs://1".toList)], rfl, ?_⟩
    decide +kernel

end Search

end NftData.Ethereum
