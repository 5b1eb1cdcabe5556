import NftData.Foundation.Guarded
import NftData.Dedup.Entity.Store

namespace NftData.Dedup.Direct

/-! # Interned texts

Worker threads intern the texts of the selected anchors in shared tables, which number
every text at its first use. -/

open List

def tokenKeyIdCapacity : Nat := 2 ^ 32
def documentIdCapacity : Nat := 2 ^ 32

def metadataError {α : Type} (message : String) : Except DedupError α :=
  .error (.invalid "metadata".toList message.toList)

/-- `UInt::try_from(value)` in the metadata stage. -/
def checked (capacity value : Nat) (message : String) : Except DedupError Nat :=
  if value < capacity then .ok value else metadataError message

theorem metadataError_guarded {α : Type} {Post : α → Prop} (message : String) :
    Guarded .panicked Post (metadataError message) := by
  intro equal
  cases equal

theorem checked_guarded (capacity value : Nat) (message : String) :
    Guarded .panicked (fun id => id = value ∧ value < capacity)
      (checked capacity value message) := by
  unfold checked
  split
  · next fits => exact ⟨rfl, fits⟩
  · exact metadataError_guarded message

variable {position : Nat}

theorem indexed_guarded {α : Type} {values : List α} (inside : position < values.length) :
    Guarded .panicked (fun value => values[position]? = some value)
      (indexed values position) := by
  have found := List.getElem?_eq_getElem inside
  rw [indexed_eq_ok found]
  exact found

theorem indexed_panicked {α : Type} {values : List α} (outside : values.length ≤ position) :
    indexed values position = .error .panicked := by
  rw [indexed, List.getElem?_eq_none outside]

/-- A table after all its calls. The threads decide the order of the numbers: every
numbering of the texts can be the outcome, and a text keeps its number. -/
structure Interner (calls : List Text) where
  values : List Text
  nodup : values.Nodup
  mem_iff : ∀ value, value ∈ values ↔ value ∈ calls

namespace Interner

variable {calls : List Text} (interner : Interner calls)

def inOrder (calls : List Text) : Interner calls where
  values := calls.dedup
  nodup := nodup_dedup calls
  mem_iff := fun _ => mem_dedup

def intern (capacity : Nat) (message : String) (value : Text) : Except DedupError Nat :=
  checked capacity (interner.values.idxOf value) message

theorem intern_guarded (capacity : Nat) (message : String) {value : Text}
    (called : value ∈ calls) :
    Guarded .panicked (fun id => id < interner.values.length ∧ id < capacity)
      (interner.intern capacity message value) := by
  apply (checked_guarded capacity _ message).weaken
  rintro id ⟨equal, fits⟩
  rw [equal]
  exact ⟨idxOf_lt_length_of_mem ((interner.mem_iff value).mpr called), fits⟩

end Interner

def normalizedEvmToken (token : Text) : Text :=
  let trimmed := token.trim
  if trimmed.all Text.isAsciiDigit then
    let magnitude := trimmed.dropWhile (· == '0')
    if magnitude.isEmpty then "0".toList else magnitude
  else
    token

def tokenKeyOrder (left right : Text) : Ordering :=
  (compareTokenIds left right true).then (cmp left right)

/-- `TokenInterner::into_ordered_remap`: the rank of every token, by its number. -/
def intoOrderedRemap {calls : List Text} (tokens : Interner calls) :
    Except DedupError (List Nat) :=
  let ordered := tokens.values.zipIdx.insertionSort fun left right =>
    (tokenKeyOrder left.1 right.1).isLE
  ordered.zipIdx.foldlM
    (fun remap entry => do
      let orderedId ← checked tokenKeyIdCapacity entry.2 "too many metadata token IDs"
      EntityStore.assign remap entry.1.2 orderedId)
    (List.replicate tokens.values.length 0)

/-- The remap table has an entry for every token, and its entries are ranks. -/
structure Remaps (count : Nat) (remap : List Nat) : Prop where
  length_eq : remap.length = count
  below : ∀ rank ∈ remap, rank < count

theorem assign_guarded {values : List Nat} {value : Nat} (inside : position < values.length) :
    Guarded .panicked (fun assigned => assigned = values.set position value)
      (EntityStore.assign values position value) := by
  rw [EntityStore.assign, if_pos inside]
  exact rfl

theorem intoOrderedRemap_guarded {calls : List Text} (tokens : Interner calls) :
    Guarded .panicked (Remaps tokens.values.length) (intoOrderedRemap tokens) := by
  have permuted := perm_insertionSort
    (fun left right : Text × Nat => (tokenKeyOrder left.1 right.1).isLE) tokens.values.zipIdx
  apply Guarded.foldlM
  · intro remap entry member remaps
    rcases entry with ⟨⟨text, oldId⟩, orderedId⟩
    have orderedAt := List.mem_zipIdx_iff_getElem?.mp member
    have orderedLt := (List.getElem?_eq_some_iff.mp orderedAt).1
    rw [length_insertionSort, length_zipIdx] at orderedLt
    have inValues : (text, oldId) ∈ tokens.values.zipIdx :=
      permuted.mem_iff.mp (mem_of_getElem? orderedAt)
    have oldLt : oldId < tokens.values.length :=
      (List.getElem?_eq_some_iff.mp (List.mem_zipIdx_iff_getElem?.mp inValues)).1
    apply (checked_guarded _ _ _).bind
    rintro rank _ ⟨isRank, _⟩
    apply (assign_guarded (remaps.length_eq.symm ▸ oldLt)).weaken
    intro assigned isSet
    subst isSet
    refine ⟨(length_set ..).trans remaps.length_eq, ?_⟩
    intro other inSet
    rcases mem_or_eq_of_mem_set inSet with old | new
    · exact remaps.below other old
    · rw [new, isRank]
      exact orderedLt
  · refine ⟨length_replicate, ?_⟩
    intro rank inside
    rcases mem_replicate.mp inside with ⟨nonempty, isZero⟩
    omega

end NftData.Dedup.Direct
