import Mathlib

namespace NftData

/-! # Maps and the keys of a kind

A map from keys to values, and the list of the keys whose values have some property. State
machines count such keys, and hand them from one list to the next. -/

open List

section KeyedMap

variable {Key Value : Type*}

abbrev KeyedMap (Key Value : Type*) := AList fun _ : Key => Value

def keysWhere (holds : Value → Bool) (map : KeyedMap Key Value) : List Key :=
  (map.entries.filter fun entry => holds entry.2).map Sigma.fst

theorem nodup_keysWhere (holds : Value → Bool) (map : KeyedMap Key Value) :
    (keysWhere holds map).Nodup :=
  map.keys_nodup.sublist (filter_sublist.map _)

theorem length_keysWhere_add {holds other : Value → Bool} (map : KeyedMap Key Value)
    (opposite : ∀ value, other value = !holds value) :
    (keysWhere holds map).length + (keysWhere other map).length = map.entries.length := by
  have same : other = fun value => !holds value := funext opposite
  rw [same, keysWhere, keysWhere, length_map, length_map]
  exact (length_eq_length_filter_add fun entry : (_ : Key) × Value =>
    holds entry.2).symm

variable [DecidableEq Key] {holds : Value → Bool} {map : KeyedMap Key Value} {key : Key}
  {value : Value}

theorem keysWhere_insert (holds : Value → Bool) (map : KeyedMap Key Value) (key : Key)
    (value : Value) :
    keysWhere holds (map.insert key value) =
      (if holds value then [key] else []) ++ keysWhere holds (map.erase key) := by
  rw [keysWhere, keysWhere, AList.entries_insert, filter_cons]
  split <;> rfl

theorem keysWhere_erase (found : map.lookup key = some value) :
    (keysWhere holds map).Perm
      ((if holds value then [key] else []) ++ keysWhere holds (map.erase key)) := by
  have inKeys : key ∈ map.entries.keys := by
    have isSome : (map.lookup key).isSome := by
      rw [found]
      rfl
    exact AList.lookup_isSome.mp isSome
  rcases exists_of_kerase inKeys with ⟨inner, front, back, notFront, entries, erased⟩
  have isValue : inner = value := by
    rw [AList.lookup, entries, dlookup_append] at found
    rw [dlookup_eq_none.mpr notFront, dlookup_cons_eq] at found
    exact Option.some.inj found
  have erasedEntries : (map.erase key).entries = front ++ back := erased
  rw [keysWhere, keysWhere, entries, erasedEntries, isValue, filter_append,
    filter_append, map_append, map_append, filter_cons]
  split
  · exact perm_middle
  · exact .refl _

theorem erase_of_lookup_eq_none (missing : map.lookup key = none) : map.erase key = map := by
  apply AList.ext
  exact kerase_of_notMem_keys (AList.lookup_eq_none.mp missing)

theorem mem_keysWhere :
    key ∈ keysWhere holds map ↔ ∃ value, map.lookup key = some value ∧ holds value = true := by
  rw [keysWhere, mem_map]
  constructor
  · intro member
    rcases member with ⟨entry, kept, isKey⟩
    rcases mem_filter.mp kept with ⟨inEntries, isKind⟩
    refine ⟨entry.2, ?_, isKind⟩
    rw [← isKey]
    exact AList.mem_lookup_iff.mpr inEntries
  · intro known
    rcases known with ⟨value, found, isKind⟩
    exact ⟨⟨key, value⟩, mem_filter.mpr ⟨AList.mem_lookup_iff.mp found, isKind⟩, rfl⟩

/-- The key as a list, where there is a value with the property. -/
def keyIf (holds : Value → Bool) (key : Key) : Option Value → List Key
  | none => []
  | some value => if holds value then [key] else []

/-- At one key, an old value or its absence is replaced by a new one. -/
structure Replaced (map next : KeyedMap Key Value) (key : Key) (old new : Option Value) :
    Prop where
  before : map.lookup key = old
  after : next = match new with
    | none => map.erase key
    | some value => map.insert key value

namespace Replaced

variable {next : KeyedMap Key Value} {old new : Option Value} {other : Key}

theorem inserted (map : KeyedMap Key Value) (key : Key) (value : Value) :
    Replaced map (map.insert key value) key (map.lookup key) (some value) := ⟨rfl, rfl⟩

theorem erased (map : KeyedMap Key Value) (key : Key) :
    Replaced map (map.erase key) key (map.lookup key) none := ⟨rfl, rfl⟩

section

variable (replaced : Replaced map next key old new)
include replaced

theorem lookup_self : next.lookup key = new := by
  rw [replaced.after]
  cases new with
  | none => exact AList.lookup_erase key map
  | some value => exact AList.lookup_insert map

theorem lookup_ne (different : other ≠ key) :
    next.lookup other = map.lookup other := by
  rw [replaced.after]
  cases new with
  | none => exact AList.lookup_erase_ne different
  | some value => exact AList.lookup_insert_ne different

theorem keysWhere_before (holds : Value → Bool) :
    (keysWhere holds map).Perm (keyIf holds key old ++ keysWhere holds (map.erase key)) := by
  cases isOld : old with
  | none =>
      rw [erase_of_lookup_eq_none (isOld ▸ replaced.before)]
      exact .refl _
  | some value => exact keysWhere_erase (isOld ▸ replaced.before)

theorem keysWhere_after (holds : Value → Bool) :
    keysWhere holds next = keyIf holds key new ++ keysWhere holds (map.erase key) := by
  rw [replaced.after]
  cases new with
  | none => rfl
  | some value => exact keysWhere_insert holds map key value

theorem perm (holds : Value → Bool) :
    (keyIf holds key old ++ keysWhere holds next).Perm
      (keyIf holds key new ++ keysWhere holds map) := by
  rw [replaced.keysWhere_after holds]
  refine List.Perm.trans ?_ ((replaced.keysWhere_before holds).symm.append_left _)
  rw [← List.append_assoc, ← List.append_assoc]
  exact perm_append_comm.append_right _

theorem length (holds : Value → Bool) :
    (keyIf holds key old).length + (keysWhere holds next).length =
      (keyIf holds key new).length + (keysWhere holds map).length := by
  have same := (replaced.perm holds).length_eq
  rwa [length_append, length_append] at same

theorem perm_of_same (same : keyIf holds key old = keyIf holds key new) :
    (keysWhere holds next).Perm (keysWhere holds map) := by
  have both := replaced.perm holds
  rw [same] at both
  exact (perm_append_left_iff _).mp both

theorem mem_keysWhere_next (member : other ∈ keysWhere holds next) :
    (other ≠ key ∧ other ∈ keysWhere holds map) ∨
      (other = key ∧ ∃ value ∈ new, holds value = true) := by
  rcases mem_keysWhere.mp member with ⟨value, found, isKind⟩
  by_cases same : other = key
  · rw [same, replaced.lookup_self] at found
    exact .inr ⟨same, value, found, isKind⟩
  · rw [replaced.lookup_ne same] at found
    exact .inl ⟨same, mem_keysWhere.mpr ⟨value, found, isKind⟩⟩

end

end Replaced

end KeyedMap

end NftData
