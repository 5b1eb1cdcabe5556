import Mathlib

namespace NftData

open Option

/-! # The last entry of a key

Entries are written into a table one after the other, so a key holds what was written last.
An entry without a key is not written. -/

open List

section

variable {Entry Key : Type*} [DecidableEq Key] (keyOf : Entry → Option Key)

def lastByKey (entries : List Entry) (key : Key) : Option Entry :=
  entries.reverse.find? fun entry => decide (keyOf entry = some key)

@[simp] theorem lastByKey_nil (key : Key) : lastByKey keyOf [] key = none := rfl

theorem lastByKey_concat (entries : List Entry) (entry : Entry) (key : Key) :
    lastByKey keyOf (entries ++ [entry]) key =
      if keyOf entry = some key then some entry else lastByKey keyOf entries key := by
  rw [lastByKey, reverse_concat, List.find?_cons]
  by_cases written : keyOf entry = some key
  · rw [if_pos written, decide_eq_true written]
  · rw [if_neg written, decide_eq_false written, lastByKey]

variable {keyOf} {entries : List Entry} {key : Key} {entry : Entry}

theorem mem_of_lastByKey (found : lastByKey keyOf entries key = some entry) : entry ∈ entries :=
  mem_reverse.mp (List.mem_of_find?_eq_some found)

theorem key_of_lastByKey (found : lastByKey keyOf entries key = some entry) :
    keyOf entry = some key := by
  simpa using List.find?_some found

theorem lastByKey_eq_none_iff :
    lastByKey keyOf entries key = none ↔ ∀ entry ∈ entries, keyOf entry ≠ some key := by
  simp [lastByKey, List.find?_eq_none]

theorem lastByKey_filter (keep : Entry → Bool)
    (kept : ∀ entry ∈ entries, keyOf entry = some key → keep entry = true) :
    lastByKey keyOf (entries.filter keep) key = lastByKey keyOf entries key := by
  induction entries using List.reverseRecOn with
  | nil => rfl
  | append_singleton entries entry induction =>
      have before := induction fun other member =>
        kept other (mem_append_left _ member)
      have last := kept entry (by simp)
      cases isKept : keep entry with
      | true => simp only [filter_append, filter_singleton, isKept, cond_true,
          lastByKey_concat, before]
      | false =>
          rw [lastByKey_concat, if_neg fun isKey => absurd (last isKey) (by simp [isKept]),
            ← before, filter_append, filter_singleton, isKept, cond_false,
            append_nil]

theorem lastByKey_of_unique (member : entry ∈ entries) (isKey : keyOf entry = some key)
    (unique : ∀ other ∈ entries, keyOf other = some key → other = entry) :
    lastByKey keyOf entries key = some entry := by
  cases found : lastByKey keyOf entries key with
  | none => exact absurd isKey (lastByKey_eq_none_iff.mp found entry member)
  | some other => rw [unique other (mem_of_lastByKey found) (key_of_lastByKey found)]

def placeEntries {Value : Type*} (written : Entry → Option (Nat × Value)) (start : List Value)
    (entries : List Entry) : List Value :=
  entries.foldl
    (fun values entry =>
      match written entry with
      | some (place, value) => values.set place value
      | none => values) start

theorem length_placeEntries {Value : Type*} (written : Entry → Option (Nat × Value))
    (start : List Value) (entries : List Entry) :
    (placeEntries written start entries).length = start.length := by
  induction entries generalizing start with
  | nil => rfl
  | cons entry entries induction =>
      rw [placeEntries, foldl_cons, ← placeEntries, induction]
      split <;> simp

/-- Every position holds what was written there last. -/
theorem getElem?_placeEntries {Value : Type*} (written : Entry → Option (Nat × Value))
    (start : List Value) (entries : List Entry) (index : Nat) :
    (placeEntries written start entries)[index]? =
      start[index]?.map fun old =>
        ((lastByKey (fun entry => (written entry).map Prod.fst) entries index).bind fun entry =>
          (written entry).map Prod.snd).getD old := by
  induction entries using List.reverseRecOn with
  | nil => simp [placeEntries]
  | append_singleton entries entry induction =>
      rw [placeEntries, foldl_concat, ← placeEntries, lastByKey_concat]
      cases isWritten : written entry with
      | none => simpa using induction
      | some place =>
          by_cases here : place.1 = index
          · have inside := length_placeEntries written start entries
            simp only [← here, List.getElem?_set, if_true, inside, map_some, isWritten,
              bind_some, getD_some]
            split
            · next bound => rw [List.getElem?_eq_getElem bound, map_some]
            · next outside => rw [List.getElem?_eq_none (by omega), map_none]
          · rw [map_some, if_neg (by simpa using here), List.getElem?_set_ne here,
              induction]

end

end NftData
