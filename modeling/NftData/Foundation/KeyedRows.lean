import Mathlib

namespace NftData

/-! # Tables with a unique key

A database table with a unique key, and the insertion that skips rows whose key is taken. -/

open List

section KeyedRows

variable {Row Key : Type*} [DecidableEq Key] (key : Row → Key)

/-- `INSERT .. ON CONFLICT (key) DO NOTHING` of one row. -/
def insertNew (rows : List Row) (row : Row) : List Row :=
  if key row ∈ rows.map key then rows else rows ++ [row]

/-- `INSERT .. VALUES .. ON CONFLICT (key) DO NOTHING`. -/
def insertAll (rows incoming : List Row) : List Row := incoming.foldl (insertNew key) rows

variable {key} {rows : List Row} {other row : Row}

theorem mem_of_mem_insertNew (member : other ∈ insertNew key rows row) :
    other ∈ rows ∨ other = row := by
  rw [insertNew] at member
  split at member
  · exact .inl member
  · simpa using member

theorem mem_insertNew_of_mem (member : other ∈ rows) :
    other ∈ insertNew key rows row := by
  rw [insertNew]
  split
  · exact member
  · exact mem_append_left _ member

theorem key_mem_insertNew (rows : List Row) (row : Row) :
    key row ∈ (insertNew key rows row).map key := by
  rw [insertNew]
  split
  · next taken => exact taken
  · simp

theorem nodup_insertNew (nodup : (rows.map key).Nodup) (row : Row) :
    ((insertNew key rows row).map key).Nodup := by
  rw [insertNew]
  split
  · exact nodup
  · next free =>
      rw [map_append, nodup_append]
      refine ⟨nodup, nodup_singleton _, ?_⟩
      intro left leftMember right rightMember equal
      rw [mem_singleton.mp rightMember] at equal
      exact free (equal ▸ leftMember)

variable {incoming : List Row}

theorem mem_of_mem_insertAll (member : other ∈ insertAll key rows incoming) :
    other ∈ rows ∨ other ∈ incoming := by
  induction incoming generalizing rows with
  | nil => exact .inl member
  | cons row incoming induction =>
      rcases induction member with early | late
      · rcases mem_of_mem_insertNew early with known | equal
        · exact .inl known
        · exact .inr (equal ▸ mem_cons_self)
      · exact .inr (mem_cons_of_mem _ late)

theorem mem_insertAll_of_mem (incoming : List Row) (member : other ∈ rows) :
    other ∈ insertAll key rows incoming := by
  induction incoming generalizing rows with
  | nil => exact member
  | cons row incoming induction => exact induction (mem_insertNew_of_mem member)

theorem key_mem_insertAll (member : row ∈ incoming) :
    key row ∈ (insertAll key rows incoming).map key := by
  induction incoming generalizing rows with
  | nil => cases member
  | cons head incoming induction =>
      rcases mem_cons.mp member with isHead | inRest
      · have taken : key head ∈ (insertNew key rows head).map key := key_mem_insertNew rows head
        rcases mem_map.mp taken with ⟨kept, inside, equal⟩
        rw [isHead, ← equal]
        exact mem_map_of_mem (mem_insertAll_of_mem incoming inside)
      · exact induction inRest

theorem nodup_insertAll (nodup : (rows.map key).Nodup) (incoming : List Row) :
    ((insertAll key rows incoming).map key).Nodup := by
  induction incoming generalizing rows with
  | nil => exact nodup
  | cons row incoming induction => exact induction (nodup_insertNew nodup row)

end KeyedRows

end NftData
