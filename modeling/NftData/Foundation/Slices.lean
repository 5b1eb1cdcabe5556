import Mathlib

namespace NftData

/-! # Slices of a growing list

A record that stores where its entries start and how many they are keeps its meaning
when entries are appended, and when the whole list is appended to another one, once
its start has been moved. -/

open List

/-- The entries from `start` on, `length` of them, are the slice. -/
structure HasSlice {α : Type*} (values : List α) (start length : Nat) (slice : List α) :
    Prop where
  inside : start + length ≤ values.length
  entries : (values.drop start).take length = slice

namespace HasSlice

variable {α : Type*} {values before after slice : List α} {start length : Nat}

theorem appended (before slice : List α) :
    HasSlice (before ++ slice) before.length slice.length slice := by
  constructor
  · simp
  · rw [drop_left, take_length]

theorem append (has : HasSlice values start length slice) (after : List α) :
    HasSlice (values ++ after) start length slice := by
  have inside := has.inside
  constructor
  · rw [length_append]
    omega
  · rw [drop_append_of_le_length (by omega), take_append_of_le_length, has.entries]
    rw [length_drop]
    omega

theorem shift (has : HasSlice values start length slice) (before : List α) :
    HasSlice (before ++ values) (start + before.length) length slice := by
  have inside := has.inside
  constructor
  · rw [length_append]
    omega
  · rw [Nat.add_comm start, drop_append, drop_of_length_le (by omega),
      nil_append, Nat.add_sub_cancel_left, has.entries]

end HasSlice

end NftData
