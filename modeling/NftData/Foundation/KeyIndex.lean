import Mathlib

namespace NftData

/-! ## Position tables

A program that numbers the distinct keys it meets keeps two tables: the keys in
the order of their numbers, and a hash map from each key back to its number.
The second is modelled by its lookup function. -/

/-- `lookup` maps every key to its position in `keys`, and nothing else. -/
def IsInverse {Key : Type*} (keys : List Key) (lookup : Key → Option Nat) : Prop :=
  ∀ key position, lookup key = some position ↔ keys[position]? = some key

namespace IsInverse

variable {Key : Type*} {keys : List Key} {lookup : Key → Option Nat} {key : Key}

section

variable (inverse : IsInverse keys lookup)
include inverse

theorem get_of_lookup {position : Nat}
    (found : lookup key = some position) : keys[position]? = some key :=
  (inverse key position).mp found

theorem lookup_isSome_iff (key : Key) :
    (∃ position, lookup key = some position) ↔ key ∈ keys := by
  simp only [List.mem_iff_getElem?, inverse key]

theorem lookup_eq_none_iff (key : Key) :
    lookup key = none ↔ key ∉ keys := by
  rw [← inverse.lookup_isSome_iff key]
  cases lookup key <;> simp

theorem nodup : keys.Nodup := by
  rw [List.nodup_iff_getElem?_ne_getElem?]
  intro left right leftLtRight rightLt equal
  have leftFound := (inverse keys[left] left).mpr (by simp)
  have rightFound := (inverse keys[left] right).mpr (by rw [← equal]; simp)
  have : left = right := by simpa [leftFound] using rightFound
  omega

theorem push [DecidableEq Key] (fresh : lookup key = none) :
    IsInverse (keys ++ [key]) (Function.update lookup key (some keys.length)) := by
  have notMember := (inverse.lookup_eq_none_iff key).mp fresh
  intro other position
  by_cases isNew : other = key
  · subst other
    rw [Function.update_self]
    constructor
    · intro equal
      have : position = keys.length := by simpa using equal.symm
      subst position
      simp
    · intro found
      rw [List.getElem?_append] at found
      split at found
      · exact absurd (List.mem_of_getElem? found) notMember
      · have : position - keys.length = 0 := by
          by_contra nonzero
          rcases Nat.exists_eq_succ_of_ne_zero nonzero with ⟨rest, restEqual⟩
          simp [restEqual] at found
        have : keys.length = position := by omega
        simp [this]
  · rw [Function.update_of_ne isNew, inverse other position, List.getElem?_append]
    split
    · rfl
    · next notInside =>
        have outside : keys[position]? = none := by simpa using notInside
        rw [outside]
        cases position - keys.length with
        | zero => simp [Ne.symm isNew]
        | succ rest => simp

theorem position_unique {left right : Nat}
    (leftFound : keys[left]? = some key) (rightFound : keys[right]? = some key) : left = right := by
  have leftLookup := (inverse key left).mpr leftFound
  have rightLookup := (inverse key right).mpr rightFound
  simpa [leftLookup] using rightLookup

end

end IsInverse

end NftData
