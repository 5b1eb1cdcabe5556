import Mathlib

namespace NftData

/-! # Keyed folds

A table built by first occurrence: each incoming key either extends the table at
its end or is combined with the value already there. When combining is
associative, building a part on its own and adding it afterwards gives the table
that adding its entries one by one gives. -/

open List
open Prod (fst)
open Option (bind_assoc bind_eq_some_iff bind_map bind_some map_bind map_eq_some_iff)
open Function (comp_def)

/-- Add a key unless it is known. -/
def pushKey {Key : Type*} [DecidableEq Key] (keys : List Key) (key : Key) : List Key :=
  if key ∈ keys then keys else keys ++ [key]

/-- Add keys in order, keeping the first occurrence of each. -/
def pushKeys {Key : Type*} [DecidableEq Key] (keys incoming : List Key) : List Key :=
  incoming.foldl pushKey keys

section PushKeys

variable {Key : Type*} [DecidableEq Key] {keys : List Key}

theorem mem_pushKey {key other : Key} :
    other ∈ pushKey keys key ↔ other ∈ keys ∨ other = key := by
  unfold pushKey
  split
  · next known =>
      constructor
      · exact Or.inl
      · rintro (member | equal)
        · exact member
        · exact equal ▸ known
  · simp

theorem mem_pushKeys {incoming : List Key} {other : Key} :
    other ∈ pushKeys keys incoming ↔ other ∈ keys ∨ other ∈ incoming := by
  induction incoming generalizing keys with
  | nil => simp [pushKeys]
  | cons head tail induction =>
      rw [pushKeys, foldl_cons, ← pushKeys, induction, mem_pushKey,
        mem_cons, or_assoc]

theorem nodup_pushKey (key : Key) (nodup : keys.Nodup) :
    (pushKey keys key).Nodup := by
  unfold pushKey
  split
  · exact nodup
  · next fresh =>
      rw [nodup_append]
      refine ⟨nodup, nodup_singleton key, ?_⟩
      intro left leftMember right rightMember equal
      rw [mem_singleton.mp rightMember] at equal
      exact fresh (equal ▸ leftMember)

theorem nodup_pushKeys (incoming : List Key) (nodup : keys.Nodup) :
    (pushKeys keys incoming).Nodup := by
  induction incoming generalizing keys with
  | nil => exact nodup
  | cons head tail induction => exact induction (nodup_pushKey head nodup)

theorem length_le_pushKey (keys : List Key) (key : Key) :
    keys.length ≤ (pushKey keys key).length := by
  unfold pushKey
  split <;> simp

theorem length_le_pushKeys (keys incoming : List Key) :
    keys.length ≤ (pushKeys keys incoming).length := by
  induction incoming generalizing keys with
  | nil => exact le_rfl
  | cons head tail induction =>
      exact (length_le_pushKey keys head).trans (induction (pushKey keys head))

theorem length_incoming_le_pushKeys (keys : List Key) {incoming : List Key}
    (nodup : incoming.Nodup) : incoming.length ≤ (pushKeys keys incoming).length := by
  apply (nodup.subperm _).length_le
  intro key member
  exact mem_pushKeys.mpr (.inr member)

theorem pushKeys_pushKeys (keys incoming : List Key) :
    pushKeys keys (pushKeys [] incoming) = pushKeys keys incoming := by
  induction incoming using List.reverseRecOn with
  | nil => rfl
  | append_singleton front key induction =>
      have unfoldLast : ∀ base : List Key,
          pushKeys base (front ++ [key]) = pushKey (pushKeys base front) key := by
        intro base
        simp [pushKeys]
      rw [unfoldLast, unfoldLast, ← induction]
      by_cases known : key ∈ pushKeys [] front
      · have present : key ∈ pushKeys keys (pushKeys [] front) :=
          mem_pushKeys.mpr (.inr known)
        simp [pushKey, known, present]
      · rw [pushKey, if_neg known]
        simp [pushKeys]

end PushKeys

/-! ## Combined values -/

section Absorb

variable {Key Value : Type*} [DecidableEq Key]
  (combine : Value → Value → Option Value)

/-- Combine an entry into a table, or append it when its key is new. -/
def absorb : List (Key × Value) → Key × Value → Option (List (Key × Value))
  | [], entry => some [entry]
  | (key, value) :: rest, entry =>
      if key = entry.1 then
        (combine value entry.2).map fun combined => (key, combined) :: rest
      else
        (absorb rest entry).map fun absorbed => (key, value) :: absorbed

def absorbAll (entries incoming : List (Key × Value)) : Option (List (Key × Value)) :=
  incoming.foldlM (absorb combine) entries

/-- Combining may fail, but not depending on how the values are grouped. -/
def PartialAssociative : Prop :=
  ∀ first second third, (combine first second).bind (combine · third) =
    (combine second third).bind (combine first ·)

variable {combine} {entries : List (Key × Value)}

theorem keys_absorb {absorbed : List (Key × Value)} {entry : Key × Value}
    (ok : absorb combine entries entry = some absorbed) :
    absorbed.map fst = pushKey (entries.map fst) entry.1 := by
  induction entries generalizing absorbed with
  | nil =>
      cases ok
      rfl
  | cons head rest induction =>
      rcases head with ⟨key, value⟩
      unfold absorb at ok
      split at ok
      · next same =>
          rcases map_eq_some_iff.mp ok with ⟨combined, _, equal⟩
          rw [← equal, pushKey, if_pos (by simp [same])]
          rfl
      · next different =>
          rcases map_eq_some_iff.mp ok with ⟨restAbsorbed, restOk, equal⟩
          rw [← equal, map_cons, induction restOk]
          have known : entry.1 ∈ (key :: rest.map fst) ↔
              entry.1 ∈ rest.map fst := by
            rw [mem_cons]
            exact or_iff_right (Ne.symm different)
          simp only [pushKey, map_cons, known]
          split <;> rfl

theorem bind_map_eq {α β γ : Type*} (action : Option α) (next : α → Option β)
    (transform : β → γ) :
    (action.bind fun value => (next value).map transform) =
      (action.bind next).map transform := by
  cases action <;> rfl

private theorem absorb_same (associative : PartialAssociative combine) (key : Key)
    (first second : Value) (entries : List (Key × Value)) :
    (absorb combine entries (key, first)).bind (absorb combine · (key, second)) =
      (combine first second).bind fun combined =>
        absorb combine entries (key, combined) := by
  induction entries with
  | nil =>
      simp only [absorb, bind_some, if_true]
      cases combine first second <;> rfl
  | cons head rest induction =>
      rcases head with ⟨known, value⟩
      by_cases same : known = key
      · subst same
        simp only [absorb, if_true]
        have grouped := congrArg (Option.map fun combined => (known, combined) :: rest)
          (associative value first second)
        rw [map_bind, map_bind] at grouped
        rw [bind_map]
        simpa [comp_def, absorb] using grouped
      · simp only [absorb, same, if_false, bind_map, comp_def]
        rw [bind_map_eq, bind_map_eq, induction]

/-- Entries of different keys may be absorbed in either order once the key that
moves is present. -/
private theorem absorb_comm {first second : Key × Value}
    (different : first.1 ≠ second.1) (entries : List (Key × Value))
    (present : first.1 ∈ entries.map fst) :
    (absorb combine entries second).bind (absorb combine · first) =
      (absorb combine entries first).bind (absorb combine · second) := by
  induction entries with
  | nil => simp at present
  | cons head rest induction =>
      rcases head with ⟨key, value⟩
      by_cases isFirst : key = first.1
      · have notSecond : key ≠ second.1 := fun equal =>
          different (isFirst.symm.trans equal)
        simp only [absorb, isFirst]
        cases secondRest : absorb combine rest second <;>
          cases combined : combine value first.2 <;>
          simp [absorb, isFirst ▸ notSecond, secondRest, combined]
      · have inRest : first.1 ∈ rest.map fst := by
          rcases mem_cons.mp present with equal | inside
          · exact absurd equal.symm isFirst
          · exact inside
        by_cases isSecond : key = second.1
        · simp only [absorb, if_pos isSecond, if_neg isFirst, bind_map,
            comp_def]
          cases firstRest : absorb combine rest first <;>
            cases combined : combine value second.2 <;>
            simp_all
        · simp only [absorb, if_neg isFirst, if_neg isSecond, bind_map,
            comp_def]
          rw [bind_map_eq, bind_map_eq, induction inRest]

theorem absorb_fresh {entry : Key × Value} (fresh : entry.1 ∉ entries.map fst) :
    absorb combine entries entry = some (entries ++ [entry]) := by
  induction entries with
  | nil => rfl
  | cons head rest induction =>
      rcases head with ⟨key, value⟩
      rw [map_cons, mem_cons, not_or] at fresh
      rw [absorb, if_neg (Ne.symm fresh.1), induction fresh.2]
      rfl

theorem absorb_known {position : Nat} {key : Key} {value added : Value}
    (nodup : (entries.map fst).Nodup) (found : entries[position]? = some (key, value)) :
    absorb combine entries (key, added) =
      (combine value added).map fun combined => entries.set position (key, combined) := by
  induction entries generalizing position with
  | nil => simp at found
  | cons head rest induction =>
      rcases head with ⟨headKey, headValue⟩
      rw [map_cons, nodup_cons] at nodup
      cases position with
      | zero =>
          have equal : (headKey, headValue) = (key, value) := by simpa using found
          injection equal with keyEqual valueEqual
          subst keyEqual valueEqual
          simp [absorb]
      | succ position =>
          have inRest : rest[position]? = some (key, value) := by simpa using found
          have different : headKey ≠ key := by
            intro equal
            apply nodup.1
            rw [equal]
            exact mem_map.mpr ⟨_, mem_of_getElem? inRest, rfl⟩
          rw [absorb, if_neg different, induction nodup.2 inRest, Option.map_map]
          rfl

theorem absorbAll_cons (head : Key × Value) (tail entries : List (Key × Value)) :
    absorbAll combine entries (head :: tail) =
      (absorb combine entries head).bind (absorbAll combine · tail) := by
  rw [absorbAll, foldlM_cons]
  rfl

theorem absorbAll_singleton (entry : Key × Value) (entries : List (Key × Value)) :
    absorbAll combine entries [entry] = absorb combine entries entry := by
  rw [absorbAll_cons]
  cases absorb combine entries entry <;> rfl

theorem absorbAll_append (entries first second : List (Key × Value)) :
    absorbAll combine entries (first ++ second) =
      (absorbAll combine entries first).bind (absorbAll combine · second) := by
  rw [absorbAll, foldlM_append]
  rfl

/-- An entry whose key is present may be absorbed before a whole list of other
keys instead of after it. -/
private theorem absorbAll_comm (entry : Key × Value) (incoming : List (Key × Value))
    (entries : List (Key × Value)) (absent : entry.1 ∉ incoming.map fst)
    (present : entry.1 ∈ entries.map fst) :
    (absorbAll combine entries incoming).bind (absorb combine · entry) =
      (absorb combine entries entry).bind (absorbAll combine · incoming) := by
  induction incoming generalizing entries with
  | nil => simp [absorbAll]
  | cons head tail induction =>
      rw [map_cons, mem_cons, not_or] at absent
      calc
        (absorbAll combine entries (head :: tail)).bind (absorb combine · entry)
            = (absorb combine entries head).bind fun absorbed =>
                (absorbAll combine absorbed tail).bind (absorb combine · entry) := by
              rw [absorbAll_cons, bind_assoc]
        _ = (absorb combine entries head).bind fun absorbed =>
                (absorb combine absorbed entry).bind (absorbAll combine · tail) := by
              cases headOk : absorb combine entries head with
              | none => rfl
              | some absorbed =>
                  have stillPresent : entry.1 ∈ absorbed.map fst := by
                    rw [keys_absorb headOk, mem_pushKey]
                    exact .inl present
                  exact induction absorbed absent.2 stillPresent
        _ = ((absorb combine entries head).bind (absorb combine · entry)).bind
                (absorbAll combine · tail) := by
              rw [bind_assoc]
        _ = ((absorb combine entries entry).bind (absorb combine · head)).bind
                (absorbAll combine · tail) := by
              rw [absorb_comm absent.1 entries present]
        _ = (absorb combine entries entry).bind
                (absorbAll combine · (head :: tail)) := by
              rw [bind_assoc]
              simp only [absorbAll_cons]

/-- Absorbing an entry into a part first, or into the whole after the part, makes
no difference. -/
private theorem absorbAll_absorb (associative : PartialAssociative combine)
    (entry : Key × Value) (entries base : List (Key × Value))
    (nodup : (entries.map fst).Nodup) :
    (absorb combine entries entry).bind (absorbAll combine base) =
      (absorbAll combine base entries).bind (absorb combine · entry) := by
  induction entries generalizing base with
  | nil =>
      exact absorbAll_singleton entry base
  | cons head rest induction =>
      rcases head with ⟨key, value⟩
      rw [map_cons, nodup_cons] at nodup
      by_cases same : key = entry.1
      · subst same
        have keyPresent : ∀ absorbed, absorb combine base (entry.1, value) =
            some absorbed → entry.1 ∈ absorbed.map fst := by
          intro absorbed ok
          rw [keys_absorb ok, mem_pushKey]
          exact .inr rfl
        calc
          (absorb combine ((entry.1, value) :: rest) entry).bind (absorbAll combine base)
              = (combine value entry.2).bind fun combined =>
                  (absorb combine base (entry.1, combined)).bind
                    (absorbAll combine · rest) := by
                simp only [absorb, if_true, bind_map, comp_def,
                  absorbAll_cons]
          _ = ((absorb combine base (entry.1, value)).bind
                (absorb combine · entry)).bind (absorbAll combine · rest) := by
                rw [absorb_same associative entry.1 value entry.2 base,
                  bind_assoc]
          _ = (absorb combine base (entry.1, value)).bind fun absorbed =>
                (absorbAll combine absorbed rest).bind (absorb combine · entry) := by
                rw [bind_assoc]
                cases ok : absorb combine base (entry.1, value) with
                | none => rfl
                | some absorbed =>
                    exact (absorbAll_comm entry rest absorbed nodup.1
                      (keyPresent absorbed ok)).symm
          _ = (absorbAll combine base ((entry.1, value) :: rest)).bind
                (absorb combine · entry) := by
                rw [absorbAll_cons, bind_assoc]
      · calc
          (absorb combine ((key, value) :: rest) entry).bind (absorbAll combine base)
              = (absorb combine rest entry).bind fun absorbed =>
                  (absorb combine base (key, value)).bind
                    (absorbAll combine · absorbed) := by
                simp only [absorb, same, if_false, bind_map, comp_def,
                  absorbAll_cons]
          _ = (absorb combine base (key, value)).bind fun start =>
                (absorb combine rest entry).bind (absorbAll combine start) := by
                cases absorb combine rest entry <;>
                  cases absorb combine base (key, value) <;> rfl
          _ = (absorb combine base (key, value)).bind fun start =>
                (absorbAll combine start rest).bind (absorb combine · entry) := by
                simp only [induction _ nodup.2]
          _ = (absorbAll combine base ((key, value) :: rest)).bind
                (absorb combine · entry) := by
                rw [absorbAll_cons, bind_assoc]

theorem keys_absorbAll {incoming absorbed : List (Key × Value)}
    (ok : absorbAll combine entries incoming = some absorbed) :
    absorbed.map fst =
      pushKeys (entries.map fst) (incoming.map fst) := by
  induction incoming generalizing entries with
  | nil =>
      cases ok
      rfl
  | cons head tail induction =>
      rw [absorbAll, foldlM_cons] at ok
      rcases bind_eq_some_iff.mp ok with ⟨middle, headOk, tailOk⟩
      rw [induction tailOk, keys_absorb headOk]
      rfl

theorem absorbAll_absorbAll (associative : PartialAssociative combine)
    (base incoming : List (Key × Value)) :
    (absorbAll combine [] incoming).bind (absorbAll combine base) =
      absorbAll combine base incoming := by
  induction incoming using List.reverseRecOn with
  | nil => simp [absorbAll]
  | append_singleton front entry induction =>
      rw [absorbAll_append, absorbAll_append, ← induction, bind_assoc,
        bind_assoc]
      cases frontOk : absorbAll combine [] front with
      | none => rfl
      | some built =>
          have nodup : (built.map fst).Nodup := by
            rw [keys_absorbAll frontOk]
            exact nodup_pushKeys _ nodup_nil
          simp only [bind_some, absorbAll_singleton]
          exact absorbAll_absorb associative entry built base nodup

end Absorb

end NftData
