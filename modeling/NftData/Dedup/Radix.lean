import NftData.Foundation.Chunks
import NftData.Foundation.Sorting

namespace NftData.Dedup

/-! # Radix sort

Rows are sorted by digits of 11 bits, the lowest digit first. A pass counts the digits, gives
every digit a range of the output and puts the values into the ranges. -/

open List

def radixBits : Nat := 11
def radixSize : Nat := 1 <<< radixBits
def radixMask : Nat := radixSize - 1
def parallelRadixMinLen : Nat := 32 * 1024

section Pass

variable {α : Type*}

def countDigits (digit : α → Nat) (values : List α) (bucket : Nat) : Nat :=
  values.countP (digit · = bucket)

def exclusiveSums (counts : Nat → Nat) : Nat → Nat
  | 0 => 0
  | bucket + 1 => exclusiveSums counts bucket + counts bucket

/-- The second loop over the source: each value with the position it is written to. -/
def place (digit : α → Nat) (cursors : Nat → Nat) : List α → List (α × Nat)
  | [] => []
  | value :: values =>
      (value, cursors (digit value)) ::
        place digit (Function.update cursors (digit value) (cursors (digit value) + 1)) values

def countingPass (digit : α → Nat) (source : List α) : List (α × Nat) :=
  place digit (exclusiveSums (countDigits digit source)) source

def chunkOffsets (next : Nat → Nat) : List (Nat → Nat) → List (Nat → Nat)
  | [] => []
  | counts :: localCounts => next :: chunkOffsets (fun bucket => next bucket + counts bucket) localCounts

def parallelCountingPass (digit : α → Nat) (chunkSize : Nat) (source : List α) :
    List (List (α × Nat)) :=
  let parts := chunks source chunkSize
  let localCounts := parts.map (countDigits digit)
  let bucketOffsets := exclusiveSums fun bucket => (localCounts.map (· bucket)).sum
  (parts.zip (chunkOffsets bucketOffsets localCounts)).map fun (part, offsets) =>
    place digit offsets part

variable {digit : α → Nat}

theorem place_append (cursors : Nat → Nat) (first second : List α) :
    place digit cursors (first ++ second) = place digit cursors first ++
      place digit (fun bucket => cursors bucket + countDigits digit first bucket) second := by
  induction first generalizing cursors with
  | nil => rfl
  | cons value first induction =>
      rw [cons_append, place, induction, place, cons_append]
      congr 3
      funext bucket
      by_cases here : bucket = digit value
      · subst here
        simp [countDigits]
        omega
      · simp [countDigits, here, Ne.symm here]

theorem flatten_place (next : Nat → Nat) (parts : List (List α)) :
    ((parts.zip (chunkOffsets next (parts.map (countDigits digit)))).map
      fun (part, offsets) => place digit offsets part).flatten = place digit next parts.flatten := by
  induction parts generalizing next with
  | nil => rfl
  | cons part parts induction =>
      rw [map_cons, chunkOffsets, zip_cons_cons, map_cons, flatten_cons, induction, flatten_cons,
        place_append]

theorem flatten_parallelCountingPass {chunkSize : Nat} (positive : 0 < chunkSize)
    (source : List α) :
    (parallelCountingPass digit chunkSize source).flatten = countingPass digit source := by
  have counted : (fun bucket => (((chunks source chunkSize).map (countDigits digit)).map
      (· bucket)).sum) = countDigits digit source := by
    funext bucket
    conv_rhs => rw [← flatten_chunks source positive]
    rw [countDigits, countP_flatten, map_map]
    rfl
  rw [parallelCountingPass, flatten_place, flatten_chunks source positive, counted]
  rfl

theorem filter_place (cursors : Nat → Nat) (values : List α) (bucket : Nat) :
    (place digit cursors values).filter (digit ·.1 = bucket) =
      (values.filter (digit · = bucket)).zipIdx (cursors bucket) := by
  induction values generalizing cursors with
  | nil => rfl
  | cons value values induction =>
      rw [place, filter_cons, filter_cons, induction]
      by_cases here : digit value = bucket
      · simp [here, zipIdx_cons]
      · simp [here, Ne.symm here]

theorem length_buckets (size : Nat) (values : List α) :
    (buckets digit size values).length = exclusiveSums (countDigits digit values) size := by
  induction size with
  | zero => rfl
  | succ size induction =>
      rw [buckets_succ, length_append, induction, ← countP_eq_length_filter]
      rfl

theorem countingPass_perm_below (source : List α) (size : Nat) :
    ((countingPass digit source).filter (digit ·.1 < size)).Perm
      (buckets digit size source).zipIdx := by
  induction size with
  | zero => simp [buckets]
  | succ size induction =>
      have split := filter_append_perm (fun write : α × Nat => decide (digit write.1 < size))
        ((countingPass digit source).filter (digit ·.1 < size + 1))
      have below : ∀ write : α × Nat, (decide (digit write.1 < size) &&
          decide (digit write.1 < size + 1)) = decide (digit write.1 < size) := by grind
      have last : ∀ write : α × Nat, (!decide (digit write.1 < size) &&
          decide (digit write.1 < size + 1)) = decide (digit write.1 = size) := by grind
      simp only [filter_filter, below, last] at split
      rw [countingPass, filter_place] at split
      rw [buckets_succ, zipIdx_append, length_buckets, Nat.zero_add]
      exact split.symm.trans (induction.append_right _)

theorem countingPass_perm (bounded : ∀ value, digit value < radixSize) (source : List α) :
    (countingPass digit source).Perm (buckets digit radixSize source).zipIdx := by
  have below := @countingPass_perm_below _ digit source radixSize
  rwa [filter_eq_self.mpr fun write _ => decide_eq_true (bounded write.1)] at below

/-- The writes of the chunks are those of the sequential pass, one for each slot, so that their
order does not matter. -/
structure WritesOnce (digit : α → Nat) (chunkSize : Nat) (source : List α) : Prop where
  same : (parallelCountingPass digit chunkSize source).flatten = countingPass digit source
  once : ((countingPass digit source).map Prod.snd).Perm (List.range source.length)
  anyOrder : ∀ writes, writes.Perm (parallelCountingPass digit chunkSize source).flatten →
    ∀ slots : List (Option α), slots.length = source.length →
      writeAll slots writes = writeAll slots (countingPass digit source)

theorem writesOnce (bounded : ∀ value, digit value < radixSize) {chunkSize : Nat}
    (positive : 0 < chunkSize) (source : List α) : WritesOnce digit chunkSize source := by
  have same := @flatten_parallelCountingPass _ digit _ positive source
  have each := countingPass_perm bounded source
  have length := (stableSort_buckets bounded source).perm.length_eq
  refine ⟨same, ?_, fun writes arranged slots slotsLength => ?_⟩
  · have positions := each.map Prod.snd
    rwa [zipIdx_map_snd, length, ← range_eq_range'] at positions
  · rw [same] at arranged
    rw [writeAll_eq (slotsLength.trans length.symm) (arranged.trans each),
      writeAll_eq (slotsLength.trans length.symm) each]

end Pass

/-! ## The passes -/

/-- The worker pool: how many threads there are and in which order each pass of theirs writes. -/
structure Pool (α : Type*) where
  threads : Nat
  arrange : Nat → List (α × Nat) → List (α × Nat)
  arranges : ∀ pass writes, (arrange pass writes).Perm writes

section Sorting

variable {α : Type*} (pool : Pool α) (digits : Nat → α → Nat) (answers : Nat → Bool)

def passWrites (pass : Nat) (source : List α) : List (α × Nat) :=
  if parallelRadixMinLen ≤ source.length ∧ 1 < pool.threads then
    let workerChunks := max (pool.threads * 4) 1
    let chunkSize := max (source.length ⌈/⌉ workerChunks) 1
    pool.arrange pass (parallelCountingPass (digits pass) chunkSize source).flatten
  else
    countingPass (digits pass) source

/-- A slot that no pass has written to holds nothing and is not read. -/
def runPass (pass : Nat) (source : List α) (destination : List (Option α)) : List α :=
  (writeAll destination (passWrites pool digits pass source)).reduceOption

/-- The passes from `pass` on, of which each takes the source of the last one as its
destination. `answers` are those of `completed_pass`. -/
def runPasses : Nat → Nat → List α → List (Option α) → Bool × List α
  | 0, _, source, _ => (true, source)
  | left + 1, pass, source, destination =>
      let output := runPass pool digits pass source destination
      if answers pass then runPasses left (pass + 1) output (source.map some) else (false, output)

def sortByDigitsWhile (values : List α) (passes : Nat) : Bool × List α :=
  if values.length < 2 ∨ passes = 0 then (true, values)
  else runPasses pool digits answers passes 0 values (replicate values.length none)

/-- The number whose digits the passes sort by. -/
def compositeKey : Nat → α → Nat
  | 0, _ => 0
  | pass + 1, value => digits pass value * radixSize ^ pass + compositeKey pass value

/-- A sort that a callback may cancel: it cancels only on the callback's answer, and the values
that it leaves are in the one stable order, or in any order when it was cancelled. -/
structure SortsUnlessCancelled {Key : Type*} [LinearOrder Key] (key : α → Key) (passes : Nat)
    (values : List α) (result : Bool × List α) : Prop where
  completes : (∀ pass < passes, answers pass = true) → result.1 = true
  sorts : result.1 = true → StableSort key values result.2 ∧
    ∀ other, StableSort key values other → other = result.2
  perm : result.2.Perm values

theorem toLex_le_iff {base left right leftLow rightLow : Nat} (leftSmall : leftLow < base)
    (rightSmall : rightLow < base) :
    toLex (left, leftLow) ≤ toLex (right, rightLow) ↔
      left * base + leftLow ≤ right * base + rightLow := by
  rw [Prod.Lex.toLex_le_toLex]
  rcases lt_trichotomy left right with less | same | greater
  · have steps := Nat.mul_le_mul_right base (Nat.succ_le_of_lt less)
    rw [Nat.succ_mul] at steps
    exact iff_of_true (.inl less) (by omega)
  · simp only [same, lt_self_iff_false, true_and, false_or]
    omega
  · have steps := Nat.mul_le_mul_right base (Nat.succ_le_of_lt greater)
    rw [Nat.succ_mul] at steps
    exact iff_of_false (by omega) (by omega)

variable {digits} {values source : List α}
  (bounded : ∀ pass value, digits pass value < radixSize)

section Bounded

include bounded

theorem runPass_eq (pass : Nat) {destination : List (Option α)}
    (length : destination.length = source.length) :
    runPass pool digits pass source destination = buckets (digits pass) radixSize source := by
  have counted := countingPass_perm (bounded pass) source
  have writes : (passWrites pool digits pass source).Perm
      (buckets (digits pass) radixSize source).zipIdx := by
    unfold passWrites
    split
    · refine (pool.arranges _ _).trans ?_
      rw [flatten_parallelCountingPass (by omega)]
      exact counted
    · exact counted
  have sameLength := (stableSort_buckets (bounded pass) source).perm.length_eq
  rw [runPass, writeAll_eq (length.trans sameLength.symm) writes]
  simp [reduceOption]

theorem compositeKey_lt (passes : Nat) (value : α) :
    compositeKey digits passes value < radixSize ^ passes := by
  induction passes with
  | zero => exact Nat.one_pos
  | succ pass induction =>
      have digit := Nat.mul_le_mul_right (radixSize ^ pass) (bounded pass value)
      rw [compositeKey, pow_succ']
      rw [Nat.succ_mul] at digit
      omega

theorem stableSort_runPass {pass : Nat} (sort : StableSort (compositeKey digits pass) values source)
    {destination : List (Option α)} (length : destination.length = source.length) :
    StableSort (compositeKey digits (pass + 1)) values
      (runPass pool digits pass source destination) := by
  rw [runPass_eq pool bounded pass length]
  apply (sort.lex (stableSort_buckets (bounded pass) source)).of_key
  exact fun left right =>
    toLex_le_iff (compositeKey_lt bounded pass left) (compositeKey_lt bounded pass right)

theorem runPasses_sorts (left pass : Nat) {destination : List (Option α)}
    (sort : StableSort (compositeKey digits pass) values source)
    (length : destination.length = source.length) :
    SortsUnlessCancelled (fun later => answers (pass + later)) (compositeKey digits (pass + left))
      left values (runPasses pool digits answers left pass source destination) := by
  induction left generalizing pass source destination with
  | zero => exact ⟨fun _ => rfl, fun _ => ⟨sort, fun _ other => other.eq sort⟩, sort.perm⟩
  | succ left induction =>
      have next := stableSort_runPass pool bounded sort length
      rw [runPasses, show pass + (left + 1) = pass + 1 + left by omega]
      split
      · next goesOn =>
          have rest := induction (pass + 1) next
            ((length_map some).trans (sort.perm.trans next.perm.symm).length_eq)
          refine ⟨fun all => rest.completes fun later inside => ?_, rest.sorts, rest.perm⟩
          rw [Nat.add_assoc, Nat.add_comm 1]
          exact all (later + 1) (Nat.succ_lt_succ inside)
      · next stops =>
          refine ⟨fun all => ?_, nofun, next.perm⟩
          exact absurd (all 0 (Nat.succ_pos _)) stops

theorem sortByDigitsWhile_sorts (passes : Nat) :
    SortsUnlessCancelled answers (compositeKey digits passes) passes values
      (sortByDigitsWhile pool digits answers values passes) := by
  have start : StableSort (compositeKey digits 0) values values :=
    ⟨pairwise_of_forall fun _ _ => le_rfl, fun _ => rfl⟩
  unfold sortByDigitsWhile
  split
  · next trivial =>
      have whole : StableSort (compositeKey digits passes) values values := by
        rcases trivial with short | rfl
        · match values, short with
          | [], _ => exact ⟨.nil, fun _ => rfl⟩
          | [value], _ => exact ⟨pairwise_singleton _ _, fun _ => rfl⟩
        · exact start
      exact ⟨fun _ => rfl, fun _ => ⟨whole, fun _ other => other.eq whole⟩, whole.perm⟩
  · have sorts := runPasses_sorts pool answers bounded passes 0 start
      (length_replicate (a := none))
    simpa only [Nat.zero_add] using sorts

end Bounded

variable {answers}

theorem SortsUnlessCancelled.of_key {Key Other : Type*} [LinearOrder Key] [LinearOrder Other]
    {key : α → Key} {other : α → Other} {passes : Nat} {result : Bool × List α}
    (sorts : SortsUnlessCancelled answers key passes values result)
    (same : ∀ left right, key left ≤ key right ↔ other left ≤ other right) :
    SortsUnlessCancelled answers other passes values result := by
  refine ⟨sorts.completes, fun complete => ?_, sorts.perm⟩
  have stable := (sorts.sorts complete).1.of_key same
  exact ⟨stable, fun _ another => another.eq stable⟩

end Sorting

section Keys

variable {α : Type*} (pool : Pool α) (answers : Nat → Bool)

def u32Digit (value : UInt32) (half : Nat) : Nat :=
  (value.toNat >>> (half * radixBits)) &&& radixMask

def u64Digit (value : UInt64) (quarter : Nat) : Nat :=
  (value.toNat >>> (quarter * radixBits)) &&& radixMask

def sortU64While (pool : Pool UInt64) (values : List UInt64) : Bool × List UInt64 :=
  sortByDigitsWhile pool (fun pass value => u64Digit value pass) answers values 6

def u32BoolDigit (key : α → UInt32 × Bool) (pass : Nat) (value : α) : Nat :=
  if pass = 0 then (key value).2.toNat else u32Digit (key value).1 (pass - 1)

def sortByU32BoolKeyWhile (key : α → UInt32 × Bool) (values : List α) : Bool × List α :=
  sortByDigitsWhile pool (u32BoolDigit key) answers values 4

def sortU32 (pool : Pool UInt32) (values : List UInt32) : List UInt32 :=
  (sortByDigitsWhile pool (fun pass value => u32Digit value pass) (fun _ => true) values 3).2

def pairDigit (pass : Nat) (value : UInt32 × UInt32) : Nat :=
  u32Digit (if pass ≤ 2 then value.2 else value.1) (pass % 3)

def sortU32PairsWhile (pool : Pool (UInt32 × UInt32)) (values : List (UInt32 × UInt32)) :
    Bool × List (UInt32 × UInt32) :=
  sortByDigitsWhile pool pairDigit answers values 6

def tripleDigit (pass : Nat) (value : UInt32 × UInt32 × UInt32) : Nat :=
  let field := match pass / 3 with
    | 0 => value.2.2
    | 1 => value.2.1
    | _ => value.1
  u32Digit field (pass % 3)

def sortU32TriplesWhile (pool : Pool (UInt32 × UInt32 × UInt32))
    (values : List (UInt32 × UInt32 × UInt32)) : Bool × List (UInt32 × UInt32 × UInt32) :=
  sortByDigitsWhile pool tripleDigit answers values 9

theorem compositeKey_add (digits : Nat → α → Nat) (value : α) (start : Nat) {number count : Nat}
    (isDigit : ∀ place < count,
      digits (start + place) value = (number >>> (place * radixBits)) &&& radixMask)
    (small : number < radixSize ^ count) :
    compositeKey digits (start + count) value =
      number * radixSize ^ start + compositeKey digits start value := by
  rw [← Nat.mod_eq_of_lt small]
  clear small
  induction count with
  | zero => simp [Nat.mod_one]
  | succ count induction =>
      have digit : (number >>> (count * radixBits)) &&& radixMask =
          number / radixSize ^ count % radixSize := by
        rw [Nat.shiftRight_eq_div_pow, Nat.mul_comm, pow_mul]
        exact Nat.and_two_pow_sub_one_eq_mod _ 11
      rw [← Nat.add_assoc, compositeKey, isDigit count (Nat.lt_succ_self _), digit, Nat.mod_pow_succ,
        induction fun place inside => isDigit place (Nat.lt_succ_of_lt inside)]
      ring

theorem compositeKey_whole (digits : Nat → α → Nat) (value : α) {number count : Nat}
    (isDigit : ∀ place < count,
      digits place value = (number >>> (place * radixBits)) &&& radixMask)
    (small : number < radixSize ^ count) : compositeKey digits count value = number := by
  have whole := compositeKey_add digits value 0 (by simpa using isDigit) small
  simpa [compositeKey] using whole

theorem digit_lt (number : Nat) : number &&& radixMask < radixSize :=
  Nat.and_lt_two_pow _ (by decide : radixMask < 2 ^ 11)

theorem u32_lt (value : UInt32) : value.toNat < radixSize ^ 3 :=
  value.toNat_lt.trans (by decide)

theorem sortU64While_sorts (pool : Pool UInt64) (values : List UInt64) :
    SortsUnlessCancelled answers UInt64.toNat 6 values (sortU64While answers pool values) := by
  have sorts : SortsUnlessCancelled answers (compositeKey (fun pass value => u64Digit value pass) 6)
      6 values (sortU64While answers pool values) := sortByDigitsWhile_sorts pool answers (fun _ _ => digit_lt _) 6
  have key : compositeKey (fun pass value => u64Digit value pass) 6 = UInt64.toNat :=
    funext fun value => compositeKey_whole _ value (fun _ _ => rfl)
      (value.toNat_lt.trans (by decide))
  rwa [key] at sorts

theorem sortU32_sorts (pool : Pool UInt32) (values : List UInt32) :
    StableSort UInt32.toNat values (sortU32 pool values) := by
  have sorts : SortsUnlessCancelled (fun _ => true)
      (compositeKey (fun pass value => u32Digit value pass) 3) 3 values _ :=
    sortByDigitsWhile_sorts pool _ (fun _ _ => digit_lt _) 3
  have key : compositeKey (fun pass value => u32Digit value pass) 3 = UInt32.toNat :=
    funext fun value => compositeKey_whole _ value (fun _ _ => rfl) (u32_lt value)
  rw [key] at sorts
  exact (sorts.sorts (sorts.completes fun _ _ => rfl)).1

theorem sortByU32BoolKeyWhile_sorts (key : α → UInt32 × Bool) (values : List α) :
    SortsUnlessCancelled answers (fun value => toLex ((key value).1.toNat, (key value).2.toNat)) 4
      values (sortByU32BoolKeyWhile pool answers key values) := by
  have flagLt : ∀ value, (key value).2.toNat < radixSize :=
    fun value => (Bool.toNat_lt _).trans (by decide)
  have sorts : SortsUnlessCancelled answers (compositeKey (u32BoolDigit key) 4) 4 values
      (sortByU32BoolKeyWhile pool answers key values) := by
    apply sortByDigitsWhile_sorts
    intro pass value
    unfold u32BoolDigit
    split
    · exact flagLt value
    · exact digit_lt _
  apply sorts.of_key
  have isKey : ∀ value, compositeKey (u32BoolDigit key) 4 value =
      (key value).1.toNat * radixSize + (key value).2.toNat := by
    intro value
    rw [compositeKey_add (u32BoolDigit key) value 1 (fun place _ => ?_) (u32_lt (key value).1)]
    · simp [compositeKey, u32BoolDigit]
    · simp [u32BoolDigit, u32Digit]
  intro left right
  rw [isKey, isKey, toLex_le_iff (flagLt left) (flagLt right)]

theorem compositeKey_pairDigit (value : UInt32 × UInt32) :
    compositeKey pairDigit 6 value = value.1.toNat * radixSize ^ 3 + value.2.toNat := by
  rw [compositeKey_add pairDigit value 3 _ (u32_lt value.1),
    compositeKey_whole pairDigit value _ (u32_lt value.2)]
  all_goals
    intro place inside
    interval_cases place <;> rfl

theorem sortU32PairsWhile_sorts (pool : Pool (UInt32 × UInt32)) (values : List (UInt32 × UInt32)) :
    SortsUnlessCancelled answers (fun value => toLex (value.1.toNat, value.2.toNat)) 6 values
      (sortU32PairsWhile answers pool values) := by
  have sorts : SortsUnlessCancelled answers (compositeKey pairDigit 6) 6 values
      (sortU32PairsWhile answers pool values) := sortByDigitsWhile_sorts pool answers (fun _ _ => digit_lt _) 6
  apply sorts.of_key
  intro left right
  rw [compositeKey_pairDigit, compositeKey_pairDigit, toLex_le_iff (u32_lt _) (u32_lt _)]

theorem sortU32TriplesWhile_sorts (pool : Pool (UInt32 × UInt32 × UInt32))
    (values : List (UInt32 × UInt32 × UInt32)) :
    SortsUnlessCancelled answers
      (fun value => toLex (value.1.toNat, toLex (value.2.1.toNat, value.2.2.toNat))) 9 values
      (sortU32TriplesWhile answers pool values) := by
  have sorts : SortsUnlessCancelled answers (compositeKey tripleDigit 9) 9 values
      (sortU32TriplesWhile answers pool values) := sortByDigitsWhile_sorts pool answers (fun _ _ => digit_lt _) 9
  apply sorts.of_key
  have isKey : ∀ value, compositeKey tripleDigit 9 value =
      value.1.toNat * radixSize ^ 6 + (value.2.1.toNat * radixSize ^ 3 + value.2.2.toNat) := by
    intro value
    rw [compositeKey_add tripleDigit value 6 _ (u32_lt value.1),
      compositeKey_add tripleDigit value 3 _ (u32_lt value.2.1),
      compositeKey_whole tripleDigit value _ (u32_lt value.2.2)]
    all_goals
      intro place inside
      interval_cases place <;> rfl
  have lowLt : ∀ value : UInt32 × UInt32 × UInt32,
      value.2.1.toNat * radixSize ^ 3 + value.2.2.toNat < radixSize ^ 6 := by
    intro value
    have middle := u32_lt value.2.1
    have last := u32_lt value.2.2
    change _ < 2 ^ 33 at middle last
    change _ * 2 ^ 33 + _ < 2 ^ 66
    omega
  intro left right
  rw [isKey, isKey, ← toLex_le_iff (lowLt left) (lowLt right), Prod.Lex.toLex_le_toLex,
    Prod.Lex.toLex_le_toLex, toLex_le_iff (u32_lt left.2.2) (u32_lt right.2.2)]

end Keys

/-- The passes are a stable sort by all digits, chunks write what one thread writes, and the keys
that the wrappers sort by are compared as a whole. -/
theorem radixSort {α : Type*} :
    (∀ (pool : Pool α) (answers : Nat → Bool) (digits : Nat → α → Nat) (values : List α)
      (passes : Nat), (∀ pass value, digits pass value < radixSize) →
        SortsUnlessCancelled answers (compositeKey digits passes) passes values
          (sortByDigitsWhile pool digits answers values passes)) ∧
    (∀ (digit : α → Nat) (chunkSize : Nat) (source : List α),
      (∀ value, digit value < radixSize) → 0 < chunkSize → WritesOnce digit chunkSize source) ∧
    (∀ pool values, StableSort UInt32.toNat values (sortU32 pool values)) ∧
    ∀ answers,
      (∀ pool values,
        SortsUnlessCancelled answers UInt64.toNat 6 values (sortU64While answers pool values)) ∧
      (∀ (pool : Pool α) key values, SortsUnlessCancelled answers
        (fun value => toLex ((key value).1.toNat, (key value).2.toNat)) 4 values
        (sortByU32BoolKeyWhile pool answers key values)) ∧
      (∀ pool values, SortsUnlessCancelled answers
        (fun value => toLex (value.1.toNat, value.2.toNat)) 6 values
        (sortU32PairsWhile answers pool values)) ∧
      ∀ pool values, SortsUnlessCancelled answers
        (fun value => toLex (value.1.toNat, toLex (value.2.1.toNat, value.2.2.toNat))) 9 values
        (sortU32TriplesWhile answers pool values) :=
  ⟨fun pool answers _ _ passes bounded => sortByDigitsWhile_sorts pool answers bounded passes,
    fun _ _ source bounded positive => writesOnce bounded positive source,
    sortU32_sorts, fun answers => ⟨sortU64While_sorts answers,
      fun pool key values => sortByU32BoolKeyWhile_sorts pool answers key values,
      sortU32PairsWhile_sorts answers, sortU32TriplesWhile_sorts answers⟩⟩

theorem radixSort_bits :
    SortsUnlessCancelled (fun _ => false) (compositeKey (fun pass value => value / 2 ^ pass % 2) 3) 3
        [6, 1, 5] (sortByDigitsWhile ⟨1, fun _ writes => writes, fun _ _ => .rfl⟩
          (fun pass value => value / 2 ^ pass % 2) (fun _ => false) [6, 1, 5] 3) ∧
      WritesOnce (· % 2) 2 [6, 1, 5] :=
  ⟨radixSort.1 _ _ _ _ _ fun _ _ => (Nat.mod_lt _ (by decide)).trans (by decide),
    radixSort.2.1 _ 2 _ (fun _ => (Nat.mod_lt _ (by decide)).trans (by decide)) (by decide)⟩

end NftData.Dedup
