import NftData.Foundation.Text

namespace NftData.Text

/-! # Parts of a text

A text is sliced at byte offsets of its UTF-8 encoding, which must lie between two scalar values.
A pattern is searched from the left, ignoring the case of ASCII letters. -/

open List

@[simp] theorem utf8Length_nil : utf8Length [] = 0 := rfl

@[simp] theorem utf8Length_cons (character : Char) (text : Text) :
    utf8Length (character :: text) = character.utf8Size + utf8Length text := rfl

@[simp] theorem utf8Length_append (first second : Text) :
    utf8Length (first ++ second) = utf8Length first + utf8Length second := by
  rw [utf8Length, map_append, sum_append, utf8Length, utf8Length]

variable {text : Text}

theorem utf8Length_eq_zero : utf8Length text = 0 ↔ text = [] := by
  cases text with
  | nil => simp
  | cons character text => simp [character.utf8Size_pos.ne']

variable {character : Char}

theorem toLower_eq_self (plain : character.isAlpha = false) :
    character.toLower = character := by
  apply Char.toLower_eq_of_not_isUpper
  intro upper
  simp [Char.isAlpha, upper] at plain

theorem eq_of_toLower_eq {other : Char} (plain : other.isAlpha = false)
    (same : character.toLower = other) : character = other := by
  have plainCharacter : character.isAlpha = false := by
    rw [← Char.isAlpha_toLower_eq_isAlpha, same, plain]
  rw [← same, toLower_eq_self plainCharacter]

theorem apply_toLower {value : Type} (read : Char → value)
    (letters : ∀ code, 65 ≤ code → code ≤ 90 →
      read (Char.ofNat (code + 32)) = read (Char.ofNat code)) (character : Char) :
    read character.toLower = read character := by
  by_cases upper : character.isUpper = true
  · have bounds : 65 ≤ character.toNat ∧ character.toNat ≤ 90 := by
      simpa [Char.isUpper, UInt32.le_iff_toNat_le] using upper
    rw [Char.toLower_eq_of_isUpper upper, letters _ bounds.1 bounds.2, Char.ofNat_toNat]
  · rw [Char.toLower_eq_of_not_isUpper upper]

theorem utf8Size_toLower (character : Char) : character.toLower.utf8Size = character.utf8Size :=
  apply_toLower Char.utf8Size (fun code above below => by interval_cases code <;> rfl) character

theorem isWhiteSpace_toLower (character : Char) :
    isWhiteSpace character.toLower = isWhiteSpace character :=
  apply_toLower isWhiteSpace (fun code above below => by interval_cases code <;> rfl) character

theorem trim_toAsciiLowercase (text : Text) :
    text.trim.toAsciiLowercase = text.toAsciiLowercase.trim := by
  have sameSpace : isWhiteSpace ∘ Char.toLower = isWhiteSpace := funext isWhiteSpace_toLower
  rw [trim, trim, trimEnd, trimEnd, trimStart, trimStart, toAsciiLowercase, toAsciiLowercase,
    dropWhile_map, sameSpace, ← map_reverse, dropWhile_map, sameSpace,
    ← map_reverse]

theorem toAsciiLowercase_idem (text : Text) :
    text.toAsciiLowercase.toAsciiLowercase = text.toAsciiLowercase := by
  rw [toAsciiLowercase, toAsciiLowercase, map_map]
  exact map_congr_left fun character _ => Char.toLower_toLower_eq_toLower character

@[simp] theorem utf8Length_toAsciiLowercase (text : Text) :
    utf8Length text.toAsciiLowercase = utf8Length text := by
  induction text with
  | nil => rfl
  | cons character text induction =>
      rw [toAsciiLowercase, map_cons, utf8Length_cons, utf8Size_toLower, ← toAsciiLowercase,
        induction, utf8Length_cons]

theorem toAsciiLowercase_append (first second : Text) :
    (first ++ second).toAsciiLowercase = first.toAsciiLowercase ++ second.toAsciiLowercase :=
  map_append

/-- A character without case is in a text when it is in the lower-cased one. -/
theorem mem_toAsciiLowercase (plain : character.isAlpha = false) :
    character ∈ text.toAsciiLowercase ↔ character ∈ text := by
  rw [toAsciiLowercase, mem_map]
  constructor
  · rintro ⟨other, member, same⟩
    exact eq_of_toLower_eq plain same ▸ member
  · intro member
    exact ⟨character, member, toLower_eq_self plain⟩

/-- The parts before and after a byte offset, when it lies on a character boundary. -/
def splitAtByte : Text → Nat → Option (Text × Text)
  | text, 0 => some ([], text)
  | [], _ + 1 => none
  | character :: text, offset + 1 =>
      if character.utf8Size ≤ offset + 1 then
        (splitAtByte text (offset + 1 - character.utf8Size)).map (Prod.map (character :: ·) id)
      else none

theorem splitAtByte_append (first second : Text) :
    (first ++ second).splitAtByte (utf8Length first) = some (first, second) := by
  induction first with
  | nil => cases second <;> rfl
  | cons character first induction =>
      have positive := character.utf8Size_pos
      obtain ⟨offset, isOffset⟩ : ∃ offset, utf8Length (character :: first) = offset + 1 :=
        ⟨_, (Nat.succ_pred_eq_of_pos (by rw [utf8Length_cons]; omega)).symm⟩
      have rest : offset + 1 - character.utf8Size = utf8Length first := by
        rw [← isOffset, utf8Length_cons, Nat.add_sub_cancel_left]
      rw [isOffset, cons_append, splitAtByte, if_pos, rest, induction]
      · rfl
      · rw [← isOffset, utf8Length_cons]
        exact Nat.le_add_right _ _

variable {second first : Text}

theorem splitAtByte_eq_some {offset : Nat} :
    text.splitAtByte offset = some (first, second) ↔
      first ++ second = text ∧ utf8Length first = offset := by
  constructor
  · induction text, offset using splitAtByte.induct generalizing first with
    | case1 text =>
        intro found
        have empty : first = [] ∧ text = second := by
          cases text <;> simpa [splitAtByte, eq_comm] using found
        simp [empty]
    | case2 offset =>
        intro found
        cases found
    | case3 character text offset inside induction =>
        intro found
        rw [splitAtByte, if_pos inside, Option.map_eq_some_iff] at found
        obtain ⟨⟨start, rest⟩, isSplit, same⟩ := found
        cases same
        obtain ⟨whole, length⟩ := induction isSplit
        constructor
        · exact congrArg (character :: ·) whole
        · rw [utf8Length_cons, length]
          omega
    | case4 character text offset outside =>
        intro found
        rw [splitAtByte, if_neg outside] at found
        cases found
  · rintro ⟨rfl, rfl⟩
    exact splitAtByte_append first second

/-- What stands before the first occurrence of a pattern. -/
def find : Text → Text → Option Text
  | [], pattern => if pattern = [] then some [] else none
  | character :: text, pattern =>
      if pattern.isPrefixOf (character :: text) then some []
      else (find text pattern).map (character :: ·)

variable {pattern before : Text}

theorem find_eq_some (found : text.find pattern = some before) :
    before ++ pattern <+: text ∧
      ∀ earlier, earlier ++ pattern <+: text → before.length ≤ earlier.length := by
  induction text generalizing before with
  | nil =>
      rw [find] at found
      split at found
      · next empty =>
          cases found
          simp [empty]
      · cases found
  | cons character text induction =>
      rw [find] at found
      split at found
      · next isPrefix =>
          cases found
          exact ⟨List.isPrefixOf_iff_prefix.mp isPrefix, fun earlier _ => Nat.zero_le _⟩
      · next notPrefix =>
          obtain ⟨rest, foundRest, rfl⟩ := Option.map_eq_some_iff.mp found
          obtain ⟨isPrefix, first⟩ := induction foundRest
          refine ⟨(cons_prefix_cons).mpr ⟨rfl, isPrefix⟩, ?_⟩
          intro earlier occurs
          cases earlier with
          | nil => exact absurd (List.isPrefixOf_iff_prefix.mpr occurs) notPrefix
          | cons head earlier =>
              exact Nat.succ_le_succ (first earlier (cons_prefix_cons.mp occurs).2)

theorem find_eq_none :
    text.find pattern = none ↔ ∀ before, ¬before ++ pattern <+: text := by
  induction text with
  | nil =>
      rw [find]
      split
      · next empty => simp [empty]
      · next nonempty => simp [nonempty]
  | cons character text induction =>
      rw [find]
      split
      · next isPrefix =>
          simp only [reduceCtorEq, false_iff, not_forall, not_not]
          exact ⟨[], isPrefixOf_iff_prefix.mp isPrefix⟩
      · next notPrefix =>
          rw [Option.map_eq_none_iff, induction]
          constructor
          · intro absent before occurs
            cases before with
            | nil => exact notPrefix (List.isPrefixOf_iff_prefix.mpr occurs)
            | cons head before => exact absent before (cons_prefix_cons.mp occurs).2
          · intro absent before occurs
            exact absent (character :: before) (cons_prefix_cons.mpr ⟨rfl, occurs⟩)

theorem exists_common_last {tail other : Text} (whole : first ++ tail = second ++ other)
    (tailNonempty : tail ≠ []) (otherNonempty : other ≠ []) :
    ∃ character ∈ tail, character ∈ other := by
  have last := congrArg List.getLast? whole
  rw [List.getLast?_append_of_ne_nil _ tailNonempty,
    List.getLast?_append_of_ne_nil _ otherNonempty,
    List.getLast?_eq_some_getLast tailNonempty] at last
  exact ⟨_, getLast_mem tailNonempty, List.mem_of_getLast? last.symm⟩

/-- A pattern that shares no character with a separator lies on one side of it. -/
theorem occurrence_beside {left separator right found after : Text}
    (whole : left ++ separator ++ right = before ++ found ++ after) (nonempty : separator ≠ [])
    (occurs : found ≠ []) (apart : ∀ character ∈ separator, character ∉ found) :
    (∃ rest, left = before ++ found ++ rest ∧ after = rest ++ separator ++ right) ∨
      ∃ start, right = start ++ found ++ after ∧ before = left ++ separator ++ start := by
  rcases append_eq_append_iff.mp whole with
    ⟨middle, isFound, isRight⟩ | ⟨middle, isLeft, isAfter⟩
  · rcases append_eq_append_iff.mp isFound with
      ⟨overlap, overlaps, split⟩ | ⟨start, isBefore, isMiddle⟩
    · by_cases disjoint : overlap = []
      · subst disjoint
        rw [append_nil] at overlaps
        refine .inr ⟨[], ?_, ?_⟩
        · rw [isRight, split]
          rfl
        · rw [append_nil, overlaps]
      · obtain ⟨character, inSeparator, inOverlap⟩ :=
          exists_common_last overlaps nonempty disjoint
        exact absurd (split ▸ mem_append_left middle inOverlap) (apart character inSeparator)
    · exact .inr ⟨start, by rw [isRight, isMiddle], isBefore⟩
  · rcases append_eq_append_iff.mp isLeft with
      ⟨overlap, overlaps, split⟩ | ⟨rest, isLeftPart, isMiddle⟩
    · by_cases disjoint : overlap = []
      · subst disjoint
        refine .inl ⟨[], ?_, ?_⟩
        · rw [overlaps, append_nil, append_nil]
        · rw [isAfter, split]
          rfl
      · obtain ⟨character, inFound, inOverlap⟩ := exists_common_last overlaps occurs disjoint
        exact absurd inFound (apart character (split ▸ mem_append_left middle inOverlap))
    · exact .inl ⟨rest, isLeftPart, by rw [isAfter, isMiddle]⟩

end NftData.Text
