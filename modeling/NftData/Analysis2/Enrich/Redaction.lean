import NftData.Analysis2.Entity.Types
import NftData.Foundation.Substrings

namespace NftData.Analysis2

/-! # Redaction

Texts that are logged have their API keys masked: the value after a key marker, up to a delimiter,
and the path segment after a version prefix. -/

open List
open List (append_assoc)
open Text (find_eq_none find_eq_some mem_toAsciiLowercase occurrence_beside splitAtByte_append splitAtByte_eq_some toAsciiLowercase toAsciiLowercase_append utf8Length_append utf8Length_toAsciiLowercase)

def mask : Text := "***".toList

def isDelimiter (character : Char) : Bool :=
  character ∈ ['&', ' ', Char.ofNat 34, Char.ofNat 39, ')']

def keyMarkers : List Text :=
  ["api-key=".toList, "api_key=".toList, "apikey=".toList, "x-api-key=".toList]

/-- Mask the values after a marker, from an offset of the lower-cased copy on. The copy was taken
before the first value was replaced, and its offsets are used for the text as it is now. -/
def redactFrom (marker lower : Text) (searchFrom : Nat) (out : Text) :
    Except Analysis2Error Text :=
  match _inside : lower.splitAtByte searchFrom with
  | none => .error .panicked
  | some (_, rest) =>
      match rest.find marker with
      | none => .ok out
      | some before =>
          let start := searchFrom + before.utf8Length + marker.utf8Length
          match out.splitAtByte start with
          | none => .error .panicked
          | some (head, tail) =>
              let redacted := head ++ mask ++ tail.dropWhile fun character => !isDelimiter character
              if redacted.utf8Length ≤ start + 3 then .ok redacted
              else redactFrom marker lower (start + 3) redacted
termination_by lower.utf8Length + 1 - searchFrom
decreasing_by
  obtain ⟨whole, offset⟩ := splitAtByte_eq_some.mp _inside
  rw [← whole, utf8Length_append]
  omega

def redactMarker (text marker : Text) : Except Analysis2Error Text :=
  redactFrom marker text.toAsciiLowercase 0 text

def isWrappingPunct (character : Char) : Bool :=
  character ∈ ['(', ')', '[', ']', Char.ofNat 123, Char.ofNat 125, Char.ofNat 34, Char.ofNat 39,
    ',', ';', '.']

def stripWrappingPunct (text : Text) : Text :=
  (text.dropWhile isWrappingPunct).rdropWhile isWrappingPunct

def isKeyCharacter (character : Char) : Bool :=
  character.isAlphanum || character == '-' || character == '_'

def looksLikeApiKeySegment (segment : Text) : Bool :=
  let cleaned := stripWrappingPunct segment
  12 ≤ cleaned.utf8Length && cleaned.all isKeyCharacter

/-- Mask the segment at a place, when there is one and it looks like a key. What follows the key
in it stays. -/
def maskSegment (parts : List Text) (place : Nat) : List Text :=
  match parts[place]? with
  | some next =>
      if looksLikeApiKeySegment next then
        parts.set place (mask ++ next.rtakeWhile fun character => !isKeyCharacter character)
      else parts
  | none => parts

def redactAfter (parts : List Text) (place : Nat) : List Text :=
  let head := stripWrappingPunct (parts.getD place [])
  let isPrices := head.equalsIgnoringAsciiCase "prices".toList
  let redactNext := head = "v1".toList ∨ head = "v2".toList ∨ head = "v3".toList ∨
    (isPrices ∧ parts[place + 1]?.any fun part => stripWrappingPunct part = "v1".toList)
  if redactNext then maskSegment parts (if isPrices then place + 2 else place + 1) else parts

def redactPathSecrets (endpoint : Text) : Text :=
  let parts := endpoint.splitOn '/'
  ['/'].intercalate ((List.range parts.length).foldl redactAfter parts)

def redactSensitiveText (text : Text) : Except Analysis2Error Text := do
  let out ← keyMarkers.foldlM redactMarker text
  .ok (redactPathSecrets out)

def Hidden (after : Text) : Prop :=
  ∃ rest, after = mask ++ rest ∧ ∀ character ∈ rest.head?, isDelimiter character = true

def Masked (marker text : Text) : Prop :=
  ∀ before found after, text = before ++ found ++ after → found.toAsciiLowercase = marker →
    Hidden after

/-- A marker ends with an equals sign and has no character of a mask, a path or a delimiter. -/
structure IsMarker (marker : Text) : Prop where
  nonempty : marker ≠ []
  equals : '=' ∈ marker
  plain : ∀ character ∈ marker, character ≠ '*' ∧ character ≠ '/' ∧ isDelimiter character = false

theorem isMarker_keyMarkers : ∀ marker ∈ keyMarkers, IsMarker marker := by
  have plain : ∀ marker ∈ keyMarkers, marker ≠ [] ∧ '=' ∈ marker ∧ ∀ character ∈ marker,
      character ≠ '*' ∧ character ≠ '/' ∧ isDelimiter character = false := by
    simp only [keyMarkers, forall_mem_cons]
    simp [isDelimiter]
  intro marker member
  exact ⟨(plain marker member).1, (plain marker member).2.1, (plain marker member).2.2⟩

/-- The text up to the end of the first marker, and the text after it. -/
def splitAtMarker (marker text : Text) : Option (Text × Text) :=
  (text.toAsciiLowercase.find marker).map fun before =>
    text.splitAt (before.length + marker.length)

/-- What is left of a text when the value at its start is dropped. -/
def afterValue (tail : Text) : Text := tail.dropWhile fun character => !isDelimiter character

variable {marker text tail head : Text}

theorem splitAtMarker_eq_some (split : splitAtMarker marker text = some (head, tail)) :
    ∃ before found, head = before ++ found ∧ text = head ++ tail ∧
      found.toAsciiLowercase = marker ∧
      text.toAsciiLowercase.find marker = some before.toAsciiLowercase := by
  obtain ⟨before, isBefore, same⟩ := Option.map_eq_some_iff.mp split
  obtain ⟨⟨rest, whole⟩, -⟩ := find_eq_some isBefore
  rw [splitAt_eq, Prod.mk.injEq] at same
  obtain ⟨rfl, rfl⟩ := same
  have lowerBefore : toAsciiLowercase (text.take before.length) = before := by
    rw [toAsciiLowercase, map_take, ← toAsciiLowercase, ← whole,
      append_assoc, take_left]
  have lowerFound :
      toAsciiLowercase ((text.drop before.length).take marker.length) = marker := by
    rw [toAsciiLowercase, map_take, map_drop, ← toAsciiLowercase, ← whole,
      append_assoc, drop_left, take_left]
  refine ⟨text.take before.length, (text.drop before.length).take marker.length, ?_, ?_,
    lowerFound, ?_⟩
  · rw [take_add]
  · rw [take_append_drop]
  · rw [lowerBefore, isBefore]

theorem length_afterValue_lt (split : splitAtMarker marker text = some (head, tail))
    (nonempty : marker ≠ []) :
    (afterValue tail).length < text.length := by
  obtain ⟨before, found, rfl, rfl, rfl, -⟩ := splitAtMarker_eq_some split
  have positive : 0 < found.length := by
    apply length_pos_of_ne_nil
    rintro rfl
    exact nonempty rfl
  have shorter := length_dropWhile_le (fun character => !isDelimiter character) tail
  rw [afterValue]
  simp only [length_append]
  omega

def maskValues (marker text : Text) : Text :=
  match _split : splitAtMarker marker text with
  | none => text
  | some (head, tail) =>
      if _nonempty : marker = [] then text
      else head ++ mask ++ maskValues marker (afterValue tail)
termination_by text.length
decreasing_by exact length_afterValue_lt _split _nonempty

/-- A pass keeps in step: every value before the last marker is as long as the mask, and behind the
last one the pass ends or goes on at a character of the copy. -/
inductive InStep (marker : Text) : Text → Prop where
  | absent {text : Text} (split : splitAtMarker marker text = none) : InStep marker text
  | toEnd {text head tail : Text} (split : splitAtMarker marker text = some (head, tail))
      (runsOn : afterValue tail = []) : InStep marker text
  | sameLength {text head tail : Text} (split : splitAtMarker marker text = some (head, tail))
      (length : Text.utf8Length (tail.takeWhile fun character => !isDelimiter character) = 3)
      (rest : InStep marker (afterValue tail)) : InStep marker text
  | last {text head tail start after : Text}
      (split : splitAtMarker marker text = some (head, tail))
      (boundary : tail.splitAtByte 3 = some (start, after))
      (noneAfter : splitAtMarker marker after = none)
      (noneRest : splitAtMarker marker (afterValue tail) = none) : InStep marker text

theorem maskValues_of_none (split : splitAtMarker marker text = none) :
    maskValues marker text = text := by
  rw [maskValues]
  split
  · rfl
  · next found => rw [split] at found; cases found

theorem maskValues_of_some (nonempty : marker ≠ [])
    (split : splitAtMarker marker text = some (head, tail)) :
    maskValues marker text = head ++ mask ++ maskValues marker (afterValue tail) := by
  rw [maskValues]
  split
  · next absent => rw [split] at absent; cases absent
  · next found =>
      rw [split] at found
      cases found
      rw [dif_neg nonempty]

theorem redactFrom_of_none (lower out : Text) (split : splitAtMarker marker text = none) :
    redactFrom marker (lower ++ text.toAsciiLowercase) lower.utf8Length out = .ok out := by
  have absent := Option.map_eq_none_iff.mp split
  unfold redactFrom
  split
  · next outside => rw [splitAtByte_append] at outside; cases outside
  · next inside =>
      rw [splitAtByte_append] at inside
      cases inside
      rw [absent]

theorem redactFrom_of_some (lower out : Text) (same : out.utf8Length = lower.utf8Length)
    (split : splitAtMarker marker text = some (head, tail)) :
    redactFrom marker (lower ++ text.toAsciiLowercase) lower.utf8Length (out ++ text) =
      if afterValue tail = [] then .ok (out ++ head ++ mask)
      else redactFrom marker (lower ++ text.toAsciiLowercase)
        (lower.utf8Length + head.utf8Length + 3) (out ++ head ++ mask ++ afterValue tail) := by
  obtain ⟨before, found, rfl, rfl, rfl, isFound⟩ := splitAtMarker_eq_some split
  have start : lower.utf8Length + before.toAsciiLowercase.utf8Length +
      found.toAsciiLowercase.utf8Length = (out ++ (before ++ found)).utf8Length := by
    simp only [utf8Length_toAsciiLowercase, utf8Length_append, same]
    omega
  have atStart : (out ++ (before ++ found ++ tail)).splitAtByte
      (out ++ (before ++ found)).utf8Length = some (out ++ (before ++ found), tail) := by
    rw [splitAtByte_eq_some]
    exact ⟨by simp only [append_assoc], rfl⟩
  have ended : (out ++ (before ++ found) ++ mask ++ afterValue tail).utf8Length ≤
      (out ++ (before ++ found)).utf8Length + 3 ↔ afterValue tail = [] := by
    rw [utf8Length_append, utf8Length_append _ mask, show mask.utf8Length = 3 from rfl,
      ← Text.utf8Length_eq_zero]
    omega
  rw [redactFrom]
  split
  · next outside => rw [splitAtByte_append] at outside; cases outside
  · next inside =>
      rw [splitAtByte_append] at inside
      cases inside
      simp only [isFound, start, atStart]
      rw [← afterValue]
      by_cases empty : afterValue tail = []
      · rw [if_pos (ended.mpr empty), if_pos empty, empty, append_nil]
      · rw [if_neg (mt ended.mp empty), if_neg empty]
        rw [utf8Length_append, same]

theorem maskValues_nil (nonempty : marker ≠ []) : maskValues marker [] = [] := by
  apply maskValues_of_none
  rw [splitAtMarker, Option.map_eq_none_iff, find_eq_none]
  intro before isPrefix
  exact nonempty (append_eq_nil_iff.mp (prefix_nil.mp isPrefix)).2

theorem redactFrom_eq {marker text : Text} (nonempty : marker ≠ []) (inStep : InStep marker text)
    {lower out : Text} (same : out.utf8Length = lower.utf8Length) :
    redactFrom marker (lower ++ text.toAsciiLowercase) lower.utf8Length (out ++ text) =
      .ok (out ++ maskValues marker text) := by
  induction inStep generalizing lower out with
  | absent split => rw [redactFrom_of_none _ _ split, maskValues_of_none split]
  | toEnd split runsOn =>
      rw [redactFrom_of_some lower out same split, if_pos runsOn,
        maskValues_of_some nonempty split, runsOn, maskValues_nil nonempty]
      simp only [append_assoc, append_nil]
  | @sameLength text head tail split length rest induction =>
      rw [redactFrom_of_some lower out same split, maskValues_of_some nonempty split]
      by_cases empty : afterValue tail = []
      · rw [if_pos empty, empty, maskValues_nil nonempty]
        simp only [append_assoc, append_nil]
      · -- The value is as long as the mask, so copy and text stay in step behind it.
        obtain ⟨before, found, -, isText, -⟩ := splitAtMarker_eq_some split
        have isTail : tail.takeWhile (fun character => !isDelimiter character) ++
            afterValue tail = tail := takeWhile_append_dropWhile
        have next := @induction (lower ++ toAsciiLowercase
          (head ++ tail.takeWhile fun character => !isDelimiter character)) (out ++ head ++ mask)
          (by
            simp only [utf8Length_append, utf8Length_toAsciiLowercase, same, length]
            rfl)
        rw [append_assoc lower, ← toAsciiLowercase_append, append_assoc head, isTail,
          ← isText, utf8Length_append, utf8Length_toAsciiLowercase,
          utf8Length_append, length, ← Nat.add_assoc] at next
        rw [if_neg empty, next]
        simp only [append_assoc]
  | @last text head tail start after split boundary noneAfter noneRest =>
      rw [redactFrom_of_some lower out same split, maskValues_of_some nonempty split,
        maskValues_of_none noneRest]
      by_cases empty : afterValue tail = []
      · rw [if_pos empty, empty]
        simp only [append_assoc, append_nil]
      · obtain ⟨before, found, -, isText, -⟩ := splitAtMarker_eq_some split
        obtain ⟨isTail, length⟩ := splitAtByte_eq_some.mp boundary
        have stop := redactFrom_of_none (lower ++ toAsciiLowercase (head ++ start))
          (out ++ head ++ mask ++ afterValue tail) noneAfter
        rw [append_assoc lower, ← toAsciiLowercase_append, append_assoc head, isTail,
          ← isText, utf8Length_append, utf8Length_toAsciiLowercase,
          utf8Length_append, length, ← Nat.add_assoc] at stop
        rw [if_neg empty, stop]
        simp only [append_assoc]

theorem redactMarker_eq (nonempty : marker ≠ []) (inStep : InStep marker text) :
    redactMarker text marker = .ok (maskValues marker text) :=
  @redactFrom_eq marker text nonempty inStep [] [] rfl

/-! ## What a masked text keeps -/

variable {character : Char}

theorem plain_of_mem {found : Text} (isMarker : IsMarker marker)
    (same : found.toAsciiLowercase = marker) (member : character ∈ found) :
    character ≠ '*' ∧ character ≠ '/' ∧ isDelimiter character = false := by
  have lowered (other : Char) (caseless : other.isAlpha = false) (equal : character = other) :
      other ∈ marker :=
    same ▸ (mem_toAsciiLowercase caseless).mpr (equal ▸ member)
  refine ⟨?_, ?_, ?_⟩
  · intro equal
    exact (isMarker.plain _ (lowered '*' rfl equal)).1 rfl
  · intro equal
    exact (isMarker.plain _ (lowered '/' rfl equal)).2.1 rfl
  · by_contra delimits
    rw [Bool.not_eq_false] at delimits
    have caseless : character.isAlpha = false := by
      have cases := delimits
      simp only [isDelimiter, mem_cons, not_mem_nil, or_false, decide_eq_true_eq] at cases
      rcases cases with rfl | rfl | rfl | rfl | rfl <;> rfl
    have plain := (isMarker.plain _ (lowered character caseless rfl)).2.2
    rw [delimits] at plain
    cases plain

variable {other rest : Text}

/-- What is hidden stays hidden when the text changes behind a character that is neither of the
mask nor a delimiter. -/
theorem hidden_append {middle : Text} (notMask : character ≠ '*')
    (notDelimiter : isDelimiter character = false) (hidden : Hidden (middle ++ character :: rest)) :
    Hidden (middle ++ character :: other) := by
  obtain ⟨behind, whole, delimited⟩ := hidden
  match middle with
  | [] | [_] | [_, _] => simp [mask, notMask] at whole
  | [_, _, _] =>
      simp only [mask, cons_append, nil_append] at whole
      injections
      subst_vars
      rw [delimited character rfl] at notDelimiter
      cases notDelimiter
  | first :: second :: third :: fourth :: middle =>
      simp only [mask, cons_append] at whole
      injections
      subst_vars
      exact ⟨fourth :: (middle ++ character :: other), rfl, delimited⟩

theorem head?_maskValues (nonempty : marker ≠ []) :
    (maskValues marker text).head? = text.head? := by
  cases split : splitAtMarker marker text with
  | none => rw [maskValues_of_none split]
  | some parts =>
      obtain ⟨before, found, isHead, isText, same, -⟩ := splitAtMarker_eq_some split
      have headNonempty : parts.1 ≠ [] := by
        rw [isHead]
        intro empty
        rw [(append_eq_nil_iff.mp empty).2] at same
        exact nonempty same.symm
      rw [maskValues_of_some nonempty split, isText, append_assoc,
        List.head?_append_of_ne_nil _ headNonempty, List.head?_append_of_ne_nil _ headNonempty]

theorem hidden_mask (nonempty : marker ≠ []) :
    Hidden (mask ++ maskValues marker (afterValue tail)) := by
  refine ⟨_, rfl, ?_⟩
  rw [head?_maskValues nonempty]
  intro character isHead
  have stopped := List.head?_dropWhile_not (fun character => !isDelimiter character) tail
  rw [← afterValue, isHead] at stopped
  simpa using stopped

variable {second first : Text}

theorem Masked.of_append (masked : Masked marker (first ++ second)) :
    Masked marker second := by
  rintro before found after rfl same
  exact masked (first ++ before) found after (by simp only [append_assoc]) same

theorem exists_mem_rest {start mark : Text} (whole : text ++ rest = start ++ mark)
    (restNonempty : rest ≠ []) (markNonempty : mark ≠ []) :
    ∃ (middle : Text) (character : Char) (behind : Text),
      rest = middle ++ character :: behind ∧ character ∈ mark := by
  rcases append_eq_append_iff.mp whole with ⟨middle, -, isRest⟩ | ⟨overlap, -, isMark⟩
  · obtain ⟨character, behind, rfl⟩ := exists_cons_of_ne_nil markNonempty
    exact ⟨middle, character, behind, isRest, mem_cons_self⟩
  · obtain ⟨character, behind, rfl⟩ := exists_cons_of_ne_nil restNonempty
    exact ⟨[], character, behind, rfl, isMark ▸ mem_append_right overlap mem_cons_self⟩

/-- Masking the values after one marker hides them, and keeps hidden what follows another. -/
theorem masked_maskValues (isMarker : IsMarker marker) (isOther : IsMarker other)
    (masked : marker = other ∨ Masked marker text) :
    Masked marker (maskValues other text) := by
  induction length : text.length using Nat.strong_induction_on generalizing text with
  | _ size induction =>
    intro before found after whole same
    have occurs : found ≠ [] := by
      rintro rfl
      exact isMarker.nonempty same.symm
    cases split : splitAtMarker other text with
    | none =>
        rw [maskValues_of_none split] at whole
        rcases masked with rfl | masked
        · have absent := find_eq_none.mp (Option.map_eq_none_iff.mp split)
            before.toAsciiLowercase
          rw [← same, whole, ← toAsciiLowercase_append, toAsciiLowercase_append _ after]
            at absent
          exact absurd (prefix_append _ _) absent
        · exact masked before found after whole same
    | some parts =>
        obtain ⟨head, tail⟩ := parts
        have shorter := length_afterValue_lt split isOther.nonempty
        obtain ⟨start, mark, isHead, isText, sameMark, isFirst⟩ := splitAtMarker_eq_some split
        have isTail : tail.takeWhile (fun character => !isDelimiter character) ++
            afterValue tail = tail := takeWhile_append_dropWhile
        rw [maskValues_of_some isOther.nonempty split] at whole
        rcases occurrence_beside whole (by decide) occurs (by
          intro character member inFound
          exact (plain_of_mem isMarker same inFound).1 (by simpa [mask] using member)) with
          ⟨rest, inHead, rfl⟩ | ⟨between, inRest, -⟩
        · by_cases ended : rest = []
          · rw [ended, nil_append]
            exact hidden_mask isOther.nonempty
          · rcases masked with rfl | masked
            · -- An occurrence before the end of the head would have been the first one.
              have earlier := (find_eq_some isFirst).2 before.toAsciiLowercase
                ⟨toAsciiLowercase (rest ++ tail), by
                  rw [isText, inHead, ← same]
                  simp only [toAsciiLowercase_append, append_assoc]⟩
              have lengths := congrArg List.length (inHead.symm.trans isHead)
              have markers := congrArg List.length (same.trans sameMark.symm)
              have positive := length_pos_of_ne_nil ended
              simp only [toAsciiLowercase, length_map, length_append] at *
              omega
            · have hidden := masked before found (rest ++ tail)
                (by rw [isText, inHead, append_assoc]) same
              obtain ⟨middle, first, behind, isRest, isMark⟩ := exists_mem_rest
                (inHead.symm.trans isHead) ended (by
                  rintro rfl
                  exact isOther.nonempty sameMark.symm)
              obtain ⟨notMask, -, notDelimiter⟩ := plain_of_mem isOther sameMark isMark
              rw [isRest, append_assoc, cons_append] at hidden
              rw [isRest, append_assoc, append_assoc, cons_append]
              exact hidden_append notMask notDelimiter hidden
        · apply induction (afterValue tail).length (length ▸ shorter) _ rfl between found after
            inRest same
          apply masked.imp_right
          intro masked
          rw [isText, ← isTail, ← append_assoc] at masked
          exact masked.of_append

/-! ## Path segments keep the values hidden -/

/-- The mask of a segment replaces no equals sign and brings none. -/
def SegmentMasked (before after : Text) : Prop := after = before ∨ '=' ∉ before ∧ '=' ∉ after

theorem SegmentMasked.trans {third : Text} (before : SegmentMasked first second)
    (after : SegmentMasked second third) : SegmentMasked first third := by
  rcases before with rfl | ⟨notFirst, notSecond⟩
  · exact after
  · rcases after with rfl | ⟨-, notThird⟩
    · exact .inr ⟨notFirst, notSecond⟩
    · exact .inr ⟨notFirst, notThird⟩

theorem segmentMasked_refl (parts : List Text) : List.Forall₂ SegmentMasked parts parts :=
  forall₂_same.mpr fun _ _ => .inl rfl

theorem segmentsMasked_trans {first second third : List Text}
    (before : List.Forall₂ SegmentMasked first second)
    (after : List.Forall₂ SegmentMasked second third) :
    List.Forall₂ SegmentMasked first third := by
  induction before generalizing third with
  | nil => exact after
  | cons isSegment _ induction =>
      cases after with
      | cons isNext rest => exact .cons (isSegment.trans isNext) (induction rest)

theorem equals_notMem_of_looksLike {segment : Text}
    (looksLike : looksLikeApiKeySegment segment = true) : '=' ∉ segment := by
  intro member
  rw [looksLikeApiKeySegment, Bool.and_eq_true, all_eq_true] at looksLike
  rw [← takeWhile_append_dropWhile (p := isWrappingPunct) (l := segment),
    mem_append] at member
  rcases member with stripped | member
  · exact absurd (mem_takeWhile_imp stripped) (by decide)
  · rw [← rdropWhile_append_rtakeWhile (p := isWrappingPunct)
      (l := segment.dropWhile isWrappingPunct), mem_append] at member
    rcases member with cleaned | stripped
    · exact absurd (looksLike.2 _ cleaned) (by decide)
    · exact absurd (mem_rtakeWhile_imp stripped) (by decide)

variable {parts : List Text}

theorem segmentMasked_set {place : Nat} {next masked : Text} (found : parts[place]? = some next)
    (isMasked : SegmentMasked next masked) :
    List.Forall₂ SegmentMasked parts (parts.set place masked) := by
  induction parts generalizing place with
  | nil => cases found
  | cons part parts induction =>
      cases place with
      | zero =>
          cases found
          exact .cons isMasked (segmentMasked_refl parts)
      | succ place => exact .cons (.inl rfl) (induction found)

theorem segmentMasked_maskSegment (parts : List Text) (place : Nat) :
    List.Forall₂ SegmentMasked parts (maskSegment parts place) := by
  rw [maskSegment]
  split
  · next next found =>
      split
      · next looksLike =>
          have plain := equals_notMem_of_looksLike looksLike
          apply segmentMasked_set found
          refine .inr ⟨plain, ?_⟩
          intro member
          rcases mem_append.mp member with inMask | trailing
          · exact absurd inMask (by decide)
          · exact plain ((rtakeWhile_suffix _ next).mem trailing)
      · exact segmentMasked_refl parts
  · exact segmentMasked_refl parts

theorem segmentMasked_foldl (places : List Nat) (parts : List Text) :
    List.Forall₂ SegmentMasked parts (places.foldl redactAfter parts) := by
  induction places using List.reverseRecOn with
  | nil => exact segmentMasked_refl parts
  | append_singleton places place induction =>
      rw [foldl_concat, redactAfter]
      split
      · exact segmentsMasked_trans induction (segmentMasked_maskSegment _ _)
      · exact induction

theorem masked_intercalate (isMarker : IsMarker marker) {others : List Text}
    (segments : List.Forall₂ SegmentMasked parts others)
    (masked : Masked marker (['/'].intercalate parts)) :
    Masked marker (['/'].intercalate others) := by
  have equals {found : Text} (same : found.toAsciiLowercase = marker) : '=' ∈ found :=
    (mem_toAsciiLowercase rfl).mp (same ▸ isMarker.equals)
  induction segments with
  | nil => exact masked
  | @cons part other parts others isSegment segments induction =>
      cases segments with
      | nil =>
          rw [intercalate_singleton] at masked ⊢
          rcases isSegment with rfl | ⟨-, plain⟩
          · exact masked
          · rintro before found after rfl same
            exact absurd (mem_append_left after
              (mem_append_right before (equals same))) plain
      | cons isNext segments =>
          rw [intercalate_cons_cons] at masked ⊢
          intro before found after whole same
          rcases occurrence_beside whole (by simp)
            (ne_nil_of_mem (equals same)) (by
              intro character member inFound
              rw [mem_singleton.mp member] at inFound
              exact (plain_of_mem isMarker same inFound).2.1 rfl) with
            ⟨rest, inSegment, rfl⟩ | ⟨start, inRest, -⟩
          · have isOld : other = part := by
              rcases isSegment with same | ⟨-, plain⟩
              · exact same
              · rw [inSegment] at plain
                exact absurd (mem_append_left rest
                  (mem_append_right before (equals same))) plain
            rw [append_assoc, singleton_append]
            have hidden := masked before found _ (by
              rw [← isOld, inSegment, append_assoc, append_assoc,
                ← append_assoc rest]) same
            rw [append_assoc, singleton_append] at hidden
            exact hidden_append (by decide) (by decide) hidden
          · exact induction masked.of_append start found after inRest same

theorem masked_redactPathSecrets (isMarker : IsMarker marker) (masked : Masked marker text) :
    Masked marker (redactPathSecrets text) := by
  apply masked_intercalate isMarker (segmentMasked_foldl _ _)
  rw [intercalate_splitOn]
  exact masked

/-- Every pass keeps in step, each on the text in which the values of the earlier markers are
masked. -/
def PassesInStep : List Text → Text → Prop
  | [], _ => True
  | marker :: markers, text => InStep marker text ∧ PassesInStep markers (maskValues marker text)

theorem foldlM_redactMarker {markers : List Text} (isMarkers : ∀ marker ∈ markers, IsMarker marker)
    (inStep : PassesInStep markers text) (hidden : List Text)
    (isHidden : ∀ marker ∈ hidden, IsMarker marker ∧ Masked marker text) :
    ∃ out, markers.foldlM redactMarker text = .ok out ∧
      ∀ marker ∈ hidden ++ markers, Masked marker out := by
  induction markers generalizing text hidden with
  | nil =>
      refine ⟨text, rfl, ?_⟩
      intro marker member
      rw [append_nil] at member
      exact (isHidden marker member).2
  | cons first markers induction =>
      have isFirst := isMarkers first mem_cons_self
      rw [foldlM_cons, redactMarker_eq isFirst.nonempty inStep.1]
      obtain ⟨out, isOut, masked⟩ := induction
        (fun marker member => isMarkers marker (mem_cons_of_mem first member)) inStep.2
        (hidden ++ [first]) (by
          intro marker member
          rcases mem_append.mp member with known | isThis
          · exact ⟨(isHidden marker known).1,
              masked_maskValues (isHidden marker known).1 isFirst (.inr (isHidden marker known).2)⟩
          · rw [mem_singleton.mp isThis]
            exact ⟨isFirst, masked_maskValues isFirst isFirst (.inl rfl)⟩)
      refine ⟨out, isOut, ?_⟩
      intro marker member
      apply masked
      simpa using member

/-- The redaction returns, and every marker is followed by the mask, when every pass keeps in
step. -/
theorem redactSensitiveText_masked {text : Text} (inStep : PassesInStep keyMarkers text) :
    ∃ out, redactSensitiveText text = .ok out ∧ ∀ marker ∈ keyMarkers, Masked marker out := by
  obtain ⟨out, isOut, masked⟩ := foldlM_redactMarker isMarker_keyMarkers inStep
    [] (by simp)
  refine ⟨redactPathSecrets out, ?_, ?_⟩
  · rw [redactSensitiveText, isOut]
    rfl
  · intro marker member
    exact masked_redactPathSecrets (isMarker_keyMarkers marker member) (masked marker member)

theorem redactSensitiveText_masked_oneKey :
    ∃ out, redactSensitiveText "api-key=secret&page=2".toList = .ok out ∧
      ∀ marker ∈ keyMarkers, Masked marker out := by
  have masked : maskValues "api-key=".toList "api-key=secret&page=2".toList =
      "api-key=***&page=2".toList := by
    decide +kernel
  apply redactSensitiveText_masked
  refine ⟨@InStep.last _ _ "api-key=".toList "secret&page=2".toList "sec".toList
    "ret&page=2".toList (by decide) (by decide) (by decide) (by decide), ?_⟩
  rw [masked]
  have absent (marker : Text)
      (isAbsent : splitAtMarker marker "api-key=***&page=2".toList = none) :
      maskValues marker "api-key=***&page=2".toList = "api-key=***&page=2".toList :=
    maskValues_of_none isAbsent
  refine ⟨.absent (by decide), ?_⟩
  rw [absent _ (by decide)]
  refine ⟨.absent (by decide), ?_⟩
  rw [absent _ (by decide)]
  exact ⟨.absent (by decide), trivial⟩

/-- An empty value moves the text ahead of its copy: the marker behind it is passed over. -/
theorem redactSensitiveText_leaks :
    ¬∀ text : Text, ∃ out, redactSensitiveText text = .ok out ∧
      ∀ marker ∈ keyMarkers, Masked marker out := by
  intro redacts
  obtain ⟨out, isOut, masked⟩ := redacts "api-key=&api-key=secret".toList
  have leaks : redactSensitiveText "api-key=&api-key=secret".toList =
      .ok "api-key=***&api-key=secret".toList := by
    decide +kernel
  rw [leaks] at isOut
  cases isOut
  obtain ⟨rest, isMask, -⟩ := masked "api-key=".toList (by decide) "api-key=***&".toList
    "api-key=".toList "secret".toList (by decide) (by decide)
  cases isMask

/-- A long value moves it behind: the offset of the last marker is outside the text. -/
example : redactSensitiveText "api-key=aaaaaaaaaaaaaaaa&api-key=b".toList = .error .panicked := by
  decide +kernel

end NftData.Analysis2
