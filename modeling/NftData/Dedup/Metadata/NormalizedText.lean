import NftData.Foundation.Text

namespace NftData.Dedup

/-! # Normalized texts

Texts are compared after Unicode normalization, lowercasing and folding of white space. -/

open List

/-- `nfkc` and then `to_lowercase`, on a whole text. Texts in this form can be taken apart,
and they can be joined by a space. -/
structure CaseFolding where
  fold : Text → Text
  fold_fold : ∀ text, fold (fold text) = fold text
  fold_infix : ∀ {text part}, fold text = text → part <:+: text → fold part = part
  fold_space : ∀ {first second}, fold first = first → fold second = second →
    fold (first ++ ' ' :: second) = first ++ ' ' :: second
  not_isUpper : ∀ text, ∀ character ∈ fold text, character.isUpper = false

def foldCharacter (state : Text × Bool) (character : Char) : Text × Bool :=
  if Text.isWhiteSpace character then
    (state.1, state.1 ≠ [])
  else
    ((if state.2 then state.1 ++ [' '] else state.1) ++ [character], false)

def foldWhitespace (text : Text) : Text := (text.foldl foldCharacter ([], false)).1

def normalizeString (unicode : CaseFolding) (input : Text) : Text :=
  foldWhitespace (unicode.fold input)

/-! ## Folded white space stays -/

/-- The output so far folds to itself. -/
structure FoldsToItself (state : Text × Bool) : Prop where
  same : state.1.foldl foldCharacter ([], false) = (state.1, false)
  pending : state.2 = true → state.1 ≠ []

variable {state : Text × Bool}

theorem FoldsToItself.foldCharacter (folds : FoldsToItself state) (character : Char) :
    FoldsToItself (foldCharacter state character) := by
  rw [Dedup.foldCharacter]
  split
  · exact ⟨folds.same, fun nonempty => of_decide_eq_true nonempty⟩
  · next isText =>
      refine ⟨?_, fun isPending => absurd isPending Bool.false_ne_true⟩
      cases isPending : state.2 with
      | false =>
          simp only [Bool.false_eq_true, if_false, List.foldl_append, folds.same, foldl_cons,
            foldl_nil, Dedup.foldCharacter, isText]
      | true =>
          have space : Text.isWhiteSpace ' ' = true := by decide
          have nonempty := folds.pending isPending
          simp [folds.same, Dedup.foldCharacter, isText, space, nonempty]

theorem foldsToItself_foldl (text : Text) {state : Text × Bool} (folds : FoldsToItself state) :
    FoldsToItself (text.foldl foldCharacter state) := by
  induction text generalizing state with
  | nil => exact folds
  | cons head tail induction => exact induction (folds.foldCharacter head)

theorem foldWhitespace_foldWhitespace (text : Text) :
    foldWhitespace (foldWhitespace text) = foldWhitespace text := by
  have folds := @foldsToItself_foldl text ([], false)
    ⟨rfl, fun isPending => absurd isPending Bool.false_ne_true⟩
  have same := congrArg (fun state => state.1) folds.same
  exact same

variable {character : Char} {text : Text}

theorem mem_foldl_foldCharacter (member : character ∈ (text.foldl foldCharacter state).1) :
    character ∈ state.1 ∨ character ∈ text ∨ character = ' ' := by
  induction text generalizing state with
  | nil => exact .inl member
  | cons head tail induction =>
      rcases induction member with inState | inTail | isSpace
      · rw [foldCharacter] at inState
        split at inState
        · exact .inl inState
        · rcases mem_append.mp inState with inOutput | isHead
          · split at inOutput
            · rcases mem_append.mp inOutput with before | isSpace
              · exact .inl before
              · exact .inr (.inr (mem_singleton.mp isSpace))
            · exact .inl inOutput
          · rw [mem_singleton.mp isHead]
            exact .inr (.inl mem_cons_self)
      · exact .inr (.inl (mem_cons_of_mem _ inTail))
      · exact .inr (.inr isSpace)

section CaseFolding

variable (unicode : CaseFolding)

/-- The output for the beginning of a normalized text is normalized, and what stands behind
its last space is a part of the text. -/
structure Normalized (before : Text) (state : Text × Bool) : Prop where
  fixed : unicode.fold state.1 = state.1
  word : state.2 = false → ∃ word, word <:+ before ∧
    (state.1 = word ∨ ∃ base, unicode.fold base = base ∧ state.1 = base ++ ' ' :: word)

variable {unicode} {before : Text}

theorem Normalized.foldCharacter {after : Text} (normalized : Normalized unicode before state)
    (isFixed : unicode.fold (before ++ character :: after) = before ++ character :: after) :
    Normalized unicode (before ++ [character]) (foldCharacter state character) := by
  have fixedWord : ∀ {word : Text}, word <:+ before →
      unicode.fold (word ++ [character]) = word ++ [character] := by
    rintro word ⟨front, rfl⟩
    apply unicode.fold_infix isFixed
    exact ⟨front, after, by simp⟩
  rw [Dedup.foldCharacter]
  split
  · refine ⟨normalized.fixed, fun notPending => ⟨[], nil_suffix, .inl ?_⟩⟩
    simpa using notPending
  · cases isPending : state.2 with
    | true =>
        have alone := fixedWord (nil_suffix (l := before))
        have joined := unicode.fold_space normalized.fixed alone
        refine ⟨by simpa using joined, fun _ => ⟨[character], suffix_append _ _, .inr ?_⟩⟩
        exact ⟨state.1, normalized.fixed, by simp⟩
    | false =>
        rcases normalized.word isPending with ⟨word, isSuffix, isWord | ⟨base, isBase, isWord⟩⟩
        · have longer := fixedWord isSuffix
          refine ⟨by simpa [isWord] using longer, fun _ => ⟨word ++ [character], ?_, .inl ?_⟩⟩
          · rcases isSuffix with ⟨front, rfl⟩
            exact ⟨front, by simp⟩
          · simp [isWord]
        · have longer := unicode.fold_space isBase (fixedWord isSuffix)
          refine ⟨by simpa [isWord] using longer, fun _ => ⟨word ++ [character], ?_, .inr ?_⟩⟩
          · rcases isSuffix with ⟨front, rfl⟩
            exact ⟨front, by simp⟩
          · exact ⟨base, isBase, by simp [isWord]⟩

theorem normalized_foldl (normalized : Normalized unicode before state)
    (isFixed : unicode.fold (before ++ text) = before ++ text) :
    Normalized unicode (before ++ text) (text.foldl foldCharacter state) := by
  induction text generalizing before state with
  | nil =>
      rw [append_nil]
      exact normalized
  | cons head tail induction =>
      have next := normalized.foldCharacter isFixed
      rw [append_cons] at isFixed ⊢
      exact induction next isFixed

theorem fold_foldWhitespace (isFixed : unicode.fold text = text) :
    unicode.fold (foldWhitespace text) = foldWhitespace text := by
  have nothing : unicode.fold [] = [] := unicode.fold_infix isFixed nil_infix
  have start : Normalized unicode [] ([], false) :=
    ⟨nothing, fun _ => ⟨[], nil_suffix, .inl rfl⟩⟩
  exact (normalized_foldl start (by rwa [nil_append])).fixed

@[simp] theorem normalizeString_normalizeString (unicode : CaseFolding) (input : Text) :
    normalizeString unicode (normalizeString unicode input) = normalizeString unicode input := by
  rw [normalizeString, normalizeString, fold_foldWhitespace (unicode.fold_fold input),
    foldWhitespace_foldWhitespace]

theorem not_isUpper_normalizeString (unicode : CaseFolding) {input : Text}
    (member : character ∈ normalizeString unicode input) : character.isUpper = false := by
  rcases mem_foldl_foldCharacter member with inNothing | inFolded | isSpace
  · exact absurd inNothing not_mem_nil
  · exact unicode.not_isUpper input character inFolded
  · rw [isSpace]
    rfl

end CaseFolding

end NftData.Dedup
