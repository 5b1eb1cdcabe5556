import NftData.Foundation.Text

namespace NftData.Ethereum

/-! # The blacklist in the environment file

The blacklist is one line of an `.env` file that people edit too. The file is read and
written in text mode. Addresses are ASCII, which is all that `str.lower` is modelled for. -/

open List

def universalNewlines : Text → Text
  | [] => []
  | '\r' :: '\n' :: rest => '\n' :: universalNewlines rest
  | character :: rest =>
      (if character = '\r' then '\n' else character) :: universalNewlines rest

/-- Lines with their line feeds. The last one may lack it. -/
def splitLines : Text → List Text
  | [] => []
  | character :: rest =>
      if character = '\n' then
        ['\n'] :: splitLines rest
      else
        match splitLines rest with
        | [] => [[character]]
        | line :: more => (character :: line) :: more

/-- `readlines`, where a missing file has no lines. -/
def readLines (file : Option Text) : List Text :=
  splitLines (universalNewlines (file.getD []))

/-- `str.isspace`: Unicode white space and the ASCII separators. -/
def isSpace (character : Char) : Bool :=
  Text.isWhiteSpace character ||
    (decide (28 ≤ character.toNat) && decide (character.toNat ≤ 31))

def strip (text : Text) : Text := (text.dropWhile isSpace).rdropWhile isSpace

def blacklistKey : Text := "DEFI_BLACKLIST=".toList

def isBlacklistLine (line : Text) : Bool := blacklistKey.isPrefixOf (strip line)

def hexPrefix : Text := "0x".toList

def addressesOf (value : Text) : List Text :=
  (((value.splitOn ',').map strip).filter hexPrefix.isPrefixOf).map Text.toAsciiLowercase

/-- The addresses of the first blacklist line. -/
def blacklistOf (lines : List Text) : List Text :=
  match lines.find? isBlacklistLine with
  | some line => addressesOf ((strip line).drop blacklistKey.length)
  | none => []

/-- What `load_blacklist` reads from the file. -/
def readBlacklist (file : Option Text) : List Text := blacklistOf (readLines file)

/-- `load_blacklist`: the variable of the process and the file. -/
def loadBlacklist (environment : Text) (file : Option Text) : List Text :=
  addressesOf environment ++ readBlacklist file

def blacklistLine (addresses : List Text) : Text :=
  blacklistKey ++ [','].intercalate (addresses.dedup.insertionSort (· ≤ ·)) ++ ['\n']

/-- Replace the first blacklist line, or add one at the end. -/
def setBlacklistLine (newLine : Text) : List Text → List Text
  | [] => [newLine]
  | line :: rest =>
      if isBlacklistLine line then newLine :: rest
      else line :: setBlacklistLine newLine rest

/-- What `append_blacklist_env` writes after it has read `file`. -/
def appendedBlacklist (newAddresses : List Text) (file : Option Text) : Text :=
  let lines := readLines file
  let addresses := blacklistOf lines ++ newAddresses.map Text.toAsciiLowercase
  (setBlacklistLine (blacklistLine addresses) lines).flatten

def appendBlacklistEnv (newAddresses : List Text) (file : Option Text) : Option Text :=
  if newAddresses = [] then file else some (appendedBlacklist newAddresses file)

example : appendBlacklistEnv ["0xB".toList] (some "A=1\r\n DEFI_BLACKLIST=0xa, x\n".toList) =
    some "A=1\nDEFI_BLACKLIST=0xa,0xb\n".toList := by
  decide

def Stripped (text : Text) : Prop :=
  (∀ character ∈ text.head?, isSpace character = false) ∧
    ∀ character ∈ text.getLast?, isSpace character = false

variable {text : Text}

theorem dropWhile_of_head (head : ∀ character ∈ text.head?, isSpace character = false) :
    text.dropWhile isSpace = text := by
  cases text with
  | nil => rfl
  | cons first rest =>
      rw [dropWhile_cons_of_neg]
      simp [head first rfl]

theorem rdropWhile_of_getLast (last : ∀ character ∈ text.getLast?, isSpace character = false) :
    text.rdropWhile isSpace = text := by
  rw [List.rdropWhile, dropWhile_of_head, reverse_reverse]
  rwa [List.head?_reverse]

theorem Stripped.strip_eq (stripped : Stripped text) : strip text = text := by
  rw [strip, dropWhile_of_head stripped.1, rdropWhile_of_getLast stripped.2]

theorem stripped_strip (text : Text) : Stripped (strip text) := by
  constructor
  · intro character isHead
    have isPrefix : strip text <+: text.dropWhile isSpace := rdropWhile_prefix _ _
    have head : (text.dropWhile isSpace).head? = some character := by
      rcases isPrefix with ⟨rest, equal⟩
      rw [← equal, List.head?_append, isHead]
      rfl
    have fails := List.head?_dropWhile_not isSpace text
    rw [head] at fails
    simpa using fails
  · intro character isLast
    rcases List.getLast?_eq_some_iff.mp isLast with ⟨front, equal⟩
    have nonempty : strip text ≠ [] := by simp [equal]
    have fails := rdropWhile_last_not isSpace (text.dropWhile isSpace) nonempty
    have last : (strip text).getLast nonempty = character := by simp [equal]
    rw [← last]
    exact eq_false_of_ne_true fails

theorem strip_append_newline (text : Text) : strip (text ++ ['\n']) = strip text := by
  have space : isSpace '\n' = true := by decide
  rw [strip, dropWhile_append, strip]
  split
  · next blank =>
      rw [List.isEmpty_iff.mp blank, dropWhile_cons_of_pos space]
      rfl
  · rw [rdropWhile_concat_pos _ _ _ space]

theorem strip_subset (text : Text) : strip text ⊆ text := fun _ member =>
  (dropWhile_sublist isSpace).subset
    ((List.rdropWhile_prefix isSpace _).subset member)

theorem toLower_cases (character : Char) :
    character.toLower = character ∨
      97 ≤ character.toLower.toNat ∧ character.toLower.toNat ≤ 122 := by
  by_cases upper : character.isUpper = true
  · apply Or.inr
    have lower : character.toLower.isLower = true := by
      rw [Char.isLower_toLower_eq_isAlpha, Char.isAlpha, upper, Bool.true_or]
    simpa [Char.isLower, UInt32.le_iff_toNat_le] using lower
  · exact .inl (Char.toLower_eq_of_not_isUpper upper)

theorem isSpace_toLower (character : Char) (visible : isSpace character = false) :
    isSpace character.toLower = false := by
  rcases toLower_cases character with same | letter
  · rw [same]
    exact visible
  · simp only [isSpace, Text.isWhiteSpace, Bool.or_eq_false_iff, Bool.and_eq_false_iff,
      decide_eq_false_iff_not, beq_eq_false_iff_ne]
    omega

theorem Stripped.toAsciiLowercase (stripped : Stripped text) :
    Stripped text.toAsciiLowercase := by
  constructor
  · intro character isHead
    rw [Text.toAsciiLowercase, List.head?_map, Option.mem_map] at isHead
    rcases isHead with ⟨original, isHead, equal⟩
    exact equal ▸ isSpace_toLower original (stripped.1 original isHead)
  · intro character isLast
    rw [Text.toAsciiLowercase, List.getLast?_map, Option.mem_map] at isLast
    rcases isLast with ⟨original, isLast, equal⟩
    exact equal ▸ isSpace_toLower original (stripped.2 original isLast)

def IsLine (line : Text) : Prop := ∃ body : Text, '\n' ∉ body ∧ line = body ++ ['\n']

/-- What a file can be split into: complete lines, and perhaps a last one without its line
feed. -/
def AreLines : List Text → Prop
  | [] => True
  | line :: rest => (IsLine line ∧ AreLines rest) ∨ (rest = [] ∧ line ≠ [] ∧ '\n' ∉ line)

def Terminated (lines : List Text) : Prop := ∀ line ∈ lines, IsLine line

theorem splitLines_append {body : Text} (unbroken : '\n' ∉ body) (rest : Text) :
    splitLines (body ++ '\n' :: rest) = (body ++ ['\n']) :: splitLines rest := by
  induction body with
  | nil => rfl
  | cons character body induction =>
      rw [mem_cons, not_or] at unbroken
      rw [cons_append, splitLines, if_neg (Ne.symm unbroken.1), induction unbroken.2]
      rfl

theorem splitLines_unbroken {line : Text} (nonempty : line ≠ []) (unbroken : '\n' ∉ line) :
    splitLines line = [line] := by
  induction line with
  | nil => exact absurd rfl nonempty
  | cons character line induction =>
      rw [mem_cons, not_or] at unbroken
      rw [splitLines, if_neg (Ne.symm unbroken.1)]
      cases line with
      | nil => rfl
      | cons next line => rw [induction (cons_ne_nil _ _) unbroken.2]

theorem areLines_splitLines (text : Text) : AreLines (splitLines text) := by
  induction text with
  | nil => trivial
  | cons character rest induction =>
      rw [splitLines]
      split
      · exact .inl ⟨⟨[], not_mem_nil, rfl⟩, induction⟩
      · next different =>
          cases split : splitLines rest with
          | nil => exact .inr ⟨rfl, cons_ne_nil _ _, by simp [Ne.symm different]⟩
          | cons line more =>
              rw [split] at induction
              rcases induction with complete | last
              · rcases complete with ⟨⟨body, unbroken, equal⟩, others⟩
                refine .inl ⟨⟨character :: body, ?_, by rw [equal]; rfl⟩, others⟩
                simp [unbroken, Ne.symm different]
              · refine .inr ⟨last.1, cons_ne_nil _ _, ?_⟩
                simp [last.2.2, Ne.symm different]

theorem splitLines_flatten {lines : List Text} (are : AreLines lines) :
    splitLines lines.flatten = lines := by
  induction lines with
  | nil => rfl
  | cons line rest induction =>
      rcases are with complete | last
      · rcases complete with ⟨⟨body, unbroken, equal⟩, others⟩
        rw [flatten_cons, equal, List.append_assoc, singleton_append,
          splitLines_append unbroken, induction others]
      · rw [last.1, flatten_cons, flatten_nil, append_nil,
          splitLines_unbroken last.2.1 last.2.2]

theorem flatten_splitLines (text : Text) : (splitLines text).flatten = text := by
  induction text with
  | nil => rfl
  | cons character rest induction =>
      rw [splitLines]
      split
      · next isFeed => rw [flatten_cons, induction, isFeed, singleton_append]
      · cases split : splitLines rest with
        | nil =>
            rw [split] at induction
            rw [← induction]
            rfl
        | cons line more =>
            rw [split] at induction
            rw [flatten_cons, cons_append, ← flatten_cons, induction]

theorem not_mem_universalNewlines (text : Text) : '\r' ∉ universalNewlines text := by
  fun_induction universalNewlines text with
  | case1 => exact not_mem_nil
  | case2 rest induction => simpa using induction
  | case3 character rest _ induction =>
      rw [mem_cons, not_or]
      refine ⟨?_, induction⟩
      split
      · decide
      · next different => exact Ne.symm different

theorem universalNewlines_eq (plain : '\r' ∉ text) :
    universalNewlines text = text := by
  induction text with
  | nil => rfl
  | cons character rest induction =>
      rw [mem_cons, not_or] at plain
      rw [universalNewlines, if_neg (Ne.symm plain.1), induction plain.2]
      intro other isReturn
      exact absurd isReturn.symm plain.1

end NftData.Ethereum
