import NftData.Ethereum.BlacklistFile
import NftData.Foundation.Substrings

namespace NftData.Ethereum

/-! # Appending to the blacklist

What the file holds after `append_blacklist_env` wrote it. -/

open List

/-! ## Entries -/

/-- An address as it stands in a written blacklist line. -/
structure Entry (entry : Text) : Prop where
  hex : hexPrefix <+: entry
  noComma : ',' ∉ entry
  noFeed : '\n' ∉ entry
  noReturn : '\r' ∉ entry
  stripped : Stripped entry
  lower : entry.toAsciiLowercase = entry

variable {character : Char} {text : Text}

/-- Characters that are no letters are the same in every case. -/
theorem not_mem_toAsciiLowercase (missing : character ∉ text) (noLetter : character.toNat < 97) :
    character ∉ text.toAsciiLowercase := by
  intro member
  rcases mem_map.mp member with ⟨original, inside, equal⟩
  rcases toLower_cases original with same | letter
  · rw [← equal, same] at missing
    exact missing inside
  · rw [equal] at letter
    omega

theorem hexPrefix_toAsciiLowercase (isHex : hexPrefix <+: text) :
    hexPrefix <+: text.toAsciiLowercase := by
  rcases isHex with ⟨rest, equal⟩
  rw [← equal, Text.toAsciiLowercase, map_append]
  exact prefix_append hexPrefix _

theorem mem_of_mem_splitOn {separator : Char} {part : Text} (member : part ∈ text.splitOn separator)
    : part ⊆ text ∧ separator ∉ part := by
  induction text generalizing part with
  | nil =>
      rw [splitOn_nil, mem_singleton] at member
      rw [member]
      exact ⟨List.Subset.refl _, not_mem_nil⟩
  | cons character text induction =>
      rw [splitOn_cons_eq_if_modifyHead] at member
      split at member
      · rcases mem_cons.mp member with isEmpty | later
        · rw [isEmpty]
          exact ⟨nil_subset _, not_mem_nil⟩
        · exact ⟨fun _ inside => mem_cons_of_mem _ ((induction later).1 inside),
            (induction later).2⟩
      · next different =>
          cases parts : text.splitOn separator with
          | nil => exact absurd parts (splitOn_ne_nil separator text)
          | cons first more =>
              rw [parts] at member induction
              rcases mem_cons.mp member with isFirst | later
              · rw [isFirst]
                have inFirst := induction mem_cons_self
                refine ⟨cons_subset_cons _ inFirst.1, ?_⟩
                rw [mem_cons, not_or]
                exact ⟨fun equal => different (by simp [equal]), inFirst.2⟩
              · have inMore := induction (mem_cons_of_mem _ later)
                exact ⟨fun _ inside => mem_cons_of_mem _ (inMore.1 inside), inMore.2⟩

variable {entry : Text}

theorem entry_of_mem_addressesOf {value : Text} (noFeed : '\n' ∉ value) (noReturn : '\r' ∉ value)
    (member : entry ∈ addressesOf value) : Entry entry := by
  rcases mem_map.mp member with ⟨address, kept, equal⟩
  have isHex := (mem_filter.mp kept).2
  rcases mem_map.mp (mem_filter.mp kept).1 with ⟨part, inParts, isPart⟩
  have inside : address ⊆ value := by
    intro character inAddress
    rw [← isPart] at inAddress
    exact (mem_of_mem_splitOn inParts).1 (strip_subset part inAddress)
  have noComma : ',' ∉ address := by
    rw [← isPart]
    exact fun inStrip => (mem_of_mem_splitOn inParts).2 (strip_subset part inStrip)
  rw [← equal]
  constructor
  · exact hexPrefix_toAsciiLowercase (List.isPrefixOf_iff_prefix.mp isHex)
  · exact not_mem_toAsciiLowercase noComma (by decide)
  · exact not_mem_toAsciiLowercase (fun member => noFeed (inside member)) (by decide)
  · exact not_mem_toAsciiLowercase (fun member => noReturn (inside member)) (by decide)
  · exact (isPart ▸ stripped_strip part).toAsciiLowercase
  · exact Text.toAsciiLowercase_idem address

def IsHexDigit (character : Char) : Prop :=
  (48 ≤ character.toNat ∧ character.toNat ≤ 57) ∨
    (65 ≤ character.toNat ∧ character.toNat ≤ 70) ∨
      (97 ≤ character.toNat ∧ character.toNat ≤ 102)

/-- `0x` and hexadecimal digits. -/
def IsAddress (address : Text) : Prop :=
  ∃ digits : Text, address = hexPrefix ++ digits ∧ ∀ digit ∈ digits, IsHexDigit digit

variable {address : Text}

theorem IsAddress.alphanumeric (isAddress : IsAddress address) :
    ∀ character ∈ address, 48 ≤ character.toNat ∧ character.toNat ≤ 122 := by
  rcases isAddress with ⟨digits, equal, hexDigits⟩
  intro character member
  rw [equal, mem_append] at member
  rcases member with inPrefix | inDigits
  · have known : hexPrefix = ['0', 'x'] := rfl
    rw [known, mem_pair] at inPrefix
    rcases inPrefix with isZero | isX
    · rw [isZero]
      decide
    · rw [isX]
      decide
  · have isDigit := hexDigits character inDigits
    unfold IsHexDigit at isDigit
    omega

theorem entry_toAsciiLowercase (isAddress : IsAddress address) :
    Entry address.toAsciiLowercase := by
  have bounds := isAddress.alphanumeric
  have missing : ∀ other : Char, other.toNat < 48 → other ∉ address := by
    intro other small member
    have bound := bounds other member
    omega
  have visible : ∀ other ∈ address, isSpace other = false := by
    intro other member
    have bound := bounds other member
    simp only [isSpace, Text.isWhiteSpace, Bool.or_eq_false_iff, Bool.and_eq_false_iff,
      decide_eq_false_iff_not, beq_eq_false_iff_ne]
    omega
  constructor
  · rcases isAddress with ⟨digits, equal, _⟩
    exact hexPrefix_toAsciiLowercase ⟨digits, equal.symm⟩
  · exact not_mem_toAsciiLowercase (missing ',' (by decide)) (by decide)
  · exact not_mem_toAsciiLowercase (missing '\n' (by decide)) (by decide)
  · exact not_mem_toAsciiLowercase (missing '\r' (by decide)) (by decide)
  · apply Stripped.toAsciiLowercase
    exact ⟨fun other isHead => visible other (List.mem_of_mem_head? isHead),
      fun other isLast => visible other (List.mem_of_mem_getLast? isLast)⟩
  · exact Text.toAsciiLowercase_idem address

variable {entries : List Text}

/-- Entries are read back as they were written. -/
theorem addressesOf_intercalate (nonempty : entries ≠ []) (valid : ∀ entry ∈ entries, Entry entry) :
    addressesOf ([','].intercalate entries) = entries := by
  rw [addressesOf, splitOn_intercalate ',' (fun entry member => (valid entry member).noComma)
    nonempty]
  have stripped : entries.map strip = entries := by
    rw [map_congr_left fun entry member => (valid entry member).stripped.strip_eq,
      map_id']
  have kept : entries.filter hexPrefix.isPrefixOf = entries := by
    rw [filter_eq_self]
    exact fun entry member => isPrefixOf_iff_prefix.mpr (valid entry member).hex
  rw [stripped, kept, map_congr_left fun entry member => (valid entry member).lower,
    map_id']

/-- Joined entries end like the last of them. -/
theorem getLast_intercalate (nonempty : entries ≠ []) (valid : ∀ entry ∈ entries, Entry entry) :
    ∀ character ∈ ([','].intercalate entries).getLast?, isSpace character = false := by
  induction entries with
  | nil => exact absurd rfl nonempty
  | cons entry rest induction =>
      have first := valid entry mem_cons_self
      cases rest with
      | nil =>
          rw [intercalate_singleton]
          exact first.stripped.2
      | cons next rest =>
          have later := induction (cons_ne_nil _ _) fun other member =>
            valid other (mem_cons_of_mem _ member)
          have joined : [','].intercalate (entry :: next :: rest) =
              entry ++ [','] ++ [','].intercalate (next :: rest) :=
            intercalate_cons_cons
          intro character isLast
          rw [joined, List.getLast?_append] at isLast
          cases last : ([','].intercalate (next :: rest)).getLast? with
          | none =>
              have parts := addressesOf_intercalate (cons_ne_nil next rest)
                fun other member => valid other (mem_cons_of_mem _ member)
              rw [List.getLast?_eq_none_iff.mp last] at parts
              have isEmpty : addressesOf [] = [] := by decide
              rw [isEmpty] at parts
              cases parts
          | some other =>
              rw [last] at isLast later
              cases isLast
              exact later character rfl

theorem mem_intercalate (member : character ∈ [','].intercalate entries) :
    character = ',' ∨ ∃ entry ∈ entries, character ∈ entry := by
  induction entries with
  | nil => cases member
  | cons entry rest induction =>
      cases rest with
      | nil =>
          rw [intercalate_singleton] at member
          exact .inr ⟨entry, mem_cons_self, member⟩
      | cons next rest =>
          rw [intercalate_cons_cons, mem_append, mem_append,
            mem_singleton] at member
          rcases member with (inFirst | isComma) | later
          · exact .inr ⟨entry, mem_cons_self, inFirst⟩
          · exact .inl isComma
          · rcases induction later with isComma | inLater
            · exact .inl isComma
            · rcases inLater with ⟨other, inRest, inside⟩
              exact .inr ⟨other, mem_cons_of_mem _ inRest, inside⟩

section WrittenLine

variable {addresses : List Text}

def sortedAddresses (addresses : List Text) : List Text :=
  addresses.dedup.insertionSort (· ≤ ·)

theorem mem_sortedAddresses :
    entry ∈ sortedAddresses addresses ↔ entry ∈ addresses := by
  rw [sortedAddresses, mem_insertionSort, mem_dedup]

theorem sortedAddresses_ne_nil (nonempty : addresses ≠ []) : sortedAddresses addresses ≠ [] := by
  rcases exists_mem_of_ne_nil _ nonempty with ⟨entry, member⟩
  exact ne_nil_of_mem (mem_sortedAddresses.mpr member)

theorem blacklistLine_eq (addresses : List Text) :
    blacklistLine addresses =
      (blacklistKey ++ [','].intercalate (sortedAddresses addresses)) ++ ['\n'] := rfl

theorem strip_blacklistLine (nonempty : addresses ≠ [])
    (valid : ∀ entry ∈ addresses, Entry entry) :
    strip (blacklistLine addresses) =
      blacklistKey ++ [','].intercalate (sortedAddresses addresses) := by
  have keyHead : blacklistKey.head? = some 'D' := by decide
  have keyLast : blacklistKey.getLast? = some '=' := by decide
  rw [blacklistLine_eq, strip_append_newline]
  apply Stripped.strip_eq
  constructor
  · intro character isHead
    rw [List.head?_append, keyHead] at isHead
    cases isHead
    decide
  · intro character isLast
    have last := getLast_intercalate (sortedAddresses_ne_nil nonempty)
      fun entry member => valid entry (mem_sortedAddresses.mp member)
    rw [List.getLast?_append] at isLast
    cases joined : ([','].intercalate (sortedAddresses addresses)).getLast? with
    | none =>
        rw [joined, keyLast] at isLast
        cases isLast
        decide
    | some other =>
        rw [joined] at isLast last
        cases isLast
        exact last character rfl

theorem isBlacklistLine_blacklistLine (nonempty : addresses ≠ [])
    (valid : ∀ entry ∈ addresses, Entry entry) :
    isBlacklistLine (blacklistLine addresses) = true := by
  rw [isBlacklistLine, strip_blacklistLine nonempty valid, isPrefixOf_iff_prefix]
  exact prefix_append _ _

theorem addressesOf_blacklistLine (nonempty : addresses ≠ [])
    (valid : ∀ entry ∈ addresses, Entry entry) :
    addressesOf ((strip (blacklistLine addresses)).drop blacklistKey.length) =
      sortedAddresses addresses := by
  rw [strip_blacklistLine nonempty valid, drop_left]
  exact addressesOf_intercalate (sortedAddresses_ne_nil nonempty)
    fun entry member => valid entry (mem_sortedAddresses.mp member)

theorem isLine_blacklistLine (valid : ∀ entry ∈ addresses, Entry entry) :
    IsLine (blacklistLine addresses) := by
  have inKey : '\n' ∉ blacklistKey := by decide
  refine ⟨_, ?_, blacklistLine_eq addresses⟩
  rw [mem_append, not_or]
  refine ⟨inKey, fun member => ?_⟩
  rcases mem_intercalate member with isComma | inEntry
  · exact absurd isComma (by decide)
  · rcases inEntry with ⟨entry, inside, inEntry⟩
    exact (valid entry (mem_sortedAddresses.mp inside)).noFeed inEntry

theorem noReturn_blacklistLine (valid : ∀ entry ∈ addresses, Entry entry) :
    '\r' ∉ blacklistLine addresses := by
  have inKey : '\r' ∉ blacklistKey := by decide
  have inFeed : '\r' ∉ ['\n'] := by decide
  rw [blacklistLine_eq, mem_append, mem_append, not_or, not_or]
  refine ⟨⟨inKey, fun member => ?_⟩, inFeed⟩
  rcases mem_intercalate member with isComma | inEntry
  · exact absurd isComma (by decide)
  · rcases inEntry with ⟨entry, inside, inEntry⟩
    exact (valid entry (mem_sortedAddresses.mp inside)).noReturn inEntry

end WrittenLine

section Lines

variable {newLine : Text} {lines : List Text}

theorem find?_setBlacklistLine (isNew : isBlacklistLine newLine = true) (lines : List Text) :
    (setBlacklistLine newLine lines).find? isBlacklistLine = some newLine := by
  induction lines with
  | nil => rw [setBlacklistLine, List.find?_cons_of_pos isNew]
  | cons line rest induction =>
      rw [setBlacklistLine]
      split
      · rw [List.find?_cons_of_pos isNew]
      · next other => rw [List.find?_cons_of_neg other, induction]

theorem eraseP_setBlacklistLine (isNew : isBlacklistLine newLine = true) (lines : List Text) :
    (setBlacklistLine newLine lines).eraseP isBlacklistLine =
      lines.eraseP isBlacklistLine := by
  induction lines with
  | nil => rw [setBlacklistLine, eraseP_cons_of_pos isNew, eraseP_nil]
  | cons line rest induction =>
      rw [setBlacklistLine]
      split
      · next isKey => rw [eraseP_cons_of_pos isNew, eraseP_cons_of_pos isKey]
      · next other =>
          rw [eraseP_cons_of_neg other, eraseP_cons_of_neg other, induction]

theorem areLines_setBlacklistLine (isLine : IsLine newLine) (are : AreLines lines)
    (room : Terminated lines ∨ ∃ line ∈ lines, isBlacklistLine line = true) :
    AreLines (setBlacklistLine newLine lines) := by
  induction lines with
  | nil => exact .inl ⟨isLine, trivial⟩
  | cons line rest induction =>
      rw [setBlacklistLine]
      split
      · rcases are with complete | last
        · exact .inl ⟨isLine, complete.2⟩
        · rw [last.1]
          exact .inl ⟨isLine, trivial⟩
      · next other =>
          rcases are with complete | last
          · refine .inl ⟨complete.1, induction complete.2 ?_⟩
            rcases room with terminated | known
            · exact .inl fun line member => terminated line (mem_cons_of_mem _ member)
            · rcases known with ⟨line, member, isKey⟩
              rcases mem_cons.mp member with isFirst | later
              · exact absurd (isFirst ▸ isKey) other
              · exact .inr ⟨line, later, isKey⟩
          · rcases room with terminated | known
            · rcases terminated line mem_cons_self with ⟨body, _, equal⟩
              exact absurd (equal ▸ by simp) last.2.2
            · rcases known with ⟨line, member, isKey⟩
              rw [last.1, mem_singleton] at member
              exact absurd (member ▸ isKey) other

theorem mem_flatten_setBlacklistLine (member : character ∈ (setBlacklistLine newLine lines).flatten)
    :
    character ∈ newLine ∨ character ∈ lines.flatten := by
  induction lines with
  | nil => simpa [setBlacklistLine] using member
  | cons line rest induction =>
      rw [setBlacklistLine] at member
      split at member
      · rw [flatten_cons, mem_append] at member
        rcases member with isNew | inRest
        · exact .inl isNew
        · exact .inr (mem_append_right _ inRest)
      · rw [flatten_cons, mem_append] at member
        rcases member with inLine | later
        · exact .inr (mem_append_left _ inLine)
        · exact (induction later).imp_right (mem_append_right _)

/-- Only the last line can lack its line feed. -/
theorem AreLines.cases (are : AreLines lines) :
    Terminated lines ∨ ∃ front last, lines = front ++ [last] ∧ Terminated front ∧
      last ≠ [] ∧ '\n' ∉ last := by
  induction lines with
  | nil => exact .inl (forall_mem_nil _)
  | cons line rest induction =>
      rcases are with complete | last
      · rcases induction complete.2 with terminated | unterminated
        · exact .inl (forall_mem_cons.mpr ⟨complete.1, terminated⟩)
        · rcases unterminated with ⟨front, last, equal, terminated, unbroken⟩
          exact .inr ⟨line :: front, last, by rw [equal]; rfl,
            forall_mem_cons.mpr ⟨complete.1, terminated⟩, unbroken⟩
      · exact .inr ⟨[], line, by rw [last.1]; rfl, forall_mem_nil _, last.2⟩

theorem setBlacklistLine_of_missing (newLine : Text)
    (missing : ∀ line ∈ lines, ¬ isBlacklistLine line = true) :
    setBlacklistLine newLine lines = lines ++ [newLine] := by
  induction lines with
  | nil => rfl
  | cons line rest induction =>
      rw [setBlacklistLine, if_neg (missing line mem_cons_self),
        induction fun other member => missing other (mem_cons_of_mem _ member)]
      rfl

theorem splitLines_append_terminated {front : List Text} (terminated : Terminated front)
    (rest : Text) : splitLines (front.flatten ++ rest) = front ++ splitLines rest := by
  induction front with
  | nil => rfl
  | cons line front induction =>
      rcases terminated line mem_cons_self with ⟨body, unbroken, equal⟩
      rw [flatten_cons, equal, List.append_assoc, List.append_assoc, singleton_append,
        splitLines_append unbroken,
        induction fun other member => terminated other (mem_cons_of_mem _ member)]
      rfl

end Lines

section Append

variable {newAddresses : List Text} {file : Option Text}

/-- What an append promises: the old and the new addresses are read back, and every line but
the blacklist is the one it was. -/
structure AppendKeeps (newAddresses : List Text) (file : Option Text) : Prop where
  readBack : ∀ address, address ∈ readBlacklist (appendBlacklistEnv newAddresses file) ↔
    address ∈ readBlacklist file ∨ address ∈ newAddresses.map Text.toAsciiLowercase
  others : (readLines (appendBlacklistEnv newAddresses file)).eraseP isBlacklistLine =
    (readLines file).eraseP isBlacklistLine

/-- The addresses of the line that `append_blacklist_env` writes. -/
def mergedBlacklist (newAddresses : List Text) (file : Option Text) : List Text :=
  readBlacklist file ++ newAddresses.map Text.toAsciiLowercase

def HasRoom (file : Option Text) : Prop :=
  Terminated (readLines file) ∨ ∃ line ∈ readLines file, isBlacklistLine line = true

theorem noReturn_flatten_readLines (file : Option Text) : '\r' ∉ (readLines file).flatten := by
  rw [readLines, flatten_splitLines]
  exact not_mem_universalNewlines _

theorem noFeed_strip {line : Text} (isLine : IsLine line) : '\n' ∉ strip line := by
  rcases isLine with ⟨body, unbroken, equal⟩
  rw [equal, strip_append_newline]
  exact fun member => unbroken (strip_subset body member)

theorem AreLines.noFeed_strip {lines : List Text} (are : AreLines lines) :
    ∀ line ∈ lines, '\n' ∉ strip line := by
  intro line member
  rcases are.cases with terminated | unterminated
  · exact Ethereum.noFeed_strip (terminated line member)
  · rcases unterminated with ⟨front, last, equal, terminated, _, unbroken⟩
    rw [equal, mem_append, mem_singleton] at member
    rcases member with inFront | isLast
    · exact Ethereum.noFeed_strip (terminated line inFront)
    · rw [isLast]
      exact fun inside => unbroken (strip_subset last inside)

theorem entry_of_mem_readBlacklist (member : entry ∈ readBlacklist file) :
    Entry entry := by
  rw [readBlacklist, blacklistOf] at member
  cases found : (readLines file).find? isBlacklistLine with
  | none =>
      rw [found] at member
      cases member
  | some line =>
      rw [found] at member
      have inFile := List.mem_of_find?_eq_some found
      refine entry_of_mem_addressesOf (fun inside => ?_) (fun inside => ?_) member
      · exact (areLines_splitLines _).noFeed_strip line inFile (mem_of_mem_drop inside)
      · exact noReturn_flatten_readLines file (mem_flatten.mpr
          ⟨line, inFile, strip_subset line (mem_of_mem_drop inside)⟩)

section

variable (valid : ∀ address ∈ newAddresses, IsAddress address)
include valid

theorem entry_of_mem_mergedBlacklist :
    ∀ entry ∈ mergedBlacklist newAddresses file, Entry entry := by
  intro entry member
  rcases mem_append.mp member with old | new
  · exact entry_of_mem_readBlacklist old
  · rcases mem_map.mp new with ⟨address, isNew, equal⟩
    exact equal ▸ entry_toAsciiLowercase (valid address isNew)

theorem universalNewlines_appendedBlacklist :
    universalNewlines (appendedBlacklist newAddresses file) =
      appendedBlacklist newAddresses file := by
  apply universalNewlines_eq
  intro inside
  rcases mem_flatten_setBlacklistLine inside with isNew | old
  · exact noReturn_blacklistLine (entry_of_mem_mergedBlacklist valid) isNew
  · exact noReturn_flatten_readLines file old

theorem readLines_appendedBlacklist (room : HasRoom file) :
    readLines (some (appendedBlacklist newAddresses file)) =
      setBlacklistLine (blacklistLine (mergedBlacklist newAddresses file))
        (readLines file) := by
  rw [readLines, Option.getD_some, universalNewlines_appendedBlacklist valid]
  exact splitLines_flatten (areLines_setBlacklistLine
    (isLine_blacklistLine (entry_of_mem_mergedBlacklist valid)) (areLines_splitLines _) room)

end

theorem mergedBlacklist_ne_nil (nonempty : newAddresses ≠ []) :
    mergedBlacklist newAddresses file ≠ [] := by
  intro empty
  rw [mergedBlacklist, append_eq_nil_iff, map_eq_nil_iff] at empty
  exact nonempty empty.2

section

variable (valid : ∀ address ∈ newAddresses, IsAddress address)
include valid

theorem appendKeeps_of_hasRoom
    (nonempty : newAddresses ≠ []) (room : HasRoom file) : AppendKeeps newAddresses file := by
  have entries : ∀ entry ∈ mergedBlacklist newAddresses file, Entry entry :=
    entry_of_mem_mergedBlacklist valid
  have written := isBlacklistLine_blacklistLine (mergedBlacklist_ne_nil nonempty) entries
  have lines := readLines_appendedBlacklist valid room
  constructor
  · intro address
    rw [appendBlacklistEnv, if_neg nonempty, readBlacklist, blacklistOf, lines,
      find?_setBlacklistLine written]
    change address ∈ addressesOf _ ↔ _
    rw [addressesOf_blacklistLine (mergedBlacklist_ne_nil nonempty) entries,
      mem_sortedAddresses, mergedBlacklist, mem_append]
  · rw [appendBlacklistEnv, if_neg nonempty, lines, eraseP_setBlacklistLine written]

theorem hasRoom_of_others (nonempty : newAddresses ≠ [])
    (others : (readLines (appendBlacklistEnv newAddresses file)).eraseP isBlacklistLine =
      (readLines file).eraseP isBlacklistLine) : HasRoom file := by
  by_contra noRoom
  rw [HasRoom, not_or] at noRoom
  have missing : ∀ line ∈ readLines file, ¬ isBlacklistLine line = true :=
    fun line member isKey => noRoom.2 ⟨line, member, isKey⟩
  rcases (areLines_splitLines _).cases.resolve_left noRoom.1 with
    ⟨front, last, equal, terminated, _, unbroken⟩
  change readLines file = _ at equal
  have entries : ∀ entry ∈ mergedBlacklist newAddresses file, Entry entry :=
    entry_of_mem_mergedBlacklist valid
  rcases isLine_blacklistLine entries with ⟨body, unbrokenBody, isLine⟩
  have glued : readLines (appendBlacklistEnv newAddresses file) =
      front ++ [last ++ body ++ ['\n']] := by
    rw [appendBlacklistEnv, if_neg nonempty, readLines, Option.getD_some,
      universalNewlines_appendedBlacklist valid]
    change splitLines (setBlacklistLine (blacklistLine (mergedBlacklist _ _)) _).flatten = _
    rw [setBlacklistLine_of_missing _ missing, equal, isLine, flatten_append,
      flatten_append, List.append_assoc, splitLines_append_terminated terminated,
      flatten_singleton, flatten_singleton, ← List.append_assoc,
      splitLines_append]
    · rfl
    · rw [mem_append, not_or]
      exact ⟨unbroken, unbrokenBody⟩
  have missingFront : ∀ line ∈ front, ¬ isBlacklistLine line = true := by
    intro line member
    apply missing
    rw [equal]
    exact mem_append_left _ member
  rw [eraseP_of_forall_not missing, glued, equal,
    eraseP_append_right _ missingFront, append_cancel_left_eq] at others
  have changed : last ++ body ++ ['\n'] ≠ last := by
    intro same
    rw [← same] at unbroken
    simp at unbroken
  cases isKey : isBlacklistLine (last ++ body ++ ['\n']) with
  | true =>
      rw [eraseP_cons_of_pos isKey] at others
      cases others
  | false =>
      rw [eraseP_cons_of_neg (Bool.eq_false_iff.mp isKey)] at others
      exact changed (List.cons.inj others).1

/-- An append keeps its promise unless the last line lacks its line feed and no line holds
the blacklist yet. -/
theorem appendKeeps_iff :
    AppendKeeps newAddresses file ↔ newAddresses = [] ∨ HasRoom file := by
  constructor
  · intro keeps
    rw [or_iff_not_imp_left]
    exact fun nonempty => hasRoom_of_others valid nonempty keeps.others
  · intro condition
    by_cases nonempty : newAddresses = []
    · constructor
      · intro address
        simp [appendBlacklistEnv, nonempty]
      · rw [appendBlacklistEnv, if_pos nonempty]
    · exact appendKeeps_of_hasRoom valid nonempty (condition.resolve_left nonempty)

end

end Append

end NftData.Ethereum
