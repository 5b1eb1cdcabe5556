import NftData.Analysis2.Entity.Types
import NftData.Foundation.Patterns
import NftData.Foundation.Substrings

namespace NftData.Analysis2

/-! # Content URLs

URLs that name content by its address are brought to one key, whichever gateway they go through. -/

open List

/-- What `to_lowercase` takes from the Unicode tables. Only two characters outside ASCII become
letters of ASCII: the capital I with a dot and the Kelvin sign. -/
structure Casing where
  lower : Char → Text
  isFinalSigma : Text → Text → Bool
  lower_ascii : ∀ character, character.toNat < 128 → lower character = [character.toLower]
  lower_other : ∀ character, 128 ≤ character.toNat → ∃ head tail,
    lower character = head :: tail ∧
      (128 ≤ head.toNat ∨ head = 'k' ∨ (head = 'i' ∧ tail = [Char.ofNat 0x307]))

/-- Lower-case a text of which the part before is known. A capital sigma has a form of its own at
the end of a word. -/
def Casing.toLowercaseAfter (casing : Casing) (before : Text) : Text → Text
  | [] => []
  | character :: rest =>
      (if character = Char.ofNat 0x3A3 then
        [if casing.isFinalSigma before rest then Char.ofNat 0x3C2 else Char.ofNat 0x3C3]
      else casing.lower character) ++ casing.toLowercaseAfter (before ++ [character]) rest

def Casing.toLowercase (casing : Casing) (text : Text) : Text := casing.toLowercaseAfter [] text

def isPathCharacter (character : Char) : Bool :=
  character != '?' && character != '#' && !Text.isWhiteSpace character

def isHostCharacter (character : Char) : Bool := character != '/'

open Pattern in
def httpUrl (rest : Pattern) : Pattern :=
  seq (literal "http".toList) <| seq (optional (literal "s".toList)) <|
    seq (literal "://".toList) rest

open Pattern in
def ipfsHttpCapture : Text → Option Text :=
  capture (httpUrl (seq (plus isHostCharacter) (literal "/ipfs/".toList)))
    (seq (one fun character => (foldCase character).isAlphanum) (star isPathCharacter))

def isIdCharacter (character : Char) : Bool :=
  (Pattern.foldCase character).isAlphanum || character == '_' || character == '-'

open Pattern in
def arweaveHttpCapture : Text → Option Text :=
  capture
    (httpUrl (seq (optional (seq (plus isHostCharacter) (literal ".".toList)))
      (literal "arweave.net/".toList)))
    (seq (replicate isIdCharacter 43)
      (optional (seq (literal "/".toList) (star isPathCharacter))))

def isSlash (character : Char) : Bool := character == '/'

def normalizedContentUrl (start value : Text) (trimBothEnds : Bool) : Option Text :=
  let value := (value.takeWhile (· != '?')).takeWhile (· != '#')
  let value :=
    if trimBothEnds then (value.dropWhile isSlash).rdropWhile isSlash
    else value.rdropWhile isSlash
  if value = [] then none else some (start ++ value)

/-- The texts that stand for no URL. -/
def noUrl : List Text :=
  ["nano".toList, "null".toList, "none".toList, "undefined".toList, "n/a".toList, "na".toList,
    "-".toList, ".".toList, "false".toList, "true".toList, "0".toList]

def sliceFrom (text : Text) (offset : Nat) : Except Analysis2Error Text :=
  match text.splitAtByte offset with
  | some (_, tail) => .ok tail
  | none => .error .panicked

/-- What follows `ipfs://`, and a folder `ipfs` behind it. -/
def ipfsTail (casing : Casing) (text : Text) : Except Analysis2Error Text := do
  let tail ← sliceFrom text 7
  if "ipfs/".toList <+: casing.toLowercase tail then sliceFrom tail 5 else .ok tail

/-- A URL that is neither `ipfs://` nor `ar://`. -/
def normalizedHttpUrl (text lowered : Text) : Option Text :=
  match ipfsHttpCapture text with
  | some value => normalizedContentUrl "ipfs:".toList value false
  | none =>
      match arweaveHttpCapture text with
      | some value => normalizedContentUrl "ar:".toList value false
      | none => some (lowered.rdropWhile isSlash)

def normalizeUrl (casing : Casing) (raw : Text) : Except Analysis2Error (Option Text) :=
  let text := raw.trim
  let lowered := casing.toLowercase text
  if text = [] ∨ lowered ∈ noUrl ∨ "data:".toList <+: lowered then .ok none
  else if "ipfs://".toList <+: lowered then
    (ipfsTail casing text).map fun tail => normalizedContentUrl "ipfs:".toList tail true
  else if "ar://".toList <+: lowered then
    (sliceFrom text 5).map fun tail => normalizedContentUrl "ar:".toList tail true
  else
    .ok (normalizedHttpUrl text lowered)

variable {character : Char}

theorem toLowercaseAfter_cons (casing : Casing) (before : Text) (rest : Text)
    (ascii : character.toNat < 128) :
    casing.toLowercaseAfter before (character :: rest) =
      character.toLower :: casing.toLowercaseAfter (before ++ [character]) rest := by
  have notSigma : character ≠ Char.ofNat 0x3A3 := by
    rintro rfl
    exact absurd ascii (by decide)
  rw [Casing.toLowercaseAfter, if_neg notSigma, casing.lower_ascii _ ascii]
  rfl

/-- A word that lower-cased texts start with only when they start with it in some case. -/
structure IsStart (word : Text) : Prop where
  ascii : ∀ character ∈ word, character.toNat < 128
  noKelvin : 'k' ∉ word
  noDot : word.getLast? ≠ some 'i'

variable {word : Text}

theorem IsStart.tail {letter : Char} (isStart : IsStart (letter :: word)) :
    IsStart word where
  ascii character member := isStart.ascii character (mem_cons_of_mem letter member)
  noKelvin member := isStart.noKelvin (mem_cons_of_mem letter member)
  noDot last := by
    apply isStart.noDot
    rw [List.getLast?_cons, last]
    rfl

theorem prefix_toLowercaseAfter (isStart : IsStart word) (casing : Casing) (before text : Text) :
    word <+: casing.toLowercaseAfter before text ↔
      ∃ start rest, text = start ++ rest ∧ start.toAsciiLowercase = word := by
  induction word generalizing before text with
  | nil => exact ⟨fun _ => ⟨[], text, rfl, rfl⟩, fun _ => nil_prefix⟩
  | cons letter word induction =>
      have letterAscii := isStart.ascii letter mem_cons_self
      constructor
      · intro isPrefix
        cases text with
        | nil => exact absurd (prefix_nil.mp isPrefix) (cons_ne_nil _ _)
        | cons character rest =>
            by_cases ascii : character.toNat < 128
            · rw [toLowercaseAfter_cons casing before rest ascii, cons_prefix_cons] at isPrefix
              obtain ⟨rfl, isPrefix⟩ := isPrefix
              obtain ⟨start, others, rfl, rfl⟩ := (induction isStart.tail _ _).mp isPrefix
              exact ⟨character :: start, others, rfl, rfl⟩
            · -- A character outside ASCII cannot begin the word.
              rw [Casing.toLowercaseAfter] at isPrefix
              split at isPrefix
              · obtain ⟨rfl, -⟩ := cons_prefix_cons.mp isPrefix
                split at letterAscii <;> exact absurd letterAscii (by decide)
              · obtain ⟨head, tail, isLower, cases⟩ := casing.lower_other character (by omega)
                rw [isLower, cons_append, cons_prefix_cons] at isPrefix
                obtain ⟨rfl, isPrefix⟩ := isPrefix
                rcases cases with outside | rfl | ⟨rfl, rfl⟩
                · omega
                · exact absurd mem_cons_self isStart.noKelvin
                · cases word with
                  | nil => exact absurd rfl isStart.noDot
                  | cons next word =>
                      obtain ⟨rfl, -⟩ := cons_prefix_cons.mp isPrefix
                      exact absurd (isStart.tail.ascii _ mem_cons_self) (by decide)
      · rintro ⟨start, rest, rfl, same⟩
        obtain ⟨character, start, rfl, isLetter, isWord⟩ := map_eq_cons_iff.mp same
        have ascii : character.toNat < 128 := by
          by_contra outside
          have notUpper : ¬character.isUpper = true := by
            intro upper
            have bounds : 65 ≤ character.toNat ∧ character.toNat ≤ 90 := by
              simpa [Char.isUpper, UInt32.le_iff_toNat_le] using upper
            omega
          rw [Char.toLower_eq_of_not_isUpper notUpper] at isLetter
          exact outside (isLetter ▸ letterAscii)
        rw [cons_append, toLowercaseAfter_cons casing before _ ascii, isLetter,
          cons_prefix_cons]
        exact ⟨rfl, (induction isStart.tail _ _).mpr ⟨start, rest, rfl, isWord⟩⟩

variable {start : Text}

theorem sliceFrom_append (tail : Text) {offset : Nat} (length : start.utf8Length = offset) :
    sliceFrom (start ++ tail) offset = .ok tail := by
  rw [sliceFrom, ← length, Text.splitAtByte_append]

variable {text : Text} {casing : Casing}

theorem sliceFrom_of_prefix (isStart : IsStart word) (isPrefix : word <+: casing.toLowercase text) :
    ∃ start tail, text = start ++ tail ∧ start.toAsciiLowercase = word ∧
      sliceFrom text word.utf8Length = .ok tail := by
  obtain ⟨start, tail, rfl, same⟩ := (prefix_toLowercaseAfter isStart casing [] text).mp isPrefix
  exact ⟨start, tail, rfl, same, sliceFrom_append tail (by
    rw [← same, Text.utf8Length_toAsciiLowercase])⟩

theorem isStart_ipfsScheme : IsStart "ipfs://".toList := ⟨by simp, by simp, by simp⟩

theorem isStart_ipfsFolder : IsStart "ipfs/".toList := ⟨by simp, by simp, by simp⟩

theorem isStart_arScheme : IsStart "ar://".toList := ⟨by simp, by simp, by simp⟩

theorem ipfsTail_ok (isIpfs : "ipfs://".toList <+: casing.toLowercase text) :
    ∃ tail, ipfsTail casing text = .ok tail := by
  obtain ⟨start, tail, -, -, sliced⟩ := sliceFrom_of_prefix isStart_ipfsScheme isIpfs
  have sliced : sliceFrom text 7 = .ok tail := sliced
  rw [ipfsTail, sliced]
  by_cases folder : "ipfs/".toList <+: casing.toLowercase tail
  · obtain ⟨-, rest, -, -, slicedAgain⟩ := sliceFrom_of_prefix isStart_ipfsFolder folder
    have slicedAgain : sliceFrom tail 5 = .ok rest := slicedAgain
    exact ⟨rest, (if_pos folder).trans slicedAgain⟩
  · exact ⟨tail, if_neg folder⟩

theorem normalizeUrl_ok (casing : Casing) (raw : Text) :
    ∃ result, normalizeUrl casing raw = .ok result := by
  rw [normalizeUrl]
  split
  · exact ⟨none, rfl⟩
  · split
    · next isIpfs =>
        obtain ⟨tail, isTail⟩ := ipfsTail_ok isIpfs
        rw [isTail]
        exact ⟨_, rfl⟩
    · split
      · next isAr =>
          obtain ⟨start, tail, -, -, sliced⟩ := sliceFrom_of_prefix isStart_arScheme isAr
          have sliced : sliceFrom raw.trim 5 = .ok tail := sliced
          rw [sliced]
          exact ⟨_, rfl⟩
      · exact ⟨_, rfl⟩

/-! ## What the gateway patterns match -/

open Pattern

theorem eq_of_foldCase_eq {other : Char} (caseless : other.isAlpha = false)
    (same : foldCase character = other) : character = other := by
  rw [foldCase] at same
  split at same
  · rw [← same] at caseless
    cases caseless
  · split at same
    · rw [← same] at caseless
      cases caseless
    · exact Text.eq_of_toLower_eq caseless same

theorem notMem_of_map_foldCase (same : text.map foldCase = word) (apart : foldCase character ∉ word)
    : character ∉ text :=
  fun member => apart (same ▸ mem_map_of_mem member)

theorem map_foldCase (ascii : ∀ character ∈ text.toAsciiLowercase,
    character.toNat < 128) : text.map foldCase = text.toAsciiLowercase := by
  apply map_congr_left
  intro character member
  have lowered := ascii _ (mem_map_of_mem member)
  rw [foldCase]
  split
  · next long => rw [long] at lowered; exact absurd lowered (by decide)
  · split
    · next kelvin => rw [kelvin] at lowered; exact absurd lowered (by decide)
    · rfl

variable {second first rest : Text}

theorem behind_first {other : Text}
    (same : first ++ character :: rest = second ++ character :: other)
    (notFirst : character ∉ first) (notSecond : character ∉ second) :
    first = second ∧ rest = other := by
  induction first generalizing second with
  | nil =>
      cases second with
      | nil => exact ⟨rfl, (List.cons.inj same).2⟩
      | cons head second =>
          exact absurd ((List.cons.inj same).1 ▸ mem_cons_self) notSecond
  | cons head first induction =>
      cases second with
      | nil => exact absurd ((List.cons.inj same).1 ▸ mem_cons_self) notFirst
      | cons next second =>
          obtain ⟨isHead, sameRest⟩ := List.cons.inj same
          obtain ⟨isFirst, isRest⟩ := induction sameRest
            (fun member => notFirst (mem_cons_of_mem _ member))
            (fun member => notSecond (mem_cons_of_mem _ member))
          exact ⟨by rw [isHead, isFirst], isRest⟩

def IsHttp (scheme : Text) : Prop :=
  scheme.map foldCase = "http".toList ∨ scheme.map foldCase = "https".toList

theorem IsHttp.noColon {scheme : Text} (isHttp : IsHttp scheme) : ':' ∉ scheme := by
  rcases isHttp with http | https
  · exact notMem_of_map_foldCase http (by decide)
  · exact notMem_of_map_foldCase https (by decide)

theorem map_foldCase_colon (same : text.map foldCase = "://".toList) :
    text = "://".toList := by
  obtain ⟨first, text, rfl, isFirst, same⟩ := map_eq_cons_iff.mp same
  obtain ⟨second, text, rfl, isSecond, same⟩ := map_eq_cons_iff.mp same
  obtain ⟨third, text, rfl, isThird, same⟩ := map_eq_cons_iff.mp same
  rw [map_eq_nil_iff.mp same, eq_of_foldCase_eq rfl isFirst, eq_of_foldCase_eq rfl isSecond,
    eq_of_foldCase_eq rfl isThird]
  rfl

variable {behind : Text}

/-- A match of a URL is a scheme, and a match of the rest behind it. -/
theorem exists_mem_httpUrl {rest : Pattern} :
    (∃ found, (found, behind) ∈ httpUrl rest text) ↔
      ∃ scheme after between, text = scheme ++ ':' :: '/' :: '/' :: after ∧ IsHttp scheme ∧
        (between, behind) ∈ rest after := by
  constructor
  · rintro ⟨found, isMatch⟩
    obtain ⟨http, middle, _, isHttp, isMatch, -⟩ := mem_seq.mp isMatch
    obtain ⟨letter, last, _, isLetter, isMatch, -⟩ := mem_seq.mp isMatch
    obtain ⟨colon, after, between, isColon, isRest, -⟩ := mem_seq.mp isMatch
    obtain ⟨rfl, http⟩ := mem_literal.mp isHttp
    obtain ⟨rfl, colon⟩ := mem_literal.mp isColon
    rw [map_foldCase_colon colon] at isLetter
    rcases mem_optional.mp isLetter with isLetter | ⟨-, rfl⟩
    · obtain ⟨rfl, letter⟩ := mem_literal.mp isLetter
      refine ⟨_, after, between, (List.append_assoc _ _ _).symm, .inr ?_, isRest⟩
      rw [map_append, http, letter]
      rfl
    · exact ⟨_, after, between, rfl, .inl http, isRest⟩
  · rintro ⟨scheme, after, between, rfl, isHttp, isRest⟩
    have isColon : ("://".toList, after) ∈ literal "://".toList (':' :: '/' :: '/' :: after) :=
      mem_literal.mpr ⟨rfl, by decide⟩
    rcases isHttp with http | https
    · exact ⟨_, mem_seq.mpr ⟨scheme, _, _, mem_literal.mpr ⟨rfl, http⟩,
        mem_seq.mpr ⟨[], _, _, mem_optional.mpr (.inr ⟨rfl, rfl⟩),
          mem_seq.mpr ⟨_, after, between, isColon, isRest, rfl⟩, rfl⟩, rfl⟩⟩
    · obtain ⟨http, letter, rfl, isHttp, isLetter⟩ := map_eq_append_iff.mp
        (https.trans (by decide : "https".toList = "http".toList ++ "s".toList))
      rw [List.append_assoc]
      exact ⟨_, mem_seq.mpr ⟨http, _, _, mem_literal.mpr ⟨rfl, isHttp⟩,
        mem_seq.mpr ⟨letter, _, _, mem_optional.mpr (.inl (mem_literal.mpr ⟨rfl, isLetter⟩)),
          mem_seq.mpr ⟨_, after, between, isColon, isRest, rfl⟩, rfl⟩, rfl⟩⟩

def IsArweaveHost (host : Text) : Prop :=
  host.map foldCase = "arweave.net".toList ∨
    ∃ name domain, name ≠ [] ∧ host = name ++ '.' :: domain ∧
      domain.map foldCase = "arweave.net".toList

theorem isHostCharacter_iff :
    (∀ character ∈ text, isHostCharacter character = true) ↔ '/' ∉ text := by
  simp only [isHostCharacter, bne_iff_ne]
  exact ⟨fun all member => all _ member rfl, fun absent character member same =>
    absent (same ▸ member)⟩

theorem map_foldCase_slash :
    text.map foldCase = word ++ ['/'] ↔ ∃ start, text = start ++ ['/'] ∧
      start.map foldCase = word := by
  constructor
  · intro same
    obtain ⟨start, slash, rfl, isWord, isSlash⟩ := map_eq_append_iff.mp same
    obtain ⟨character, others, rfl, isCharacter, empty⟩ := map_eq_cons_iff.mp isSlash
    rw [map_eq_nil_iff.mp empty, eq_of_foldCase_eq rfl isCharacter]
    exact ⟨start, rfl, isWord⟩
  · rintro ⟨start, rfl, rfl⟩
    rw [map_append]
    rfl

theorem exists_mem_ipfs :
    (∃ found, (found, behind) ∈ seq (plus isHostCharacter) (literal "/ipfs/".toList) text) ↔
      ∃ host folder, text = host ++ '/' :: (folder ++ '/' :: behind) ∧ host ≠ [] ∧ '/' ∉ host ∧
        folder.map foldCase = "ipfs".toList := by
  constructor
  · rintro ⟨found, isMatch⟩
    obtain ⟨host, middle, word, isHost, isWord, -⟩ := mem_seq.mp isMatch
    obtain ⟨nonempty, rfl, all⟩ := mem_plus.mp isHost
    obtain ⟨rfl, folded⟩ := mem_literal.mp isWord
    obtain ⟨slash, rest, rfl, isSlash, isRest⟩ := map_eq_cons_iff.mp
      (folded.trans (by decide : "/ipfs/".toList = '/' :: ("ipfs".toList ++ ['/'])))
    obtain ⟨folder, rfl, isFolder⟩ := map_foldCase_slash.mp isRest
    rw [eq_of_foldCase_eq rfl isSlash]
    exact ⟨host, folder, by simp, nonempty, isHostCharacter_iff.mp all, isFolder⟩
  · rintro ⟨host, folder, rfl, nonempty, noSlash, isFolder⟩
    refine ⟨_, mem_seq.mpr ⟨host, _, '/' :: (folder ++ ['/']),
      mem_plus.mpr ⟨nonempty, rfl, isHostCharacter_iff.mpr noSlash⟩,
      mem_literal.mpr ⟨by simp, ?_⟩, rfl⟩⟩
    rw [map_cons, map_append, isFolder]
    decide

theorem exists_mem_arweave :
    (∃ found, (found, behind) ∈ seq (optional (seq (plus isHostCharacter) (literal ".".toList)))
        (literal "arweave.net/".toList) text) ↔
      ∃ host, text = host ++ '/' :: behind ∧ '/' ∉ host ∧ IsArweaveHost host := by
  have noSlash {domain : Text} (isDomain : domain.map foldCase = "arweave.net".toList) :
      '/' ∉ domain := notMem_of_map_foldCase isDomain (by decide)
  constructor
  · rintro ⟨found, isMatch⟩
    obtain ⟨start, middle, word, isStart, isWord, -⟩ := mem_seq.mp isMatch
    obtain ⟨rfl, folded⟩ := mem_literal.mp isWord
    obtain ⟨domain, rfl, isDomain⟩ := map_foldCase_slash.mp
      (folded.trans (by decide : "arweave.net/".toList = "arweave.net".toList ++ ['/']))
    rcases mem_optional.mp isStart with isName | ⟨-, rfl⟩
    · obtain ⟨name, rest, dot, isPlus, isDot, -⟩ := mem_seq.mp isName
      obtain ⟨nonempty, rfl, all⟩ := mem_plus.mp isPlus
      obtain ⟨rfl, folded⟩ := mem_literal.mp isDot
      obtain ⟨character, others, rfl, isCharacter, empty⟩ := map_eq_cons_iff.mp
        (folded.trans (by decide : ".".toList = ['.']))
      rw [map_eq_nil_iff.mp empty, eq_of_foldCase_eq rfl isCharacter]
      have noSlashName := isHostCharacter_iff.mp all
      refine ⟨name ++ '.' :: domain, by simp, ?_, .inr ⟨name, domain, nonempty, rfl, isDomain⟩⟩
      simp [noSlashName, noSlash isDomain]
    · exact ⟨domain, by simp, noSlash isDomain, .inl isDomain⟩
  · have isWord (domain : Text) (isDomain : domain.map foldCase = "arweave.net".toList) :
        (domain ++ ['/'], behind) ∈ literal "arweave.net/".toList (domain ++ '/' :: behind) :=
      mem_literal.mpr ⟨by simp, by rw [map_append, isDomain]; decide⟩
    rintro ⟨host, rfl, hostPlain, isDomain | ⟨name, domain, nonempty, rfl, isDomain⟩⟩
    · exact ⟨_, mem_seq.mpr ⟨[], _, _, mem_optional.mpr (.inr ⟨rfl, rfl⟩), isWord host isDomain,
        rfl⟩⟩
    · have noSlashName : '/' ∉ name := fun member => hostPlain (mem_append_left _ member)
      rw [List.append_assoc, cons_append]
      exact ⟨_, mem_seq.mpr ⟨_, domain ++ '/' :: behind, _, mem_optional.mpr (.inl (mem_seq.mpr
        ⟨name, '.' :: (domain ++ '/' :: behind), ['.'],
          mem_plus.mpr ⟨nonempty, rfl, isHostCharacter_iff.mpr noSlashName⟩,
          mem_literal.mpr ⟨rfl, by decide⟩, rfl⟩)), isWord domain isDomain, rfl⟩⟩

def IsSuffix (suffix : Text) : Prop :=
  ∀ character ∈ suffix.head?, character = '?' ∨ character = '#'

/-- The text of an address up to its suffix, with slashes behind the path. -/
structure IsPlainPath (path slashes suffix : Text) : Prop where
  plain : ∀ character ∈ path, isPathCharacter character = true
  noSlash : ∀ character ∈ path.head?, isSlash character = false
  nonempty : path ≠ []
  allSlashes : ∀ character ∈ slashes, isSlash character = true
  isSuffix : IsSuffix suffix

namespace IsPlainPath

variable {path slashes suffix : Text} (isPlain : IsPlainPath path slashes suffix)

include isPlain

theorem plain_append : ∀ character ∈ path ++ slashes, isPathCharacter character = true := by
  intro character member
  rcases mem_append.mp member with inPath | inSlashes
  · exact isPlain.plain character inPath
  · rw [beq_iff_eq.mp (isPlain.allSlashes character inSlashes)]
    decide

theorem takeWhile_append : ((path ++ slashes) ++ suffix).takeWhile isPathCharacter =
    path ++ slashes := by
  rw [takeWhile_append_of_pos isPlain.plain_append]
  cases suffix with
  | nil => simp
  | cons character suffix =>
      have stops : ¬isPathCharacter character = true := by
        rcases isPlain.isSuffix character rfl with rfl | rfl <;> decide
      rw [takeWhile_cons_of_neg stops, append_nil]

theorem cut : ((path ++ slashes ++ suffix).takeWhile (· != '?')).takeWhile (· != '#') =
    path ++ slashes := by
  have noMark (mark : Char) (isMark : isPathCharacter mark = false) :
      ∀ character ∈ path ++ slashes, (character != mark) = true := by
    intro character member
    rw [bne_iff_ne]
    rintro rfl
    rw [isPlain.plain_append _ member] at isMark
    cases isMark
  rw [takeWhile_append_of_pos (noMark '?' (by decide))]
  rw [takeWhile_append_of_pos (noMark '#' (by decide))]
  cases suffix with
  | nil => simp
  | cons character suffix => rcases isPlain.isSuffix character rfl with rfl | rfl <;> simp

theorem rdropWhile_append : (path ++ slashes).rdropWhile isSlash = path.rdropWhile isSlash := by
  rw [List.rdropWhile, reverse_append, dropWhile_append_of_pos, List.rdropWhile]
  intro character member
  exact isPlain.allSlashes character (mem_reverse.mp member)

theorem rdropWhile_ne_nil : path.rdropWhile isSlash ≠ [] := by
  intro empty
  obtain ⟨head, rest, rfl⟩ := exists_cons_of_ne_nil isPlain.nonempty
  have slash := rdropWhile_eq_nil_iff.mp empty head mem_cons_self
  rw [isPlain.noSlash head rfl] at slash
  cases slash

theorem normalizedContentUrl (start : Text) (trimBothEnds : Bool) :
    Analysis2.normalizedContentUrl start (path ++ slashes ++ suffix) trimBothEnds =
      some (start ++ path.rdropWhile isSlash) := by
  have noneBefore : (path ++ slashes).dropWhile isSlash = path ++ slashes := by
    obtain ⟨head, rest, rfl⟩ := exists_cons_of_ne_nil isPlain.nonempty
    rw [cons_append, dropWhile_cons_of_neg]
    rw [isPlain.noSlash head rfl]
    exact Bool.false_ne_true
  rw [Analysis2.normalizedContentUrl, isPlain.cut, noneBefore, isPlain.rdropWhile_append, ite_self,
    if_neg isPlain.rdropWhile_ne_nil]

end IsPlainPath

/-- An IPFS path: it begins with a letter or digit of ASCII, it has neither white space nor a query
or fragment, and its first segment is not the folder `ipfs` itself. -/
structure IsIpfsPath (path : Text) : Prop where
  first : ∃ head rest, path = head :: rest ∧ head.isAlphanum = true
  plain : ∀ character ∈ path, isPathCharacter character = true
  notFolder : Text.toAsciiLowercase (path.takeWhile isHostCharacter) ≠ "ipfs".toList

/-- The forms in which a path is addressed. -/
inductive IpfsAddress (path : Text) : Text → Prop where
  | scheme (scheme : Text) (isScheme : scheme.toAsciiLowercase = "ipfs".toList) :
      IpfsAddress path (scheme ++ "://".toList ++ path)
  | folder (scheme folder : Text) (isScheme : scheme.toAsciiLowercase = "ipfs".toList)
      (isFolder : folder.toAsciiLowercase = "ipfs".toList) :
      IpfsAddress path (scheme ++ "://".toList ++ (folder ++ '/' :: path))
  | gateway (scheme host folder : Text)
      (isScheme : scheme.toAsciiLowercase = "http".toList ∨
        scheme.toAsciiLowercase = "https".toList)
      (nonempty : host ≠ []) (noSlash : '/' ∉ host)
      (isFolder : folder.toAsciiLowercase = "ipfs".toList) :
      IpfsAddress path (scheme ++ "://".toList ++ (host ++ '/' :: (folder ++ '/' :: path)))

/-- An id of a transaction. -/
structure IsArweaveId (id : Text) : Prop where
  length : id.length = 43
  characters : ∀ character ∈ id, character.isAlphanum || character == '_' || character == '-'

inductive ArweaveAddress (id : Text) : Text → Prop where
  | scheme (scheme : Text) (isScheme : scheme.toAsciiLowercase = "ar".toList) :
      ArweaveAddress id (scheme ++ "://".toList ++ id)
  | gateway (scheme name domain : Text)
      (isScheme : scheme.toAsciiLowercase = "http".toList ∨
        scheme.toAsciiLowercase = "https".toList)
      (nonempty : name ≠ []) (noSlash : '/' ∉ name)
      (isDomain : domain.toAsciiLowercase = "arweave.net".toList) :
      ArweaveAddress id (scheme ++ "://".toList ++ (name ++ '.' :: (domain ++ '/' :: id)))

/-- A text that is an address, with white space around it, slashes behind the path, and a query or
a fragment. -/
def Decorates (raw address : Text) : Prop :=
  ∃ before slashes suffix after, raw = before ++ (address ++ slashes ++ suffix) ++ after ∧
    (∀ character ∈ before ++ after, Text.isWhiteSpace character = true) ∧
    (∀ character ∈ slashes, isSlash character = true) ∧ IsSuffix suffix

theorem rdropWhile_append_of_last {holds : Char → Bool}
    (last : ∀ character ∈ text.getLast?, holds character = false) :
    (text ++ behind).rdropWhile holds = text ++ behind.rdropWhile holds := by
  have kept : text.reverse.dropWhile holds = text.reverse := by
    cases isReverse : text.reverse with
    | nil => rfl
    | cons head rest =>
        apply dropWhile_cons_of_neg
        rw [last head (by rw [← List.head?_reverse, isReverse]; rfl)]
        exact Bool.false_ne_true
  rw [List.rdropWhile, reverse_append, dropWhile_append, kept, List.rdropWhile]
  split
  · next empty => rw [List.isEmpty_iff.mp empty]; simp
  · simp

/-- Trimming leaves an address with its slashes, and of the suffix at most blanks go. -/
theorem trim_decorates {raw scheme word middle path : Text}
    (decorates : Decorates raw (scheme ++ "://".toList ++ (middle ++ path)))
    (isScheme : scheme.toAsciiLowercase = word)
    (first : ∃ letter rest, word = letter :: rest ∧ Text.isWhiteSpace letter = false)
    (nonempty : path ≠ []) (plain : ∀ character ∈ path, isPathCharacter character = true) :
    ∃ slashes suffix, raw.trim = scheme ++ "://".toList ++ (middle ++ path) ++ slashes ++ suffix ∧
      (∀ character ∈ slashes, isSlash character = true) ∧ IsSuffix suffix := by
  obtain ⟨before, slashes, suffix, after, rfl, blank, allSlashes, isSuffix⟩ := decorates
  obtain ⟨letter, rest, rfl, isLetter⟩ := first
  obtain ⟨head, others, rfl, isHead, -⟩ := map_eq_cons_iff.mp isScheme
  refine ⟨slashes, (suffix ++ after).rdropWhile Text.isWhiteSpace, ?_, allSlashes, ?_⟩
  · have noBlank : ¬Text.isWhiteSpace head = true := by
      rw [← Text.isWhiteSpace_toLower, isHead, isLetter]
      exact Bool.false_ne_true
    have last : ∀ character ∈ (head :: others ++ "://".toList ++ (middle ++ path) ++
        slashes).getLast?, Text.isWhiteSpace character = false := by
      intro character isLast
      by_cases empty : slashes = []
      · rw [empty, append_nil, ← List.append_assoc,
          List.getLast?_append_of_ne_nil _ nonempty] at isLast
        have isPath := plain character (List.mem_of_getLast? isLast)
        simp only [isPathCharacter, Bool.and_eq_true, Bool.not_eq_true'] at isPath
        exact isPath.2
      · rw [List.getLast?_append_of_ne_nil _ empty] at isLast
        rw [beq_iff_eq.mp (allSlashes character (List.mem_of_getLast? isLast))]
        decide
    rw [Text.trim, Text.trimStart, List.append_assoc before, dropWhile_append_of_pos
      (fun character member => blank character (mem_append_left after member)),
      List.append_assoc _ suffix after]
    simp only [cons_append]
    rw [dropWhile_cons_of_neg noBlank]
    exact rdropWhile_append_of_last last
  · intro character isHead
    obtain ⟨more, whole⟩ := rdropWhile_prefix Text.isWhiteSpace (suffix ++ after)
    cases suffix with
    | nil =>
        have allBlank : ([] ++ after).rdropWhile Text.isWhiteSpace = [] :=
          rdropWhile_eq_nil_iff.mpr fun other member =>
            blank other (mem_append_right before member)
        rw [allBlank] at isHead
        cases isHead
    | cons mark suffix =>
        apply isSuffix
        obtain ⟨behind, isBehind⟩ := List.head?_eq_some_iff.mp isHead
        rw [isBehind] at whole
        exact (List.cons.inj whole).1 ▸ rfl

/-! ## The address of a path is its key -/

def Apart (first second : Text) : Prop := ¬first <+: second ∧ ¬second <+: first

instance (first second : Text) : Decidable (Apart first second) := by
  unfold Apart
  infer_instance

theorem schemes_apart : ∀ word ∈ ["ipfs://".toList, "ar://".toList, "http".toList],
    ∀ other ∈ "data:".toList :: noUrl, Apart word other := by
  decide +kernel

theorem Apart.notStart (apart : Apart first second) (isPrefix : first <+: text) :
    ¬second <+: text := fun other =>
  (List.prefix_or_prefix_of_prefix isPrefix other).elim apart.1 apart.2

theorem isUrl_of_prefix {lowered : Text}
    (isScheme : word ∈ ["ipfs://".toList, "ar://".toList, "http".toList])
    (isPrefix : word <+: lowered) : ¬(lowered ∈ noUrl ∨ "data:".toList <+: lowered) := by
  rintro (noAddress | isData)
  · exact (schemes_apart word isScheme lowered (mem_cons_of_mem _ noAddress)).1 isPrefix
  · exact (schemes_apart word isScheme _ mem_cons_self).notStart isPrefix isData

theorem isStart_http : IsStart "http".toList := ⟨by simp, by simp, by simp⟩

theorem prefix_toLowercase (isStart : IsStart word) (casing : Casing)
    (same : start.toAsciiLowercase = word) (rest : Text) :
    word <+: casing.toLowercase (start ++ rest) :=
  (prefix_toLowercaseAfter isStart casing [] _).mpr ⟨start, rest, rfl, same⟩

theorem toAsciiLowercase_scheme {scheme : Text} (isScheme : scheme.toAsciiLowercase = word) :
    (scheme ++ "://".toList).toAsciiLowercase = word ++ "://".toList := by
  rw [Text.toAsciiLowercase_append, isScheme]
  rfl

variable {raw tail : Text}

theorem normalizeUrl_ipfsScheme (casing : Casing) {scheme : Text}
    (isScheme : scheme.toAsciiLowercase = "ipfs".toList)
    (isTrim : raw.trim = scheme ++ "://".toList ++ tail) :
    normalizeUrl casing raw =
      (if "ipfs/".toList <+: casing.toLowercase tail then sliceFrom tail 5 else .ok tail).map
        fun tail => normalizedContentUrl "ipfs:".toList tail true := by
  have lowered := toAsciiLowercase_scheme isScheme
  have isPrefix := prefix_toLowercase isStart_ipfsScheme casing lowered tail
  have sliced : sliceFrom (scheme ++ "://".toList ++ tail) 7 = .ok tail := by
    apply sliceFrom_append
    rw [← Text.utf8Length_toAsciiLowercase, lowered]
    rfl
  have notEmpty : scheme ++ "://".toList ++ tail ≠ [] := by simp
  rw [normalizeUrl]
  simp only [isTrim]
  rw [if_neg (not_or.mpr ⟨notEmpty, isUrl_of_prefix (by decide) isPrefix⟩), if_pos isPrefix,
    ipfsTail, sliced]
  rfl

theorem normalizeUrl_arScheme (casing : Casing) {scheme : Text}
    (isScheme : scheme.toAsciiLowercase = "ar".toList)
    (isTrim : raw.trim = scheme ++ "://".toList ++ tail) :
    normalizeUrl casing raw = .ok (normalizedContentUrl "ar:".toList tail true) := by
  have lowered := toAsciiLowercase_scheme isScheme
  have isPrefix := prefix_toLowercase isStart_arScheme casing lowered tail
  have sliced : sliceFrom (scheme ++ "://".toList ++ tail) 5 = .ok tail := by
    apply sliceFrom_append
    rw [← Text.utf8Length_toAsciiLowercase, lowered]
    rfl
  have notEmpty : scheme ++ "://".toList ++ tail ≠ [] := by simp
  have apart : Apart "ar://".toList "ipfs://".toList := by decide
  rw [normalizeUrl]
  simp only [isTrim]
  rw [if_neg (not_or.mpr ⟨notEmpty, isUrl_of_prefix (by decide) isPrefix⟩),
    if_neg (apart.notStart isPrefix), if_pos isPrefix, sliced]
  rfl

theorem isHttp_of_lowercase {scheme : Text} (isScheme : scheme.toAsciiLowercase = "http".toList ∨
    scheme.toAsciiLowercase = "https".toList) : IsHttp scheme := by
  rcases isScheme with http | https
  · exact .inl ((map_foldCase (by rw [http]; simp)).trans http)
  · exact .inr ((map_foldCase (by rw [https]; simp)).trans https)

theorem normalizeUrl_httpScheme (casing : Casing) {scheme : Text}
    (isScheme : scheme.toAsciiLowercase = "http".toList ∨
      scheme.toAsciiLowercase = "https".toList) (isTrim : raw.trim = scheme ++ "://".toList ++ tail)
    :
    normalizeUrl casing raw =
      .ok (normalizedHttpUrl raw.trim (casing.toLowercase raw.trim)) := by
  have isPrefix : "http".toList <+: casing.toLowercase (scheme ++ "://".toList ++ tail) := by
    rcases isScheme with http | https
    · rw [List.append_assoc]
      exact prefix_toLowercase isStart_http casing http _
    · obtain ⟨http, letter, rfl, isHttp, -⟩ := map_eq_append_iff.mp
        (https.trans (by decide : "https".toList = "http".toList ++ "s".toList))
      rw [List.append_assoc, List.append_assoc]
      exact prefix_toLowercase isStart_http casing isHttp _
  have notEmpty : scheme ++ "://".toList ++ tail ≠ [] := by simp
  have apartIpfs : Apart "http".toList "ipfs://".toList := by decide
  have apartAr : Apart "http".toList "ar://".toList := by decide
  rw [normalizeUrl]
  simp only [isTrim]
  rw [if_neg (not_or.mpr ⟨notEmpty, isUrl_of_prefix (by decide) isPrefix⟩),
    if_neg (apartIpfs.notStart isPrefix), if_neg (apartAr.notStart isPrefix)]

theorem ipfs_behind {scheme host found : Text} (isHttp : IsHttp scheme) (noSlash : '/' ∉ host)
    (isMatch : (found, behind) ∈ httpUrl (seq (plus isHostCharacter) (literal "/ipfs/".toList))
      (scheme ++ "://".toList ++ (host ++ '/' :: rest))) :
    ∃ folder, folder.map foldCase = "ipfs".toList ∧ rest = folder ++ '/' :: behind := by
  obtain ⟨otherScheme, after, _, isOther, otherHttp, isRest⟩ :=
    exists_mem_httpUrl.mp ⟨found, isMatch⟩
  obtain ⟨otherHost, folder, rfl, -, otherNoSlash, isFolder⟩ := exists_mem_ipfs.mp ⟨_, isRest⟩
  rw [List.append_assoc] at isOther
  have afterScheme := (behind_first isOther isHttp.noColon otherHttp.noColon).2
  exact ⟨folder, isFolder, (behind_first (List.cons.inj (List.cons.inj afterScheme).2).2 noSlash
    otherNoSlash).2⟩

theorem foldCase_of_isAlphanum (alnum : character.isAlphanum = true) :
    foldCase character = character.toLower := by
  rw [foldCase, if_neg, if_neg]
  · rintro rfl
    cases alnum
  · rintro rfl
    cases alnum

theorem isAlphanum_foldCase (alnum : character.isAlphanum = true) :
    (foldCase character).isAlphanum = true := by
  rw [foldCase_of_isAlphanum alnum]
  cases letter : character.isAlpha with
  | true => rw [Char.isAlphanum, Char.isAlpha_toLower_eq_isAlpha, letter, Bool.true_or]
  | false => rwa [Text.toLower_eq_self letter]

variable {slashes suffix : Text}

theorem ipfsHttpCapture_gateway {scheme host folder path : Text} (isHttp : IsHttp scheme)
    (nonempty : host ≠ []) (noSlash : '/' ∉ host) (isFolder : folder.map foldCase = "ipfs".toList)
    (isPath : IsIpfsPath path) (isPlain : IsPlainPath path slashes suffix) :
    ipfsHttpCapture (scheme ++ "://".toList ++ (host ++ '/' :: (folder ++ '/' :: path)) ++
      slashes ++ suffix) = some (path ++ slashes) := by
  obtain ⟨head, rest, isCons, alnum⟩ := isPath.first
  have noSlashFolder : '/' ∉ folder := notMem_of_map_foldCase isFolder (by decide)
  obtain ⟨_, isGateway⟩ := exists_mem_ipfs.mpr
    ⟨host, folder, rfl, nonempty, noSlash, isFolder⟩
  obtain ⟨found, isMatch⟩ := exists_mem_httpUrl.mpr
    ⟨scheme, _, _, List.append_assoc scheme "://".toList _, isHttp, isGateway⟩
  have whole : scheme ++ "://".toList ++ (host ++ '/' :: (folder ++ '/' :: path)) ++ slashes ++
      suffix = scheme ++ "://".toList ++ (host ++ '/' :: (folder ++ '/' ::
        (path ++ slashes ++ suffix))) := by
    simp
  have isGroup : (seq (one fun character => (foldCase character).isAlphanum)
      (star isPathCharacter) (path ++ slashes ++ suffix)).head? =
        some (path ++ slashes, (rest ++ slashes ++ suffix).dropWhile isPathCharacter) := by
    subst isCons
    have run := isPlain.takeWhile_append
    rw [cons_append, cons_append,
      takeWhile_cons_of_pos (isPlain.plain head mem_cons_self)] at run
    have isFirst : (one (fun character => (foldCase character).isAlphanum)
        (head :: (rest ++ slashes ++ suffix))).head? =
          some ([head], rest ++ slashes ++ suffix) := by
      rw [one, if_pos (isAlphanum_foldCase alnum)]
      rfl
    rw [cons_append, cons_append, head?_seq isFirst head?_star, (List.cons.inj run).2]
    rfl
  rw [whole, ipfsHttpCapture]
  apply capture_eq_some isMatch _ isGroup
  intro other behind otherMatch
  obtain ⟨otherFolder, isOther, same⟩ := ipfs_behind isHttp noSlash otherMatch
  exact (behind_first same noSlashFolder (notMem_of_map_foldCase isOther (by decide))).2.symm

theorem IsIpfsPath.isPlainPath {path : Text} (isPath : IsIpfsPath path)
    (allSlashes : ∀ character ∈ slashes, isSlash character = true) (isSuffix : IsSuffix suffix) :
    IsPlainPath path slashes suffix where
  plain := isPath.plain
  noSlash := by
    obtain ⟨head, rest, rfl, alnum⟩ := isPath.first
    intro character isHead
    cases isHead
    rw [isSlash, beq_eq_false_iff_ne]
    rintro rfl
    cases alnum
  nonempty := by
    obtain ⟨head, rest, rfl, -⟩ := isPath.first
    exact cons_ne_nil head rest
  allSlashes := allSlashes
  isSuffix := isSuffix

theorem notStart_folder {path : Text} (isPath : IsIpfsPath path)
    (allSlashes : ∀ character ∈ slashes, isSlash character = true) (isSuffix : IsSuffix suffix)
    (casing : Casing) : ¬"ipfs/".toList <+: casing.toLowercase (path ++ slashes ++ suffix) := by
  intro isPrefix
  obtain ⟨start, rest, whole, folder⟩ :=
    (prefix_toLowercaseAfter isStart_ipfsFolder casing [] _).mp isPrefix
  obtain ⟨word, slash, rfl, isWord, isSlash⟩ := map_eq_append_iff.mp
    (folder.trans (by decide : "ipfs/".toList = "ipfs".toList ++ ['/']))
  obtain ⟨character, others, rfl, isCharacter, empty⟩ := map_eq_cons_iff.mp isSlash
  rw [map_eq_nil_iff.mp empty, Text.eq_of_toLower_eq rfl isCharacter, List.append_assoc,
    List.append_assoc] at whole
  have notMem (mark : Char) (caseless : mark.isAlpha = false) (absent : mark ∉ "ipfs".toList) :
      mark ∉ word := by
    rw [← Text.mem_toAsciiLowercase caseless, Text.toAsciiLowercase, isWord]
    exact absent
  -- The first segment of the whole is the word, and it is that of the path.
  have segment : (path ++ (slashes ++ suffix)).takeWhile isHostCharacter = word := by
    rw [whole, takeWhile_append_of_pos
      (isHostCharacter_iff.mpr (notMem '/' rfl (by decide)))]
    exact append_nil word
  apply isPath.notFolder
  rw [List.takeWhile_append] at segment
  split at segment
  · next whole =>
      have all : path.takeWhile isHostCharacter = path :=
        List.IsPrefix.eq_of_length (List.takeWhile_prefix _) whole
      have stops : (slashes ++ suffix).takeWhile isHostCharacter = [] := by
        cases slashes with
        | cons head slashes =>
            rw [beq_iff_eq.mp (allSlashes head mem_cons_self)]
            rfl
        | nil =>
            cases suffix with
            | nil => rfl
            | cons mark suffix =>
                have isHost : isHostCharacter mark = true := by
                  rcases isSuffix mark rfl with rfl | rfl <;> decide
                have inWord : mark ∈ word := by
                  rw [← segment, nil_append, takeWhile_cons_of_pos isHost]
                  exact mem_append_right path mem_cons_self
                rcases isSuffix mark rfl with rfl | rfl
                · exact absurd inWord (notMem '?' rfl (by decide))
                · exact absurd inWord (notMem '#' rfl (by decide))
      rw [all]
      rw [stops, append_nil] at segment
      rw [segment]
      exact isWord
  · rw [segment]
    exact isWord

variable {address : Text}

/-- Every form of an IPFS address has the key of its path. -/
theorem normalizeUrl_ipfs (casing : Casing) {path : Text} (isPath : IsIpfsPath path)
    (isAddress : IpfsAddress path address) (decorates : Decorates raw address) :
    normalizeUrl casing raw = .ok (some ("ipfs:".toList ++ path.rdropWhile isSlash)) := by
  have nonempty : path ≠ [] := by
    obtain ⟨head, rest, rfl, -⟩ := isPath.first
    exact cons_ne_nil head rest
  cases isAddress with
  | scheme scheme isScheme =>
      obtain ⟨slashes, suffix, isTrim, allSlashes, isSuffix⟩ := @trim_decorates _ _ _ [] _
        decorates isScheme ⟨'i', _, rfl, by decide⟩ nonempty isPath.plain
      rw [nil_append, List.append_assoc, List.append_assoc, ← List.append_assoc path] at isTrim
      rw [normalizeUrl_ipfsScheme casing isScheme isTrim,
        if_neg (notStart_folder isPath allSlashes isSuffix casing)]
      exact congrArg Except.ok ((isPath.isPlainPath allSlashes isSuffix).normalizedContentUrl _ _)
  | folder scheme folder isScheme isFolder =>
      obtain ⟨slashes, suffix, isTrim, allSlashes, isSuffix⟩ := @trim_decorates _ _ _
        (folder ++ ['/']) path (by simpa using decorates) isScheme ⟨'i', _, rfl, by decide⟩ nonempty
        isPath.plain
      rw [List.append_assoc, List.append_assoc, List.append_assoc (folder ++ ['/']),
        ← List.append_assoc path] at isTrim
      have lowered : (folder ++ ['/']).toAsciiLowercase = "ipfs/".toList := by
        rw [Text.toAsciiLowercase_append, isFolder]
        decide
      have sliced : sliceFrom (folder ++ ['/'] ++ (path ++ slashes ++ suffix)) 5 =
          .ok (path ++ slashes ++ suffix) := by
        apply sliceFrom_append
        rw [← Text.utf8Length_toAsciiLowercase, lowered]
        rfl
      rw [normalizeUrl_ipfsScheme casing isScheme isTrim,
        if_pos (prefix_toLowercase isStart_ipfsFolder casing lowered _), sliced]
      exact congrArg Except.ok ((isPath.isPlainPath allSlashes isSuffix).normalizedContentUrl _ _)
  | gateway scheme host folder isScheme hostNonempty noSlash isFolder =>
      have isHttp := isHttp_of_lowercase isScheme
      obtain ⟨slashes, suffix, isTrim, allSlashes, isSuffix⟩ : ∃ slashes suffix, raw.trim =
          scheme ++ "://".toList ++ (host ++ '/' :: (folder ++ '/' :: path)) ++ slashes ++ suffix ∧
            (∀ character ∈ slashes, isSlash character = true) ∧ IsSuffix suffix := by
        have decorates : Decorates raw
            (scheme ++ "://".toList ++ ((host ++ '/' :: (folder ++ ['/'])) ++ path)) := by
          simpa using decorates
        rcases isScheme with http | https
        · simpa using trim_decorates decorates http ⟨'h', _, rfl, by decide⟩ nonempty isPath.plain
        · simpa using trim_decorates decorates https ⟨'h', _, rfl, by decide⟩ nonempty isPath.plain
      have folded : folder.map foldCase = "ipfs".toList :=
        (map_foldCase (by rw [isFolder]; simp)).trans isFolder
      have isPlain := isPath.isPlainPath allSlashes isSuffix
      have captured := ipfsHttpCapture_gateway isHttp hostNonempty noSlash folded isPath isPlain
      rw [← isTrim] at captured
      rw [List.append_assoc, List.append_assoc] at isTrim
      rw [normalizeUrl_httpScheme casing isScheme isTrim, normalizedHttpUrl, captured]
      have noSuffix : IsPlainPath path slashes [] :=
        isPath.isPlainPath allSlashes fun _ none => by cases none
      have key := noSuffix.normalizedContentUrl "ipfs:".toList false
      rw [append_nil] at key
      exact congrArg Except.ok key

/-- The characters of an id are neither white space nor of the syntax around it. -/
theorem plain_of_idCharacter
    (isId : (character.isAlphanum || character == '_' || character == '-') = true) :
    isPathCharacter character = true ∧ isSlash character = false := by
  have codes : (48 ≤ character.toNat ∧ character.toNat ≤ 57) ∨
      (65 ≤ character.toNat ∧ character.toNat ≤ 90) ∨
      (97 ≤ character.toNat ∧ character.toNat ≤ 122) ∨
      character.toNat = 95 ∨ character.toNat = 45 := by
    simp only [Char.isAlphanum, Char.isAlpha, Char.isUpper, Char.isLower, Char.isDigit,
      Bool.or_eq_true, Bool.and_eq_true, decide_eq_true_eq, beq_iff_eq,
      UInt32.le_iff_toNat_le] at isId
    rcases isId with ((((upper | lower) | digit) | rfl) | rfl)
    · exact .inr (.inl upper)
    · exact .inr (.inr (.inl lower))
    · exact .inl digit
    · exact .inr (.inr (.inr (.inl rfl)))
    · exact .inr (.inr (.inr (.inr rfl)))
  have apart (mark : Char) (outside : mark.toNat = 63 ∨ mark.toNat = 35 ∨ mark.toNat = 47) :
      character ≠ mark := by
    rintro rfl
    omega
  constructor
  · simp only [isPathCharacter, Bool.and_eq_true, bne_iff_ne, Bool.not_eq_true']
    refine ⟨⟨apart '?' (by decide), apart '#' (by decide)⟩, ?_⟩
    simp only [Text.isWhiteSpace, Bool.or_eq_false_iff, Bool.and_eq_false_iff,
      decide_eq_false_iff_not, beq_eq_false_iff_ne]
    omega
  · rw [isSlash, beq_eq_false_iff_ne]
    exact apart '/' (by decide)

variable {id : Text}

theorem IsArweaveId.noSlash (isId : IsArweaveId id) : '/' ∉ id := fun member => by
  cases (plain_of_idCharacter (isId.characters _ member)).2

theorem IsArweaveId.isPlainPath (isId : IsArweaveId id)
    (allSlashes : ∀ character ∈ slashes, isSlash character = true) (isSuffix : IsSuffix suffix) :
    IsPlainPath id slashes suffix where
  plain character member := (plain_of_idCharacter (isId.characters character member)).1
  noSlash character isHead :=
    (plain_of_idCharacter (isId.characters character (List.mem_of_head? isHead))).2
  nonempty := by
    rintro rfl
    cases isId.length
  allSlashes := allSlashes
  isSuffix := isSuffix

theorem IsArweaveId.rdropWhile (isId : IsArweaveId id) :
    id.rdropWhile isSlash = id := by
  rw [rdropWhile_eq_self_iff]
  intro nonempty
  rw [(plain_of_idCharacter (isId.characters _ (getLast_mem nonempty))).2]
  exact Bool.false_ne_true

/-- An id has no slash, so no IPFS folder follows the host. -/
theorem ipfsHttpCapture_arweave {scheme host id tail : Text} (isHttp : IsHttp scheme)
    (noSlash : '/' ∉ host) (isId : IsArweaveId id) :
    ipfsHttpCapture (scheme ++ "://".toList ++ (host ++ '/' :: (id ++ tail))) = none := by
  apply capture_eq_none
  intro found behind isMatch
  obtain ⟨folder, isFolder, same⟩ := ipfs_behind isHttp noSlash isMatch
  have length : folder.length = 4 := by
    have := congrArg List.length isFolder
    simpa using this
  have starts := congrArg (List.take 5) same
  rw [take_append_of_le_length (by rw [isId.length]; decide)] at starts
  have slash : '/' ∈ id.take 5 := by
    rw [starts, take_append, length]
    simp
  exact isId.noSlash (mem_of_mem_take slash)

theorem head?_optional_path (allSlashes : ∀ character ∈ slashes, isSlash character = true)
    (isSuffix : IsSuffix suffix) :
    ∃ last, (Pattern.optional (seq (literal "/".toList) (star isPathCharacter))
      (slashes ++ suffix)).head? = some (slashes, last) := by
  cases slashes with
  | nil =>
      have noPath : seq (literal "/".toList) (star isPathCharacter) suffix = [] := by
        cases suffix with
        | nil => rfl
        | cons mark suffix => rcases isSuffix mark rfl with rfl | rfl <;> rfl
      exact ⟨suffix, by rw [Pattern.optional, nil_append, noPath]; rfl⟩
  | cons slash slashes =>
      obtain rfl := beq_iff_eq.mp (allSlashes slash mem_cons_self)
      have isFirst : (literal "/".toList ('/' :: (slashes ++ suffix))).head? =
          some (['/'], slashes ++ suffix) := rfl
      have isSlashes : ∀ character ∈ slashes, isPathCharacter character = true := by
        intro character member
        rw [beq_iff_eq.mp (allSlashes character (mem_cons_of_mem _ member))]
        decide
      have run : (slashes ++ suffix).takeWhile isPathCharacter = slashes := by
        rw [takeWhile_append_of_pos isSlashes]
        cases suffix with
        | nil => simp
        | cons mark suffix => rcases isSuffix mark rfl with rfl | rfl <;> simp [isPathCharacter]
      refine ⟨(slashes ++ suffix).dropWhile isPathCharacter, ?_⟩
      rw [Pattern.optional, cons_append, List.head?_append, head?_seq isFirst head?_star, run]
      rfl

theorem arweaveHttpCapture_gateway {scheme host : Text} (isHttp : IsHttp scheme)
    (noSlash : '/' ∉ host) (isHost : IsArweaveHost host) (isId : IsArweaveId id)
    (isPlain : IsPlainPath id slashes suffix) :
    arweaveHttpCapture (scheme ++ "://".toList ++ (host ++ '/' :: id) ++ slashes ++ suffix) =
      some (id ++ slashes) := by
  obtain ⟨_, isGateway⟩ := exists_mem_arweave.mpr ⟨host, rfl, noSlash, isHost⟩
  obtain ⟨found, isMatch⟩ := exists_mem_httpUrl.mpr
    ⟨scheme, _, _, List.append_assoc scheme "://".toList _, isHttp, isGateway⟩
  have whole : scheme ++ "://".toList ++ (host ++ '/' :: id) ++ slashes ++ suffix =
      scheme ++ "://".toList ++ (host ++ '/' :: (id ++ (slashes ++ suffix))) := by
    simp
  obtain ⟨last, isLast⟩ := head?_optional_path isPlain.allSlashes isPlain.isSuffix
  have isIdCharacters : ∀ character ∈ id, isIdCharacter character = true := by
    intro character member
    have isOne := isId.characters character member
    rw [isIdCharacter]
    rcases Bool.or_eq_true_iff.mp isOne with alnum | isDash
    · rcases Bool.or_eq_true_iff.mp alnum with alnum | isLow
      · rw [isAlphanum_foldCase alnum]
        rfl
      · rw [isLow, Bool.or_true]
        rfl
    · rw [isDash, Bool.or_true]
  have isGroup := head?_seq (head?_replicate isId.length isIdCharacters) isLast
  rw [whole, arweaveHttpCapture]
  apply capture_eq_some isMatch _ isGroup
  intro other behind otherMatch
  obtain ⟨otherScheme, after, _, isOther, otherHttp, isRest⟩ :=
    exists_mem_httpUrl.mp ⟨other, otherMatch⟩
  obtain ⟨otherHost, rfl, otherNoSlash, -⟩ := exists_mem_arweave.mp ⟨_, isRest⟩
  rw [List.append_assoc] at isOther
  have afterScheme := (behind_first isOther isHttp.noColon otherHttp.noColon).2
  exact (behind_first (List.cons.inj (List.cons.inj afterScheme).2).2 noSlash
    otherNoSlash).2.symm

/-- Every form of an Arweave address has the key of its id. -/
theorem normalizeUrl_arweave (casing : Casing) (isId : IsArweaveId id)
    (isAddress : ArweaveAddress id address) (decorates : Decorates raw address) :
    normalizeUrl casing raw = .ok (some ("ar:".toList ++ id)) := by
  have nonempty : id ≠ [] := by
    rintro rfl
    cases isId.length
  have plain : ∀ character ∈ id, isPathCharacter character = true := fun character member =>
    (plain_of_idCharacter (isId.characters character member)).1
  cases isAddress with
  | scheme scheme isScheme =>
      obtain ⟨slashes, suffix, isTrim, allSlashes, isSuffix⟩ := @trim_decorates _ _ _ [] _
        decorates isScheme ⟨'a', _, rfl, by decide⟩ nonempty plain
      rw [nil_append, List.append_assoc, List.append_assoc, ← List.append_assoc id] at isTrim
      rw [normalizeUrl_arScheme casing isScheme isTrim,
        (isId.isPlainPath allSlashes isSuffix).normalizedContentUrl, isId.rdropWhile]
  | gateway scheme name domain isScheme nameNonempty nameNoSlash isDomain =>
      have isHttp := isHttp_of_lowercase isScheme
      obtain ⟨slashes, suffix, isTrim, allSlashes, isSuffix⟩ : ∃ slashes suffix, raw.trim =
          scheme ++ "://".toList ++ ((name ++ '.' :: domain) ++ '/' :: id) ++ slashes ++ suffix ∧
            (∀ character ∈ slashes, isSlash character = true) ∧ IsSuffix suffix := by
        have decorates : Decorates raw
            (scheme ++ "://".toList ++ ((name ++ '.' :: domain ++ ['/']) ++ id)) := by
          simpa using decorates
        rcases isScheme with http | https
        · simpa using trim_decorates decorates http ⟨'h', _, rfl, by decide⟩ nonempty plain
        · simpa using trim_decorates decorates https ⟨'h', _, rfl, by decide⟩ nonempty plain
      have folded : domain.map foldCase = "arweave.net".toList :=
        (map_foldCase (by rw [isDomain]; simp)).trans isDomain
      have noSlash : '/' ∉ name ++ '.' :: domain := by
        have inDomain : '/' ∉ domain := notMem_of_map_foldCase folded (by decide)
        simp [nameNoSlash, inDomain]
      have isPlain := isId.isPlainPath allSlashes isSuffix
      have captured := arweaveHttpCapture_gateway isHttp noSlash
        (.inr ⟨name, domain, nameNonempty, rfl, folded⟩) isId isPlain
      have noIpfs := @ipfsHttpCapture_arweave _ _ _ (slashes ++ suffix) isHttp noSlash isId
      have whole : scheme ++ "://".toList ++ ((name ++ '.' :: domain) ++ '/' :: id) ++ slashes ++
          suffix = scheme ++ "://".toList ++ ((name ++ '.' :: domain) ++ '/' ::
            (id ++ (slashes ++ suffix))) := by
        simp
      rw [whole] at isTrim captured
      rw [← isTrim] at captured noIpfs
      rw [normalizeUrl_httpScheme casing isScheme isTrim, normalizedHttpUrl, noIpfs, captured]
      have noSuffix : IsPlainPath id slashes [] :=
        isId.isPlainPath allSlashes fun _ none => by cases none
      have key := noSuffix.normalizedContentUrl "ar:".toList false
      rw [append_nil, isId.rdropWhile] at key
      exact congrArg Except.ok key

/-- Normalization returns for every text. The forms of an IPFS path have one key and those of an
Arweave id have one key, and the keys of two addresses differ when their paths differ by more than
slashes behind them. -/
theorem normalizeUrl_content (casing : Casing) :
    (∀ raw, ∃ result, normalizeUrl casing raw = .ok result) ∧
      (∀ path, IsIpfsPath path → ∃ key, ∀ address raw, IpfsAddress path address →
        Decorates raw address → normalizeUrl casing raw = .ok (some key)) ∧
      (∀ id, IsArweaveId id → ∃ key, ∀ address raw, ArweaveAddress id address →
        Decorates raw address → normalizeUrl casing raw = .ok (some key)) ∧
      (∀ path other address otherAddress raw otherRaw, IsIpfsPath path → IsIpfsPath other →
        IpfsAddress path address → IpfsAddress other otherAddress →
        Decorates raw address → Decorates otherRaw otherAddress →
        normalizeUrl casing raw = normalizeUrl casing otherRaw →
          path.rdropWhile isSlash = other.rdropWhile isSlash) ∧
      (∀ id other address otherAddress raw otherRaw, IsArweaveId id → IsArweaveId other →
        ArweaveAddress id address → ArweaveAddress other otherAddress →
        Decorates raw address → Decorates otherRaw otherAddress →
        normalizeUrl casing raw = normalizeUrl casing otherRaw → id = other) ∧
      ∀ path id address otherAddress raw otherRaw, IsIpfsPath path → IsArweaveId id →
        IpfsAddress path address → ArweaveAddress id otherAddress →
        Decorates raw address → Decorates otherRaw otherAddress →
        normalizeUrl casing raw ≠ normalizeUrl casing otherRaw := by
  refine ⟨normalizeUrl_ok casing, ?_, ?_, ?_, ?_, ?_⟩
  · intro path isPath
    exact ⟨_, fun _ _ => normalizeUrl_ipfs casing isPath⟩
  · intro id isId
    exact ⟨_, fun _ _ => normalizeUrl_arweave casing isId⟩
  · intro path other _ _ _ _ isPath isOther isAddress isOtherAddress decorates otherDecorates same
    rw [normalizeUrl_ipfs casing isPath isAddress decorates,
      normalizeUrl_ipfs casing isOther isOtherAddress otherDecorates] at same
    exact append_cancel_left (Option.some.inj (Except.ok.inj same))
  · intro id other _ _ _ _ isId isOther isAddress isOtherAddress decorates otherDecorates same
    rw [normalizeUrl_arweave casing isId isAddress decorates,
      normalizeUrl_arweave casing isOther isOtherAddress otherDecorates] at same
    exact append_cancel_left (Option.some.inj (Except.ok.inj same))
  · intro path id _ _ _ _ isPath isId isAddress isOtherAddress decorates otherDecorates same
    rw [normalizeUrl_ipfs casing isPath isAddress decorates,
      normalizeUrl_arweave casing isId isOtherAddress otherDecorates] at same
    cases same

def Casing.ofAscii : Casing where
  lower character := [character.toLower]
  isFinalSigma _ _ := false
  lower_ascii _ _ := rfl
  lower_other character outside := by
    have notUpper : ¬character.isUpper = true := by
      intro upper
      have bounds : 65 ≤ character.toNat ∧ character.toNat ≤ 90 := by
        simpa [Char.isUpper, UInt32.le_iff_toNat_le] using upper
      omega
    exact ⟨_, [], rfl, .inl (by rwa [Char.toLower_eq_of_not_isUpper notUpper])⟩

theorem normalizeUrl_content_gateway :
    normalizeUrl .ofAscii "ipfs://Qm1".toList =
      normalizeUrl .ofAscii " HTTPS://gw.io/ipfs/Qm1//?a#b".toList := by
  have isPath : IsIpfsPath "Qm1".toList :=
    ⟨⟨'Q', "m1".toList, by decide, by decide⟩, by simp [isPathCharacter, Text.isWhiteSpace],
      by decide⟩
  obtain ⟨key, isKey⟩ := (normalizeUrl_content .ofAscii).2.1 _ isPath
  have scheme := isKey _ "ipfs://Qm1".toList
    (.scheme "ipfs".toList (by decide)) ⟨[], [], [], [], by decide, by simp, by simp,
      fun _ none => by cases none⟩
  have gateway := isKey _ " HTTPS://gw.io/ipfs/Qm1//?a#b".toList
    (.gateway "HTTPS".toList "gw.io".toList "ipfs".toList (.inr (by decide)) (by decide) (by decide)
      (by decide)) ⟨[' '], "//".toList, "?a#b".toList, [], by simp, by simp [Text.isWhiteSpace],
        by simp [isSlash],
        fun _ isHead => .inl (by simpa using isHead.symm)⟩
  rw [scheme, gateway]

/-- A path whose first segment is the folder is taken for a path behind the folder. -/
theorem normalizeUrl_folder :
    normalizeUrl .ofAscii "ipfs://ipfs/Qm1".toList ≠
        normalizeUrl .ofAscii "https://gw.io/ipfs/ipfs/Qm1".toList ∧
      normalizeUrl .ofAscii "ipfs://ipfs/Qm1".toList =
        normalizeUrl .ofAscii "ipfs://Qm1".toList := by
  decide +kernel

end NftData.Analysis2
