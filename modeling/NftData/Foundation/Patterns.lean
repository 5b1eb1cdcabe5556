import NftData.Foundation.Text

namespace NftData

/-! # Patterns

A regular expression that starts at the beginning of a text, as the list of its matches in the
order in which a backtracking search prefers them. -/

open List

abbrev Pattern := Text → List (Text × Text)

namespace Pattern

def one (holds : Char → Bool) : Pattern
  | [] => []
  | character :: text => if holds character then [([character], text)] else []

def star (holds : Char → Bool) : Pattern
  | [] => [([], [])]
  | character :: text =>
      if holds character then
        (star holds text).map (Prod.map (character :: ·) id) ++ [([], character :: text)]
      else [([], character :: text)]

/-- A match of the first pattern, and then one of the second. -/
def seq (first second : Pattern) : Pattern := fun text =>
  (first text).flatMap fun found => (second found.2).map (Prod.map (found.1 ++ ·) id)

def optional (pattern : Pattern) : Pattern := fun text => pattern text ++ [([], text)]

def plus (holds : Char → Bool) : Pattern := seq (one holds) (star holds)

def replicate (holds : Char → Bool) : Nat → Pattern
  | 0 => fun text => [([], text)]
  | count + 1 => seq (one holds) (replicate holds count)

/-- Simple case folding, as far as it ends at ASCII: the long s and the Kelvin sign are letters. -/
def foldCase (character : Char) : Char :=
  if character = Char.ofNat 0x17F then 's'
  else if character = Char.ofNat 0x212A then 'k'
  else character.toLower

def literal : Text → Pattern
  | [] => fun text => [([], text)]
  | letter :: word => seq (one fun character => foldCase character = letter) (literal word)

def capture (rest group : Pattern) (text : Text) : Option Text :=
  ((rest text).flatMap fun found => (group found.2).map Prod.fst).head?

/-! ## What matches are -/

section

variable {holds : Char → Bool} {first second pattern : Pattern} {text found behind : Text}

theorem mem_one : (found, behind) ∈ one holds text ↔
    ∃ character, holds character = true ∧ found = [character] ∧ text = character :: behind := by
  cases text with
  | nil => simp [one]
  | cons character text =>
      rw [one]
      split
      · next isOne =>
          rw [mem_singleton, Prod.mk.injEq]
          constructor
          · rintro ⟨rfl, rfl⟩
            exact ⟨character, isOne, rfl, rfl⟩
          · rintro ⟨other, -, rfl, same⟩
            cases same
            exact ⟨rfl, rfl⟩
      · next isOther =>
          constructor
          · intro member
            cases member
          · rintro ⟨other, isOne, -, same⟩
            cases same
            exact absurd isOne isOther

theorem mem_seq : (found, behind) ∈ seq first second text ↔
    ∃ start middle rest, (start, middle) ∈ first text ∧ (rest, behind) ∈ second middle ∧
      found = start ++ rest := by
  rw [seq, mem_flatMap]
  constructor
  · rintro ⟨⟨start, middle⟩, isFirst, member⟩
    obtain ⟨⟨rest, last⟩, isSecond, same⟩ := mem_map.mp member
    cases same
    exact ⟨start, middle, rest, isFirst, isSecond, rfl⟩
  · rintro ⟨start, middle, rest, isFirst, isSecond, rfl⟩
    exact ⟨(start, middle), isFirst, mem_map.mpr ⟨(rest, behind), isSecond, rfl⟩⟩

theorem mem_optional : (found, behind) ∈ optional pattern text ↔
    (found, behind) ∈ pattern text ∨ (found = [] ∧ behind = text) := by
  rw [optional, mem_append, mem_singleton, Prod.mk.injEq]

theorem mem_star : (found, behind) ∈ star holds text ↔
    found ++ behind = text ∧ ∀ character ∈ found, holds character = true := by
  induction text generalizing found with
  | nil =>
      rw [star, mem_singleton, Prod.mk.injEq, append_eq_nil_iff]
      constructor
      · rintro ⟨rfl, rfl⟩
        exact ⟨⟨rfl, rfl⟩, by simp⟩
      · exact fun same => same.1
  | cons character text induction =>
      rw [star]
      by_cases isOne : holds character = true
      · rw [if_pos isOne, mem_append, mem_singleton, mem_map, Prod.mk.injEq]
        constructor
        · rintro (⟨⟨rest, last⟩, member, same⟩ | ⟨rfl, rfl⟩)
          · cases same
            obtain ⟨rfl, all⟩ := induction.mp member
            exact ⟨rfl, forall_mem_cons.mpr ⟨isOne, all⟩⟩
          · exact ⟨rfl, by simp⟩
        · rintro ⟨whole, all⟩
          cases found with
          | nil => exact .inr ⟨rfl, whole⟩
          | cons head found =>
              cases whole
              exact .inl ⟨(found, behind), induction.mpr
                ⟨rfl, fun other member => all other (mem_cons_of_mem _ member)⟩, rfl⟩
      · rw [if_neg isOne, mem_singleton, Prod.mk.injEq]
        constructor
        · rintro ⟨rfl, rfl⟩
          exact ⟨rfl, by simp⟩
        · rintro ⟨whole, all⟩
          cases found with
          | nil => exact ⟨rfl, whole⟩
          | cons head found =>
              cases whole
              exact absurd (all _ mem_cons_self) isOne

theorem mem_plus : (found, behind) ∈ plus holds text ↔
    found ≠ [] ∧ found ++ behind = text ∧ ∀ character ∈ found, holds character = true := by
  rw [plus, mem_seq]
  constructor
  · rintro ⟨start, middle, rest, isFirst, isRest, rfl⟩
    obtain ⟨character, isOne, rfl, rfl⟩ := mem_one.mp isFirst
    obtain ⟨rfl, all⟩ := mem_star.mp isRest
    exact ⟨cons_ne_nil _ _, rfl, forall_mem_cons.mpr ⟨isOne, all⟩⟩
  · rintro ⟨nonempty, rfl, all⟩
    obtain ⟨character, rest, rfl⟩ := exists_cons_of_ne_nil nonempty
    obtain ⟨isOne, allRest⟩ := forall_mem_cons.mp all
    exact ⟨[character], rest ++ behind, rest, mem_one.mpr ⟨character, isOne, rfl, rfl⟩,
      mem_star.mpr ⟨rfl, allRest⟩, rfl⟩

theorem mem_literal {word : Text} : (found, behind) ∈ literal word text ↔
    found ++ behind = text ∧ found.map foldCase = word := by
  induction word generalizing found text with
  | nil =>
      rw [literal, mem_singleton, Prod.mk.injEq, map_eq_nil_iff]
      constructor
      · rintro ⟨rfl, rfl⟩
        exact ⟨rfl, rfl⟩
      · rintro ⟨rfl, rfl⟩
        exact ⟨rfl, rfl⟩
  | cons letter word induction =>
      rw [literal, mem_seq]
      constructor
      · rintro ⟨start, middle, rest, isFirst, isRest, rfl⟩
        obtain ⟨character, isOne, rfl, rfl⟩ := mem_one.mp isFirst
        obtain ⟨rfl, rfl⟩ := induction.mp isRest
        exact ⟨rfl, by rw [← of_decide_eq_true isOne]; rfl⟩
      · rintro ⟨rfl, same⟩
        obtain ⟨character, rest, rfl, isLetter, isWord⟩ := map_eq_cons_iff.mp same
        exact ⟨[character], rest ++ behind, rest,
          mem_one.mpr ⟨character, decide_eq_true isLetter, rfl, rfl⟩,
          induction.mpr ⟨rfl, isWord⟩, rfl⟩

theorem head?_star : (star holds text).head? =
    some (text.takeWhile holds, text.dropWhile holds) := by
  induction text with
  | nil => rfl
  | cons character text induction =>
      rw [star]
      by_cases isOne : holds character = true
      · rw [if_pos isOne, takeWhile_cons_of_pos isOne, dropWhile_cons_of_pos isOne,
          List.head?_append, List.head?_map, induction]
        rfl
      · rw [if_neg isOne, takeWhile_cons_of_neg isOne, dropWhile_cons_of_neg isOne]
        rfl

theorem head?_seq {start middle rest last : Text}
    (isFirst : (first text).head? = some (start, middle))
    (isSecond : (second middle).head? = some (rest, last)) :
    (seq first second text).head? = some (start ++ rest, last) := by
  obtain ⟨others, isFirst⟩ := List.head?_eq_some_iff.mp isFirst
  obtain ⟨more, isSecond⟩ := List.head?_eq_some_iff.mp isSecond
  rw [seq, isFirst, flatMap_cons, isSecond]
  rfl

theorem head?_replicate {count : Nat} (length : found.length = count)
    (all : ∀ character ∈ found, holds character = true) :
    (replicate holds count (found ++ behind)).head? = some (found, behind) := by
  induction count generalizing found with
  | zero =>
      rw [length_eq_zero_iff.mp length]
      rfl
  | succ count induction =>
      obtain ⟨character, rest, rfl⟩ := exists_cons_of_length_eq_add_one length
      obtain ⟨isOne, allRest⟩ := forall_mem_cons.mp all
      have isFirst : (one holds (character :: (rest ++ behind))).head? =
          some ([character], rest ++ behind) := by
        rw [one, if_pos isOne]
        rfl
      exact head?_seq isFirst (induction (Nat.succ.inj length) allRest)

/-- When every match of the rest leaves the same text, the group is matched there. -/
theorem capture_eq_some {value last : Text} (isMatch : (found, behind) ∈ first text)
    (unique : ∀ other otherBehind, (other, otherBehind) ∈ first text → otherBehind = behind)
    (isGroup : (second behind).head? = some (value, last)) :
    capture first second text = some value := by
  cases isFirst : first text with
  | nil =>
      rw [isFirst] at isMatch
      cases isMatch
  | cons preferred others =>
      have same := unique preferred.1 preferred.2 (isFirst ▸ mem_cons_self)
      obtain ⟨more, isGroup⟩ := List.head?_eq_some_iff.mp isGroup
      rw [capture, isFirst, flatMap_cons, same, isGroup]
      rfl

theorem capture_eq_none (absent : ∀ other otherBehind, (other, otherBehind) ∉ first text) :
    capture first second text = none := by
  have empty : first text = [] :=
    eq_nil_iff_forall_not_mem.mpr fun found => absent found.1 found.2
  rw [capture, empty]
  rfl

end

end Pattern

end NftData
