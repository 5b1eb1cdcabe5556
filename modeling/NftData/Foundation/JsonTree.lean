import NftData.Foundation.Text

namespace NftData

/-! # JSON documents

The tree of a document, with the members of its objects in the order of the document. What a
number is, is left open. -/

open List

inductive JsonTree (Number : Type) where
  | null
  | bool (value : Bool)
  | number (value : Number)
  | string (text : Text)
  | array (items : List (JsonTree Number))
  | object (members : List (Text × JsonTree Number))

namespace JsonTree

variable {Number : Type}

def children : JsonTree Number → List (JsonTree Number)
  | array items => items
  | object members => members.map Prod.snd
  | _ => []

theorem sizeOf_child_lt {tree child : JsonTree Number} (member : child ∈ tree.children) :
    sizeOf child < sizeOf tree := by
  cases tree with
  | array items =>
      have smaller := sizeOf_lt_of_mem (show child ∈ items from member)
      simp only [array.sizeOf_spec]
      omega
  | object members =>
      rcases mem_map.mp member with ⟨entry, inMembers, rfl⟩
      have smaller := sizeOf_lt_of_mem inMembers
      rcases entry with ⟨key, value⟩
      simp only [object.sizeOf_spec, Prod.mk.sizeOf_spec] at smaller ⊢
      omega
  | null | bool value | number value | string text => exact absurd member not_mem_nil

theorem induction {motive : JsonTree Number → Prop}
    (step : ∀ tree, (∀ child ∈ tree.children, motive child) → motive tree) :
    ∀ tree, motive tree := by
  intro tree
  apply step
  intro child member
  exact induction step child
termination_by tree => sizeOf tree
decreasing_by exact sizeOf_child_lt member

/-- Every node of the tree has a property. -/
inductive EveryNode (property : JsonTree Number → Prop) : JsonTree Number → Prop
  | intro {tree : JsonTree Number} (here : property tree)
      (below : ∀ child ∈ tree.children, EveryNode property child) : EveryNode property tree

namespace EveryNode

variable {property : JsonTree Number → Prop} {tree : JsonTree Number}

theorem here (every : EveryNode property tree) : property tree := by
  cases every with
  | intro here below => exact here

theorem child (every : EveryNode property tree) {child : JsonTree Number}
    (member : child ∈ tree.children) : EveryNode property child := by
  cases every with
  | intro here below => exact below child member

theorem item {items : List (JsonTree Number)} (every : EveryNode property (.array items))
    {item : JsonTree Number} (member : item ∈ items) : EveryNode property item :=
  every.child member

theorem value {members : List (Text × JsonTree Number)} {entry : Text × JsonTree Number}
    (every : EveryNode property (.object members)) (member : entry ∈ members) :
    EveryNode property entry.2 :=
  every.child (mem_map_of_mem member)

end EveryNode

def IsLeaf : JsonTree Number → Prop
  | array _ => False
  | object _ => False
  | _ => True

/-- No more than so many arrays and objects are inside each other. -/
def WithinDepth : Nat → JsonTree Number → Prop
  | 0, tree => tree.IsLeaf
  | depth + 1, tree => ∀ child ∈ tree.children, WithinDepth depth child

theorem IsLeaf.withinDepth {tree : JsonTree Number} (leaf : tree.IsLeaf) (depth : Nat) :
    tree.WithinDepth depth := by
  cases depth with
  | zero => exact leaf
  | succ depth =>
      intro child member
      cases tree with
      | array items | object members => exact leaf.elim
      | _ => exact absurd member not_mem_nil

mutual

/-- How many objects the tree has. -/
def objectCount : JsonTree Number → Nat
  | array items => itemsCount items
  | object members => 1 + membersCount members
  | _ => 0

def itemsCount : List (JsonTree Number) → Nat
  | [] => 0
  | item :: rest => objectCount item + itemsCount rest

def membersCount : List (Text × JsonTree Number) → Nat
  | [] => 0
  | (_, value) :: rest => objectCount value + membersCount rest

end

theorem itemsCount_eq (items : List (JsonTree Number)) :
    itemsCount items = (items.map objectCount).sum := by
  induction items with
  | nil => simp [itemsCount]
  | cons head tail induction => simp [itemsCount, induction]

theorem membersCount_eq (members : List (Text × JsonTree Number)) :
    membersCount members = (members.map fun entry => entry.2.objectCount).sum := by
  induction members with
  | nil => simp [membersCount]
  | cons head tail induction =>
      rcases head with ⟨key, value⟩
      simp [membersCount, induction]

theorem objectCount_array (items : List (JsonTree Number)) :
    (array items).objectCount = (items.map objectCount).sum := by
  rw [objectCount, itemsCount_eq]

theorem objectCount_object (members : List (Text × JsonTree Number)) :
    (object members).objectCount = 1 + (members.map fun entry => entry.2.objectCount).sum := by
  rw [objectCount, membersCount_eq]

def escape (character : Char) : Text :=
  if character = '"' ∨ character = '\\' then ['\\', character]
  else if character.toNat < 32 then
    ['\\', 'u', '0', '0', Nat.digitChar (character.toNat / 16),
      Nat.digitChar (character.toNat % 16)]
  else [character]

def escaped : Text → Text
  | [] => ['"']
  | character :: rest => escape character ++ escaped rest

def quoted (text : Text) : Text := '"' :: escaped text

section Print

variable (printNumber : Number → Text)

mutual

/-- The text of a document without white space between its tokens. -/
def print : JsonTree Number → Text
  | null => ['n', 'u', 'l', 'l']
  | bool true => ['t', 'r', 'u', 'e']
  | bool false => ['f', 'a', 'l', 's', 'e']
  | number value => printNumber value
  | string text => quoted text
  | array items => '[' :: printItems true items
  | object members => '{' :: printMembers true members

def printItems : Bool → List (JsonTree Number) → Text
  | _, [] => [']']
  | isFirst, item :: rest =>
      (if isFirst then [] else [',']) ++ print item ++ printItems false rest

def printMembers : Bool → List (Text × JsonTree Number) → Text
  | _, [] => ['}']
  | isFirst, (key, value) :: rest =>
      (if isFirst then [] else [',']) ++ quoted key ++ ':' :: print value ++
        printMembers false rest

end

end Print

/-! ## A text has one tree -/

theorem digitChar_injective : ∀ first < 16, ∀ second < 16,
    Nat.digitChar first = Nat.digitChar second → first = second := by decide

theorem escape_unambiguous {first second : Char} {after otherAfter : Text}
    (same : escape first ++ after = escape second ++ otherAfter) :
    first = second ∧ after = otherAfter := by
  have backslash : ∀ {character : Char}, ¬ (character = '"' ∨ character = '\\') →
      character ≠ '\\' := fun plain equal => plain (.inr equal)
  have marked : ∀ {character : Char}, character = '"' ∨ character = '\\' →
      character ≠ 'u' := by
    rintro _ (rfl | rfl) <;> decide
  by_cases firstMarked : first = '"' ∨ first = '\\' <;>
  by_cases secondMarked : second = '"' ∨ second = '\\'
  · simp only [escape, firstMarked, secondMarked, if_true, List.cons_append, List.nil_append,
      List.cons.injEq, true_and] at same
    exact same
  · rw [escape, escape, if_pos firstMarked, if_neg secondMarked] at same
    split at same
    · simp only [List.cons_append, List.cons.injEq, true_and] at same
      exact absurd same.1 (marked firstMarked)
    · simp only [List.cons_append, List.cons.injEq] at same
      exact absurd same.1.symm (backslash secondMarked)
  · rw [escape, escape, if_neg firstMarked, if_pos secondMarked] at same
    split at same
    · simp only [List.cons_append, List.cons.injEq, true_and] at same
      exact absurd same.1.symm (marked secondMarked)
    · simp only [List.cons_append, List.cons.injEq] at same
      exact absurd same.1 (backslash firstMarked)
  · rw [escape, escape, if_neg firstMarked, if_neg secondMarked] at same
    split at same <;> split at same <;>
      simp only [List.cons_append, List.nil_append, List.cons.injEq, true_and] at same
    · next firstLow secondLow =>
        have high := digitChar_injective _ (by omega) _ (by omega) same.1
        have low := digitChar_injective _ (by omega) _ (by omega) same.2.1
        refine ⟨?_, same.2.2⟩
        apply Char.ext
        apply UInt32.toNat_inj.mp
        change first.toNat = second.toNat
        omega
    · exact absurd same.1.symm (backslash secondMarked)
    · exact absurd same.1 (backslash firstMarked)
    · exact same

theorem escape_head {character : Char} {after otherAfter : Text} :
    escape character ++ after ≠ '"' :: otherAfter := by
  intro same
  rw [escape] at same
  split at same
  · exact absurd (List.cons.inj same).1 (by decide)
  · next plain =>
      split at same
      · exact absurd (List.cons.inj same).1 (by decide)
      · exact plain (.inl (List.cons.inj same).1)

theorem escaped_unambiguous {first second after otherAfter : Text}
    (same : escaped first ++ after = escaped second ++ otherAfter) :
    first = second ∧ after = otherAfter := by
  induction first generalizing second with
  | nil =>
      cases second with
      | nil => exact ⟨rfl, (List.cons.inj same).2⟩
      | cons head tail =>
          rw [escaped, escaped, List.append_assoc] at same
          exact absurd same.symm escape_head
  | cons head tail induction =>
      cases second with
      | nil =>
          rw [escaped, escaped, List.append_assoc] at same
          exact absurd same escape_head
      | cons otherHead otherTail =>
          rw [escaped, escaped, List.append_assoc, List.append_assoc] at same
          rcases escape_unambiguous same with ⟨rfl, rest⟩
          rcases induction rest with ⟨rfl, rfl⟩
          exact ⟨rfl, rfl⟩

theorem quoted_unambiguous {first second after otherAfter : Text}
    (same : quoted first ++ after = quoted second ++ otherAfter) :
    first = second ∧ after = otherAfter :=
  escaped_unambiguous (List.cons.inj same).2

/-- A text that can stand behind a value. -/
def Delimited (text : Text) : Prop :=
  ∀ character ∈ text.head?, character = ',' ∨ character = ']' ∨ character = '}'

def isNumberCharacter (character : Char) : Bool :=
  character.isDigit || character = '-' || character = '+' || character = '.' ||
    character = 'e' || character = 'E'

/-- Numbers are printed differently, with the characters of numbers. -/
structure PrintsNumbers (printNumber : Number → Text) : Prop where
  injective : Function.Injective printNumber
  nonempty : ∀ value, printNumber value ≠ []
  characters : ∀ value, ∀ character ∈ printNumber value, isNumberCharacter character = true

/-- The kind of value that begins with a character. -/
def kindOf (character : Char) : Nat :=
  if character = 'n' then 0 else if character = 't' then 1 else if character = 'f' then 2
  else if character = '"' then 3 else if character = '[' then 4 else if character = '{' then 5
  else if isNumberCharacter character then 6 else 7

def kind : JsonTree Number → Nat
  | null => 0
  | bool true => 1
  | bool false => 2
  | string _ => 3
  | array _ => 4
  | object _ => 5
  | number _ => 6

section Unambiguous

variable {printNumber : Number → Text}

theorem kindOf_number {character : Char} (isNumber : isNumberCharacter character = true) :
    kindOf character = 6 := by
  simp only [kindOf]
  split_ifs with isN isT isF isQuote isBracket isBrace
  · rw [isN] at isNumber
    exact absurd isNumber (by decide)
  · rw [isT] at isNumber
    exact absurd isNumber (by decide)
  · rw [isF] at isNumber
    exact absurd isNumber (by decide)
  · rw [isQuote] at isNumber
    exact absurd isNumber (by decide)
  · rw [isBracket] at isNumber
    exact absurd isNumber (by decide)
  · rw [isBrace] at isNumber
    exact absurd isNumber (by decide)
  · rfl

theorem kind_lt (tree : JsonTree Number) : tree.kind < 7 := by
  cases tree with
  | bool value => cases value <;> simp [kind]
  | _ => simp [kind]

theorem exists_head (prints : PrintsNumbers printNumber) (tree : JsonTree Number) :
    ∃ head tail, print printNumber tree = head :: tail ∧ kindOf head = tree.kind := by
  cases tree with
  | null | string text | array items | object members => exact ⟨_, _, rfl, rfl⟩
  | bool value => cases value <;> exact ⟨_, _, rfl, rfl⟩
  | number value =>
      rw [print]
      cases isText : printNumber value with
      | nil => exact absurd isText (prints.nonempty value)
      | cons head tail =>
          refine ⟨head, tail, rfl, ?_⟩
          apply kindOf_number
          apply prints.characters value
          rw [isText]
          exact List.mem_cons_self

theorem number_unambiguous (prints : PrintsNumbers printNumber) {first second : Number}
    {after otherAfter : Text} (delimited : Delimited after) (otherDelimited : Delimited otherAfter)
    (same : printNumber first ++ after = printNumber second ++ otherAfter) :
    first = second ∧ after = otherAfter := by
  have taken : ∀ (value : Number) {after : Text}, Delimited after →
      (printNumber value ++ after).takeWhile isNumberCharacter = printNumber value := by
    intro value after delimited
    rw [List.takeWhile_append_of_pos (prints.characters value)]
    cases after with
    | nil => exact List.append_nil _
    | cons head tail =>
        have notNumber : isNumberCharacter head = false := by
          rcases delimited head rfl with rfl | rfl | rfl <;> decide
        rw [List.takeWhile_cons_of_neg (by simp [notNumber]), List.append_nil]
  have texts := congrArg (List.takeWhile isNumberCharacter) same
  rw [taken first delimited, taken second otherDelimited] at texts
  rw [texts] at same
  exact ⟨prints.injective texts, List.append_cancel_left same⟩

theorem delimited_printItems (items : List (JsonTree Number)) (after : Text) :
    Delimited (printItems printNumber false items ++ after) := by
  intro character isHead
  cases items with
  | nil =>
      cases isHead
      exact .inr (.inl rfl)
  | cons head tail =>
      cases isHead
      exact .inl rfl

theorem delimited_printMembers (members : List (Text × JsonTree Number)) (after : Text) :
    Delimited (printMembers printNumber false members ++ after) := by
  intro character isHead
  cases members with
  | nil =>
      cases isHead
      exact .inr (.inr rfl)
  | cons head tail =>
      cases isHead
      exact .inl rfl

/-- Before a delimiter, the text of the tree is the text of no other tree. -/
def Unambiguous (printNumber : Number → Text) (tree : JsonTree Number) : Prop :=
  ∀ (other : JsonTree Number) (after otherAfter : Text), Delimited after → Delimited otherAfter →
    print printNumber tree ++ after = print printNumber other ++ otherAfter →
    tree = other ∧ after = otherAfter

/-- The end of a list is no beginning of an item. -/
theorem printItems_cons_ne (prints : PrintsNumbers printNumber) (isFirst : Bool)
    (item : JsonTree Number) (rest : List (JsonTree Number)) (after otherAfter : Text) :
    printItems printNumber isFirst (item :: rest) ++ otherAfter ≠ ']' :: after := by
  rw [printItems]
  cases isFirst with
  | false => exact fun same => absurd (List.cons.inj same).1 (by decide)
  | true =>
      rcases exists_head prints item with ⟨head, tail, isText, isKind⟩
      rw [isText]
      intro same
      have isBracket := (List.cons.inj same).1
      have small := item.kind_lt
      rw [← isKind, isBracket] at small
      exact absurd small (by decide)

theorem printItems_unambiguous (prints : PrintsNumbers printNumber)
    {items : List (JsonTree Number)} (each : ∀ item ∈ items, Unambiguous printNumber item)
    {isFirst : Bool} {others : List (JsonTree Number)} {after otherAfter : Text}
    (same : printItems printNumber isFirst items ++ after =
      printItems printNumber isFirst others ++ otherAfter) :
    items = others ∧ after = otherAfter := by
  induction items generalizing isFirst others with
  | nil =>
      cases others with
      | nil => exact ⟨rfl, (List.cons.inj same).2⟩
      | cons other otherRest => exact (printItems_cons_ne prints _ _ _ _ _ same.symm).elim
  | cons item rest induction =>
      cases others with
      | nil => exact (printItems_cons_ne prints _ _ _ _ _ same).elim
      | cons other otherRest =>
          rw [printItems, printItems, List.append_assoc, List.append_assoc, List.append_assoc,
            List.append_assoc] at same
          have behind := List.append_cancel_left same
          rcases each item List.mem_cons_self other _ _ (delimited_printItems rest after)
            (delimited_printItems otherRest otherAfter) behind with ⟨rfl, remaining⟩
          rcases induction (fun value member => each value (List.mem_cons_of_mem _ member))
            remaining with ⟨rfl, rfl⟩
          exact ⟨rfl, rfl⟩

theorem printMembers_cons_ne (isFirst : Bool) (entry : Text × JsonTree Number)
    (rest : List (Text × JsonTree Number)) (after otherAfter : Text) :
    printMembers printNumber isFirst (entry :: rest) ++ otherAfter ≠ '}' :: after := by
  rw [printMembers]
  cases isFirst with
  | false | true => exact fun same => absurd (List.cons.inj same).1 (by decide)

theorem printMembers_unambiguous
    {members : List (Text × JsonTree Number)}
    (each : ∀ entry ∈ members, Unambiguous printNumber entry.2) {isFirst : Bool}
    {others : List (Text × JsonTree Number)} {after otherAfter : Text}
    (same : printMembers printNumber isFirst members ++ after =
      printMembers printNumber isFirst others ++ otherAfter) :
    members = others ∧ after = otherAfter := by
  induction members generalizing isFirst others with
  | nil =>
      cases others with
      | nil => exact ⟨rfl, (List.cons.inj same).2⟩
      | cons other otherRest => exact (printMembers_cons_ne _ _ _ _ _ same.symm).elim
  | cons entry rest induction =>
      cases others with
      | nil => exact (printMembers_cons_ne _ _ _ _ _ same).elim
      | cons other otherRest =>
          rcases entry with ⟨key, value⟩
          rcases other with ⟨otherKey, otherValue⟩
          rw [printMembers, printMembers] at same
          simp only [List.append_assoc, List.cons_append] at same
          have behind := List.append_cancel_left same
          rcases quoted_unambiguous behind with ⟨rfl, values⟩
          have inside := (List.cons.inj values).2
          rcases each _ List.mem_cons_self otherValue _ _ (delimited_printMembers rest after)
            (delimited_printMembers otherRest otherAfter) inside with ⟨isValue, remaining⟩
          rcases induction (fun entry member => each entry (List.mem_cons_of_mem _ member))
            remaining with ⟨rfl, rfl⟩
          exact ⟨congrArg (fun value => (key, value) :: rest) isValue, rfl⟩

theorem print_unambiguous (prints : PrintsNumbers printNumber) (tree : JsonTree Number) :
    Unambiguous printNumber tree := by
  induction tree using induction with
  | step tree below =>
      intro other after otherAfter delimited otherDelimited same
      have kinds : tree.kind = other.kind := by
        rcases exists_head prints tree with ⟨head, tail, isText, isKind⟩
        rcases exists_head prints other with ⟨otherHead, otherTail, otherText, otherKind⟩
        rw [isText, otherText] at same
        rw [← isKind, ← otherKind, (List.cons.inj same).1]
      cases tree with
      | null =>
          cases other with
          | null => exact ⟨rfl, List.append_cancel_left same⟩
          | bool value => cases value <;> cases kinds
          | _ => cases kinds
      | bool value =>
          cases other with
          | bool otherValue =>
              cases value <;> cases otherValue
              · exact ⟨rfl, List.append_cancel_left same⟩
              · cases kinds
              · cases kinds
              · exact ⟨rfl, List.append_cancel_left same⟩
          | _ => cases value <;> cases kinds
      | number value =>
          cases other with
          | number otherValue =>
              rcases number_unambiguous prints delimited otherDelimited same with ⟨rfl, rfl⟩
              exact ⟨rfl, rfl⟩
          | bool value => cases value <;> cases kinds
          | _ => cases kinds
      | string text =>
          cases other with
          | string otherText =>
              rcases quoted_unambiguous same with ⟨rfl, rfl⟩
              exact ⟨rfl, rfl⟩
          | bool value => cases value <;> cases kinds
          | _ => cases kinds
      | array items =>
          cases other with
          | array otherItems =>
              rcases printItems_unambiguous prints below (List.cons.inj same).2 with ⟨rfl, rfl⟩
              exact ⟨rfl, rfl⟩
          | bool value => cases value <;> cases kinds
          | _ => cases kinds
      | object members =>
          cases other with
          | object otherMembers =>
              have each : ∀ entry ∈ members, Unambiguous printNumber entry.2 :=
                fun entry member => below entry.2 (List.mem_map_of_mem member)
              rcases printMembers_unambiguous each (List.cons.inj same).2 with ⟨rfl, rfl⟩
              exact ⟨rfl, rfl⟩
          | bool value => cases value <;> cases kinds
          | _ => cases kinds

theorem print_injective (prints : PrintsNumbers printNumber) :
    Function.Injective (print printNumber) := by
  intro first second same
  have nothing : Delimited [] := fun _ isHead => nomatch isHead
  exact (print_unambiguous prints first second [] [] nothing nothing (by rw [same])).1

theorem not_isWhiteSpace_of_kindOf {character : Char} (isKind : kindOf character < 7) :
    Text.isWhiteSpace character = false := by
  simp only [kindOf] at isKind
  split_ifs at isKind with isN isT isF isQuote isBracket isBrace isNumber
  · rw [isN]
    decide
  · rw [isT]
    decide
  · rw [isF]
    decide
  · rw [isQuote]
    decide
  · rw [isBracket]
    decide
  · rw [isBrace]
    decide
  · simp only [isNumberCharacter, Bool.or_eq_true, decide_eq_true_eq] at isNumber
    rcases isNumber with ((((isDigit | rfl) | rfl) | rfl) | rfl) | rfl
    · exact Text.not_isWhiteSpace_of_isDigit isDigit
    all_goals decide
  · exact absurd isKind (lt_irrefl 7)

theorem exists_last_escaped (text : Text) : ∃ front, escaped text = front ++ ['"'] := by
  induction text with
  | nil => exact ⟨[], rfl⟩
  | cons head tail induction =>
      rcases induction with ⟨front, isText⟩
      exact ⟨escape head ++ front, by rw [escaped, isText, List.append_assoc]⟩

theorem exists_last_printItems (isFirst : Bool) (items : List (JsonTree Number)) :
    ∃ front, printItems printNumber isFirst items = front ++ [']'] := by
  induction items generalizing isFirst with
  | nil => exact ⟨[], rfl⟩
  | cons head tail induction =>
      rcases induction false with ⟨front, isText⟩
      rw [printItems, isText, ← List.append_assoc]
      exact ⟨_, rfl⟩

theorem exists_last_printMembers (isFirst : Bool) (members : List (Text × JsonTree Number)) :
    ∃ front, printMembers printNumber isFirst members = front ++ ['}'] := by
  induction members generalizing isFirst with
  | nil => exact ⟨[], rfl⟩
  | cons head tail induction =>
      rcases head with ⟨key, value⟩
      rcases induction false with ⟨front, isText⟩
      rw [printMembers, isText, ← List.append_assoc]
      exact ⟨_, rfl⟩

theorem exists_last (prints : PrintsNumbers printNumber) (tree : JsonTree Number) :
    ∃ front last, print printNumber tree = front ++ [last] ∧
      Text.isWhiteSpace last = false := by
  cases tree with
  | null => exact ⟨['n', 'u', 'l'], 'l', rfl, by decide⟩
  | bool value =>
      cases value with
      | true => exact ⟨['t', 'r', 'u'], 'e', rfl, by decide⟩
      | false => exact ⟨['f', 'a', 'l', 's'], 'e', rfl, by decide⟩
  | number value =>
      rcases eq_nil_or_concat' (printNumber value) with empty | ⟨front, last, isText⟩
      · exact absurd empty (prints.nonempty value)
      · refine ⟨front, last, isText, not_isWhiteSpace_of_kindOf ?_⟩
        rw [kindOf_number]
        · decide
        · apply prints.characters value
          rw [isText]
          exact mem_append_right _ mem_cons_self
  | string text =>
      rcases exists_last_escaped text with ⟨front, isText⟩
      exact ⟨'"' :: front, '"', by rw [print, quoted, isText, cons_append], by decide⟩
  | array items =>
      rcases @exists_last_printItems _ printNumber true items with ⟨front, isText⟩
      exact ⟨'[' :: front, ']', by rw [print, isText, cons_append], by decide⟩
  | object members =>
      rcases @exists_last_printMembers _ printNumber true members with
        ⟨front, isText⟩
      exact ⟨'{' :: front, '}', by rw [print, isText, cons_append], by decide⟩

/-- The text of a document has no white space around it. -/
theorem trim_print (prints : PrintsNumbers printNumber) (tree : JsonTree Number) :
    (print printNumber tree).trim = print printNumber tree := by
  rcases exists_head prints tree with ⟨head, tail, isText, isKind⟩
  rcases exists_last prints tree with ⟨front, last, isConcat, notSpace⟩
  have headNotSpace : Text.isWhiteSpace head = false := by
    apply not_isWhiteSpace_of_kindOf
    rw [isKind]
    exact tree.kind_lt
  have startKept : (print printNumber tree).trimStart = print printNumber tree := by
    rw [isText, Text.trimStart, dropWhile_cons_of_neg]
    simp [headNotSpace]
  rw [Text.trim, startKept, Text.trimEnd, isConcat, reverse_append, reverse_singleton,
    singleton_append, dropWhile_cons_of_neg]
  · simp
  · simp [notSpace]

end Unambiguous

end JsonTree

end NftData
