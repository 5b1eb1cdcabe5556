import NftData.Foundation.Text

namespace NftData

/-! # JSON values

What a parsed document says, with the accessors that providers' replies and cache rows
are read by. Parsing and printing themselves belong to a library. The names of fields are
strings, since programs only compare them with literals. -/

inductive Json where
  | null
  | bool (value : Bool)
  | integer (value : Int)
  | float (value : ℚ)
  | string (text : Text)
  | array (items : List Json)
  | object (fields : List (String × Json))

namespace Json

/-- The value of an object's field. Any other value has no fields. -/
def get? (value : Json) (field : String) : Option Json :=
  match value with
  | .object fields => (fields.find? fun entry => entry.1 = field).map Prod.snd
  | _ => none

def asStr? : Json → Option Text
  | .string text => some text
  | _ => none

def asArray? : Json → Option (List Json)
  | .array items => some items
  | _ => none

def asBool? : Json → Option Bool
  | .bool value => some value
  | _ => none

def asU64? : Json → Option Nat
  | .integer (.ofNat value) => if value < 2 ^ 64 then some value else none
  | _ => none

@[simp] theorem get?_object_nil (field : String) : (object []).get? field = none := rfl

@[simp] theorem get?_object_cons (name field : String) (value : Json)
    (fields : List (String × Json)) :
    (object ((name, value) :: fields)).get? field =
      if name = field then some value else (object fields).get? field := by
  by_cases same : name = field <;> simp [get?, same]

@[simp] theorem get?_object_append (first second : List (String × Json)) (field : String) :
    (object (first ++ second)).get? field =
      ((object first).get? field).or ((object second).get? field) := by
  simp only [get?, List.find?_append]
  cases first.find? fun entry => entry.1 = field <;> simp

theorem asU64?_ofNat {value : Nat} (bounded : value < 2 ^ 64) :
    (integer value).asU64? = some value :=
  if_pos bounded

theorem lt_of_asU64? {value : Json} {number : Nat} (read : value.asU64? = some number) :
    number < 2 ^ 64 := by
  unfold asU64? at read
  split at read
  · split at read
    · next bounded => exact Option.some.inj read ▸ bounded
    · cases read
  · cases read

end Json

end NftData
