import Fanout.Json.Text

/-! # JSON forms

How values of a type are written as JSON and read back. There is one way to write a value, but
reading is looser: a record may be an object with its fields in any order and with members nobody
asked for, or an array of its field values in order, and a word may be an object with that one
member.
-/

namespace Fanout

/-- Types whose values can be written as JSON and read back. -/
class JsonForm (α : Type) where
  toJson : α → Json
  ofJson? : Json → Option α

export JsonForm (toJson ofJson?)

namespace Json

variable {α : Type}

instance : JsonForm Bool where
  toJson := .bool
  ofJson?
    | .bool value => some value
    | _ => none

instance : JsonForm UInt16 where
  toJson value := .nat value.toNat
  ofJson?
    | .number (some n) => if n < UInt16.size then some (.ofNat n) else none
    | _ => none

instance : JsonForm UInt32 where
  toJson value := .nat value.toNat
  ofJson?
    | .number (some n) => if n < UInt32.size then some (.ofNat n) else none
    | _ => none

instance : JsonForm String where
  toJson := .text
  ofJson?
    | .string value => value
    | _ => none

instance [JsonForm α] : JsonForm (List α) where
  toJson values := .array (values.map toJson)
  ofJson?
    | .array items => items.mapM ofJson?
    | _ => none

instance [JsonForm α] : JsonForm (Option α) where
  toJson
    | some value => toJson value
    | none => .null
  ofJson?
    | .null => some none
    | value => (ofJson? value).map some

/-- Reads a word, or an object whose only member has that word as its name and null as its value. -/
def word? (words : List (String × α)) : Json → Option α
  | .string (some word) => words.lookup word
  | .object [(some word, .null)] => words.lookup word
  | _ => none

/-- The values given for the fields of a record, by field name. -/
abbrev Fields := List (String × Json)

namespace Fields

/-- Picks the members that are fields. A field may not be given twice, and a broken name is no
name of any member. -/
def ofMembers? (names : List String) : List (Option String × Json) → Option Fields
  | [] => some []
  | (none, _) :: _ => none
  | (some name, value) :: rest => do
    let fields ← ofMembers? names rest
    if name ∈ names then
      if (fields.lookup name).isSome then none else some ((name, value) :: fields)
    else some fields

/-- Reads the fields of a record. An array gives its items to the fields in order and may leave
out the last ones. -/
def ofJson? (names : List String) : Json → Option Fields
  | .object members => ofMembers? names members
  | .array items => if items.length ≤ names.length then some (names.zip items) else none
  | _ => none

def required [JsonForm α] (fields : Fields) (name : String) : Option α :=
  (fields.lookup name).bind JsonForm.ofJson?

/-- A field that has its default value when it is not given. -/
def optional [JsonForm α] [Inhabited α] (fields : Fields) (name : String) : Option α :=
  match fields.lookup name with
  | none => some default
  | some value => JsonForm.ofJson? value

end Fields

end Json

def JsonForm.ofText? {α : Type} [JsonForm α] (s : String) : Option α :=
  (Json.read? s).bind ofJson?

def JsonForm.toText {α : Type} [JsonForm α] (value : α) : String :=
  (toJson value).render

end Fanout
