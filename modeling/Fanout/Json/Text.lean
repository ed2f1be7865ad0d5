import Fanout.Json.Token

/-! # JSON values and their texts

A value keeps exactly what a record can be read from: members stay in order and may repeat, and a
number or a text that no field can hold is kept as unreadable instead of being thrown away, since
it may stand in a member that nobody reads.

A text is read by one walk over its tokens that keeps the unfinished arrays and objects around the
current value, innermost first. Every step takes a token, so nesting has no limit and the walk
needs no other measure.
-/

namespace Fanout

/-- A JSON value as it was written. -/
inductive Json where
  | null
  | bool (value : Bool)
  /-- A number; `none` is one with a sign, a fraction or an exponent. -/
  | number (value : Option Nat)
  /-- A text; `none` is one with half of a surrogate pair, which is no sequence of characters. -/
  | string (value : Option String)
  | array (items : List Json)
  /-- The members in the order written, repeated names included. -/
  | object (members : List (Option String × Json))
  deriving Inhabited

namespace Json

def text (s : String) : Json :=
  .string (some s)

def nat (n : Nat) : Json :=
  .number (some n)

def record (fields : List (String × Json)) : Json :=
  .object (fields.map fun field => (some field.1, field.2))

/-- An unfinished array or object around a value; what it holds so far is in reverse. -/
inductive Frame where
  | array (done : List Json)
  /-- The value belongs to the member `key`. -/
  | object (done : List (Option String × Json)) (key : Option String)

mutual

/-- Reads the value that the tokens start with, and then the rest of what is around it. -/
def readValue : List Frame → List Token → Option Json
  | frames, .null :: rest => readAfter .null frames rest
  | frames, .bool value :: rest => readAfter (.bool value) frames rest
  | frames, .number value :: rest => readAfter (.number value) frames rest
  | frames, .string value :: rest => readAfter (.string value) frames rest
  | frames, .openArray :: .closeArray :: rest => readAfter (.array []) frames rest
  | frames, .openArray :: rest => readValue (.array [] :: frames) rest
  | frames, .openObject :: .closeObject :: rest => readAfter (.object []) frames rest
  | frames, .openObject :: .string key :: .colon :: rest =>
    readValue (.object [] key :: frames) rest
  | _, _ => none

/-- Puts a finished value into the frame around it and reads on. -/
def readAfter (value : Json) : List Frame → List Token → Option Json
  | [], [] => some value
  | .array done :: frames, .comma :: rest => readValue (.array (value :: done) :: frames) rest
  | .array done :: frames, .closeArray :: rest =>
    readAfter (.array (value :: done).reverse) frames rest
  | .object done key :: frames, .comma :: .string next :: .colon :: rest =>
    readValue (.object ((key, value) :: done) next :: frames) rest
  | .object done key :: frames, .closeObject :: rest =>
    readAfter (.object ((key, value) :: done).reverse) frames rest
  | _, _ => none

end

def read? (s : String) : Option Json :=
  (Token.lex? s.toList).bind (readValue [])

mutual

def tokens : Json → List Token
  | .null => [.null]
  | .bool value => [.bool value]
  | .number value => [.number value]
  | .string value => [.string value]
  | .array items => .openArray :: itemTokens items
  | .object members => .openObject :: memberTokens members

/-- The tokens of an array after its opening bracket. -/
def itemTokens : List Json → List Token
  | [] => [.closeArray]
  | [item] => tokens item ++ [.closeArray]
  | item :: next :: rest => tokens item ++ .comma :: itemTokens (next :: rest)

/-- The tokens of an object after its opening brace. -/
def memberTokens : List (Option String × Json) → List Token
  | [] => [.closeObject]
  | [(key, value)] => .string key :: .colon :: tokens value ++ [.closeObject]
  | (key, value) :: next :: rest =>
    .string key :: .colon :: tokens value ++ .comma :: memberTokens (next :: rest)

end

def render (value : Json) : String :=
  String.ofList ((tokens value).flatMap Token.spell)

end Json

end Fanout
