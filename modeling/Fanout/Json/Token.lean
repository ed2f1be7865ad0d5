import Fanout.Json.Numeral
import Fanout.Json.Quoted

/-! # Tokens of a JSON text

A text is cut into tokens before its structure is looked at. Blanks separate tokens and mean
nothing else; two words need something between them.
-/

namespace Fanout.Json

inductive Token where
  | openArray
  | closeArray
  | openObject
  | closeObject
  | comma
  | colon
  | null
  | bool (value : Bool)
  | number (value : Option Nat)
  | string (value : Option String)
  deriving Repr, DecidableEq

namespace Token

/-- The four characters that may stand between tokens. -/
def isBlank (c : Char) : Bool :=
  c = ' ' || c = '\t' || c = '\n' || c = '\r'

def isWordChar (c : Char) : Bool :=
  c.isAlphanum || c = '-' || c = '+' || c = '.'

def ofWord? (word : List Char) : Option Token :=
  match word with
  | ['n', 'u', 'l', 'l'] => some .null
  | ['t', 'r', 'u', 'e'] => some (.bool true)
  | ['f', 'a', 'l', 's', 'e'] => some (.bool false)
  | word => (Numeral.read? word).map .number

/-- The token a text starts with, and the text after it. -/
def first? : List Char → Option (Token × List Char)
  | [] => none
  | '[' :: rest => some (.openArray, rest)
  | ']' :: rest => some (.closeArray, rest)
  | '{' :: rest => some (.openObject, rest)
  | '}' :: rest => some (.closeObject, rest)
  | ',' :: rest => some (.comma, rest)
  | ':' :: rest => some (.colon, rest)
  | '"' :: rest =>
    (Quoted.scan? rest).map fun (pieces, rest) =>
      (.string ((Quoted.join? pieces).map String.ofList), rest)
  | c :: rest =>
    if isWordChar c then
      (ofWord? (c :: rest.takeWhile isWordChar)).map fun token => (token, rest.dropWhile isWordChar)
    else none

theorem first?_length {s rest : List Char} {token : Token}
    (h : first? s = some (token, rest)) : rest.length < s.length := by
  unfold first? at h
  split at h
  case h_8 =>
    simp only [Option.map_eq_some_iff, Prod.mk.injEq, Prod.exists] at h
    obtain ⟨_, _, found, _, rfl⟩ := h
    have := Quoted.scan?_length found
    simp only [List.length_cons]
    omega
  case h_9 c tail _ _ _ _ _ _ _ =>
    split at h
    · simp only [Option.map_eq_some_iff, Prod.mk.injEq] at h
      obtain ⟨_, _, _, rfl⟩ := h
      have := (List.dropWhile_suffix isWordChar (l := tail)).length_le
      simp only [List.length_cons]
      omega
    · simp at h
  all_goals simp_all

def lex? (s : List Char) : Option (List Token) :=
  match _blank : s.dropWhile isBlank with
  | [] => some []
  | c :: cs =>
    match _first : first? (c :: cs) with
    | none => none
    | some (token, rest) => (lex? rest).map (token :: ·)
termination_by s.length
decreasing_by
  have := (List.dropWhile_suffix isBlank (l := s)).length_le
  have := first?_length _first
  rw [_blank] at *
  omega

def spell : Token → List Char
  | .openArray => ['[']
  | .closeArray => [']']
  | .openObject => ['{']
  | .closeObject => ['}']
  | .comma => [',']
  | .colon => [':']
  | .null => ['n', 'u', 'l', 'l']
  | .bool true => ['t', 'r', 'u', 'e']
  | .bool false => ['f', 'a', 'l', 's', 'e']
  | .number value => Numeral.write value
  | .string (some value) => Quoted.encode value.toList
  | .string none => ['"', '\\', 'u', 'd', '8', '0', '0', '"']

end Token

end Fanout.Json
