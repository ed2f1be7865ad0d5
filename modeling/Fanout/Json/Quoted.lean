/-! # Quoted texts

How a text is written between quotation marks. Reading goes through pieces, because a character
beyond the basic plane may be written as two escapes, the halves of a surrogate pair.
-/

namespace Fanout.Json.Quoted

/-- What one character or one escape of a quoted text stands for. -/
inductive Piece where
  | char (c : Char)
  /-- Half of a surrogate pair, by its number. -/
  | half (unit : Nat)
  deriving Repr, DecidableEq

/-- The first half of a surrogate pair. -/
def isLeading (unit : Nat) : Bool :=
  0xD800 ≤ unit && unit < 0xDC00

/-- The second half of a surrogate pair. -/
def isTrailing (unit : Nat) : Bool :=
  0xDC00 ≤ unit && unit < 0xE000

def hexValue? (c : Char) : Option Nat :=
  if '0' ≤ c && c ≤ '9' then some (c.toNat - '0'.toNat)
  else if 'a' ≤ c && c ≤ 'f' then some (c.toNat - 'a'.toNat + 10)
  else if 'A' ≤ c && c ≤ 'F' then some (c.toNat - 'A'.toNat + 10)
  else none

def Piece.ofHex? (a b c d : Char) : Option Piece := do
  let high := (← hexValue? a) * 16 + (← hexValue? b)
  let low := (← hexValue? c) * 16 + (← hexValue? d)
  let unit := high * 256 + low
  some (if isLeading unit || isTrailing unit then .half unit else .char (Char.ofNat unit))

def unescape? : Char → Option Char
  | '"' => some '"'
  | '\\' => some '\\'
  | '/' => some '/'
  | 'b' => some '\x08'
  | 'f' => some '\x0c'
  | 'n' => some '\n'
  | 'r' => some '\r'
  | 't' => some '\t'
  | _ => none

/-- The pieces up to the closing quotation mark, and what follows it. Control characters have to be
escaped. -/
def scan? : List Char → Option (List Piece × List Char)
  | [] => none
  | '"' :: rest => some ([], rest)
  | '\\' :: e :: rest =>
    match unescape? e with
    | some c => (scan? rest).map fun (pieces, rest) => (.char c :: pieces, rest)
    | none =>
      match rest with
      | a :: b :: c :: d :: rest =>
        if e = 'u' then do
          let piece ← Piece.ofHex? a b c d
          let (pieces, rest) ← scan? rest
          some (piece :: pieces, rest)
        else none
      | _ => none
  | c :: rest =>
    if c = '\\' || c.toNat < 0x20 then none
    else (scan? rest).map fun (pieces, rest) => (.char c :: pieces, rest)

theorem scan?_length {s rest : List Char} {pieces : List Piece}
    (h : scan? s = some (pieces, rest)) : rest.length < s.length := by
  fun_induction scan? s generalizing pieces rest with
  | case1 => simp at h
  | case2 => simp_all
  | case3 _ tail _ _ ih =>
    simp only [Option.map_eq_some_iff, Prod.mk.injEq, Prod.exists] at h
    obtain ⟨_, _, found, _, rfl⟩ := h
    have := ih found
    simp only [List.length_cons]
    omega
  | case4 _ _ _ _ tail _ ih =>
    simp only [Option.bind_eq_bind, Option.bind_eq_some_iff, Option.some.injEq, Prod.mk.injEq,
      Prod.exists] at h
    obtain ⟨_, _, _, _, found, _, rfl⟩ := h
    have := ih found
    simp only [List.length_cons]
    omega
  | case5 => simp at h
  | case6 => simp at h
  | case7 => simp at h
  | case8 c tail _ _ _ ih =>
    simp only [Option.map_eq_some_iff, Prod.mk.injEq, Prod.exists] at h
    obtain ⟨_, _, found, _, rfl⟩ := h
    have := ih found
    simp only [List.length_cons]
    omega

/-- The characters that pieces make up: halves only count as a leading one right before a
trailing one. -/
def join? : List Piece → Option (List Char)
  | [] => some []
  | .char c :: pieces => (join? pieces).map (c :: ·)
  | .half high :: .half low :: pieces =>
    if isLeading high && isTrailing low then
      (join? pieces).map (Char.ofNat (0x10000 + (high - 0xD800) * 0x400 + (low - 0xDC00)) :: ·)
    else none
  | .half _ :: _ => none

/-- A character as it stands between quotation marks: only quotation marks, backslashes and
control characters are escaped. -/
def escape (c : Char) : List Char :=
  match c with
  | '"' => ['\\', '"']
  | '\\' => ['\\', '\\']
  | '\x08' => ['\\', 'b']
  | '\x0c' => ['\\', 'f']
  | '\n' => ['\\', 'n']
  | '\r' => ['\\', 'r']
  | '\t' => ['\\', 't']
  | c =>
    if c.toNat < 0x20 then
      ['\\', 'u', '0', '0', Nat.digitChar (c.toNat / 16), Nat.digitChar (c.toNat % 16)]
    else [c]

def encode (s : List Char) : List Char :=
  '"' :: s.flatMap escape ++ ['"']

end Fanout.Json.Quoted
