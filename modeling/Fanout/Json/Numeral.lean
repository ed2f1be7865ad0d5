/-! # Numerals

The grammar of JSON numbers. Only plain digits stand for a natural number, so `-0`, `1.0` and `1e2`
are numerals without a value here.
-/

namespace Fanout.Json.Numeral

/-- Digits without a leading zero. -/
def isWhole (digits : List Char) : Bool :=
  match digits with
  | [] => false
  | ['0'] => true
  | c :: rest => c != '0' && (c :: rest).all Char.isDigit

def isDigits (digits : List Char) : Bool :=
  !digits.isEmpty && digits.all Char.isDigit

/-- What may stand after the exponent letter: digits, signed or not. -/
def isSignedDigits : List Char → Bool
  | '+' :: digits => isDigits digits
  | '-' :: digits => isDigits digits
  | digits => isDigits digits

def isExponentPart : List Char → Bool
  | [] => true
  | 'e' :: rest => isSignedDigits rest
  | 'E' :: rest => isSignedDigits rest
  | _ => false

/-- What may follow the whole part: a fraction, an exponent, both or nothing. -/
def isTail : List Char → Bool
  | '.' :: rest =>
    isDigits (rest.takeWhile Char.isDigit) && isExponentPart (rest.dropWhile Char.isDigit)
  | rest => isExponentPart rest

def isUnsigned (s : List Char) : Bool :=
  isWhole (s.takeWhile Char.isDigit) && isTail (s.dropWhile Char.isDigit)

/-- Reads a numeral; the result holds a value exactly for plain digits. -/
def read? (s : List Char) : Option (Option Nat) :=
  match s with
  | '-' :: rest => if isUnsigned rest then some none else none
  | s =>
    if isWhole s then some (some (Nat.ofDigitChars 10 s 0))
    else if isUnsigned s then some none
    else none

/-- Writes a natural number in plain digits. A number of unknown value becomes a minus zero, which
is read as one again. -/
def write : Option Nat → List Char
  | some n => Nat.toDigits 10 n
  | none => ['-', '0']

end Fanout.Json.Numeral
