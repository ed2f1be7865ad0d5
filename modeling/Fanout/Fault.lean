/-! # Faults

Everything that can be wrong with a document, a call or the registry that ties them together, and
the messages that say so. Names in a list stand in quotation marks, with escapes for what would
break the line or the quotes.
-/

namespace Fanout

namespace Text

/-- The first and the last character of each run of characters that show nothing of their own:
controls, formats, separators other than the space, and those for private use. -/
def unseenRuns : List (Nat × Nat) := [
  (0x0, 0x1f), (0x7f, 0xa0), (0xad, 0xad), (0x600, 0x605), (0x61c, 0x61c), (0x6dd, 0x6dd),
  (0x70f, 0x70f), (0x890, 0x891), (0x8e2, 0x8e2), (0x1680, 0x1680), (0x180e, 0x180e),
  (0x2000, 0x200f), (0x2028, 0x202f), (0x205f, 0x2064), (0x2066, 0x206f), (0x3000, 0x3000),
  (0xe000, 0xf8ff), (0xfeff, 0xfeff), (0xfff9, 0xfffb), (0x110bd, 0x110bd), (0x110cd, 0x110cd),
  (0x13430, 0x1343f), (0x1bca0, 0x1bca3), (0x1d173, 0x1d17a), (0xe0001, 0xe0001),
  (0xe0020, 0xe007f), (0xf0000, 0xffffd), (0x100000, 0x10fffd)]

def isUnseen (c : Char) : Bool :=
  unseenRuns.any fun (first, last) => first ≤ c.toNat && c.toNat ≤ last

/-- A character as it stands in a quoted name. One that shows nothing of its own is given by number,
unless it has a letter for that. Left out are characters that extend the one before them, such as a
combining accent, and numbers that no character has been given yet: they stand as they are. -/
def escape (c : Char) : List Char :=
  match c with
  | '"' => ['\\', '"']
  | '\\' => ['\\', '\\']
  | '\n' => ['\\', 'n']
  | '\r' => ['\\', 'r']
  | '\t' => ['\\', 't']
  | '\x00' => ['\\', '0']
  | c =>
    if isUnseen c then '\\' :: 'u' :: '\x7b' :: Nat.toDigits 16 c.toNat ++ ['\x7d']
    else [c]

def quoted (name : String) : String :=
  String.ofList ('"' :: name.toList.flatMap escape ++ ['"'])

def listing (names : List String) : String :=
  "[" ++ ", ".intercalate (names.map quoted) ++ "]"

end Text

/-- Why a request was refused. -/
inductive Fault where
  /-- No section has the name. -/
  | sectionNotFound (name : String)
  /-- Two sections have, or would have, the same name. -/
  | duplicateName (name : String)
  /-- A group or a transport binding, said by `place`, names no section. -/
  | unknownName (place name : String)
  /-- The description is of another type than the call takes. -/
  | typeMismatch (expected actual : String)
  /-- The sections are not those that the order lists. -/
  | orderMismatch (expected actual : List String)
  /-- A simulcast section has no stream or several. -/
  | streamCount (count : Nat)
  /-- The stream of a simulcast section has no rids. -/
  | streamWithoutRids (name : String)
  /-- A simulcast section lacks the extension for section names. -/
  | midExtensionRequired
  /-- A simulcast section lacks the extension for rids. -/
  | ridExtensionRequired
  /-- A simulcast section of an offer has no transport. -/
  | transportNotFound (name : String)
  /-- A simulcast section is already registered under the name. -/
  | duplicateSection (name : String)
  /-- A rid is already registered. -/
  | duplicateRid (rid : String)
  /-- A section that answers for a rid carries streams. -/
  | answerHasStreams (name : String)
  /-- No section answering for a simulcast section has a transport. -/
  | transportMissing (name : String)
  /-- A call that needs a patched offer came before one. -/
  | offerNotPatched
  /-- A second offer came for the same negotiation. -/
  | offerAlreadyPatched
  /-- There is no candidate to pass on. -/
  | noCandidates
  /-- No codec has the name and the required parameters. -/
  | codecNotSupported (name parameters : String)
  deriving Repr, DecidableEq

/-- Who is to blame for a fault: the caller, or the bookkeeping between documents. -/
inductive Blame where
  | input
  | bookkeeping
  deriving Repr, DecidableEq

namespace Fault

def message : Fault → String
  | sectionNotFound name => s!"sdp: content {name} not found"
  | duplicateName name => s!"sdp: content name {name} is used more than once"
  | unknownName place name => s!"sdp: {place} references unknown content {name}"
  | typeMismatch expected actual => s!"sdp: expected {expected} description, got {actual}"
  | orderMismatch expected actual =>
    "sdp: media sections " ++ Text.listing actual ++ " do not match expected order " ++
      Text.listing expected
  | streamCount count => s!"simulcast section must have exactly one stream, got {count}"
  | streamWithoutRids name => s!"simulcast section {name} has a stream without rids"
  | midExtensionRequired => "mid RTP Extensions required for Simulcast"
  | ridExtensionRequired => "stream id RTP Extensions required for Simulcast"
  | transportNotFound name => s!"no transport info for simulcast section {name}"
  | duplicateSection name => s!"simulcast section {name} is already registered"
  | duplicateRid rid => s!"rid {rid} is already registered for another simulcast section"
  | answerHasStreams name => s!"answer section {name} for simulcast layer must not carry streams"
  | transportMissing name => s!"no transport info collected for simulcast section {name}"
  | offerNotPatched => "offer has not been patched yet"
  | offerAlreadyPatched => "offer has already been patched for this negotiation"
  | noCandidates => "no ice candidates to patch"
  | codecNotSupported name parameters =>
    s!"codec with name={name} and params " ++ "\x7b" ++ parameters ++ "\x7d" ++
      " is unsupported for this peer connection"

/-- Faults of the bookkeeping are those that a well-behaved caller can still meet. -/
def blame : Fault → Blame
  | sectionNotFound _ | orderMismatch _ _ | duplicateSection _ | duplicateRid _
  | transportMissing _ | noCandidates | codecNotSupported _ _ => .bookkeeping
  | duplicateName _ | unknownName _ _ | typeMismatch _ _ | streamCount _ | streamWithoutRids _
  | midExtensionRequired | ridExtensionRequired | transportNotFound _ | answerHasStreams _
  | offerNotPatched | offerAlreadyPatched => .input

end Fault

end Fanout
