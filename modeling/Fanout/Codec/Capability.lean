import Fanout.Text

/-! # Codec capabilities

The codecs that a peer can send or receive. A codec has format parameters, at most one value for
each key, kept in the order of the keys. They are read from and written to format lines such as
`profile-id=2;level=1`.
-/

namespace Fanout.Codec

/-- Gives a key a value among entries in order of their keys. -/
def setEntry (key value : String) : List (String × String) → List (String × String)
  | [] => [(key, value)]
  | (k, v) :: rest =>
    if key < k then (key, value) :: (k, v) :: rest
    else if key = k then (key, value) :: rest
    else (k, v) :: setEntry key value rest

theorem mem_setEntry {key value : String} {entry : String × String}
    {entries : List (String × String)} (h : entry ∈ setEntry key value entries) :
    entry = (key, value) ∨ entry ∈ entries := by
  induction entries with
  | nil => simpa [setEntry] using h
  | cons head rest ih => grind [setEntry]

theorem sorted_setEntry {key value : String} {entries : List (String × String)}
    (sorted : entries.Pairwise fun a b => a.1 < b.1) :
    (setEntry key value entries).Pairwise fun a b => a.1 < b.1 := by
  induction entries with
  | nil => simp [setEntry]
  | cons head rest ih =>
    obtain ⟨k, v⟩ := head
    rw [List.pairwise_cons] at sorted
    simp only [setEntry]
    split
    · grind [List.pairwise_cons]
    split
    · grind [List.pairwise_cons]
    · rw [List.pairwise_cons]
      refine ⟨fun entry member => ?_, ih sorted.2⟩
      have := mem_setEntry member
      grind

/-- Values by key, in the order of the keys. -/
structure Parameters where
  entries : List (String × String)
  sorted : entries.Pairwise fun a b => a.1 < b.1
  deriving Repr, DecidableEq

namespace Parameters

def empty : Parameters :=
  ⟨[], .nil⟩

instance : Inhabited Parameters where
  default := empty

def get? (p : Parameters) (key : String) : Option String :=
  p.entries.lookup key

def insert (p : Parameters) (key value : String) : Parameters :=
  ⟨setEntry key value p.entries, sorted_setEntry p.sorted⟩

/-- Parameters from entries in any order; the last entry of a key wins. -/
def ofEntries (entries : List (String × String)) : Parameters :=
  entries.foldl (fun p entry => p.insert entry.1 entry.2) empty

/-- Whether every required parameter is there with the very same value. -/
def includes (p required : Parameters) : Bool :=
  required.entries.all fun entry => p.get? entry.1 = some entry.2

/-- The entry that one item of a format line stands for. An item without a key or without an equals
sign stands for none. -/
def entryOfItem? (item : List Char) : Option (String × String) :=
  match Text.cut? '=' item with
  | none => none
  | some (key, value) =>
    if (Text.trim key).isEmpty then none
    else some (String.ofList (Text.trim key), String.ofList (Text.trim value))

/-- Reads a format line. Blanks around keys and values do not count. -/
def ofFormatLine (line : String) : Parameters :=
  ofEntries ((line.toList.splitOn ';').filterMap entryOfItem?)

def toFormatLine (p : Parameters) : String :=
  String.join (p.entries.map fun entry => entry.1 ++ "=" ++ entry.2 ++ ";")

end Parameters

structure Capability where
  mimeType : String
  clockRate : UInt32
  channels : UInt16
  parameters : Parameters
  deriving Repr, DecidableEq, Inhabited

namespace Capability

/-- The name of the codec: what follows the first slash of its type, or the whole type. -/
def name (c : Capability) : String :=
  match Text.cut? '/' c.mimeType.toList with
  | some (_, subtype) => String.ofList subtype
  | none => c.mimeType

/-- Whether the codec goes by a name, in any case. -/
def isNamed (c : Capability) (name : String) : Bool :=
  Text.sameUpToCase c.name name

def withFormatLine (c : Capability) (line : String) : Capability :=
  { c with parameters := .ofFormatLine line }

end Capability

end Fanout.Codec
