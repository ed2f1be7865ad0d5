/-! # Transports

The connection parameters that a section travels over, bound to the section by its name, and the
addresses that a peer may be reached at. A candidate names its section by name, by position or not
at all.
-/

namespace Fanout

/-- Which peer opens the connection. -/
inductive SetupRole where
  | unspecified
  | active
  | passive
  | actpass
  | holdconn
  deriving Repr, DecidableEq, Inhabited

/-- How a setup role is shown; nothing chosen is shown like any other unspecified value. -/
def SetupRole.label : SetupRole → String
  | .unspecified => "Unspecified"
  | .active => "active"
  | .passive => "passive"
  | .actpass => "actpass"
  | .holdconn => "holdconn"

/-- Digest of the certificate that a peer will present. -/
structure Fingerprint where
  algorithm : String
  value : String
  deriving Repr, DecidableEq, Inhabited

structure Transport where
  ufrag : String
  password : String
  options : List String
  fingerprint : Option Fingerprint
  role : SetupRole
  deriving Repr, DecidableEq, Inhabited

structure Binding where
  name : String
  transport : Transport
  deriving Repr, DecidableEq, Inhabited

/-- A candidate line and the section it is meant for. -/
structure Candidate where
  line : String
  mid : Option String
  index : Option UInt16
  ufrag : Option String
  deriving Repr, DecidableEq, Inhabited

namespace Candidate

def ofSection (mid : String) (index : UInt16) (line : String) : Candidate :=
  ⟨line, some mid, some index, none⟩

/-- The same candidate for another section. Bundled sections share the transport of the first
position. -/
def moveTo (c : Candidate) (mid : String) : Candidate :=
  { c with mid := some mid, index := some 0 }

end Candidate

end Fanout
