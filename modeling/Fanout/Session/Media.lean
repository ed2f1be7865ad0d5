/-! # Media of a section

What one section of a session description sends and receives: its header extensions, its streams
with their rids, and how the rids are layered for simulcast.
-/

namespace Fanout

inductive MediaKind where
  | unspecified
  | audio
  | video
  | data
  deriving Repr, DecidableEq, Inhabited

/-- Reads the kind from a media line; any unknown word is unspecified. -/
def MediaKind.ofWord : String → MediaKind
  | "audio" => .audio
  | "video" => .video
  | "data" => .data
  | "application" => .data
  | _ => .unspecified

def MediaKind.word : MediaKind → String
  | .unspecified => "Unspecified"
  | .audio => "audio"
  | .video => "video"
  | .data => "data"

/-- Which way the stream of a rid flows. -/
inductive Direction where
  | send
  | receive
  deriving Repr, DecidableEq, Inhabited

def Direction.word : Direction → String
  | .send => "send"
  | .receive => "recv"

/-- A header extension: its meaning by uri and its number in the packets of the section. -/
structure HeaderExtension where
  uri : String
  id : UInt16
  encrypted : Bool
  deriving Repr, DecidableEq, Inhabited

namespace HeaderExtension

/-- Carries the name of the section that a packet belongs to. -/
def midUri : String := "urn:ietf:params:rtp-hdrext:sdes:mid"

/-- Carries the rid that a packet belongs to. -/
def ridUri : String := "urn:ietf:params:rtp-hdrext:sdes:rtp-stream-id"

/-- Carries the rid that a repair packet repairs. -/
def repairedRidUri : String := "urn:ietf:params:rtp-hdrext:sdes:repaired-rtp-stream-id"

def plain (uri : String) (id : UInt16) : HeaderExtension :=
  ⟨uri, id, false⟩

/-- The last extension with a uri, or the empty extension of number 0. -/
def lastOf (extensions : List HeaderExtension) (uri : String) : HeaderExtension :=
  (extensions.reverse.find? (·.uri = uri)).getD default

end HeaderExtension

structure RidEntry where
  rid : String
  direction : Direction
  deriving Repr, DecidableEq, Inhabited

/-- One stream of a section; its encodings are told apart by source number or by rid. -/
structure Stream where
  id : String
  ssrcs : List UInt32
  rids : List RidEntry
  deriving Repr, DecidableEq, Inhabited

/-- One alternative of a simulcast layer. -/
structure Layer where
  rid : String
  paused : Bool
  deriving Repr, DecidableEq, Inhabited

/-- Simulcast layers in order, each a list of alternatives. -/
abbrev Layers := List (List Layer)

/-- One unpaused layer without other alternatives for each rid. -/
def Layers.ofRids (rids : List String) : Layers :=
  rids.map fun rid => [⟨rid, false⟩]

def Layers.add (layers : Layers) (alternatives : List Layer) : Layers :=
  layers ++ [alternatives]

/-- How a section layers the streams it sends and receives. -/
structure Simulcast where
  send : Layers
  receive : Layers
  deriving Repr, DecidableEq, Inhabited

def Simulcast.isEmpty (s : Simulcast) : Bool :=
  s.send.isEmpty && s.receive.isEmpty

structure Media where
  kind : MediaKind
  extensions : List HeaderExtension
  streams : List Stream
  simulcast : Simulcast
  deriving Repr, DecidableEq, Inhabited

namespace Media

def ofKind (kind : MediaKind) : Media :=
  ⟨kind, [], [], default⟩

def extension? (m : Media) (uri : String) : Option HeaderExtension :=
  m.extensions.find? (·.uri = uri)

/-- Whether the section layers any stream. -/
def hasSimulcast (m : Media) : Bool :=
  !m.simulcast.isEmpty

end Media

end Fanout
