import Fanout.Json.Form
import Fanout.Session.Description

/-! # JSON forms of sessions

How session descriptions and candidates are written for exchange. Lists, flags and other fields
with a natural default may be left out when reading; names and types may not.
-/

namespace Fanout

open Json (Fields word?)

instance : JsonForm DescriptionType where
  toJson type := .text type.word
  ofJson? := word? ([.unspecified, .offer, .provisionalAnswer, .answer, .rollback].map
    fun type => (DescriptionType.word type, type))

instance : JsonForm MediaKind where
  toJson kind := .text kind.word
  ofJson? := word? ([.unspecified, .audio, .video, .data].map
    fun kind => (MediaKind.word kind, kind))

instance : JsonForm Direction where
  toJson direction := .text direction.word
  ofJson? := word? ([.send, .receive].map fun direction => (Direction.word direction, direction))

def Protocol.word : Protocol → String
  | .rtp => "rtp"
  | .sctp => "sctp"
  | .other => "other"

instance : JsonForm Protocol where
  toJson protocol := .text protocol.word
  ofJson? := word? ([.rtp, .sctp, .other].map fun protocol => (Protocol.word protocol, protocol))

def SetupRole.word : SetupRole → String
  | .unspecified => "unspecified"
  | .active => "active"
  | .passive => "passive"
  | .actpass => "actpass"
  | .holdconn => "holdconn"

instance : JsonForm SetupRole where
  toJson role := .text role.word
  ofJson? := word? ([.unspecified, .active, .passive, .actpass, .holdconn].map
    fun role => (SetupRole.word role, role))

instance : JsonForm HeaderExtension where
  toJson e := .record [
    ("uri", toJson e.uri), ("id", toJson e.id), ("encrypted", toJson e.encrypted)]
  ofJson? value := do
    let fields ← Fields.ofJson? ["uri", "id", "encrypted"] value
    some ⟨← fields.required "uri", ← fields.required "id", ← fields.optional "encrypted"⟩

instance : JsonForm RidEntry where
  toJson r := .record [("rid", toJson r.rid), ("direction", toJson r.direction)]
  ofJson? value := do
    let fields ← Fields.ofJson? ["rid", "direction"] value
    some ⟨← fields.required "rid", ← fields.required "direction"⟩

instance : JsonForm Stream where
  toJson s := .record [("id", toJson s.id), ("ssrcs", toJson s.ssrcs), ("rids", toJson s.rids)]
  ofJson? value := do
    let fields ← Fields.ofJson? ["id", "ssrcs", "rids"] value
    some ⟨← fields.optional "id", ← fields.optional "ssrcs", ← fields.optional "rids"⟩

instance : JsonForm Layer where
  toJson l := .record [("rid", toJson l.rid), ("is_paused", toJson l.paused)]
  ofJson? value := do
    let fields ← Fields.ofJson? ["rid", "is_paused"] value
    some ⟨← fields.required "rid", ← fields.optional "is_paused"⟩

instance : JsonForm Simulcast where
  toJson s := .record [("send_layers", toJson s.send), ("receive_layers", toJson s.receive)]
  ofJson? value := do
    let fields ← Fields.ofJson? ["send_layers", "receive_layers"] value
    some ⟨← fields.optional "send_layers", ← fields.optional "receive_layers"⟩

instance : JsonForm Media where
  toJson m := .record [
    ("media_type", toJson m.kind), ("rtp_header_extensions", toJson m.extensions),
    ("streams", toJson m.streams), ("simulcast", toJson m.simulcast)]
  ofJson? value := do
    let fields ← Fields.ofJson?
      ["media_type", "rtp_header_extensions", "streams", "simulcast"] value
    some ⟨← fields.required "media_type", ← fields.optional "rtp_header_extensions",
      ← fields.optional "streams", ← fields.optional "simulcast"⟩

instance : JsonForm Section where
  toJson s := .record [
    ("mid", toJson s.name), ("protocol", toJson s.protocol), ("media_description", toJson s.media)]
  ofJson? value := do
    let fields ← Fields.ofJson? ["mid", "protocol", "media_description"] value
    some ⟨← fields.required "mid", ← fields.required "protocol",
      ← fields.required "media_description"⟩

instance : JsonForm Group where
  toJson g := .record [("semantics", toJson g.semantics), ("content_names", toJson g.members)]
  ofJson? value := do
    let fields ← Fields.ofJson? ["semantics", "content_names"] value
    some ⟨← fields.required "semantics", ← fields.optional "content_names"⟩

instance : JsonForm Fingerprint where
  toJson f := .record [("algorithm", toJson f.algorithm), ("value", toJson f.value)]
  ofJson? value := do
    let fields ← Fields.ofJson? ["algorithm", "value"] value
    some ⟨← fields.required "algorithm", ← fields.required "value"⟩

instance : JsonForm Transport where
  toJson t := .record [
    ("ice_ufrag", toJson t.ufrag), ("ice_pwd", toJson t.password),
    ("ice_options", toJson t.options), ("fingerprint", toJson t.fingerprint),
    ("connection_role", toJson t.role)]
  ofJson? value := do
    let fields ← Fields.ofJson?
      ["ice_ufrag", "ice_pwd", "ice_options", "fingerprint", "connection_role"] value
    some ⟨← fields.required "ice_ufrag", ← fields.required "ice_pwd",
      ← fields.optional "ice_options", ← fields.optional "fingerprint",
      ← fields.optional "connection_role"⟩

instance : JsonForm Binding where
  toJson b := .record [("content_name", toJson b.name), ("description", toJson b.transport)]
  ofJson? value := do
    let fields ← Fields.ofJson? ["content_name", "description"] value
    some ⟨← fields.required "content_name", ← fields.required "description"⟩

instance : JsonForm Document where
  toJson d := .record [
    ("contents", toJson d.sections), ("groups", toJson d.groups),
    ("transport_infos", toJson d.bindings)]
  ofJson? value := do
    let fields ← Fields.ofJson? ["contents", "groups", "transport_infos"] value
    some ⟨← fields.optional "contents", ← fields.optional "groups",
      ← fields.optional "transport_infos"⟩

instance : JsonForm Description where
  toJson d := .record [
    ("type", toJson d.type), ("sessionId", toJson d.sessionId),
    ("sessionVersion", toJson d.sessionVersion), ("description", toJson d.document)]
  ofJson? value := do
    let fields ← Fields.ofJson? ["type", "sessionId", "sessionVersion", "description"] value
    some ⟨← fields.required "type", ← fields.required "sessionId",
      ← fields.required "sessionVersion", ← fields.required "description"⟩

/-- An array of candidate fields has to hold all of them, so that the line is never taken for the
whole candidate. -/
def Candidate.isWhole : Json → Bool
  | .array items => items.length = 4
  | _ => true

instance : JsonForm Candidate where
  toJson c := .record [
    ("candidate", toJson c.line), ("sdpMid", toJson c.mid), ("sdpMLineIndex", toJson c.index),
    ("usernameFragment", toJson c.ufrag)]
  ofJson? value := do
    guard (Candidate.isWhole value)
    let fields ← Fields.ofJson? ["candidate", "sdpMid", "sdpMLineIndex", "usernameFragment"] value
    some ⟨← fields.required "candidate", ← fields.optional "sdpMid",
      ← fields.optional "sdpMLineIndex", ← fields.optional "usernameFragment"⟩

end Fanout
