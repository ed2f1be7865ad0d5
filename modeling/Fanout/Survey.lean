import Fanout.Registry

/-! # Survey of an offer

The walk that fills a registry. It takes the sections in order, makes the sending rids and layers
of each simulcast section explicit, and registers the section. A fault stops the walk but does not
undo it: what was noted and made explicit until then stays.
-/

namespace Fanout

namespace Section

/-- Whether the section has to be fanned out: video with any simulcast layer. -/
def isSimulcast (s : Section) : Bool :=
  s.media.kind = .video && s.media.hasSimulcast

def rids? (s : Section) : Except Fault (List String) :=
  match s.media.streams with
  | [stream] =>
    if stream.rids.isEmpty then .error (.streamWithoutRids s.name)
    else .ok (stream.rids.map (·.rid))
  | streams => .error (.streamCount streams.length)

/-- The section with every rid sent in a layer of its own and nothing received. -/
def explicit (s : Section) (rids : List String) : Section :=
  { s with
    media := { s.media with
      streams := s.media.streams.map fun stream =>
        { stream with rids := rids.map fun rid => ⟨rid, .send⟩ }
      simulcast := ⟨Layers.ofRids rids, []⟩ } }

end Section

/-- What the registry keeps of a section. The extensions for names and rids need a number other
than 0, and the section needs a transport. -/
def Entry.ofSection (bindings : List Binding) (s : Section) (rids : List String) :
    Except Fault Entry :=
  let midExtension := HeaderExtension.lastOf s.media.extensions HeaderExtension.midUri
  let ridExtension := HeaderExtension.lastOf s.media.extensions HeaderExtension.ridUri
  if ridExtension.id = 0 then .error .ridExtensionRequired
  else if midExtension.id = 0 then .error .midExtensionRequired
  else
    match bindings.find? (·.name = s.name) with
    | none => .error (.transportNotFound s.name)
    | some binding => .ok {
        name := s.name
        protocol := s.protocol
        rids := rids
        simulcast := s.media.simulcast
        midExtension := midExtension
        ridExtension := ridExtension
        repairedRidExtension :=
          HeaderExtension.lastOf s.media.extensions HeaderExtension.repairedRidUri
        transport := binding.transport }

namespace Registry

/-- Visits one section. The results are the registry and the section as far as the visit came, and
the fault that ended it early. -/
def visit (bindings : List Binding) (r : Registry) (s : Section) :
    Registry × Section × Option Fault :=
  let noted := r.note s.name
  if s.isSimulcast then
    match s.rids? with
    | .error fault => (noted, s, some fault)
    | .ok rids =>
      match Entry.ofSection bindings (s.explicit rids) rids with
      | .error fault => (noted, s.explicit rids, some fault)
      | .ok e =>
        match noted.perform (enroll e) with
        | (.error fault, left) => (left, s.explicit rids, some fault)
        | (.ok (), registered) => (registered, s.explicit rids, none)
  else (noted, s, none)

/-- Visits sections until one of them has a fault. -/
def walk (bindings : List Binding) :
    Registry → List Section → Registry × List Section × Option Fault
  | r, [] => (r, [], none)
  | r, s :: rest =>
    match r.visit bindings s with
    | (r, s, some fault) => (r, s :: rest, some fault)
    | (r, s, none) =>
      let (r, rest, fault) := walk bindings r rest
      (r, s :: rest, fault)

end Registry

/-- The outcome of a survey: registry and document as far as it came, and what stopped it. -/
structure Survey where
  registry : Registry
  document : Document
  fault : Option Fault
  deriving Repr, DecidableEq

def Survey.checked (s : Survey) : Except Fault Survey :=
  match s.fault with
  | some fault => .error fault
  | none => .ok s

/-- Surveys a document. After the last section no rid may be the name of another section; a rid may
be the name of its own section, which fanning out removes. -/
def Registry.survey (r : Registry) (d : Document) : Survey :=
  let (r, sections, fault) := r.walk d.bindings d.sections
  { registry := r
    document := { d with sections := sections }
    fault := fault <|> r.clash?.map .duplicateName }

end Fanout
