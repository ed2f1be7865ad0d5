import Fanout.Session.Description
import Fanout.Survey

/-! # Gathering an answer

The answer to a fanned out offer, turned into an answer to the offer itself: the sections of all
rids of a simulcast section become one section that receives every rid, in its place in the offer,
and their transports become one.
-/

namespace Fanout

def Document.requireRemove (d : Document) (name : String) : Except Fault Document :=
  match d.remove? name with
  | some rest => .ok rest
  | none => .error (.sectionNotFound name)

namespace Entry

/-- Extensions of the gathered section: those for names and rids are the ones of the offer again.
Repair packets get no rid, as simulcast runs without them. -/
def gatherExtensions (e : Entry) (extensions : List HeaderExtension) : List HeaderExtension :=
  extensions.filter (fun x =>
    x.uri ≠ HeaderExtension.midUri ∧ x.uri ≠ HeaderExtension.ridUri ∧
      x.uri ≠ HeaderExtension.repairedRidUri) ++ [e.midExtension, e.ridExtension]

/-- Media of the gathered section. It receives every rid, in the layers that the offer sends. -/
def gatherMedia (e : Entry) (m : Media) : Except Fault Media :=
  if m.streams.isEmpty then
    .ok { m with
      extensions := e.gatherExtensions m.extensions
      streams := [⟨"", [], e.rids.map fun rid => ⟨rid, .receive⟩⟩]
      simulcast := ⟨[], e.simulcast.send⟩ }
  else .error (.answerHasStreams e.firstRid)

/-- Replaces the sections of the rids of an entry by one section, made from the first of them. -/
def gather (d : Document) (e : Entry) : Except Fault Document :=
  match d.section? e.firstRid with
  | none => .error (.sectionNotFound e.firstRid)
  | some s => do
    let rest ← e.rids.foldlM Document.requireRemove d
    let media ← e.gatherMedia s.media
    .ok (rest.add ⟨e.name, e.protocol, media⟩)

end Entry

/-- A transport of a rid that differs from the one given for its simulcast section before. -/
structure Override where
  rid : String
  name : String
  deriving Repr, DecidableEq

def Override.message (o : Override) : String :=
  s!"rid {o.rid} of simulcast section {o.name} has its own transport, keeping the last one"

namespace Registry

/-- The simulcast section that a binding of a rid belongs to. -/
def owner? (r : Registry) (b : Binding) : Option String :=
  (r.byRid? b.name).map (·.name)

def lastBinding? (r : Registry) (bindings : List Binding) (name : String) : Option Binding :=
  bindings.reverse.find? fun b => r.owner? b = some name

/-- Binds every simulcast section to the last transport of its rids, which are bound no longer. -/
def gatherBindings (r : Registry) (bindings : List Binding) : Except Fault (List Binding) := do
  let gathered ← r.entries.mapM fun e =>
    match r.lastBinding? bindings e.name with
    | some b => .ok ⟨e.name, b.transport⟩
    | none => .error (.transportMissing e.name)
  .ok (bindings.filter (fun b => (r.owner? b).isNone) ++ gathered)

/-- The bindings that override an earlier one of the same simulcast section by another transport.
The bindings that came before are in reverse. -/
def overridesAfter (r : Registry) (earlier : List Binding) : List Binding → List Override
  | [] => []
  | b :: rest =>
    match r.owner? b with
    | none => overridesAfter r earlier rest
    | some name =>
      let last? := earlier.find? fun b => r.owner? b = some name
      (if last?.any (·.transport ≠ b.transport) then [⟨b.name, name⟩] else []) ++
        overridesAfter r (b :: earlier) rest

/-- The answer with its sections gathered and in the order of the offer. -/
def gatherSections (r : Registry) (d : Document) : Except Fault Document := do
  let d ← r.entries.foldlM Entry.gather d
  let d ← d.arrange r.order
  .ok d.bundle

def gather (r : Registry) (answer : Description) : Except Fault Description := do
  let d ← r.gatherSections answer.document
  let bindings ← r.gatherBindings d.bindings
  .ok { answer with type := .answer, document := { d with bindings := bindings } }

/-- The overrides met while gathering an answer. They are met after its sections are gathered and
before a missing transport is. -/
def overrides (r : Registry) (answer : Description) : List Override :=
  match r.gatherSections answer.document with
  | .ok d => r.overridesAfter [] d.bindings
  | .error _ => []

end Registry

end Fanout
