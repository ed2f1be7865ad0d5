import Fanout.Session.Description
import Fanout.Survey

/-! # Fanning out an offer

The offer for a peer without simulcast: each simulcast section is replaced by one plain section per
rid, at the end of the document, and all of them share the transport of the section they came from.
-/

namespace Fanout

/-- Extensions for the section of a rid. The peer has to read the name of that section where the
sender writes the rid, so the name takes over the number of the rid. -/
def Entry.fanOutExtensions (e : Entry) (extensions : List HeaderExtension) : List HeaderExtension :=
  (extensions.filter fun x =>
    x.uri ≠ HeaderExtension.ridUri ∧ x.uri ≠ HeaderExtension.repairedRidUri).map fun x =>
      if x.uri = HeaderExtension.midUri then { x with id := e.ridExtension.id } else x

/-- Media for the section of a rid: one stream that names no rids, and no simulcast. -/
def Entry.fanOutMedia (e : Entry) (m : Media) : Except Fault Media :=
  match m.streams with
  | [stream] =>
    if stream.rids.isEmpty then .error (.streamWithoutRids e.name)
    else .ok { m with
      extensions := e.fanOutExtensions m.extensions
      streams := [{ stream with rids := [] }]
      simulcast := default }
  | streams => .error (.streamCount streams.length)

/-- Replaces the section of an entry by a section for each of its rids. -/
def Entry.fanOut (d : Document) (e : Entry) : Except Fault Document :=
  match d.section? e.name with
  | none => .error (.sectionNotFound e.name)
  | some s => do
    let media ← e.fanOutMedia s.media
    .ok { d with
      sections := d.sections.eraseP (·.name = e.name) ++
        e.rids.map fun rid => ⟨rid, e.protocol, media⟩ }

namespace Registry

/-- Binds every rid to the transport of its simulcast section, which is bound no longer. -/
def fanOutBindings (r : Registry) (bindings : List Binding) : List Binding :=
  bindings.filter (fun b => (r.byName? b.name).isNone) ++
    r.entries.flatMap fun e => e.rids.map fun rid => ⟨rid, e.transport⟩

def fanOut (r : Registry) (offer : Description) : Except Fault Description := do
  let d ← r.entries.foldlM Entry.fanOut offer.document
  .ok { offer with
    type := .offer
    document := { d.bundle with bindings := r.fanOutBindings d.bindings } }

end Registry

end Fanout
