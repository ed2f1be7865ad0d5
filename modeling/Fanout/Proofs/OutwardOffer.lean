import Fanout.Proofs.Acceptance
import Fanout.Proofs.Bundling

/-! # The offer for the peer

What the peer of an offer with simulcast sections gets, told from the offer alone and without the
steps that lead there (`Description.FansOutTo`). The relation leaves nothing open: the remote view
is the one description that it allows (`remoteView_iff`). The steps work on names in a document that
changes under them, so this takes distinct names and rids; a rid may still be the name of its own
section.
-/

namespace Fanout

theorem forall₂_iff_eq_map {α β : Type} {R : α → β → Prop} {f : α → β} {xs : List α} {ys : List β}
    (function : ∀ x ∈ xs, ∀ y, R x y ↔ y = f x) : List.Forall₂ R xs ys ↔ ys = xs.map f := by
  induction xs generalizing ys with
  | nil => rw [List.forall₂_nil_left_iff, List.map_nil]
  | cons x rest ih =>
      cases ys with
      | nil => simp
      | cons y ys =>
          have onward : List.Forall₂ R rest ys ↔ ys = rest.map f :=
            ih fun y member => function y (List.mem_cons_of_mem x member)
          rw [List.forall₂_cons, function x List.mem_cons_self, onward, List.map_cons,
            List.cons.injEq]

namespace Section

/-- The section for a rid of a simulcast section: its media with one stream that has no rids and no
simulcast, where the extension for names takes the number of the one that carried the rids. -/
def layer (s : Section) (stream : Stream) (carrier : HeaderExtension) (rid : String) : Section where
  name := rid
  protocol := s.protocol
  media := {
    kind := s.media.kind
    extensions := (s.media.extensions.filter fun x =>
      x.uri ≠ HeaderExtension.ridUri ∧ x.uri ≠ HeaderExtension.repairedRidUri).map fun x =>
        if x.uri = HeaderExtension.midUri then { x with id := carrier.id } else x
    streams := [⟨stream.id, stream.ssrcs, []⟩]
    simulcast := ⟨[], []⟩ }

/-- A simulcast section is replaced by a section for each rid of its one stream. Each of them is
bound to the transport that the simulcast section is bound to first. -/
inductive FansOutTo (bindings : List Binding) (s : Section) :
    List Section × List Binding → Prop where
  | intro {stream : Stream} {carrier : HeaderExtension} {bound : Binding}
      (one : s.media.streams = [stream])
      (last : (s.extensionsOf HeaderExtension.ridUri).getLast? = some carrier)
      (first : bindings.find? (·.name = s.name) = some bound) :
      FansOutTo bindings s
        (stream.rids.map fun entry => s.layer stream carrier entry.rid,
          stream.rids.map fun entry => ⟨entry.rid, bound.transport⟩)

variable {bindings : List Binding} {s : Section}

def fannedOutBindings (bindings : List Binding) (s : Section) : List Binding :=
  s.ridNames.map fun rid => ⟨rid, (Entry.describing bindings s).transport⟩

theorem fansOutTo_iff (complete : s.Complete bindings) (part : List Section × List Binding) :
    s.FansOutTo bindings part ↔ part = (s.fannedOut, s.fannedOutBindings bindings) := by
  have closed : ∀ {stream carrier bound}, s.media.streams = [stream] →
      (s.extensionsOf HeaderExtension.ridUri).getLast? = some carrier →
      bindings.find? (·.name = s.name) = some bound →
      (s.fannedOut, s.fannedOutBindings bindings) =
        (stream.rids.map fun entry => s.layer stream carrier entry.rid,
          stream.rids.map fun entry => ⟨entry.rid, bound.transport⟩) := by
    intro stream carrier bound one last first
    simp only [fannedOut, fannedOutBindings, ridNames_of_stream one, List.map_map, ridMedia, one,
      lastOf_eq, last, Entry.describing, first]
    rfl
  constructor
  · rintro ⟨one, last, first⟩
    exact (closed one last first).symm
  · rintro rfl
    obtain ⟨stream, one, -⟩ := complete.stream
    obtain ⟨carrier, last, -⟩ := complete.rid
    obtain ⟨bound, first⟩ := complete.exists_find?
    rw [closed one last first]
    exact .intro one last first

end Section

/-- An offer is fanned out to its plain sections and, after them, to what replaces its simulcast
sections, all of it in the order of the offer. One group bundles every section in place of the
bundles that the offer had, and no binding is left that has the name of a simulcast section. -/
inductive Description.FansOutTo (offer : Description) : Description → Prop where
  | intro {parts : List (List Section × List Binding)} {sections : List Section}
      (replaced : List.Forall₂ (Section.FansOutTo offer.document.bindings)
        offer.document.simulcasts parts)
      (placed : sections = offer.document.plains ++ parts.flatMap (·.1)) :
      FansOutTo offer {
        type := .offer
        sessionId := offer.sessionId
        sessionVersion := offer.sessionVersion
        document := {
          sections := sections
          groups := offer.document.groups.filter (·.semantics ≠ Group.bundleSemantics) ++
            [⟨Group.bundleSemantics, sections.map (·.name)⟩]
          bindings := offer.document.bindings.filter
            (·.name ∉ offer.document.simulcasts.map (·.name)) ++ parts.flatMap (·.2) } }

theorem Document.fannedOut_eq {d : Document} (distinct : d.names.Nodup)
    (acceptable : d.Acceptable) :
    d.fannedOut = {
      sections := d.plains ++ d.simulcasts.flatMap Section.fannedOut
      groups := d.groups.filter (·.semantics ≠ Group.bundleSemantics) ++
        [⟨Group.bundleSemantics,
          (d.plains ++ d.simulcasts.flatMap Section.fannedOut).map (·.name)⟩]
      bindings := d.bindings.filter (·.name ∉ d.simulcasts.map (·.name)) ++
        d.simulcasts.flatMap (Section.fannedOutBindings d.bindings) } := by
  have bundled := Group.ofNames_of_nodup Group.bundleSemantics
    (acceptable.fannedOut_names_nodup distinct)
  simp only [names, fannedOut, bundle] at bundled ⊢
  rw [bundled]
  rfl

theorem Description.fansOutTo_iff {offer : Description} (isOffer : offer.type = .offer)
    (distinct : offer.document.names.Nodup) (acceptable : offer.document.Acceptable)
    (remote : Description) :
    offer.FansOutTo remote ↔ remote = { offer with document := offer.document.fannedOut } := by
  have replaced : ∀ parts, List.Forall₂ (Section.FansOutTo offer.document.bindings)
      offer.document.simulcasts parts ↔ parts = offer.document.simulcasts.map fun s =>
        (s.fannedOut, s.fannedOutBindings offer.document.bindings) := fun parts =>
    forall₂_iff_eq_map fun s member part =>
      Section.fansOutTo_iff (acceptable.complete s member).2 part
  rw [Document.fannedOut_eq distinct acceptable, isOffer]
  constructor
  · rintro ⟨given, rfl⟩
    rw [(replaced _).mp given, List.flatMap_map, List.flatMap_map]
  · rintro rfl
    have allowed := FansOutTo.intro ((replaced _).mpr rfl) rfl
    rwa [List.flatMap_map, List.flatMap_map] at allowed

namespace Negotiation

variable {n m : Negotiation} {offer : Description} {views : Views}

/-- The remote view of an accepted offer with simulcast sections is exactly what the offer is fanned
out to. -/
theorem remoteView_iff (distinct : offer.document.names.Nodup)
    (layered : offer.document.simulcasts ≠ [])
    (patched : n.perform (patchOffer offer) = (.ok views, m)) (remote : Description) :
    offer.FansOutTo remote ↔ remote = views.remoteView := by
  have fresh := fresh_of_patchOffer patched
  obtain ⟨isOffer, acceptable, -, -, rfl⟩ := patchOffer_eq_ok fresh distinct patched
  rw [Description.fansOutTo_iff isOffer distinct acceptable, Document.outward, if_neg layered]

theorem layeredOffer_remoteView :
    ∃ views m, layeredOffer.document.names.Nodup ∧ layeredOffer.document.simulcasts ≠ [] ∧
      start.perform (patchOffer layeredOffer) = (.ok views, m) ∧
      ∀ remote, layeredOffer.FansOutTo remote ↔ remote = views.remoteView := by
  have distinct : layeredOffer.document.names.Nodup := by decide
  have layered : layeredOffer.document.simulcasts ≠ [] := by decide
  exact ⟨_, _, distinct, layered, rfl, remoteView_iff (n := start) distinct layered rfl⟩

end Negotiation

end Fanout
