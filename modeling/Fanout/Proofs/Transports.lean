import Fanout.Proofs.InwardAnswer
import Fanout.Proofs.Namesakes

/-! # Transports by name

A lookup finds the first binding of a name, and both rewrites put their bindings at the end. They
make room by dropping bindings: fanning out drops those of simulcast sections, gathering those of
rids. A document that binds the very name to be bound is therefore looked up wrongly afterwards,
unless the name is of the kind that is dropped. As no rid is the name of another simulcast section,
that is so where a section is named after one of its own rids (`transports_by_name`). No names have
to be distinct for this.
-/

namespace Fanout

namespace Document

variable {d : Document} {name : String} {transport : Transport} {stale : List Binding}

/-- The bindings of a name, of which a lookup finds the first. -/
def bindingsOf (d : Document) (name : String) : List Binding :=
  d.bindings.filter (·.name = name)

/-- The name has one binding, and a lookup finds it with its transport. -/
structure BindsOnce (d : Document) (name : String) (transport : Transport) : Prop where
  once : (d.bindingsOf name).length = 1
  found : d.binding? name = some ⟨name, transport⟩

theorem binding?_eq_head? (d : Document) (name : String) :
    d.binding? name = (d.bindingsOf name).head? :=
  List.head?_filter.symm

theorem bindingsOf_eq_nil_iff : d.bindingsOf name = [] ↔ d.binding? name = none := by
  rw [binding?_eq_head?, List.head?_eq_none_iff]

/-- A binding put behind those of its name is the only one if there were none. -/
theorem bindsOnce_iff (bound : d.bindingsOf name = stale ++ [⟨name, transport⟩]) :
    d.BindsOnce name transport ↔ stale = [] := by
  constructor
  · intro binds
    have once := binds.once
    rw [bound] at once
    simpa using once
  · intro none
    rw [none, List.nil_append] at bound
    exact ⟨by rw [bound]; rfl, by rw [binding?_eq_head?, bound]; rfl⟩

end Document

namespace Binding

variable {bindings : List Binding} {b : Binding} {name : String} {gone : List String}

theorem filter_name_of_mem (distinct : (bindings.map (·.name)).Nodup) (member : b ∈ bindings) :
    bindings.filter (·.name = b.name) = [b] := by
  induction bindings with
  | nil => cases member
  | cons first rest ih =>
      obtain ⟨other, restDistinct⟩ := List.nodup_cons.mp distinct
      cases List.mem_cons.mp member with
      | inl same =>
          subst same
          have none : rest.filter (·.name = b.name) = [] := by
            apply List.filter_eq_nil_iff.mpr
            intro c inside named
            exact other (List.mem_map.mpr ⟨c, inside, by simpa using named⟩)
          simp [none]
      | inr later =>
          have different : first.name ≠ b.name := by
            intro same
            exact other (List.mem_map.mpr ⟨b, later, same.symm⟩)
          simp [different, ih restDistinct later]

theorem filter_name_of_dropped (bindings : List Binding) (gone : List String) (name : String) :
    (bindings.filter (·.name ∉ gone)).filter (·.name = name) =
      if name ∈ gone then [] else bindings.filter (·.name = name) := by
  by_cases dropped : name ∈ gone
  · rw [if_pos dropped]
    apply List.filter_eq_nil_iff.mpr
    intro b kept named
    have named : b.name = name := by simpa using named
    have other : b.name ∉ gone := by simpa using (List.mem_filter.mp kept).2
    exact other (named ▸ dropped)
  · rw [if_neg dropped, List.filter_filter]
    apply List.filter_congr
    intro b _
    by_cases named : b.name = name
    · simp [named, dropped]
    · simp [named]

end Binding

/-! ## The offer -/

theorem Entry.fanOut_bindings {d d' : Document} {e : Entry} (fanned : Entry.fanOut d e = .ok d') :
    d'.bindings = d.bindings := by
  rw [fanOut] at fanned
  cases found : d.section? e.name with
  | none =>
      rw [found] at fanned
      cases fanned
  | some s =>
      rw [found] at fanned
      obtain ⟨media, -, same⟩ := bind_eq_ok.mp fanned
      cases same
      rfl

theorem foldlM_fanOut_bindings {entries : List Entry} {d d' : Document}
    (fanned : entries.foldlM Entry.fanOut d = .ok d') : d'.bindings = d.bindings := by
  induction entries generalizing d with
  | nil =>
      cases fanned
      rfl
  | cons e rest ih =>
      rw [List.foldlM_cons] at fanned
      obtain ⟨next, first, onward⟩ := bind_eq_ok.mp fanned
      exact (ih onward).trans (Entry.fanOut_bindings first)

namespace Registry

variable {r : Registry} {offer remote : Description} {e f : Entry} {rid : String}
  {bound bound' : List Binding}

theorem fanOut_bindings (fanned : r.fanOut offer = .ok remote) :
    remote.document.bindings = r.fanOutBindings offer.document.bindings := by
  obtain ⟨d, folded, same⟩ := bind_eq_ok.mp fanned
  cases same
  exact congrArg r.fanOutBindings (foldlM_fanOut_bindings folded)

theorem hasSimulcast_of_mem (member : e ∈ r.entries) : r.hasSimulcast := by
  simpa [hasSimulcast] using List.ne_nil_of_mem member

/-- No rid is the name of another simulcast section. -/
def Apart (r : Registry) : Prop :=
  ∀ e ∈ r.entries, ∀ f ∈ r.entries, f.name ∈ e.rids → f = e

theorem Apart.rid_mem_names_iff (apart : r.Apart) (member : e ∈ r.entries) (own : rid ∈ e.rids) :
    rid ∈ r.names ↔ rid = e.name := by
  constructor
  · intro named
    obtain ⟨f, inside, rfl⟩ := mem_names_iff.mp named
    rw [apart e member f inside own]
  · rintro rfl
    exact mem_names_iff.mpr ⟨e, member, rfl⟩

theorem Apart.name_mem_rids_iff (apart : r.Apart) (member : e ∈ r.entries) :
    e.name ∈ r.rids ↔ e.name ∈ e.rids := by
  constructor
  · intro rid
    obtain ⟨f, inside, own⟩ := mem_rids_iff.mp rid
    rwa [← apart f inside e member own] at own
  · intro own
    exact mem_rids_iff.mpr ⟨e, member, own⟩

theorem fanOutBindings_of_rid (indexed : r.Indexed) (apart : r.Apart) (member : e ∈ r.entries)
    (own : rid ∈ e.rids) :
    (r.fanOutBindings bound).filter (·.name = rid) =
      (if rid = e.name then [] else bound.filter (·.name = rid)) ++ [⟨rid, e.transport⟩] := by
  have names : (r.entries.flatMap fun e => e.rids.map fun rid => Binding.mk rid e.transport).map
      (·.name) = r.rids := by
    simp only [List.map_flatMap, List.map_map, Function.comp_def, List.map_id']
    rfl
  have added : (⟨rid, e.transport⟩ : Binding) ∈
      r.entries.flatMap fun e => e.rids.map fun rid => ⟨rid, e.transport⟩ :=
    List.mem_flatMap.mpr ⟨e, member, List.mem_map_of_mem own⟩
  rw [fanOutBindings, filter_byName?_isNone indexed, List.filter_append,
    Binding.filter_name_of_dropped, Binding.filter_name_of_mem (names ▸ indexed.rids_nodup) added]
  simp only [apart.rid_mem_names_iff member own]

/-! ## The answer -/

theorem gatherBindings_of_name (indexed : r.Indexed) (apart : r.Apart) (member : e ∈ r.entries)
    (gathered : r.gatherBindings bound = .ok bound') :
    ∃ last, (bound.filter (·.name ∈ e.rids)).getLast? = some last ∧
      bound'.filter (·.name = e.name) =
        (if e.name ∈ e.rids then [] else bound.filter (·.name = e.name)) ++
          [⟨e.name, last.transport⟩] := by
  obtain ⟨stands, related, rfl⟩ := (gatherBindings_eq_ok_iff indexed).mp gathered
  obtain ⟨b, inside, last, found, rfl⟩ := exists_of_forall₂ related member
  have names : stands.map (·.name) = r.names := names_of_boundLast related
  have alone : stands.filter (·.name = e.name) = [⟨e.name, last.transport⟩] :=
    Binding.filter_name_of_mem (names ▸ indexed.names_nodup) inside
  refine ⟨last, (lastBinding?_eq indexed member).symm.trans found, ?_⟩
  rw [List.filter_append, Binding.filter_name_of_dropped, alone]
  simp only [apart.name_mem_rids_iff member]

theorem gather_bindings {answer : Description} (gathered : r.gather answer = .ok remote) :
    r.gatherBindings answer.document.bindings = .ok remote.document.bindings := by
  obtain ⟨whole, bound, sections, bindings, rfl⟩ := gather_eq_ok gathered
  obtain ⟨-, -, -, kept⟩ := gatherSections_eq_ok sections
  rwa [kept] at bindings

theorem Surveyed.bound_first {d : Document} (surveyed : Surveyed d.bindings d.sections r)
    (ready : Section.Surveyable d.bindings d.sections) (member : e ∈ r.entries) :
    ∃ own, d.binding? e.name = some own ∧ own.transport = e.transport := by
  rw [surveyed.entries_eq] at member
  obtain ⟨s, simulcast, rfl⟩ := List.mem_map.mp member
  obtain ⟨inside, isSimulcast⟩ := Document.mem_simulcasts.mp simulcast
  obtain ⟨own, first⟩ := (ready.complete s inside isSimulcast).exists_find?
  refine ⟨own, first, ?_⟩
  simp only [Entry.describing, first, Option.map_some, Option.getD_some]

theorem Surveyed.apart {d : Document} (surveyed : Surveyed d.bindings d.sections r)
    (free : r.clash? = none) : r.Apart := by
  intro e eMember f fMember own
  have noted : f.name ∈ r.order := by
    rw [surveyed.order]
    have named : f.name ∈ r.names := mem_names_iff.mpr ⟨f, fMember, rfl⟩
    rw [surveyed.names_eq] at named
    exact (List.filter_sublist.map _).subset named
  have same := rid_not_mem_order_of_clash? free e eMember f.name own noted
  exact List.inj_on_of_nodup_map surveyed.indexed.names_nodup fMember eMember same

end Registry

/-! ## Both rewrites -/

namespace Negotiation

variable {n m : Negotiation} {offer : Description} {views : Views} {e : Entry}

/-- The transports of a simulcast section that was registered. For the peer the bindings of each of
its rids end with one to the transport of the section, for the offering side those of the section
end with one to the transport that its rids were given last. These are the only ones, and are found,
exactly where the document rewritten did not bind the same name to begin with, or the section is
named after its own rid. -/
theorem transports_by_name (patched : n.perform (patchOffer offer) = (.ok views, m))
    (registered : e ∈ m.registry.entries) :
    ∃ own, offer.document.binding? e.name = some own ∧
      (∀ rid ∈ e.rids,
        views.remoteView.document.bindingsOf rid =
          (if rid = e.name then [] else offer.document.bindingsOf rid) ++ [⟨rid, own.transport⟩] ∧
        (views.remoteView.document.BindsOnce rid own.transport ↔
          rid = e.name ∨ offer.document.binding? rid = none)) ∧
      ∀ calls answer back, ((m.run calls).perform (patchAnswer answer)).1 = .ok back →
        ∃ last, (answer.document.bindings.filter (·.name ∈ e.rids)).getLast? = some last ∧
          back.remoteView.document.bindingsOf e.name =
            (if e.name ∈ e.rids then [] else answer.document.bindingsOf e.name) ++
              [⟨e.name, last.transport⟩] ∧
          (back.remoteView.document.BindsOnce e.name last.transport ↔
            e.name ∈ e.rids ∨ answer.document.binding? e.name = none) := by
  obtain ⟨outcome, phase⟩ := ofOffer_of_patchOffer (fresh_of_patchOffer patched) patched
  obtain ⟨-, sound, registry, own, relayed⟩ := Views.ofOffer_eq_ok_iff.mp outcome
  obtain ⟨surveyed, ready, free⟩ := Registry.surveyed_of_sound sound
  rw [← registry] at surveyed free
  have indexed := surveyed.indexed
  have apart := surveyed.apart free
  have simulcast := Registry.hasSimulcast_of_mem registered
  obtain ⟨first, found, transport⟩ := surveyed.bound_first ready registered
  refine ⟨first, found, ?_, ?_⟩
  · intro rid rides
    rw [Registry.relayOffer, if_pos simulcast] at relayed
    have bound : views.remoteView.document.bindingsOf rid =
        (if rid = e.name then [] else offer.document.bindingsOf rid) ++ [⟨rid, first.transport⟩] := by
      rw [Document.bindingsOf, Registry.fanOut_bindings relayed, own, transport]
      exact Registry.fanOutBindings_of_rid indexed apart registered rides
    refine ⟨bound, (Document.bindsOnce_iff bound).trans ?_⟩
    rw [ite_eq_left_iff, Document.bindingsOf_eq_nil_iff, ← or_iff_not_imp_left]
  · intro calls answer back answered
    obtain ⟨late, kept⟩ := run_late (n := m) (by simp [phase]) calls
    rw [patchAnswer_result late, kept] at answered
    have gathered := Views.relayAnswer_eq_ok answered
    rw [Registry.relayAnswer, if_pos simulcast] at gathered
    obtain ⟨last, given, bound⟩ :=
      Registry.gatherBindings_of_name indexed apart registered (Registry.gather_bindings gathered)
    refine ⟨last, given, bound, (Document.bindsOnce_iff bound).trans ?_⟩
    rw [ite_eq_left_iff, ← or_iff_not_imp_left]
    exact or_congr_right Document.bindingsOf_eq_nil_iff

/-- Both rids of `layeredOffer` are bound once for the peer, the one that its section is named after
as well as the other, and so is the section in the answer. -/
theorem layered_transports_found :
    ∃ views m e back own last, start.perform (patchOffer layeredOffer) = (.ok views, m) ∧
      e ∈ m.registry.entries ∧
      ((m.run []).perform (patchAnswer layeredAnswer)).1 = .ok back ∧
      layeredOffer.document.binding? "v" = some own ∧
      views.remoteView.document.BindsOnce "v" own.transport ∧
      views.remoteView.document.BindsOnce "lo" own.transport ∧
      (layeredAnswer.document.bindings.filter (·.name ∈ ["v", "lo"])).getLast? = some last ∧
      back.remoteView.document.BindsOnce "v" last.transport := by
  have patched : start.perform (patchOffer layeredOffer) = (.ok _, _) := rfl
  obtain ⟨own, found, rids, answered⟩ := transports_by_name patched List.mem_cons_self
  obtain ⟨last, given, -, once⟩ := answered [] layeredAnswer _ rfl
  refine ⟨_, _, _, _, own, last, rfl, List.mem_cons_self, rfl, found, ?_, ?_, given, ?_⟩
  · exact (rids "v" (by decide)).2.mpr (.inl rfl)
  · exact (rids "lo" (by decide)).2.mpr (.inr rfl)
  · exact once.mpr (.inl (by decide))

def strayTransport : Transport :=
  { (default : Transport) with ufrag := "stray" }

/-- An offer that binds a rid before fanning out does. -/
def strayOffer : Description where
  type := .offer
  sessionId := "1"
  sessionVersion := "2"
  document := {
    sections := [
      ⟨"a", .rtp, .ofKind .audio⟩,
      ⟨"v", .rtp, {
        kind := .video
        extensions := [.plain HeaderExtension.midUri 1, .plain HeaderExtension.ridUri 2]
        streams := [⟨"s", [], [⟨"hi", .send⟩, ⟨"lo", .send⟩]⟩]
        simulcast := ⟨Layers.ofRids ["hi", "lo"], []⟩ }⟩]
    groups := []
    bindings := [⟨"a", default⟩, ⟨"hi", strayTransport⟩, ⟨"v", default⟩] }

def strayAnswer : Description where
  type := .answer
  sessionId := "3"
  sessionVersion := "4"
  document := {
    sections := [⟨"a", .rtp, .ofKind .audio⟩, ⟨"hi", .rtp, .ofKind .video⟩,
      ⟨"lo", .rtp, .ofKind .video⟩]
    groups := []
    bindings := [⟨"v", strayTransport⟩, ⟨"hi", default⟩, ⟨"lo", default⟩, ⟨"a", default⟩] }

/-- The bindings that were there first are found, and not those that the rewrites add. -/
theorem strayOffer_bound_twice :
    ∃ views m back, start.perform (patchOffer strayOffer) = (.ok views, m) ∧
      m.registry.entries.map (fun e => (e.name, e.rids)) = [("v", ["hi", "lo"])] ∧
      strayOffer.document.binding? "v" = some ⟨"v", default⟩ ∧
      views.remoteView.document.bindingsOf "hi" =
        [⟨"hi", strayTransport⟩, ⟨"hi", default⟩] ∧
      views.remoteView.document.binding? "hi" = some ⟨"hi", strayTransport⟩ ∧
      ((m.run []).perform (patchAnswer strayAnswer)).1 = .ok back ∧
      back.remoteView.document.bindingsOf "v" = [⟨"v", strayTransport⟩, ⟨"v", default⟩] ∧
      back.remoteView.document.binding? "v" = some ⟨"v", strayTransport⟩ :=
  ⟨_, _, _, rfl, rfl, rfl, rfl, rfl, rfl, rfl, rfl⟩

end Negotiation

end Fanout
