import Fanout.Proofs.InwardAnswer
import Fanout.Proofs.Renumbering

/-! # Looking header extensions up

A section may list several extensions with one uri. A lookup finds the first of them, but a survey
remembers the last, and it is the last that fanning out and gathering go by. So the number that
comes back under a lookup is the one that was offered exactly where the first and the last extension
agree (`extension_lookups_iff`).
-/

namespace Fanout

def Document.extension? (d : Document) (name uri : String) : Option HeaderExtension :=
  (d.section? name).bind (·.media.extension? uri)

namespace Section

variable {s t : Section} {a : Document} {bindings : List Binding} {uri : String}

/-- The first and the last extension for names are the same, and so are those for rids. -/
def Unambiguous (s : Section) : Prop :=
  ∀ uri ∈ [HeaderExtension.midUri, HeaderExtension.ridUri],
    (s.extensionsOf uri).head? = (s.extensionsOf uri).getLast?

theorem eq_of_asked (asked : uri ∈ [HeaderExtension.midUri, HeaderExtension.ridUri]) :
    uri = HeaderExtension.midUri ∨ uri = HeaderExtension.ridUri := by
  simpa using asked

theorem extension?_eq_head? (s : Section) (uri : String) :
    s.media.extension? uri = (s.extensionsOf uri).head? :=
  List.head?_filter.symm

theorem normal_extension? (s : Section) (uri : String) :
    s.normal.media.extension? uri = (s.extensionsOf uri).head? := by
  rw [← extension?_eq_head?]
  unfold normal
  split <;> rfl

theorem uri_of_getLast? {x : HeaderExtension} (last : (s.extensionsOf uri).getLast? = some x) :
    x.uri = uri := by
  simpa using (List.mem_filter.mp (List.mem_of_getLast? last)).2

theorem Complete.extensionsOf_ne_nil (complete : s.Complete bindings)
    (asked : uri ∈ [HeaderExtension.midUri, HeaderExtension.ridUri]) : s.extensionsOf uri ≠ [] := by
  rcases eq_of_asked asked with rfl | rfl
  · exact complete.mid.extensionsOf_ne_nil
  · exact complete.rid.extensionsOf_ne_nil

/-- A lookup in the gathered section finds what is put at the end of its extensions, as no other
extension for names or rids is left. -/
theorem GathersTo.extension?_eq_getLast? (gathers : s.GathersTo a t) (simulcast : s.isSimulcast)
    (asked : uri ∈ [HeaderExtension.midUri, HeaderExtension.ridUri]) :
    t.media.extension? uri = (s.extensionsOf uri).getLast? := by
  cases gathers with
  | plain plain => exact absurd simulcast plain
  | @simulcast first mid carrier _ _ _ lastMid lastRid =>
      have named : mid.uri = HeaderExtension.midUri := uri_of_getLast? lastMid
      have rides : carrier.uri = HeaderExtension.ridUri := uri_of_getLast? lastRid
      have others : (first.media.extensions.filter fun x => x.uri ≠ HeaderExtension.midUri ∧
          x.uri ≠ HeaderExtension.ridUri ∧ x.uri ≠ HeaderExtension.repairedRidUri).find?
            (·.uri = uri) = none := by
        apply List.find?_eq_none.mpr
        intro x kept same
        have apart := of_decide_eq_true (List.mem_filter.mp kept).2
        rcases eq_of_asked asked with rfl | rfl
        · exact apart.1 (of_decide_eq_true same)
        · exact apart.2.1 (of_decide_eq_true same)
      rw [Media.extension?, collected, List.find?_append, others, Option.none_or]
      rcases eq_of_asked asked with rfl | rfl
      · rw [List.find?_cons_of_pos (by simpa using named)]
        exact lastMid.symm
      · have other : mid.uri ≠ HeaderExtension.ridUri := by
          rw [named]
          decide
        rw [List.find?_cons_of_neg (by simpa using other),
          List.find?_cons_of_pos (by simpa using rides)]
        exact lastRid.symm

theorem Complete.ridMedia_extension?_id (complete : s.Complete bindings) :
    (s.ridMedia.extension? HeaderExtension.midUri).map (·.id) =
      (s.extensionsOf HeaderExtension.ridUri).getLast?.map (·.id) := by
  obtain ⟨carrier, last, -⟩ := complete.rid
  obtain ⟨x, rest, given⟩ := List.exists_cons_of_ne_nil complete.mids_ne_nil
  have mid : x.uri = HeaderExtension.midUri := by
    have member : x ∈ s.mids := given ▸ List.mem_cons_self
    simpa using (List.mem_filter.mp member).2
  rw [Media.extension?, ← List.head?_filter, ridMedia_extensions,
    HeaderExtension.filter_mid_renumbered, filter_mid_ridless, given, lastOf_eq, last]
  exact congrArg some (HeaderExtension.renumbered_id_of_mid mid)

end Section

namespace Document

variable {d : Document} {s : Section} {uri : String}

theorem extension?_of_mem (distinct : d.names.Nodup) (member : s ∈ d.sections) (uri : String) :
    d.extension? s.name uri = s.media.extension? uri := by
  have found : d.section? s.name = some s := (Section.find?_eq_some_iff distinct).mpr ⟨member, rfl⟩
  rw [extension?, found, Option.bind_some]

theorem normal_extension? (distinct : d.names.Nodup) (member : s ∈ d.sections) (uri : String) :
    d.normal.extension? s.name uri = (s.extensionsOf uri).head? := by
  have normal : s.normal ∈ d.normal.sections := List.mem_map_of_mem member
  have apart : d.normal.names.Nodup := by rwa [normal_names]
  rw [← Section.normal_name, extension?_of_mem apart normal, Section.normal_extension?]

theorem Acceptable.outward_extension?_id (acceptable : d.Acceptable) (distinct : d.names.Nodup)
    (simulcast : s ∈ d.simulcasts) {rid : String} (own : rid ∈ s.ridNames) :
    (d.outward.extension? rid HeaderExtension.midUri).map (·.id) =
      (s.extensionsOf HeaderExtension.ridUri).getLast?.map (·.id) := by
  have apart : d.outward.names.Nodup := by
    rw [outward_names, ← fannedOut_names]
    exact acceptable.fannedOut_names_nodup distinct
  have layer : (⟨rid, s.protocol, s.ridMedia⟩ : Section) ∈ d.outward.sections := by
    rw [outward_sections]
    apply List.mem_append_right
    exact List.mem_flatMap.mpr ⟨s, simulcast, List.mem_map_of_mem own⟩
  rw [extension?_of_mem apart layer]
  exact (acceptable.complete s simulcast).2.ridMedia_extension?_id

end Document

theorem Registry.Surveyed.gather_extension? {offer answer remote : Description} {r : Registry}
    (surveyed : Surveyed offer.document.bindings offer.document.sections r)
    (distinct : offer.document.names.Nodup) (acceptable : offer.document.Acceptable)
    (gathered : r.gather answer = .ok remote) {s : Section}
    (simulcast : s ∈ offer.document.simulcasts) {uri : String}
    (asked : uri ∈ [HeaderExtension.midUri, HeaderExtension.ridUri]) :
    remote.document.extension? s.name uri = (s.extensionsOf uri).getLast? := by
  obtain ⟨whole, bound, sections, -, rfl⟩ := gather_eq_ok gathered
  obtain ⟨-, names, -, -⟩ := gatherSections_eq_ok sections
  have ordered : r.order = offer.document.names := surveyed.order
  have apart : whole.names.Nodup := names.trans ordered ▸ distinct
  obtain ⟨inside, isSimulcast⟩ := Document.mem_simulcasts.mp simulcast
  obtain ⟨t, member, gathers⟩ :=
    exists_of_forall₂ (surveyed.gatherSections_gathersTo distinct acceptable sections) inside
  have found : whole.extension? s.name uri = t.media.extension? uri := by
    rw [← gathers.named]
    exact Document.extension?_of_mem apart member uri
  exact found.trans (gathers.extension?_eq_getLast? isSimulcast asked)

namespace Negotiation

variable {n m : Negotiation} {offer answer : Description} {views back : Views}

/-- What is found under the uris for names and rids on either side of an accepted answer, and in the
sections of the rids that were offered for it. The offer itself gives the first extension, the
answer brings back the last, and the last number for rids is the one that the peer reads names
under. So a lookup gives the same on both sides exactly where no simulcast section has two that
differ. -/
theorem extension_lookups_iff (distinct : offer.document.names.Nodup)
    (patched : n.perform (patchOffer offer) = (.ok views, m)) (calls : List Call)
    (answered : ((m.run calls).perform (patchAnswer answer)).1 = .ok back) :
    (∀ s ∈ offer.document.simulcasts,
      (∀ uri ∈ [HeaderExtension.midUri, HeaderExtension.ridUri], s.extensionsOf uri ≠ [] ∧
        views.localView.document.extension? s.name uri = (s.extensionsOf uri).head? ∧
        back.remoteView.document.extension? s.name uri = (s.extensionsOf uri).getLast?) ∧
      ∀ rid ∈ s.ridNames,
        (views.remoteView.document.extension? rid HeaderExtension.midUri).map (·.id) =
          (s.extensionsOf HeaderExtension.ridUri).getLast?.map (·.id)) ∧
    ((∀ s ∈ offer.document.simulcasts,
      (∀ uri ∈ [HeaderExtension.midUri, HeaderExtension.ridUri],
        back.remoteView.document.extension? s.name uri =
          views.localView.document.extension? s.name uri) ∧
      ∀ rid ∈ s.ridNames,
        (views.remoteView.document.extension? rid HeaderExtension.midUri).map (·.id) =
          (views.localView.document.extension? s.name HeaderExtension.ridUri).map (·.id)) ↔
      ∀ s ∈ offer.document.simulcasts, s.Unambiguous) := by
  obtain ⟨-, acceptable, surveyed, phase, rfl⟩ :=
    patchOffer_eq_ok (fresh_of_patchOffer patched) distinct patched
  obtain ⟨late, registry⟩ := run_late (n := m) (by simp [phase]) calls
  rw [patchAnswer_result late, registry] at answered
  have gathered := Views.relayAnswer_eq_ok answered
  have offered : ∀ s ∈ offer.document.simulcasts, ∀ uri,
      offer.document.normal.extension? s.name uri = (s.extensionsOf uri).head? :=
    fun s simulcast uri =>
      Document.normal_extension? distinct (Document.mem_simulcasts.mp simulcast).1 uri
  have returned : ∀ s ∈ offer.document.simulcasts,
      ∀ uri ∈ [HeaderExtension.midUri, HeaderExtension.ridUri],
        back.remoteView.document.extension? s.name uri = (s.extensionsOf uri).getLast? := by
    intro s simulcast uri asked
    have layered : m.registry.hasSimulcast :=
      surveyed.hasSimulcast_iff.mpr (List.ne_nil_of_mem simulcast)
    rw [Registry.relayAnswer, if_pos layered] at gathered
    exact surveyed.gather_extension? distinct acceptable gathered simulcast asked
  have carried : ∀ s ∈ offer.document.simulcasts, ∀ rid ∈ s.ridNames,
      (offer.document.outward.extension? rid HeaderExtension.midUri).map (·.id) =
        (s.extensionsOf HeaderExtension.ridUri).getLast?.map (·.id) :=
    fun s simulcast rid own => acceptable.outward_extension?_id distinct simulcast own
  refine ⟨?_, ?_, ?_⟩
  · intro s simulcast
    refine ⟨?_, carried s simulcast⟩
    intro uri asked
    exact ⟨(acceptable.complete s simulcast).2.extensionsOf_ne_nil asked, offered s simulcast uri,
      returned s simulcast uri asked⟩
  · intro same s simulcast uri asked
    rw [← offered s simulcast uri, ← returned s simulcast uri asked]
    exact ((same s simulcast).1 uri asked).symm
  · intro single s simulcast
    constructor
    · intro uri asked
      rw [offered s simulcast, returned s simulcast uri asked, single s simulcast uri asked]
    · intro rid own
      rw [offered s simulcast, carried s simulcast rid own,
        single s simulcast HeaderExtension.ridUri (by simp)]

theorem layered_extension_lookups :
    ∃ views m back, layeredOffer.document.names.Nodup ∧
      start.perform (patchOffer layeredOffer) = (.ok views, m) ∧
      ((m.run []).perform (patchAnswer layeredAnswer)).1 = .ok back ∧
      ∀ uri ∈ [HeaderExtension.midUri, HeaderExtension.ridUri],
        back.remoteView.document.extension? "v" uri =
          views.localView.document.extension? "v" uri := by
  have distinct : layeredOffer.document.names.Nodup := by decide
  have single : ∀ s ∈ layeredOffer.document.simulcasts, s.Unambiguous := by
    unfold Section.Unambiguous
    decide
  have patched : start.perform (patchOffer layeredOffer) = (.ok _, _) := rfl
  obtain ⟨-, same⟩ := @extension_lookups_iff _ _ _ layeredAnswer _ _ distinct patched [] rfl
  exact ⟨_, _, _, distinct, rfl, rfl, (same.mpr single _ List.mem_cons_self).1⟩

/-- An offer that numbers the extension for rids twice. -/
def twofoldOffer : Description where
  type := .offer
  sessionId := "1"
  sessionVersion := "2"
  document := {
    sections := [
      ⟨"v", .rtp, {
        kind := .video
        extensions := [.plain HeaderExtension.midUri 1, .plain HeaderExtension.ridUri 3,
          .plain HeaderExtension.ridUri 4]
        streams := [⟨"s", [], [⟨"hi", .send⟩]⟩]
        simulcast := ⟨Layers.ofRids ["hi"], []⟩ }⟩]
    groups := []
    bindings := [⟨"v", default⟩] }

def twofoldAnswer : Description where
  type := .answer
  sessionId := "3"
  sessionVersion := "4"
  document := {
    sections := [⟨"hi", .rtp, .ofKind .video⟩]
    groups := []
    bindings := [⟨"hi", default⟩] }

/-- The first number for rids is found in the offer, but the last one comes back, and is the one
that the peer reads names under. -/
theorem twofoldOffer_lookups_differ :
    twofoldOffer.document.names.Nodup ∧
    ∃ views m back, start.perform (patchOffer twofoldOffer) = (.ok views, m) ∧
      ((m.run []).perform (patchAnswer twofoldAnswer)).1 = .ok back ∧
      views.localView.document.extension? "v" HeaderExtension.ridUri =
        some (.plain HeaderExtension.ridUri 3) ∧
      back.remoteView.document.extension? "v" HeaderExtension.ridUri =
        some (.plain HeaderExtension.ridUri 4) ∧
      views.remoteView.document.extension? "hi" HeaderExtension.midUri =
        some (.plain HeaderExtension.midUri 4) :=
  ⟨by decide, _, _, _, rfl, rfl, rfl, rfl, rfl⟩

end Negotiation

end Fanout
