import Fanout.Proofs.RoundTrip
import Fanout.Proofs.Validation

/-! # Validity of the views

Fanning out and gathering both leave section names distinct and bindings in order, and both make the
bundle group anew. Other groups stay as they are, so a view is valid exactly when none of them names
a section that is gone. Which those are is a question of names only: a simulcast section is gone
unless it is named after one of its rids, and the section of a rid is gone unless its name is that
of the simulcast section.
-/

namespace Fanout

namespace Document

variable {d : Document} {s : Section}

/-- Where the bundle group is written anew and everything else refers to sections, only the groups
that are kept can be wrong. -/
theorem valid_iff_of_bundled (d : Document) {groups : List Group} (distinct : d.names.Nodup)
    (bundled : d.groups = groups.filter (·.semantics ≠ Group.bundleSemantics) ++
      [Group.ofNames Group.bundleSemantics d.names])
    (bound : ∀ b ∈ d.bindings, b.name ∈ d.names) :
    d.Valid ↔ ∀ g ∈ groups, g.semantics ≠ Group.bundleSemantics →
      ∀ name ∈ g.members, name ∈ d.names := by
  constructor
  · intro valid g member kept
    apply valid.2.1 g
    rw [bundled]
    exact List.mem_append_left _ (List.mem_filter.mpr ⟨member, by simpa using kept⟩)
  · intro kept
    refine ⟨distinct, ?_, bound⟩
    intro g member
    rw [bundled, Group.ofNames_of_nodup _ distinct] at member
    rcases List.mem_append.mp member with old | new
    · obtain ⟨inside, other⟩ := List.mem_filter.mp old
      exact kept g inside (by simpa using other)
    · obtain rfl := List.mem_singleton.mp new
      exact fun name named => named

theorem normal_valid_iff : d.normal.Valid ↔ d.Valid := by
  simp only [Valid, normal_names]
  rfl

theorem mem_fannedOut_of_plain {name : String} (present : name ∈ d.names)
    (plain : name ∉ d.simulcasts.map (·.name)) : name ∈ d.fannedOut.names := by
  obtain ⟨s, inside, rfl⟩ := List.mem_map.mp present
  rw [fannedOut_names]
  refine List.mem_append_left _ (List.mem_map_of_mem (mem_plains.mpr ⟨inside, ?_⟩))
  exact fun yes => plain (List.mem_map_of_mem (mem_simulcasts.mpr ⟨inside, yes⟩))

theorem fannedOut_bound (bound : ∀ b ∈ d.bindings, b.name ∈ d.names) :
    ∀ b ∈ d.fannedOut.bindings, b.name ∈ d.fannedOut.names := by
  intro b member
  rcases List.mem_append.mp member with old | new
  · obtain ⟨inside, plain⟩ := List.mem_filter.mp old
    exact mem_fannedOut_of_plain (bound b inside) (by simpa using plain)
  · obtain ⟨s, simulcast, new⟩ := List.mem_flatMap.mp new
    obtain ⟨rid, own, rfl⟩ := List.mem_map.mp new
    rw [fannedOut_names]
    exact List.mem_append_right _ (List.mem_flatMap.mpr ⟨s, simulcast, own⟩)

namespace Acceptable

theorem name_mem_fannedOut_iff (acceptable : d.Acceptable) (distinct : d.names.Nodup)
    (simulcast : s ∈ d.simulcasts) : s.name ∈ d.fannedOut.names ↔ s.name ∈ s.ridNames := by
  have inside := (mem_simulcasts.mp simulcast).1
  rw [fannedOut_names, List.mem_append]
  constructor
  · intro here
    rcases here with plain | rid
    · exact absurd plain (simulcast_name_not_plain distinct simulcast)
    · obtain ⟨t, tMember, own⟩ := List.mem_flatMap.mp rid
      by_cases same : s = t
      · exact same ▸ own
      · exact absurd ⟨s, inside, same, rfl⟩ (acceptable.apart t tMember s.name own)
  · intro own
    exact .inr (List.mem_flatMap.mpr ⟨s, simulcast, own⟩)

theorem rid_mem_names_iff (acceptable : d.Acceptable) (simulcast : s ∈ d.simulcasts) {rid : String}
    (own : rid ∈ s.ridNames) : rid ∈ d.simulcasts.map (·.name) ↔ rid = s.name := by
  constructor
  · intro named
    obtain ⟨t, tMember, rfl⟩ := List.mem_map.mp named
    by_cases same : t = s
    · rw [same]
    · exact absurd ⟨t, (mem_simulcasts.mp tMember).1, same, rfl⟩
        (acceptable.apart s simulcast t.name own)
  · rintro rfl
    exact List.mem_map_of_mem simulcast

theorem fannedOut_valid_iff (acceptable : d.Acceptable) (valid : d.Valid) :
    d.fannedOut.Valid ↔ ∀ g ∈ d.groups, g.semantics ≠ Group.bundleSemantics →
      ∀ s ∈ d.simulcasts, s.name ∈ g.members → s.name ∈ s.ridNames := by
  rw [d.fannedOut.valid_iff_of_bundled (acceptable.fannedOut_names_nodup valid.1) rfl
    (fannedOut_bound valid.2.2)]
  constructor
  · intro kept g member other s simulcast named
    exact (acceptable.name_mem_fannedOut_iff valid.1 simulcast).mp
      (kept g member other s.name named)
  · intro own g member other name named
    by_cases simulcast : name ∈ d.simulcasts.map (·.name)
    · obtain ⟨s, sMember, rfl⟩ := List.mem_map.mp simulcast
      exact (acceptable.name_mem_fannedOut_iff valid.1 sMember).mpr
        (own g member other s sMember named)
    · exact mem_fannedOut_of_plain (valid.2.1 g member name named) simulcast

theorem outward_valid (acceptable : d.Acceptable) (valid : d.Valid) :
    d.outward.names.Nodup ∧ (∀ b ∈ d.outward.bindings, b.name ∈ d.outward.names) ∧
    (d.outward.Valid ↔ ∀ g ∈ d.groups, g.semantics ≠ Group.bundleSemantics →
      ∀ s ∈ d.simulcasts, s.name ∈ g.members → s.name ∈ s.ridNames) := by
  by_cases plain : d.simulcasts = []
  · rw [outward, if_pos plain]
    refine ⟨valid.1, valid.2.2, fun _ => ?_, fun _ => valid⟩
    simp [plain]
  · rw [outward, if_neg plain]
    exact ⟨acceptable.fannedOut_names_nodup valid.1, fannedOut_bound valid.2.2,
      acceptable.fannedOut_valid_iff valid⟩

end Acceptable

end Document

namespace Registry

variable {r : Registry} {answer remote : Description} {d : Document}

/-- Of the names in an answer, gathering drops those of rids, unless it gives the name back. -/
theorem mem_order_iff (name : String) (distinct : d.names.Nodup)
    (subset : ∀ name ∈ r.names, name ∈ r.order)
    (perm : (r.names ++ d.names).Perm (r.rids ++ r.order)) (present : name ∈ d.names) :
    name ∈ r.order ↔ (name ∈ r.rids → name ∈ r.names) := by
  constructor
  · intro ordered rid
    -- the name stands on the right twice, and only once among those of the answer
    have counts := perm.count_eq name
    rw [List.count_append, List.count_append] at counts
    have once := List.nodup_iff_count_le_one.mp distinct name
    have left := List.count_pos_iff.mpr ordered
    have right := List.count_pos_iff.mpr rid
    exact List.count_pos_iff.mp (by omega)
  · intro back
    by_cases rid : name ∈ r.rids
    · exact subset name (back rid)
    · rcases List.mem_append.mp (perm.subset (List.mem_append_right _ present)) with gone | kept
      · exact absurd gone rid
      · exact kept

theorem gather_eq_ok (gathered : r.gather answer = .ok remote) :
    ∃ d' bound, r.gatherSections answer.document = .ok d' ∧
      r.gatherBindings d'.bindings = .ok bound ∧
      remote = { answer with type := .answer, document := { d' with bindings := bound } } := by
  obtain ⟨d', sections, gathered⟩ := bind_eq_ok.mp gathered
  obtain ⟨bound, bindings, same⟩ := bind_eq_ok.mp gathered
  cases same
  exact ⟨d', bound, sections, bindings, rfl⟩

theorem gather_valid (indexed : r.Indexed) (ordered : r.order.Nodup)
    (subset : ∀ name ∈ r.names, name ∈ r.order) (valid : answer.document.Valid)
    (gathered : r.gather answer = .ok remote) :
    remote.document.names.Nodup ∧
    (∀ b ∈ remote.document.bindings, b.name ∈ remote.document.names) ∧
    (remote.document.Valid ↔ ∀ g ∈ answer.document.groups, g.semantics ≠ Group.bundleSemantics →
      ∀ name ∈ g.members, name ∈ r.rids → name ∈ r.names) := by
  obtain ⟨d', bound, sections, bindings, rfl⟩ := gather_eq_ok gathered
  obtain ⟨perm, names, groups, kept⟩ := gatherSections_eq_ok sections
  obtain ⟨stands, related, rfl⟩ := (gatherBindings_eq_ok_iff indexed).mp bindings
  have left := fun name => mem_order_iff name valid.1 subset perm
  have distinct : d'.names.Nodup := names ▸ ordered
  have named : ∀ b ∈ d'.bindings.filter (·.name ∉ r.rids) ++ stands, b.name ∈ d'.names := by
    intro b member
    rw [names]
    rcases List.mem_append.mp member with old | new
    · obtain ⟨inside, other⟩ := List.mem_filter.mp old
      rw [kept] at inside
      exact (left b.name (valid.2.2 b inside)).mpr fun rid => absurd rid (by simpa using other)
    · have stood := List.mem_map_of_mem (f := (·.name)) new
      rw [names_of_boundLast related] at stood
      exact subset b.name stood
  refine ⟨distinct, named, ?_⟩
  let whole : Document :=
    ⟨d'.sections, d'.groups, d'.bindings.filter (·.name ∉ r.rids) ++ stands⟩
  have wholeNames : whole.names = r.order := names
  rw [← wholeNames] at groups
  refine (whole.valid_iff_of_bundled distinct groups named).trans ?_
  rw [wholeNames]
  constructor
  · intro here g member other name inside
    exact (left name (valid.2.1 g member name inside)).mp (here g member other name inside)
  · intro back g member other name inside
    exact (left name (valid.2.1 g member name inside)).mpr (back g member other name inside)

theorem Surveyed.relayAnswer_valid {d : Document} (surveyed : Surveyed d.bindings d.sections r)
    (distinct : d.names.Nodup) (acceptable : d.Acceptable) (valid : answer.document.Valid)
    (relayed : r.relayAnswer answer = .ok remote) :
    remote.document.names.Nodup ∧
    (∀ b ∈ remote.document.bindings, b.name ∈ remote.document.names) ∧
    (remote.document.Valid ↔ ∀ g ∈ answer.document.groups, g.semantics ≠ Group.bundleSemantics →
      ∀ s ∈ d.simulcasts, ∀ rid ∈ s.ridNames, rid ∈ g.members → rid = s.name) := by
  by_cases simulcast : r.hasSimulcast
  · rw [relayAnswer, if_pos simulcast] at relayed
    have ordered : r.order.Nodup := surveyed.order ▸ distinct
    have subset : ∀ name ∈ r.names, name ∈ r.order := by
      intro name named
      rw [surveyed.names_eq] at named
      rw [surveyed.order]
      exact (List.filter_sublist.map _).subset named
    obtain ⟨names, bound, iff⟩ := gather_valid surveyed.indexed ordered subset valid relayed
    refine ⟨names, bound, iff.trans ?_⟩
    rw [surveyed.names_eq, surveyed.rids]
    constructor
    · intro back g member other s sMember rid own inside
      exact (acceptable.rid_mem_names_iff sMember own).mp
        (back g member other rid inside (List.mem_flatMap.mpr ⟨s, sMember, own⟩))
    · intro same g member other name inside rid
      obtain ⟨s, sMember, own⟩ := List.mem_flatMap.mp rid
      exact (acceptable.rid_mem_names_iff sMember own).mpr
        (same g member other s sMember name own inside)
  · rw [relayAnswer, if_neg simulcast] at relayed
    cases relayed
    have none : d.simulcasts = [] := not_not.mp (mt surveyed.hasSimulcast_iff.mpr simulcast)
    refine ⟨valid.1, valid.2.2, fun _ => ?_, fun _ => valid⟩
    simp [none]

end Registry

theorem Views.relayAnswer_eq_ok {r : Registry} {answer : Description} {views : Views}
    (patched : Views.ofAnswer r answer = .ok views) :
    r.relayAnswer answer = .ok views.remoteView := by
  obtain ⟨-, -, patched⟩ := bind_eq_ok.mp patched
  obtain ⟨remote, relayed, same⟩ := bind_eq_ok.mp patched
  cases same
  exact relayed

namespace Negotiation

variable {n m : Negotiation} {offer : Description} {views : Views}

/-- The local view of a valid offer is valid. Each remote view has distinct section names and no
binding of a section it lacks, and it is valid exactly when no group but the bundle names a section
that fanning out or gathering removed. -/
theorem views_validate_iff (fresh : n.phase = .fresh) (valid : offer.document.validate = .ok ())
    (patched : n.perform (patchOffer offer) = (.ok views, m)) :
    views.localView.document.validate = .ok () ∧
    views.remoteView.document.names.Nodup ∧
    (∀ b ∈ views.remoteView.document.bindings, b.name ∈ views.remoteView.document.names) ∧
    (views.remoteView.document.validate = .ok () ↔
      ∀ g ∈ offer.document.groups, g.semantics ≠ Group.bundleSemantics →
        ∀ s ∈ offer.document.simulcasts, s.name ∈ g.members → s.name ∈ s.ridNames) ∧
    ∀ answer back, answer.document.validate = .ok () →
      (m.perform (patchAnswer answer)).1 = .ok back →
      back.remoteView.document.names.Nodup ∧
      (∀ b ∈ back.remoteView.document.bindings, b.name ∈ back.remoteView.document.names) ∧
      (back.remoteView.document.validate = .ok () ↔
        ∀ g ∈ answer.document.groups, g.semantics ≠ Group.bundleSemantics →
          ∀ s ∈ offer.document.simulcasts, ∀ rid ∈ s.ridNames,
            rid ∈ g.members → rid = s.name) := by
  simp only [Document.validate_eq_ok_iff] at valid ⊢
  obtain ⟨-, acceptable, surveyed, phase, rfl⟩ := patchOffer_eq_ok fresh valid.1 patched
  obtain ⟨names, bound, offered⟩ := acceptable.outward_valid valid
  refine ⟨Document.normal_valid_iff.mpr valid, names, bound, offered, ?_⟩
  intro answer back aValid answered
  have late : m.phase ≠ .fresh := by simp [phase]
  rw [perform_patchAnswer late] at answered
  cases outcome : Views.ofAnswer m.registry answer with
  | error fault =>
      rw [outcome] at answered
      cases answered
  | ok found =>
      rw [outcome] at answered
      cases answered
      exact surveyed.relayAnswer_valid valid.1 acceptable aValid
        (Views.relayAnswer_eq_ok outcome)

theorem layered_views_validate :
    ∃ views back m, start.phase = .fresh ∧ layeredOffer.document.validate = .ok () ∧
      start.perform (patchOffer layeredOffer) = (.ok views, m) ∧
      views.localView.document.validate = .ok () ∧
      views.remoteView.document.validate = .ok () ∧
      layeredAnswer.document.validate = .ok () ∧
      (m.perform (patchAnswer layeredAnswer)).1 = .ok back ∧
      back.remoteView.document.validate = .ok () := by
  obtain ⟨own, -, -, remote, answered⟩ :=
    @views_validate_iff start _ layeredOffer _ rfl rfl rfl
  obtain ⟨-, -, back⟩ := answered layeredAnswer _ rfl rfl
  exact ⟨_, _, _, rfl, rfl, rfl, own, remote.mpr (by decide), rfl, rfl, back.mpr (by decide)⟩

/-- An offer with a group besides the bundle that names a simulcast section. -/
def pairedOffer : Description where
  type := .offer
  sessionId := "1"
  sessionVersion := "2"
  document := {
    sections := [
      ⟨"a", .rtp, .ofKind .audio⟩,
      ⟨"v", .rtp, {
        kind := .video
        extensions := [.plain HeaderExtension.midUri 1, .plain HeaderExtension.ridUri 2]
        streams := [⟨"s", [], [⟨"hi", .send⟩, ⟨"lo", .send⟩]⟩]
        simulcast := ⟨Layers.ofRids ["hi", "lo"], []⟩ }⟩]
    groups := [⟨Group.bundleSemantics, ["a", "v"]⟩, ⟨"LS", ["a", "v"]⟩]
    bindings := [⟨"a", default⟩, ⟨"v", default⟩] }

theorem pairedOffer_remote_invalid :
    ∃ views m, pairedOffer.document.validate = .ok () ∧
      start.perform (patchOffer pairedOffer) = (.ok views, m) ∧
      views.remoteView.document.validate = .error (.unknownName "group LS" "v") :=
  ⟨_, _, rfl, rfl, rfl⟩

end Negotiation

end Fanout
