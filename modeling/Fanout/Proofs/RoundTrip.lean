import Fanout.Proofs.Acceptance
import Fanout.Proofs.Bundling
import Fanout.Proofs.Gather

/-! # Gathering a mirrored answer

A peer that takes every section of the fanned out offer, in whatever order, is answered for by an
answer to the offer itself. Gathering keeps only the multiset of sections in view until they are
arranged, so the order of the answer cannot matter. Two names have to be told apart all along: the
name that a simulcast section gets back must not be that of a section still to be gathered, unless
it is one of its own rids, which is gone by then (`foldlM_gather_mirrored`).
-/

namespace Fanout

namespace Section

def silent (s : Section) : Section :=
  { s with media := { s.media with streams := [] } }

/-- What a mirrored answer holds for the rids of a section. -/
def mirrored (s : Section) : List Section :=
  s.fannedOut.map silent

def gathered (s : Section) : Section where
  name := s.name
  protocol := s.protocol
  media := { s.media with
    extensions := s.media.extensions.filter (fun x =>
      x.uri ≠ HeaderExtension.midUri ∧ x.uri ≠ HeaderExtension.ridUri ∧
        x.uri ≠ HeaderExtension.repairedRidUri) ++
      [HeaderExtension.lastOf s.media.extensions HeaderExtension.midUri,
        HeaderExtension.lastOf s.media.extensions HeaderExtension.ridUri]
    streams := [⟨"", [], s.ridNames.map fun rid => ⟨rid, .receive⟩⟩]
    simulcast := ⟨[], Layers.ofRids s.ridNames⟩ }

/-- What a mirrored answer comes to for a section of the offer. -/
def returned (s : Section) : Section :=
  if s.isSimulcast then s.gathered else s.silent

@[simp] theorem silent_name (s : Section) : s.silent.name = s.name := rfl

@[simp] theorem returned_name (s : Section) : s.returned.name = s.name := by
  unfold returned
  split <;> rfl

theorem mirrored_names (s : Section) : s.mirrored.map (·.name) = s.ridNames := by
  rw [mirrored, List.map_map]
  exact s.fannedOut_names

theorem flatMap_mirrored_names (sections : List Section) :
    (sections.flatMap mirrored).map (·.name) = sections.flatMap (·.ridNames) := by
  simp only [List.map_flatMap, mirrored_names]

end Section

/-- Fanning out renumbers only what gathering drops. -/
theorem HeaderExtension.filter_renumbered (id : UInt16) (extensions : List HeaderExtension) :
    ((extensions.filter fun x => x.uri ≠ ridUri ∧ x.uri ≠ repairedRidUri).map fun x =>
        if x.uri = midUri then { x with id := id } else x).filter
      (fun x => x.uri ≠ midUri ∧ x.uri ≠ ridUri ∧ x.uri ≠ repairedRidUri) =
      extensions.filter fun x => x.uri ≠ midUri ∧ x.uri ≠ ridUri ∧ x.uri ≠ repairedRidUri := by
  induction extensions with
  | nil => rfl
  | cons x rest ih =>
      by_cases kept : x.uri ≠ ridUri ∧ x.uri ≠ repairedRidUri
      · by_cases mid : x.uri = midUri
        · rw [List.filter_cons_of_pos (by simpa using kept), List.map_cons, if_pos mid,
            List.filter_cons_of_neg (by simp [mid]), List.filter_cons_of_neg (by simp [mid])]
          exact ih
        · rw [List.filter_cons_of_pos (by simpa using kept), List.map_cons, if_neg mid,
            List.filter_cons_of_pos (by simpa using ⟨mid, kept⟩),
            List.filter_cons_of_pos (by simpa using ⟨mid, kept⟩), ih]
      · have gone : ¬ (x.uri ≠ midUri ∧ x.uri ≠ ridUri ∧ x.uri ≠ repairedRidUri) :=
          fun all => kept all.2
        rw [List.filter_cons_of_neg (by simpa using kept),
          List.filter_cons_of_neg (by simpa using gone)]
        exact ih

theorem Entry.gatherMedia_mirrored (bindings : List Binding) (s : Section) :
    (Entry.describing bindings s).gatherMedia { s.ridMedia with streams := [] } =
      .ok s.gathered.media := by
  have extensions := HeaderExtension.filter_renumbered
    (HeaderExtension.lastOf s.media.extensions HeaderExtension.ridUri).id s.media.extensions
  simp only [gatherMedia, gatherExtensions, Section.ridMedia, List.isEmpty_nil, if_true, extensions]
  rfl

/-- One entry puts the sections of its rids together, provided no other section has its name. -/
theorem Entry.gather_mirrored {bindings : List Binding} {s : Section} {rest : List Section}
    {d : Document} (complete : s.Complete bindings) (distinct : d.names.Nodup)
    (unnamed : s.name ∉ rest.map (·.name)) (perm : d.sections.Perm (s.mirrored ++ rest)) :
    ∃ sections, Entry.gather d (Entry.describing bindings s) =
        .ok { d with sections := sections } ∧
      sections.Perm (s.gathered :: rest) ∧ (sections.map (·.name)).Nodup := by
  obtain ⟨rid, rids, given⟩ := List.exists_cons_of_ne_nil complete.ridNames_ne_nil
  have split : s.mirrored =
      Section.silent ⟨rid, s.protocol, s.ridMedia⟩ ::
        rids.map fun rid => Section.silent ⟨rid, s.protocol, s.ridMedia⟩ := by
    simp [Section.mirrored, Section.fannedOut, given]
  obtain ⟨left, gathered, leftPerm⟩ :=
    Entry.gather_of_perm (e := Entry.describing bindings s) distinct (split ▸ perm)
      (by rw [← split]; exact s.mirrored_names.symm) (Entry.gatherMedia_mirrored bindings s)
  have restDistinct : (rest.map (·.name)).Nodup :=
    ((perm.map _).nodup_iff.mp distinct).sublist ((List.sublist_append_right _ _).map _)
  have next : (left ++ [s.gathered]).Perm (s.gathered :: rest) :=
    (List.perm_append_singleton s.gathered left).trans (leftPerm.cons s.gathered)
  refine ⟨left ++ [s.gathered], gathered, next, ?_⟩
  rw [(next.map _).nodup_iff]
  exact List.nodup_cons.mpr ⟨unnamed, restDistinct⟩

/-- Entries are gathered one after the other. What they gather is `others` to the entries after
them, and none of those looks for it. -/
theorem foldlM_gather_mirrored {bindings : List Binding} {simulcasts others : List Section}
    {d : Document} (complete : ∀ s ∈ simulcasts, s.Complete bindings)
    (apart : simulcasts.Pairwise fun s t => s.name ∉ t.ridNames ∧ s.name ≠ t.name)
    (free : ∀ s ∈ simulcasts, s.name ∉ others.map (·.name)) (distinct : d.names.Nodup)
    (perm : d.sections.Perm (simulcasts.flatMap Section.mirrored ++ others)) :
    ∃ sections, (simulcasts.map (Entry.describing bindings)).foldlM Entry.gather d =
        .ok { d with sections := sections } ∧
      sections.Perm (simulcasts.map Section.gathered ++ others) := by
  induction simulcasts generalizing others d with
  | nil => exact ⟨d.sections, rfl, perm⟩
  | cons s rest ih =>
      obtain ⟨sApart, restApart⟩ := List.pairwise_cons.mp apart
      rw [List.flatMap_cons, List.append_assoc] at perm
      have unnamed : s.name ∉ (rest.flatMap Section.mirrored ++ others).map (·.name) := by
        rw [List.map_append, Section.flatMap_mirrored_names, List.mem_append, not_or]
        refine ⟨?_, free s List.mem_cons_self⟩
        intro taken
        obtain ⟨t, member, own⟩ := List.mem_flatMap.mp taken
        exact (sApart t member).1 own
      obtain ⟨next, first, nextPerm, nextDistinct⟩ :=
        Entry.gather_mirrored (complete s List.mem_cons_self) distinct unnamed perm
      have nextFree : ∀ t ∈ rest, t.name ∉ (s.gathered :: others).map (·.name) := by
        intro t member
        rw [List.map_cons, List.mem_cons, not_or]
        exact ⟨fun same => (sApart t member).2 same.symm, free t (List.mem_cons_of_mem _ member)⟩
      obtain ⟨sections, folded, same⟩ := ih (d := { d with sections := next })
        (fun t member => complete t (List.mem_cons_of_mem _ member)) restApart nextFree
        nextDistinct (nextPerm.trans List.perm_middle.symm)
      refine ⟨sections, ?_, same.trans List.perm_middle⟩
      rw [List.map_cons, List.foldlM_cons, first]
      exact folded

namespace Document

variable {d : Document}

theorem returned_perm (d : Document) :
    (d.sections.map Section.returned).Perm
      (d.simulcasts.map Section.gathered ++ d.plains.map Section.silent) := by
  have simulcasts : d.simulcasts.map Section.returned = d.simulcasts.map Section.gathered := by
    apply List.map_congr_left
    intro s member
    exact if_pos (mem_simulcasts.mp member).2
  have plains : d.plains.map Section.returned = d.plains.map Section.silent := by
    apply List.map_congr_left
    intro s member
    exact if_neg (mem_plains.mp member).2
  rw [← simulcasts, ← plains, ← List.map_append]
  exact ((List.filter_append_perm _ _).map _).symm

theorem Acceptable.simulcasts_apart (acceptable : d.Acceptable) (distinct : d.names.Nodup) :
    d.simulcasts.Pairwise fun s t => s.name ∉ t.ridNames ∧ s.name ≠ t.name := by
  apply List.Nodup.pairwise_of_forall_ne (simulcasts_names_nodup distinct).of_map
  intro s sMember t tMember other
  have sInside := (mem_simulcasts.mp sMember).1
  have tInside := (mem_simulcasts.mp tMember).1
  constructor
  · intro own
    exact acceptable.apart t tMember s.name own ⟨s, sInside, other, rfl⟩
  · intro same
    exact other (List.inj_on_of_nodup_map distinct sInside tInside same)

end Document

namespace Registry.Surveyed

variable {d a : Document} {r : Registry}

theorem gatherSections_mirrored (surveyed : Surveyed d.bindings d.sections r)
    (distinct : d.names.Nodup) (acceptable : d.Acceptable)
    (perm : a.sections.Perm (d.fannedOut.sections.map Section.silent)) :
    r.gatherSections a =
      .ok (Document.bundle { a with sections := d.sections.map Section.returned }) := by
  have silentNames :
      (d.fannedOut.sections.map Section.silent).map (·.name) = d.fannedOut.names := by
    simp [Document.names, Function.comp_def]
  have aDistinct : a.names.Nodup := by
    rw [Document.names, (perm.map _).nodup_iff, silentNames]
    exact acceptable.fannedOut_names_nodup distinct
  have aPerm : a.sections.Perm
      (d.simulcasts.flatMap Section.mirrored ++ d.plains.map Section.silent) := by
    refine perm.trans ?_
    rw [Document.fannedOut, Document.bundle, List.map_append, List.map_flatMap]
    exact List.perm_append_comm
  have free : ∀ s ∈ d.simulcasts, s.name ∉ (d.plains.map Section.silent).map (·.name) := by
    intro s member
    rw [List.map_map]
    exact Document.simulcast_name_not_plain distinct member
  obtain ⟨sections, folded, gatheredPerm⟩ := foldlM_gather_mirrored
    (fun s member => (acceptable.complete s member).2) (acceptable.simulcasts_apart distinct) free
    aDistinct aPerm
  have wanted := d.returned_perm.trans gatheredPerm.symm
  have names : (d.sections.map Section.returned).map (·.name) = r.order := by
    simp [surveyed.order, Function.comp_def]
  have sectionsDistinct : (sections.map (·.name)).Nodup := by
    rw [← (wanted.map _).nodup_iff, names, surveyed.order]
    exact distinct
  have arranged := Document.arrange_of_perm (d := { a with sections := sections })
    sectionsDistinct wanted
  rw [names] at arranged
  rw [gatherSections, surveyed.entries_eq, folded]
  simp only [bind, Except.bind, arranged]

end Registry.Surveyed

namespace Section

variable {s t : Section} {bindings : List Binding}

theorem normal_of_simulcast (simulcast : s.isSimulcast) : s.normal = s.explicit s.ridNames :=
  if_pos simulcast

theorem normal_ridNames (simulcast : s.isSimulcast) (complete : s.Complete bindings) :
    s.normal.ridNames = s.ridNames := by
  obtain ⟨stream, one, -⟩ := complete.stream
  rw [normal_of_simulcast simulcast]
  simp [ridNames, explicit, one, Function.comp_def]

theorem normal_isSimulcast (complete : s.isSimulcast → s.Complete bindings) :
    s.normal.isSimulcast = s.isSimulcast := by
  by_cases simulcast : s.isSimulcast
  · rw [simulcast, normal_of_simulcast simulcast]
    exact explicit_isSimulcast simulcast (complete simulcast).ridNames_ne_nil
  · rw [normal_of_plain simulcast]

/-- A section of an answer takes part in simulcast as a section of the offer asks for: it is told
apart by the same extensions, receives every rid, and layers them as they are sent. -/
structure Answers (t s : Section) : Prop where
  name : t.name = s.name
  protocol : t.protocol = s.protocol
  kind : t.media.kind = .video
  extensions : ∃ mid rid,
    (s.extensionsOf HeaderExtension.midUri).getLast? = some mid ∧
    (s.extensionsOf HeaderExtension.ridUri).getLast? = some rid ∧
    t.media.extensions = s.media.extensions.filter (fun x =>
      x.uri ≠ HeaderExtension.midUri ∧ x.uri ≠ HeaderExtension.ridUri ∧
        x.uri ≠ HeaderExtension.repairedRidUri) ++ [mid, rid]
  streams : t.media.streams = [⟨"", [], s.ridNames.map fun rid => ⟨rid, .receive⟩⟩]
  simulcast : t.media.simulcast = ⟨[], s.media.simulcast.send⟩

theorem gathered_answers (simulcast : s.isSimulcast) (complete : s.Complete bindings) :
    s.gathered.Answers s.normal := by
  have normal := normal_of_simulcast simulcast
  obtain ⟨mid, lastMid, -⟩ := complete.mid
  obtain ⟨rid, lastRid, -⟩ := complete.rid
  refine ⟨s.normal_name.symm, ?_, ?_, ⟨mid, rid, ?_, ?_, ?_⟩, ?_, ?_⟩
  · rw [normal]
    rfl
  · exact kind_of_simulcast (s := s) simulcast
  · rw [normal]
    exact lastMid
  · rw [normal]
    exact lastRid
  · rw [normal]
    simp only [gathered, lastOf_eq, lastMid, lastRid, Option.getD_some]
    rfl
  · rw [normal_ridNames simulcast complete]
    rfl
  · rw [normal]
    rfl

end Section

namespace Document.Acceptable

variable {d : Document}

theorem normal_simulcasts (acceptable : d.Acceptable) :
    d.normal.simulcasts = d.simulcasts.map Section.normal := by
  rw [simulcasts, normal, List.filter_map, simulcasts]
  congr 1
  apply List.filter_congr
  intro s member
  exact Section.normal_isSimulcast (acceptable.surveyable.complete s member)

theorem normal_simulcastRids (acceptable : d.Acceptable) :
    Section.simulcastRids d.normal.sections = Section.simulcastRids d.sections := by
  change d.normal.simulcasts.flatMap _ = d.simulcasts.flatMap _
  rw [acceptable.normal_simulcasts, List.flatMap_map]
  apply List.flatMap_congr
  intro s member
  exact Section.normal_ridNames (acceptable.complete s member).1 (acceptable.complete s member).2

end Document.Acceptable

/-- An answer takes up each section of a fanned out offer as it is, sends nothing, and binds each of
them to one transport. -/
structure Description.Mirrors (answer offer : Description) : Prop where
  type : answer.type = .answer
  sections : answer.document.sections.Perm (offer.document.sections.map Section.silent)
  bindings : (answer.document.bindings.map (·.name)).Perm offer.document.names

/-- An answer to the offer itself, made from an answer to the fanned out offer. -/
structure Description.Restores (remote answer offer : Description) : Prop where
  type : remote.type = .answer
  sessionId : remote.sessionId = answer.sessionId
  sessionVersion : remote.sessionVersion = answer.sessionVersion
  names : remote.document.names = offer.document.names
  simulcast : ∀ s ∈ offer.document.simulcasts, ∃ t ∈ remote.document.sections, t.Answers s
  plain : ∀ t ∈ answer.document.sections,
    t.name ∉ Section.simulcastRids offer.document.sections → t ∈ remote.document.sections
  groups : remote.document.groups =
    answer.document.groups.filter (·.semantics ≠ Group.bundleSemantics) ++
      [⟨Group.bundleSemantics, offer.document.names⟩]
  bindings : ∃ gathered, remote.document.bindings =
      answer.document.bindings.filter
        (·.name ∉ Section.simulcastRids offer.document.sections) ++ gathered ∧
    gathered.map (·.name) = offer.document.simulcasts.map (·.name) ∧
    ∀ s ∈ offer.document.simulcasts, ∃ last,
      (answer.document.bindings.filter (·.name ∈ s.ridNames)).getLast? = some last ∧
      ⟨s.name, last.transport⟩ ∈ gathered

namespace Registry.Surveyed

variable {offer answer : Description} {r : Registry}

theorem rids_bound {d : Document} {bound : List Binding}
    (surveyed : Surveyed d.bindings d.sections r) (acceptable : d.Acceptable)
    (names : (bound.map (·.name)).Perm d.fannedOut.names) :
    ∀ e ∈ r.entries, ∃ b ∈ bound, b.name ∈ e.rids := by
  intro e member
  rw [surveyed.entries_eq] at member
  obtain ⟨s, simulcast, rfl⟩ := List.mem_map.mp member
  obtain ⟨-, complete⟩ := acceptable.complete s simulcast
  obtain ⟨rid, own⟩ := List.exists_mem_of_ne_nil _ complete.ridNames_ne_nil
  have named : rid ∈ d.fannedOut.names := by
    rw [Document.fannedOut_names]
    exact List.mem_append_right _ (List.mem_flatMap.mpr ⟨s, simulcast, own⟩)
  obtain ⟨b, present, same⟩ := List.mem_map.mp (names.symm.subset named)
  exact ⟨b, present, same ▸ own⟩

theorem gather_mirrored (surveyed : Surveyed offer.document.bindings offer.document.sections r)
    (distinct : offer.document.names.Nodup) (acceptable : offer.document.Acceptable)
    (sections : answer.document.sections.Perm
      (offer.document.fannedOut.sections.map Section.silent))
    (names : (answer.document.bindings.map (·.name)).Perm offer.document.fannedOut.names) :
    ∃ remote, r.gather answer = .ok remote ∧
      remote.Restores answer { offer with document := offer.document.normal } := by
  have gathered := surveyed.gatherSections_mirrored distinct acceptable sections
  obtain ⟨stands, bound, standNames, last⟩ :=
    gatherBindings_of_bound surveyed.indexed (surveyed.rids_bound acceptable names)
  refine ⟨_, bind_eq_ok.mpr ⟨_, gathered, bind_eq_ok.mpr ⟨_, bound, rfl⟩⟩, ?_⟩
  have namesBack : (offer.document.sections.map Section.returned).map (·.name) =
      offer.document.names := by
    simp [Document.names, Function.comp_def]
  constructor
  case type | sessionId | sessionVersion => rfl
  case names => exact namesBack.trans (Document.normal_names _).symm
  case simulcast =>
      intro s member
      rw [acceptable.normal_simulcasts] at member
      obtain ⟨t, tMember, rfl⟩ := List.mem_map.mp member
      obtain ⟨simulcast, complete⟩ := acceptable.complete t tMember
      refine ⟨t.gathered, ?_, Section.gathered_answers simulcast complete⟩
      exact List.mem_map.mpr ⟨t, (Document.mem_simulcasts.mp tMember).1, if_pos simulcast⟩
  case plain =>
      intro t member other
      rw [acceptable.normal_simulcastRids] at other
      obtain ⟨u, uMember, rfl⟩ := List.mem_map.mp (sections.subset member)
      rcases List.mem_append.mp uMember with plain | stood
      · obtain ⟨inside, uPlain⟩ := Document.mem_plains.mp plain
        exact List.mem_map.mpr ⟨u, inside, if_neg uPlain⟩
      · have own : u.name ∈ Section.simulcastRids offer.document.sections := by
          have named := List.mem_map_of_mem (f := (·.name)) stood
          rwa [Section.flatMap_fannedOut_names] at named
        exact absurd own other
  case groups =>
      have bundled := Group.ofNames_of_nodup Group.bundleSemantics distinct
      rw [← namesBack] at bundled
      rw [Document.normal_names, ← namesBack, ← bundled]
      rfl
  case bindings =>
      refine ⟨stands, ?_, ?_, ?_⟩
      · rw [acceptable.normal_simulcastRids, ← surveyed.rids]
      · rw [standNames, surveyed.names_eq, acceptable.normal_simulcasts, List.map_map]
        simp [Function.comp_def]
      · intro s member
        rw [acceptable.normal_simulcasts] at member
        obtain ⟨t, tMember, rfl⟩ := List.mem_map.mp member
        obtain ⟨simulcast, complete⟩ := acceptable.complete t tMember
        rw [Section.normal_ridNames simulcast complete, Section.normal_name]
        apply last (Entry.describing offer.document.bindings t)
        rw [surveyed.entries_eq]
        exact List.mem_map_of_mem tMember

end Registry.Surveyed

namespace Negotiation

variable {n m : Negotiation} {offer answer : Description} {views : Views}

/-- An answer that mirrors the fanned out offer is always accepted, and becomes an answer to the
offer itself. -/
theorem patchAnswer_of_mirrors (fresh : n.phase = .fresh) (distinct : offer.document.names.Nodup)
    (layered : offer.document.simulcasts ≠ [])
    (patched : n.perform (patchOffer offer) = (.ok views, m))
    (mirrors : answer.Mirrors views.remoteView) :
    ∃ remote, (m.perform (patchAnswer answer)).1 = .ok ⟨answer, remote⟩ ∧
      remote.document.names = offer.document.names ∧
      remote.Restores answer views.localView := by
  obtain ⟨-, acceptable, surveyed, phase, rfl⟩ := patchOffer_eq_ok fresh distinct patched
  obtain ⟨isAnswer, sections, names⟩ := mirrors
  rw [Document.outward, if_neg layered] at sections names
  obtain ⟨remote, gathered, restores⟩ :=
    surveyed.gather_mirrored distinct acceptable sections names
  have late : m.phase ≠ .fresh := by simp [phase]
  have simulcast := surveyed.hasSimulcast_iff.mpr layered
  refine ⟨_, ?_, restores.names.trans (Document.normal_names _), restores⟩
  rw [perform_patchAnswer late, Views.ofAnswer, Description.expect, if_pos isAnswer,
    Registry.relayAnswer, if_pos simulcast, gathered]
  rfl

/-- The answer of a peer that takes both layers of `layeredOffer`, in an order of its own. -/
def layeredAnswer : Description where
  type := .answer
  sessionId := "3"
  sessionVersion := "4"
  document := {
    sections := [
      ⟨"lo", .rtp, { (default : Media) with
        kind := .video, extensions := [.plain HeaderExtension.midUri 2] }⟩,
      ⟨"a", .rtp, .ofKind .audio⟩,
      ⟨"v", .rtp, { (default : Media) with
        kind := .video, extensions := [.plain HeaderExtension.midUri 2] }⟩]
    groups := [⟨"LS", ["v"]⟩]
    bindings := [⟨"v", default⟩, ⟨"lo", default⟩, ⟨"a", default⟩] }

theorem layeredAnswer_restores :
    ∃ views m, start.phase = .fresh ∧ layeredOffer.document.names.Nodup ∧
      layeredOffer.document.simulcasts ≠ [] ∧
      start.perform (patchOffer layeredOffer) = (.ok views, m) ∧
      layeredAnswer.Mirrors views.remoteView ∧
      ∃ remote, (m.perform (patchAnswer layeredAnswer)).1 = .ok ⟨layeredAnswer, remote⟩ ∧
        remote.document.names = layeredOffer.document.names ∧
        remote.Restores layeredAnswer views.localView := by
  have mirrors : layeredAnswer.Mirrors
      { layeredOffer with document := layeredOffer.document.fannedOut } :=
    ⟨rfl, by decide, by decide⟩
  exact ⟨_, _, rfl, by decide, by decide, rfl, mirrors,
    patchAnswer_of_mirrors (n := start) rfl (by decide) (by decide) rfl mirrors⟩

end Negotiation

end Fanout
