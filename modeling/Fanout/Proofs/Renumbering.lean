import Fanout.Proofs.Acceptance

/-! # Numbers of header extensions

Fanning out moves the extension for names to the number of the one that carried the rids. That
number is free, as every extension for rids is dropped, but it is one number: where a section has
several extensions for names they all move there. So numbers that were distinct within a section
stay so exactly where it has one such extension, and no other two extensions ever collide
(`extension_ids_iff`).
-/

namespace Fanout

namespace HeaderExtension

variable {extensions : List HeaderExtension} {x y : HeaderExtension} {id : UInt16}

def renumbered (id : UInt16) (x : HeaderExtension) : HeaderExtension :=
  if x.uri = midUri then { x with id := id } else x

def OnlyMidsCollide (extensions : List HeaderExtension) : Prop :=
  extensions.Pairwise fun x y => x.id = y.id → x.uri = midUri ∧ y.uri = midUri

@[simp] theorem renumbered_uri (id : UInt16) (x : HeaderExtension) :
    (renumbered id x).uri = x.uri := by
  unfold renumbered
  split <;> rfl

theorem renumbered_id_of_mid (mid : x.uri = midUri) : (renumbered id x).id = id := by
  rw [renumbered, if_pos mid]

theorem renumbered_of_other (other : x.uri ≠ midUri) : renumbered id x = x :=
  if_neg other

theorem onlyMidsCollide_of_nodup (distinct : (extensions.map (·.id)).Nodup) :
    OnlyMidsCollide extensions :=
  (List.pairwise_map.mp distinct).imp fun different same => absurd same different

/-- A number that no extension has is one that those for names can move to. -/
theorem onlyMidsCollide_renumbered (distinct : (extensions.map (·.id)).Nodup)
    (free : ∀ x ∈ extensions, x.id ≠ id) :
    OnlyMidsCollide (extensions.map (renumbered id)) := by
  apply List.pairwise_map.mpr
  apply (List.pairwise_map.mp distinct).imp_of_mem
  intro x y xMember yMember different same
  rw [renumbered_uri, renumbered_uri]
  by_cases xMid : x.uri = midUri
  · by_cases yMid : y.uri = midUri
    · exact ⟨xMid, yMid⟩
    · rw [renumbered_id_of_mid xMid, renumbered_of_other yMid] at same
      exact absurd same.symm (free y yMember)
  · rw [renumbered_of_other xMid] at same
    by_cases yMid : y.uri = midUri
    · rw [renumbered_id_of_mid yMid] at same
      exact absurd same (free x xMember)
    · rw [renumbered_of_other yMid] at same
      exact absurd same different

theorem filter_mid_renumbered (id : UInt16) (extensions : List HeaderExtension) :
    (extensions.map (renumbered id)).filter (·.uri = midUri) =
      (extensions.filter (·.uri = midUri)).map (renumbered id) := by
  rw [List.filter_map]
  congr 1
  apply List.filter_congr
  intro x _
  rw [Function.comp_apply, renumbered_uri]

/-- Extensions for names that were moved to one number are told apart by it only if there is no
second one. -/
theorem nodup_renumbered_iff (distinct : (extensions.map (·.id)).Nodup)
    (free : ∀ x ∈ extensions, x.id ≠ id) :
    ((extensions.map (renumbered id)).map (·.id)).Nodup ↔
      (extensions.filter (·.uri = midUri)).length ≤ 1 := by
  constructor
  · intro different
    have mids : ((extensions.filter (·.uri = midUri)).map (renumbered id)).map (·.id) =
        List.replicate (extensions.filter (·.uri = midUri)).length id := by
      rw [List.map_map, List.eq_replicate_iff]
      refine ⟨List.length_map _, ?_⟩
      intro number member
      obtain ⟨x, kept, rfl⟩ := List.mem_map.mp member
      exact renumbered_id_of_mid (by simpa using (List.mem_filter.mp kept).2)
    rw [← filter_mid_renumbered] at mids
    apply List.nodup_replicate.mp
    rw [← mids]
    exact different.sublist (List.filter_sublist.map _)
  · intro one
    have alone : ((extensions.map (renumbered id)).filter (·.uri = midUri)).Pairwise
        fun _ _ => False := by
      rw [filter_mid_renumbered]
      cases few : extensions.filter (·.uri = midUri) with
      | nil => exact .nil
      | cons x rest =>
          rw [few, List.length_cons] at one
          obtain rfl : rest = [] := List.length_eq_zero_iff.mp (by omega)
          exact List.pairwise_singleton _ _
    apply List.pairwise_map.mpr
    apply (onlyMidsCollide_renumbered distinct free).imp₂ _ (List.pairwise_filter.mp alone)
    intro x y collide apart same
    obtain ⟨xMid, yMid⟩ := collide same
    exact apart (decide_eq_true xMid) (decide_eq_true yMid)

end HeaderExtension

namespace Section

variable {s : Section} {bindings : List Binding}

def ridless (s : Section) : List HeaderExtension :=
  s.media.extensions.filter fun x =>
    x.uri ≠ HeaderExtension.ridUri ∧ x.uri ≠ HeaderExtension.repairedRidUri

def mids (s : Section) : List HeaderExtension :=
  s.extensionsOf HeaderExtension.midUri

theorem filter_mid_ridless (s : Section) :
    s.ridless.filter (·.uri = HeaderExtension.midUri) = s.mids := by
  rw [ridless, mids, List.filter_filter]
  apply List.filter_congr
  intro x _
  by_cases mid : x.uri = HeaderExtension.midUri
  · rw [mid]
    rfl
  · simp [mid]

theorem Complete.mids_ne_nil (complete : s.Complete bindings) : s.mids ≠ [] :=
  complete.mid.extensionsOf_ne_nil

theorem Complete.ridless_id_ne (complete : s.Complete bindings)
    (distinct : (s.media.extensions.map (·.id)).Nodup) :
    ∀ x ∈ s.ridless,
      x.id ≠ (HeaderExtension.lastOf s.media.extensions HeaderExtension.ridUri).id := by
  obtain ⟨carrier, last, -⟩ := complete.rid
  obtain ⟨member, rides⟩ := List.mem_filter.mp (List.mem_of_getLast? last)
  rw [lastOf_eq, last, Option.getD_some]
  intro x kept same
  obtain ⟨inside, other⟩ := List.mem_filter.mp kept
  obtain rfl := List.inj_on_of_nodup_map distinct inside member same
  simp [of_decide_eq_true rides] at other

theorem ridMedia_extensions (s : Section) :
    s.ridMedia.extensions = s.ridless.map (HeaderExtension.renumbered
      (HeaderExtension.lastOf s.media.extensions HeaderExtension.ridUri).id) := rfl

theorem ridless_nodup (distinct : (s.media.extensions.map (·.id)).Nodup) :
    (s.ridless.map (·.id)).Nodup :=
  distinct.sublist (List.filter_sublist.map _)

theorem Complete.ridMedia_collide (complete : s.Complete bindings)
    (distinct : (s.media.extensions.map (·.id)).Nodup) :
    HeaderExtension.OnlyMidsCollide s.ridMedia.extensions := by
  rw [ridMedia_extensions]
  exact HeaderExtension.onlyMidsCollide_renumbered (ridless_nodup distinct)
    (complete.ridless_id_ne distinct)

theorem Complete.ridMedia_nodup_iff (complete : s.Complete bindings)
    (distinct : (s.media.extensions.map (·.id)).Nodup) :
    (s.ridMedia.extensions.map (·.id)).Nodup ↔ s.mids.length = 1 := by
  have some : 0 < s.mids.length := List.length_pos_iff.mpr complete.mids_ne_nil
  rw [ridMedia_extensions, HeaderExtension.nodup_renumbered_iff (ridless_nodup distinct)
    (complete.ridless_id_ne distinct), filter_mid_ridless]
  omega

end Section

namespace Document

variable {d : Document} {t : Section}

theorem media_of_outward (member : t ∈ d.outward.sections) :
    t ∈ d.sections ∨ ∃ s ∈ d.simulcasts, t.media = s.ridMedia := by
  rw [outward_sections, List.mem_append] at member
  cases member with
  | inl plain => exact .inl (mem_plains.mp plain).1
  | inr layered =>
      obtain ⟨s, simulcast, layer⟩ := List.mem_flatMap.mp layered
      obtain ⟨rid, -, rfl⟩ := List.mem_map.mp layer
      exact .inr ⟨s, simulcast, rfl⟩

end Document

namespace Negotiation

variable {n m : Negotiation} {offer : Description} {views : Views}

/-- The numbers of header extensions in the offer for the peer, if those of the offer are distinct
within each section. -/
theorem extension_ids_iff (named : offer.document.names.Nodup)
    (distinct : ∀ s ∈ offer.document.sections, (s.media.extensions.map (·.id)).Nodup)
    (patched : n.perform (patchOffer offer) = (.ok views, m)) :
    (∀ t ∈ views.remoteView.document.sections,
      HeaderExtension.OnlyMidsCollide t.media.extensions) ∧
    ((∀ t ∈ views.remoteView.document.sections, (t.media.extensions.map (·.id)).Nodup) ↔
      ∀ s ∈ offer.document.simulcasts, s.mids.length = 1) := by
  obtain ⟨-, acceptable, -, -, rfl⟩ := patchOffer_eq_ok (fresh_of_patchOffer patched) named patched
  have simulcast : ∀ s ∈ offer.document.simulcasts, s.Complete offer.document.bindings ∧
      (s.media.extensions.map (·.id)).Nodup := fun s member =>
    ⟨(acceptable.complete s member).2, distinct s (Document.mem_simulcasts.mp member).1⟩
  refine ⟨?_, ?_, ?_⟩
  · intro t member
    cases Document.media_of_outward member with
    | inl kept => exact HeaderExtension.onlyMidsCollide_of_nodup (distinct t kept)
    | inr layer =>
        obtain ⟨s, inside, media⟩ := layer
        obtain ⟨complete, ids⟩ := simulcast s inside
        exact media ▸ complete.ridMedia_collide ids
  · intro different s inside
    obtain ⟨complete, ids⟩ := simulcast s inside
    obtain ⟨rid, own⟩ := List.exists_mem_of_ne_nil _ complete.ridNames_ne_nil
    have layer : (⟨rid, s.protocol, s.ridMedia⟩ : Section) ∈ offer.document.outward.sections := by
      rw [Document.outward_sections]
      apply List.mem_append_right
      exact List.mem_flatMap.mpr ⟨s, inside, List.mem_map_of_mem own⟩
    exact (complete.ridMedia_nodup_iff ids).mp (different _ layer)
  · intro one t member
    cases Document.media_of_outward member with
    | inl kept => exact distinct t kept
    | inr layer =>
        obtain ⟨s, inside, media⟩ := layer
        obtain ⟨complete, ids⟩ := simulcast s inside
        exact media ▸ (complete.ridMedia_nodup_iff ids).mpr (one s inside)

theorem layeredOffer_extension_ids :
    ∃ views m, layeredOffer.document.names.Nodup ∧
      (∀ s ∈ layeredOffer.document.sections, (s.media.extensions.map (·.id)).Nodup) ∧
      start.perform (patchOffer layeredOffer) = (.ok views, m) ∧
      ∀ t ∈ views.remoteView.document.sections, (t.media.extensions.map (·.id)).Nodup := by
  have named : layeredOffer.document.names.Nodup := by decide
  have distinct : ∀ s ∈ layeredOffer.document.sections, (s.media.extensions.map (·.id)).Nodup := by
    decide
  have one : ∀ s ∈ layeredOffer.document.simulcasts, s.mids.length = 1 := by decide
  exact ⟨_, _, named, distinct, rfl, (extension_ids_iff (n := start) named distinct rfl).2.mpr one⟩

/-- An offer that numbers two extensions for names, one of them encrypted. -/
def doublyNamedOffer : Description where
  type := .offer
  sessionId := "1"
  sessionVersion := "2"
  document := {
    sections := [
      ⟨"v", .rtp, {
        kind := .video
        extensions := [⟨HeaderExtension.midUri, 1, true⟩, .plain HeaderExtension.midUri 2,
          .plain HeaderExtension.ridUri 3]
        streams := [⟨"s", [], [⟨"hi", .send⟩]⟩]
        simulcast := ⟨Layers.ofRids ["hi"], []⟩ }⟩]
    groups := []
    bindings := [⟨"v", default⟩] }

/-- Both extensions for names are moved to the number that carried the rid. -/
theorem doublyNamedOffer_collides :
    doublyNamedOffer.document.names.Nodup ∧
    (∀ s ∈ doublyNamedOffer.document.sections, (s.media.extensions.map (·.id)).Nodup) ∧
    ∃ views m, start.perform (patchOffer doublyNamedOffer) = (.ok views, m) ∧
      views.remoteView.document.sections.map (fun t => (t.name, t.media.extensions)) =
        [("hi", [⟨HeaderExtension.midUri, 3, true⟩, .plain HeaderExtension.midUri 3])] ∧
      ¬ ∀ t ∈ views.remoteView.document.sections, (t.media.extensions.map (·.id)).Nodup :=
  ⟨by decide, by decide, _, _, rfl, rfl, by decide⟩

end Negotiation

end Fanout
