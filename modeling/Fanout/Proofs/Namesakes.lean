import Fanout.Proofs.Acceptance
import Fanout.Proofs.Filling

/-! # Offers with repeated names

A survey takes an offer as it comes, and nothing has checked that its sections have distinct names.
Two simulcast sections of one name are refused, because the second cannot be registered. Beyond that
a rid is compared with names, and not with sections: it must not be any name but that of its own
section. So an offer is accepted even though a rid is the name of another section, exactly where the
two sections are namesakes and only one of them is a simulcast section
(`survey_sound_iff_clashes`).
-/

namespace Fanout

structure Document.ClashesAt (d : Document) (i j : Nat) (s t : Section) : Prop where
  apart : i ≠ j
  here : d.sections[i]? = some s
  there : d.sections[j]? = some t
  simulcast : s.isSimulcast
  clash : t.name ∈ s.ridNames

namespace Document

variable {d : Document} {i j : Nat} {s t : Section}

theorem name_ne_of_positions (distinct : (d.simulcasts.map (·.name)).Nodup) (apart : i ≠ j)
    (here : d.sections[i]? = some s) (there : d.sections[j]? = some t)
    (simulcast : s.isSimulcast) (simulcast' : t.isSimulcast) : s.name ≠ t.name := by
  have related : d.sections.Pairwise fun s t =>
      s.isSimulcast → t.isSimulcast → s.name ≠ t.name :=
    List.pairwise_filter.mp (List.pairwise_map.mp distinct)
  rw [List.pairwise_iff_getElem] at related
  obtain ⟨inside, rfl⟩ := List.getElem?_eq_some_iff.mp here
  obtain ⟨inside', rfl⟩ := List.getElem?_eq_some_iff.mp there
  cases Nat.lt_or_gt_of_ne apart with
  | inl before => exact related i j inside inside' before simulcast simulcast'
  | inr after => exact (related j i inside' inside after simulcast' simulcast).symm

/-- Names tell of a clash what positions do, as far as other names are concerned. -/
theorem clashes_named_iff :
    (∀ s ∈ d.simulcasts, ∀ t ∈ d.sections, t.name ∈ s.ridNames → t.name = s.name) ↔
      ∀ i j s t, d.ClashesAt i j s t → t.name = s.name := by
  constructor
  · intro named i j s t clashes
    have inside := mem_simulcasts.mpr ⟨List.mem_of_getElem? clashes.here, clashes.simulcast⟩
    exact named s inside t (List.mem_of_getElem? clashes.there) clashes.clash
  · intro named s simulcast t member clash
    obtain ⟨inside, isSimulcast⟩ := mem_simulcasts.mp simulcast
    obtain ⟨i, here⟩ := List.mem_iff_getElem?.mp inside
    obtain ⟨j, there⟩ := List.mem_iff_getElem?.mp member
    by_cases same : i = j
    · subst same
      cases here.symm.trans there
      rfl
    · exact named i j s t ⟨same, here, there, isSimulcast, clash⟩

end Document

namespace Registry

variable {bindings : List Binding} {before rest : List Section} {r : Registry} {d : Document}

theorem walk_sound_of_surveyable (surveyed : Surveyed bindings before r)
    (ready : Section.Surveyable bindings (before ++ rest))
    (distinct : (((before ++ rest).filter (·.isSimulcast)).map (·.name)).Nodup) :
    (r.walk bindings rest).2.2 = none := by
  induction rest generalizing before r with
  | nil => rfl
  | cons s rest ih =>
      rw [List.append_cons] at ready distinct
      have earlier := ready.prefix.prefix
      cases visit_cases surveyed earlier s with
      | inl onward =>
          obtain ⟨next, visited, surveyed', -⟩ := onward
          rw [walk_cons visited]
          exact ih surveyed' ready distinct
      | inr stopped =>
          obtain ⟨simulcast, fault, left, refused, -⟩ := stopped
          have free : s.name ∉ r.names := by
            rw [List.filter_append, List.map_append] at distinct
            have known := distinct.sublist (List.sublist_append_left _ _)
            rw [List.filter_append, List.map_append] at known
            rw [surveyed.names]
            intro taken
            exact List.disjoint_of_nodup_append known taken (by simp [simulcast])
          have sound := (Section.surveyable_concat_iff earlier).mp ready.prefix simulcast
          rw [refusal?_eq_offence? free, surveyed.rids, sound] at refused
          cases refused

theorem surveyed_of_sound (sound : (empty.survey d).fault = none) :
    Surveyed d.bindings d.sections (empty.survey d).registry ∧
      Section.Surveyable d.bindings d.sections ∧
      (empty.survey d).registry.clash? = none := by
  obtain ⟨passed, free⟩ := walk_of_survey sound
  obtain ⟨surveyed, ready, -⟩ :=
    walk_surveyed surveyed_empty ⟨by simp, .nil⟩ (walk_eq_of_sound passed)
  exact ⟨surveyed, ready, free⟩

theorem Surveyed.clash?_eq_none_iff_named (surveyed : Surveyed d.bindings d.sections r) :
    r.clash? = none ↔
      ∀ s ∈ d.simulcasts, ∀ t ∈ d.sections, t.name ∈ s.ridNames → t.name = s.name := by
  simp only [surveyed.clash?_eq, List.findSome?_eq_none_iff, List.find?_eq_none,
    Bool.and_eq_true, decide_eq_true_eq, not_and, not_not]
  constructor
  · intro free s simulcast t member clash
    exact free s simulcast t.name clash (List.mem_map_of_mem member)
  · intro named s simulcast rid own present
    obtain ⟨t, member, rfl⟩ := List.mem_map.mp present
    exact named s simulcast t member own

/-- Exactly which offers a survey accepts, whatever the names of their sections. A rid may be the
name of a section at another position only if that is a plain section of the very name that the
simulcast section has. -/
theorem survey_sound_iff_clashes (d : Document) :
    (empty.survey d).fault = none ↔
      Section.Surveyable d.bindings d.sections ∧ (d.simulcasts.map (·.name)).Nodup ∧
      ∀ i j s t, d.ClashesAt i j s t → t.name = s.name ∧ ¬ t.isSimulcast := by
  constructor
  · intro sound
    obtain ⟨surveyed, ready, free⟩ := surveyed_of_sound sound
    have distinct : (d.simulcasts.map (·.name)).Nodup :=
      surveyed.names_eq ▸ surveyed.indexed.names_nodup
    have named := Document.clashes_named_iff.mp (surveyed.clash?_eq_none_iff_named.mp free)
    refine ⟨ready, distinct, ?_⟩
    intro i j s t clashes
    refine ⟨named i j s t clashes, ?_⟩
    intro simulcast
    exact Document.name_ne_of_positions distinct clashes.apart clashes.here clashes.there
      clashes.simulcast simulcast (named i j s t clashes).symm
  · rintro ⟨ready, distinct, clashes⟩
    have passed := walk_sound_of_surveyable surveyed_empty ready distinct
    obtain ⟨surveyed, -⟩ :=
      walk_surveyed surveyed_empty ⟨by simp, .nil⟩ (walk_eq_of_sound passed)
    have named := Document.clashes_named_iff.mpr fun i j s t clash => (clashes i j s t clash).1
    have free := surveyed.clash?_eq_none_iff_named.mpr named
    simp [survey, passed, free]

end Registry

namespace Negotiation

/-- An offer of two sections of one name, which is also a rid of the simulcast section. -/
def namesakeOffer : Description where
  type := .offer
  sessionId := "1"
  sessionVersion := "2"
  document := {
    sections := [
      ⟨"v", .rtp, {
        kind := .video
        extensions := [.plain HeaderExtension.midUri 1, .plain HeaderExtension.ridUri 2]
        streams := [⟨"s", [], [⟨"v", .send⟩, ⟨"lo", .send⟩]⟩]
        simulcast := ⟨Layers.ofRids ["v", "lo"], []⟩ }⟩,
      ⟨"v", .rtp, .ofKind .audio⟩]
    groups := []
    bindings := [⟨"v", default⟩] }

/-- The clash is accepted, and the section of the rid becomes a second one of the name. -/
theorem namesakeOffer_clashes :
    (∃ s t, namesakeOffer.document.ClashesAt 0 1 s t) ∧
    (Registry.empty.survey namesakeOffer.document).fault = none ∧
    ∃ views m, start.perform (patchOffer namesakeOffer) = (.ok views, m) ∧
      views.remoteView.document.names = ["v", "v", "lo"] :=
  ⟨⟨_, _, by decide, rfl, rfl, by decide, by decide⟩, rfl, _, _, rfl, rfl⟩

end Negotiation

end Fanout
