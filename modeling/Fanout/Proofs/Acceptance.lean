import Fanout.Proofs.FanOut
import Fanout.Proofs.Runs

/-! # Which offers are accepted

An offer of distinct section names is accepted exactly when it is `Acceptable`, and refused exactly
with the fault that `Refused` gives it. Fanning out adds no fault to those of the survey
(`Registry.Surveyed.relayOffer_eq`), so both are read off the survey: the walk stops at the first
section that offends, and what it let pass is asked for clashes only then.
-/

namespace Fanout

namespace Document

variable (d : Document)

/-- A rid of a section is the name of another section. -/
def Clashes (s : Section) (rid : String) : Prop :=
  ∃ t ∈ d.sections, t ≠ s ∧ t.name = rid

/-- Nothing is wrong with any simulcast section, and no rid is the name of another section. -/
structure Acceptable : Prop where
  surveyable : Section.Surveyable d.bindings d.sections
  apart : ∀ s ∈ d.simulcasts, ∀ rid ∈ s.ridNames, ¬ d.Clashes s rid

def FirstOffence (fault : Fault) : Prop :=
  Section.FirstOffence d.bindings [] d.sections fault

def FirstClash (rid : String) : Prop :=
  ∃ before s after, d.simulcasts = before ++ s :: after ∧
    (∀ t ∈ before, ∀ x ∈ t.ridNames, ¬ d.Clashes t x) ∧
    ∃ earlier later, s.ridNames = earlier ++ rid :: later ∧
      (∀ x ∈ earlier, ¬ d.Clashes s x) ∧ d.Clashes s rid

variable {d} {s : Section} {rid : String} {r : Registry} {fault : Fault}

theorem clashes_iff (distinct : d.names.Nodup) (member : s ∈ d.sections) :
    (rid ∈ d.names && rid ≠ s.name) = true ↔ d.Clashes s rid := by
  rw [Bool.and_eq_true, decide_eq_true_iff, decide_eq_true_iff]
  constructor
  · rintro ⟨present, other⟩
    obtain ⟨t, there, rfl⟩ := List.mem_map.mp present
    exact ⟨t, there, fun same => other (congrArg _ same), rfl⟩
  · rintro ⟨t, there, other, rfl⟩
    refine ⟨List.mem_map_of_mem there, fun same => ?_⟩
    exact other (List.inj_on_of_nodup_map distinct there member same)

theorem Acceptable.complete (acceptable : d.Acceptable) :
    ∀ s ∈ d.simulcasts, s.isSimulcast ∧ s.Complete d.bindings := by
  intro s member
  obtain ⟨inside, simulcast⟩ := mem_simulcasts.mp member
  exact ⟨simulcast, acceptable.surveyable.complete s inside simulcast⟩

theorem Acceptable.fannedOut_names_nodup (acceptable : d.Acceptable) (distinct : d.names.Nodup) :
    d.fannedOut.names.Nodup := by
  rw [fannedOut_names]
  refine List.Nodup.append (distinct.sublist (List.filter_sublist.map _))
    acceptable.surveyable.distinct ?_
  intro name plain rid
  obtain ⟨t, tMember, rfl⟩ := List.mem_map.mp plain
  obtain ⟨inside, tPlain⟩ := mem_plains.mp tMember
  obtain ⟨s, member, simulcast, own⟩ := Section.mem_simulcastRids.mp rid
  refine acceptable.apart s (mem_simulcasts.mpr ⟨member, simulcast⟩) t.name own
    ⟨t, inside, ?_, rfl⟩
  rintro rfl
  exact tPlain simulcast

end Document

namespace Registry

variable {d : Document} {r : Registry} {fault : Fault} {rid : String}

theorem Surveyed.clash?_eq (surveyed : Surveyed d.bindings d.sections r) :
    r.clash? = d.simulcasts.findSome? fun s =>
      s.ridNames.find? fun rid => rid ∈ d.names && rid ≠ s.name := by
  rw [clash?, surveyed.entries_eq, List.findSome?_map, surveyed.order]
  rfl

theorem find?_clash_eq_none_iff (distinct : d.names.Nodup) {s : Section}
    (member : s ∈ d.sections) :
    (s.ridNames.find? fun rid => rid ∈ d.names && rid ≠ s.name) = none ↔
      ∀ rid ∈ s.ridNames, ¬ d.Clashes s rid := by
  simp only [List.find?_eq_none, Document.clashes_iff distinct member]

theorem Surveyed.clash?_eq_none_iff (surveyed : Surveyed d.bindings d.sections r)
    (distinct : d.names.Nodup) :
    r.clash? = none ↔ ∀ s ∈ d.simulcasts, ∀ rid ∈ s.ridNames, ¬ d.Clashes s rid := by
  rw [surveyed.clash?_eq, List.findSome?_eq_none_iff]
  constructor
  · intro sound s simulcast
    exact (find?_clash_eq_none_iff distinct (Document.mem_simulcasts.mp simulcast).1).mp
      (sound s simulcast)
  · intro apart s simulcast
    exact (find?_clash_eq_none_iff distinct (Document.mem_simulcasts.mp simulcast).1).mpr
      (apart s simulcast)

theorem Surveyed.clash?_eq_some_iff (surveyed : Surveyed d.bindings d.sections r)
    (distinct : d.names.Nodup) : r.clash? = some rid ↔ d.FirstClash rid := by
  have inside : ∀ {before s after}, d.simulcasts = before ++ s :: after →
      (∀ t ∈ before, t ∈ d.sections) ∧ s ∈ d.sections := by
    intro before s after split
    have member : ∀ t ∈ before ++ s :: after, t ∈ d.sections := fun t there =>
      (Document.mem_simulcasts.mp (split ▸ there)).1
    exact ⟨fun t there => member t (List.mem_append_left _ there), member s (by simp)⟩
  rw [surveyed.clash?_eq, List.findSome?_eq_some_iff]
  constructor
  · rintro ⟨before, s, after, split, found, sound⟩
    obtain ⟨others, member⟩ := inside split
    obtain ⟨clashes, earlier, later, rids, free⟩ := List.find?_eq_some_iff_append.mp found
    refine ⟨before, s, after, split, ?_, earlier, later, rids, ?_, ?_⟩
    · intro t there
      exact (find?_clash_eq_none_iff distinct (others t there)).mp (sound t there)
    · intro x there clash
      have unmet := free x there
      rw [(Document.clashes_iff distinct member).mpr clash] at unmet
      cases unmet
    · exact (Document.clashes_iff distinct member).mp clashes
  · rintro ⟨before, s, after, split, sound, earlier, later, rids, free, clashes⟩
    obtain ⟨others, member⟩ := inside split
    refine ⟨before, s, after, split, ?_, ?_⟩
    · refine List.find?_eq_some_iff_append.mpr ⟨?_, earlier, later, rids, ?_⟩
      · exact (Document.clashes_iff distinct member).mpr clashes
      · intro x there
        rw [Bool.not_eq_true', Bool.eq_false_iff]
        exact mt (Document.clashes_iff distinct member).mp (free x there)
    · intro t there
      exact (find?_clash_eq_none_iff distinct (others t there)).mpr (sound t there)

theorem walk_fault_iff_firstOffence (distinct : d.names.Nodup) :
    (empty.walk d.bindings d.sections).2.2 = some fault ↔ d.FirstOffence fault :=
  walk_fault_iff surveyed_empty ⟨by simp, .nil⟩ (by simpa [Document.names] using distinct)

theorem walk_eq_of_sound (sound : (empty.walk d.bindings d.sections).2.2 = none) :
    empty.walk d.bindings d.sections =
      ((empty.walk d.bindings d.sections).1, (empty.walk d.bindings d.sections).2.1, none) := by
  rw [← sound]

theorem walk_sound_iff (distinct : d.names.Nodup) :
    (empty.walk d.bindings d.sections).2.2 = none ↔ Section.Surveyable d.bindings d.sections := by
  constructor
  · intro sound
    have walked := walk_eq_of_sound sound
    exact (walk_surveyed surveyed_empty ⟨by simp, .nil⟩ walked).2.1
  · intro ready
    cases stopped : (empty.walk d.bindings d.sections).2.2 with
    | none => rfl
    | some fault =>
        obtain ⟨before, s, after, split, sound, simulcast, offends⟩ :=
          (walk_fault_iff_firstOffence distinct).mp stopped
        have whole : Section.Surveyable d.bindings ((before ++ [s]) ++ after) := by
          simpa [← split] using ready
        rw [(Section.surveyable_concat_iff sound).mp whole.prefix simulcast] at offends
        cases offends

theorem survey_of_surveyable (distinct : d.names.Nodup)
    (ready : Section.Surveyable d.bindings d.sections) :
    ∃ r, Surveyed d.bindings d.sections r ∧
      empty.survey d = ⟨r, d.normal, r.clash?.map .duplicateName⟩ := by
  have sound := (walk_sound_iff distinct).mpr ready
  have walked := walk_eq_of_sound sound
  obtain ⟨surveyed, -, normal⟩ := walk_surveyed surveyed_empty ⟨by simp, .nil⟩ walked
  refine ⟨_, surveyed, ?_⟩
  simp only [survey, sound, normal, Document.normal]
  rfl

theorem survey_fault_iff (distinct : d.names.Nodup) :
    (empty.survey d).fault = some fault ↔
      d.FirstOffence fault ∨
      (Section.Surveyable d.bindings d.sections ∧
        ∃ rid, d.FirstClash rid ∧ fault = .duplicateName rid) := by
  by_cases ready : Section.Surveyable d.bindings d.sections
  · obtain ⟨r, surveyed, whole⟩ := survey_of_surveyable distinct ready
    have sound : ¬ d.FirstOffence fault := by
      rw [← walk_fault_iff_firstOffence distinct, (walk_sound_iff distinct).mpr ready]
      exact fun same => nomatch same
    simp only [whole, Option.map_eq_some_iff, surveyed.clash?_eq_some_iff distinct, sound, ready,
      false_or, true_and, eq_comm (a := fault)]
  · have stopped := mt (walk_sound_iff distinct).mp ready
    rw [← walk_fault_iff_firstOffence distinct]
    obtain ⟨first, stopped⟩ := Option.ne_none_iff_exists'.mp stopped
    simp [survey, stopped, ready]

theorem survey_sound_iff (distinct : d.names.Nodup) :
    (empty.survey d).fault = none ↔ d.Acceptable := by
  by_cases ready : Section.Surveyable d.bindings d.sections
  · obtain ⟨r, surveyed, whole⟩ := survey_of_surveyable distinct ready
    rw [whole, Option.map_eq_none_iff, surveyed.clash?_eq_none_iff distinct]
    exact ⟨fun apart => ⟨ready, apart⟩, fun acceptable => acceptable.apart⟩
  · obtain ⟨first, stopped⟩ :=
      Option.ne_none_iff_exists'.mp (mt (walk_sound_iff distinct).mp ready)
    have refused : ¬ d.Acceptable := fun acceptable => ready acceptable.surveyable
    simp [survey, stopped, refused]

end Registry

/-- Why an offer is refused. A clash is looked for only where no section offends. -/
inductive Description.Refused (offer : Description) : Fault → Prop where
  | type (other : offer.type ≠ .offer) :
      Refused offer (.typeMismatch DescriptionType.offer.word offer.type.word)
  | offence {fault : Fault} (isOffer : offer.type = .offer)
      (first : offer.document.FirstOffence fault) : Refused offer fault
  | clash {rid : String} (isOffer : offer.type = .offer)
      (surveyable : Section.Surveyable offer.document.bindings offer.document.sections)
      (first : offer.document.FirstClash rid) : Refused offer (.duplicateName rid)

namespace Views

variable {offer : Description} {fault : Fault}

theorem ofOffer_of_otherType (other : offer.type ≠ .offer) :
    ofOffer offer = .error (.typeMismatch DescriptionType.offer.word offer.type.word) := by
  simp [ofOffer, Description.expect, other, bind, Except.bind]

theorem ofOffer_of_fault (isOffer : offer.type = .offer)
    (stopped : (Registry.empty.survey offer.document).fault = some fault) :
    ofOffer offer = .error fault := by
  simp [ofOffer, Description.expect, isOffer, Survey.checked, stopped, bind, Except.bind]

theorem ofOffer_of_acceptable (isOffer : offer.type = .offer)
    (distinct : offer.document.names.Nodup) (acceptable : offer.document.Acceptable) :
    ∃ r, Registry.Surveyed offer.document.bindings offer.document.sections r ∧
      ofOffer offer = .ok (r, {
        localView := { offer with document := offer.document.normal }
        remoteView := { offer with document := offer.document.outward } }) := by
  obtain ⟨r, surveyed, whole⟩ := Registry.survey_of_surveyable distinct acceptable.surveyable
  have sound := (surveyed.clash?_eq_none_iff distinct).mpr acceptable.apart
  have relayed := surveyed.relayOffer_eq isOffer distinct acceptable.complete
  refine ⟨r, surveyed, ?_⟩
  rw [ofOffer, Description.expect, if_pos isOffer, whole, sound]
  simp only [Survey.checked, Option.map_none, bind, Except.bind, relayed]

theorem ofOffer_eq_error_iff (distinct : offer.document.names.Nodup) :
    ofOffer offer = .error fault ↔ offer.Refused fault := by
  constructor
  · intro failed
    by_cases isOffer : offer.type = .offer
    swap
    · rw [ofOffer_of_otherType isOffer] at failed
      cases failed
      exact .type isOffer
    cases stopped : (Registry.empty.survey offer.document).fault with
    | some first =>
        rw [ofOffer_of_fault isOffer stopped] at failed
        cases failed
        rcases (Registry.survey_fault_iff distinct).mp stopped with
          offence | ⟨surveyable, rid, clash, rfl⟩
        · exact .offence isOffer offence
        · exact .clash isOffer surveyable clash
    | none =>
        have acceptable := (Registry.survey_sound_iff distinct).mp stopped
        obtain ⟨r, -, patched⟩ := ofOffer_of_acceptable isOffer distinct acceptable
        rw [patched] at failed
        cases failed
  · intro refused
    cases refused with
    | type other => exact ofOffer_of_otherType other
    | offence isOffer first =>
        exact ofOffer_of_fault isOffer ((Registry.survey_fault_iff distinct).mpr (.inl first))
    | clash isOffer surveyable first =>
        exact ofOffer_of_fault isOffer
          ((Registry.survey_fault_iff distinct).mpr (.inr ⟨surveyable, _, first, rfl⟩))

theorem acceptable_of_ofOffer {r : Registry} {views : Views}
    (distinct : offer.document.names.Nodup) (patched : ofOffer offer = .ok (r, views)) :
    offer.type = .offer ∧ offer.document.Acceptable := by
  by_cases isOffer : offer.type = .offer
  swap
  · rw [ofOffer_of_otherType isOffer] at patched
    cases patched
  cases stopped : (Registry.empty.survey offer.document).fault with
  | some fault =>
      rw [ofOffer_of_fault isOffer stopped] at patched
      cases patched
  | none => exact ⟨isOffer, (Registry.survey_sound_iff distinct).mp stopped⟩

end Views

namespace Negotiation

variable {n : Negotiation} {offer : Description}

theorem patchOffer_eq_ok {m : Negotiation} {views : Views} (fresh : n.phase = .fresh)
    (distinct : offer.document.names.Nodup)
    (patched : n.perform (patchOffer offer) = (.ok views, m)) :
    offer.type = .offer ∧ offer.document.Acceptable ∧
    Registry.Surveyed offer.document.bindings offer.document.sections m.registry ∧
    m.phase = .offerPatched ∧
    views = {
      localView := { offer with document := offer.document.normal }
      remoteView := { offer with document := offer.document.outward } } := by
  obtain ⟨outcome, phase⟩ := ofOffer_of_patchOffer fresh patched
  obtain ⟨isOffer, acceptable⟩ := Views.acceptable_of_ofOffer distinct outcome
  obtain ⟨r, surveyed, same⟩ := Views.ofOffer_of_acceptable isOffer distinct acceptable
  rw [same] at outcome
  cases outcome
  exact ⟨isOffer, acceptable, surveyed, phase, rfl⟩

/-- An offer of a plain section and a simulcast section, one of whose rids is its own name. -/
def layeredOffer : Description where
  type := .offer
  sessionId := "1"
  sessionVersion := "2"
  document := {
    sections := [
      ⟨"a", .rtp, .ofKind .audio⟩,
      ⟨"v", .rtp, {
        kind := .video
        extensions := [.plain HeaderExtension.midUri 1, .plain HeaderExtension.ridUri 2]
        streams := [⟨"s", [], [⟨"v", .send⟩, ⟨"lo", .send⟩]⟩]
        simulcast := ⟨Layers.ofRids ["v", "lo"], []⟩ }⟩]
    groups := [Group.ofNames Group.bundleSemantics ["a", "v"], Group.ofNames "LS" ["a", "v"]]
    bindings := [⟨"a", default⟩, ⟨"v", default⟩] }

end Negotiation

end Fanout
