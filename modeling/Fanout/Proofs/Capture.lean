import Fanout.Proofs.Filling
import Fanout.Proofs.RoundTrip

/-! # What a survey captures and what it touches

A survey reads a document and rewrites it on the way, and it may stop at any section. The sections
before that one are all explicit then and their entries registered, the sections behind it are as
they were, and of the section itself the rids are explicit if they could be read at all
(`survey_captures`). Names may repeat, as far as a survey lets them.
-/

namespace Fanout

namespace Section

variable {s : Section} {bindings : List Binding}

structure CapturedBy (bindings : List Binding) (s : Section) (e : Entry) : Prop where
  name : e.name = s.name
  protocol : e.protocol = s.protocol
  rids : ∃ stream, s.media.streams = [stream] ∧ e.rids = stream.rids.map (·.rid) ∧ e.rids ≠ []
  layers : e.simulcast = ⟨e.rids.map fun rid => [⟨rid, false⟩], []⟩
  midExtension : (s.extensionsOf HeaderExtension.midUri).getLast? = some e.midExtension
  ridExtension : (s.extensionsOf HeaderExtension.ridUri).getLast? = some e.ridExtension
  repairedRidExtension : e.repairedRidExtension =
    ((s.extensionsOf HeaderExtension.repairedRidUri).getLast?).getD default
  transport : ∃ own, bindings.find? (·.name = s.name) = some own ∧ e.transport = own.transport

/-- A plain section stays as it is. A simulcast section sends each rid of its stream in a layer of
its own and receives none, and all else of it stays. -/
inductive MadeExplicit (s : Section) : Section → Prop where
  | plain (plain : ¬ s.isSimulcast) : MadeExplicit s s
  | simulcast {stream : Stream} (simulcast : s.isSimulcast) (one : s.media.streams = [stream]) :
      MadeExplicit s { s with
        media := { s.media with
          streams := [{ stream with
            rids := stream.rids.map fun r => { r with direction := .send } }]
          simulcast := ⟨stream.rids.map fun r => [⟨r.rid, false⟩], []⟩ } }

/-- What is left of the simulcast section that stops a survey: it is explicit already if it has one
stream, and that has rids. -/
inductive Abandoned (s : Section) : Section → Prop where
  | explicit {stream : Stream} {t : Section} (one : s.media.streams = [stream])
      (given : stream.rids ≠ []) (made : s.MadeExplicit t) : Abandoned s t
  | untouched (unread : ∀ stream, s.media.streams = [stream] → stream.rids = []) : Abandoned s s

theorem Complete.capturedBy (complete : s.Complete bindings) :
    s.CapturedBy bindings (Entry.describing bindings s) := by
  obtain ⟨stream, one, -⟩ := complete.stream
  obtain ⟨mid, lastMid, -⟩ := complete.mid
  obtain ⟨rid, lastRid, -⟩ := complete.rid
  obtain ⟨own, bound⟩ := complete.exists_find?
  refine ⟨rfl, rfl, ⟨stream, one, ridNames_of_stream one, complete.ridNames_ne_nil⟩, rfl, ?_, ?_,
    ?_, ⟨own, bound, ?_⟩⟩
  · simp only [Entry.describing, lastOf_eq, lastMid, Option.getD_some]
  · simp only [Entry.describing, lastOf_eq, lastRid, Option.getD_some]
  · exact lastOf_eq _ _
  · simp only [Entry.describing, bound, Option.map_some, Option.getD_some]

theorem normal_madeExplicit (one : s.isSimulcast → ∃ stream, s.media.streams = [stream]) :
    s.MadeExplicit s.normal := by
  by_cases simulcast : s.isSimulcast
  · obtain ⟨stream, one⟩ := one simulcast
    have made := MadeExplicit.simulcast simulcast one
    rw [normal_of_simulcast simulcast, ridNames_of_stream one]
    simpa [explicit, one, Layers.ofRids, Function.comp_def] using made
  · rw [normal_of_plain simulcast]
    exact .plain simulcast

theorem abandoned (s : Section) : s.Abandoned (if s.rids?.isOk then s.normal else s) := by
  cases read : s.rids? with
  | ok rids =>
      obtain ⟨stream, one, given, rfl⟩ := rids?_eq_ok_iff.mp read
      have made := normal_madeExplicit fun _ : s.isSimulcast => ⟨stream, one⟩
      exact .explicit one (mt List.map_eq_nil_iff.mpr given) made
  | error fault =>
      apply Abandoned.untouched
      intro stream one
      by_contra given
      have readable := rids?_eq_ok_iff.mpr ⟨stream, one, mt List.map_eq_nil_iff.mp given, rfl⟩
      cases read.symm.trans readable

end Section

namespace Registry

variable {bindings : List Binding} {r : Registry} {sections passed rest : List Section}
  {s : Section} {fault : Fault}

/-- The entries of a registry are those of the simulcast sections, in order, whose layers are the
ones that the sections are left with. -/
structure Captured (bindings : List Binding) (sections left : List Section) (r : Registry) :
    Prop where
  entries : List.Forall₂ (Section.CapturedBy bindings) (sections.filter (·.isSimulcast)) r.entries
  sections : List.Forall₂ Section.MadeExplicit sections left
  layers : (left.filter (·.isSimulcast)).map (·.media.simulcast) = r.entries.map (·.simulcast)

theorem Surveyed.captured (surveyed : Surveyed bindings sections r)
    (ready : Section.Surveyable bindings sections) :
    Captured bindings sections (sections.map Section.normal) r where
  entries := by
    rw [surveyed.entries, List.forall₂_map_right_iff, List.forall₂_same]
    intro s member
    obtain ⟨inside, simulcast⟩ := List.mem_filter.mp member
    exact (ready.complete s inside simulcast).capturedBy
  sections := by
    rw [List.forall₂_map_right_iff, List.forall₂_same]
    intro s member
    apply Section.normal_madeExplicit
    intro simulcast
    obtain ⟨stream, one, -⟩ := (ready.complete s member simulcast).stream
    exact ⟨stream, one⟩
  layers := by
    have kept : sections.filter ((·.isSimulcast) ∘ Section.normal) =
        sections.filter (·.isSimulcast) := by
      apply List.filter_congr
      intro s member
      exact Section.normal_isSimulcast (ready.complete s member)
    rw [surveyed.entries, List.filter_map, kept, List.map_map, List.map_map]
    apply List.map_congr_left
    intro s member
    have normal := Section.normal_of_simulcast (List.mem_filter.mp member).2
    rw [Function.comp_apply, Function.comp_apply, normal]
    rfl

theorem captured_of_passed (passes : (empty.walk bindings sections).2.2 = none) :
    Surveyed bindings sections (empty.walk bindings sections).1 ∧
      Captured bindings sections (empty.walk bindings sections).2.1
        (empty.walk bindings sections).1 := by
  have walked : empty.walk bindings sections = ((empty.walk bindings sections).1,
      (empty.walk bindings sections).2.1, none) := by
    rw [← passes]
  obtain ⟨surveyed, ready, normal⟩ := walk_surveyed surveyed_empty ⟨by simp, .nil⟩ walked
  exact ⟨surveyed, normal ▸ surveyed.captured ready⟩

theorem walk_append (passes : (r.walk bindings passed).2.2 = none) (rest : List Section) :
    r.walk bindings (passed ++ rest) =
      (((r.walk bindings passed).1.walk bindings rest).1,
        (r.walk bindings passed).2.1 ++ ((r.walk bindings passed).1.walk bindings rest).2.1,
        ((r.walk bindings passed).1.walk bindings rest).2.2) := by
  induction passed generalizing r with
  | nil => rfl
  | cons s passed ih =>
      rcases visited : r.visit bindings s with ⟨next, left, _ | fault⟩
      · rw [walk_cons visited] at passes ⊢
        rw [List.cons_append, walk_cons visited, ih passes, List.cons_append]
      · simp [walk, visited] at passes

theorem RefusedAt.walk_eq (refused : RefusedAt bindings r passed s fault)
    (indexed : (r.walk bindings passed).1.Indexed) (rest : List Section) :
    r.walk bindings (passed ++ s :: rest) =
      ((r.walk bindings passed).1.note s.name,
        (r.walk bindings passed).2.1 ++ (if s.rids?.isOk then s.normal else s) :: rest,
        some fault) := by
  have visited := visit_simulcast bindings indexed refused.simulcast
  simp only [refused.refused] at visited
  rw [walk_append refused.passes]
  simp only [walk, visited]

/-- Everything that a survey captures and touches, however it ends. Without a fault there is an
entry for each simulcast section, and only those sections differ from before. A clash of a rid with
a name is found after that and changes nothing. Any other fault is met at one section, and only the
simulcast sections up to there are captured or touched. -/
theorem survey_captures (d : Document) :
    match empty.survey d with
    | ⟨r, left, none⟩ =>
      Captured d.bindings d.sections left.sections r ∧ r.order = d.names ∧
        left.groups = d.groups ∧ left.bindings = d.bindings
    | ⟨r, left, some fault⟩ =>
      left.groups = d.groups ∧ left.bindings = d.bindings ∧
      (((∃ rid, fault = .duplicateName rid) ∧ Captured d.bindings d.sections left.sections r ∧
          r.order = d.names) ∨
        ∃ passed s rest passed' s', d.sections = passed ++ s :: rest ∧
          RefusedAt d.bindings empty passed s fault ∧
          left.sections = passed' ++ s' :: rest ∧ Captured d.bindings passed passed' r ∧
          s.Abandoned s' ∧ r.order = (passed ++ [s]).map (·.name)) := by
  rcases walk_cases empty_indexed d.bindings d.sections with
    ⟨passes, -⟩ | ⟨passed, s, rest, fault, next, split, refused, -, -, stopped⟩
  · obtain ⟨surveyed, captured⟩ := captured_of_passed passes
    simp only [survey, passes]
    cases (empty.walk d.bindings d.sections).1.clash? with
    | none => exact ⟨captured, surveyed.order, rfl, rfl⟩
    | some rid => exact ⟨rfl, rfl, .inl ⟨⟨rid, rfl⟩, captured, surveyed.order⟩⟩
  · obtain ⟨surveyed, captured⟩ := captured_of_passed refused.passes
    have walked := refused.walk_eq surveyed.indexed rest
    rw [← split] at walked
    simp only [survey, walked]
    refine ⟨rfl, rfl, .inr ⟨passed, s, rest, _, _, split, refused, rfl, ?_, s.abandoned, ?_⟩⟩
    · exact ⟨captured.entries, captured.sections, captured.layers⟩
    · simp [note, surveyed.order]

end Registry

end Fanout
