import Fanout.Proofs.Survey

/-! # Registries however they were filled

A registry is filled by surveys and by single entries, any number of them, and each may fail on its
way. A survey that fails keeps what it came across, so registries are also reached that no offer of
a negotiation would leave. All of them are in step with their indices (`filled_indexed`), and from
there each further call is understood: an entry is registered or nothing happens, and a survey notes
the sections up to the first one refused (`walk_cases`).
-/

namespace Fanout.Registry

inductive Filling where
  | survey (d : Document)
  | enroll (e : Entry)

/-- The registry after a call, whether or not the call failed. -/
def fill (r : Registry) : Filling → Registry
  | .survey d => (r.survey d).registry
  | .enroll e => (r.perform (enroll e)).2

def filled (calls : List Filling) : Registry :=
  calls.foldl fill empty

/-- A walk gets past some sections but not past the section after them. -/
structure RefusedAt (bindings : List Binding) (r : Registry) (passed : List Section) (s : Section)
    (fault : Fault) : Prop where
  passes : (r.walk bindings passed).2.2 = none
  simulcast : s.isSimulcast
  refused : (r.walk bindings passed).1.refusal? bindings s = some fault

variable {bindings : List Binding} {base r next : Registry} {s : Section} {e : Entry}
  {d : Document} {fault : Fault}

/-! ## One call -/

theorem Walked.refl (indexed : r.Indexed) : Walked bindings r [] r :=
  ⟨indexed, by simp, by simp⟩

theorem Walked.cons {rest : List Section} (first : Walked bindings base [s] r)
    (onward : Walked bindings r rest next) : Walked bindings base (s :: rest) next where
  indexed := onward.indexed
  order := by simp [onward.order, first.order]
  entries := by
    rw [onward.entries, first.entries, List.append_assoc, ← List.map_append, ← List.filter_append]
    rfl

theorem walk_cons {left : Section} (visited : r.visit bindings s = (next, left, none))
    (rest : List Section) :
    r.walk bindings (s :: rest) =
      ((next.walk bindings rest).1, left :: (next.walk bindings rest).2.1,
        (next.walk bindings rest).2.2) := by
  simp only [walk, visited]

/-- A walk gets past all sections, or it notes the first one refused and stops there. -/
theorem walk_cases (indexed : r.Indexed) (bindings : List Binding) (sections : List Section) :
    ((r.walk bindings sections).2.2 = none ∧
      Walked bindings r sections (r.walk bindings sections).1) ∨
    ∃ passed s rest fault next, sections = passed ++ s :: rest ∧
      RefusedAt bindings r passed s fault ∧ Walked bindings r passed next ∧
      (r.walk bindings sections).1 = next.note s.name ∧
      (r.walk bindings sections).2.2 = some fault := by
  induction sections generalizing r with
  | nil => exact .inl ⟨rfl, .refl indexed⟩
  | cons s rest ih =>
      have here : Walked bindings r [] r := .refl indexed
      rcases here.visit_cases s with
        ⟨next, visited, first, -⟩ | ⟨simulcast, fault, left, refused, visited⟩
      · rw [walk_cons visited rest]
        rcases ih first.indexed with
          ⟨sound, onward⟩ | ⟨passed, t, after, fault, last, rfl, stopped, onward, noted, fails⟩
        · exact .inl ⟨sound, first.cons onward⟩
        · refine .inr ⟨s :: passed, t, after, fault, last, rfl, ?_, first.cons onward, noted, fails⟩
          have prior := walk_cons visited passed
          exact ⟨by rw [prior, stopped.passes], stopped.simulcast, by rw [prior, stopped.refused]⟩
      · exact .inr ⟨[], s, rest, fault, r, rfl, ⟨rfl, simulcast, refused⟩, .refl indexed,
          by simp only [walk, visited], by simp only [walk, visited]⟩

/-- What refuses a section is never a clash of names, which is looked for after the walk. -/
theorem refusal?_ne_duplicateName (rid : String) :
    r.refusal? bindings s ≠ some (.duplicateName rid) := by
  have lacks : s.lack? bindings ≠ some (.duplicateName rid) := by
    unfold Section.lack?
    split_ifs <;> simp
  rw [refusal?]
  cases lack : s.lack? bindings with
  | none => split_ifs <;> simp
  | some fault => simpa [lack] using lacks

theorem survey_order_of_passed (indexed : r.Indexed)
    (passed : (r.survey d).fault = none ∨ ∃ rid, (r.survey d).fault = some (.duplicateName rid)) :
    (r.survey d).registry.order = r.order ++ d.names := by
  rcases walk_cases indexed d.bindings d.sections with
    ⟨-, walked⟩ | ⟨_, s, _, fault, _, -, stopped, -, -, fails⟩
  · exact walked.order
  · have stops : (r.survey d).fault = some fault := by simp [survey, fails]
    rw [stops] at passed
    rcases passed with sound | ⟨rid, clash⟩
    · cases sound
    · exact absurd (stopped.refused.trans clash) (refusal?_ne_duplicateName rid)

theorem survey_order_of_refused (indexed : r.Indexed) (stops : (r.survey d).fault = some fault)
    (noClash : ∀ rid, fault ≠ .duplicateName rid) :
    ∃ passed s rest, d.sections = passed ++ s :: rest ∧ RefusedAt d.bindings r passed s fault ∧
      (r.survey d).registry.order = r.order ++ (passed ++ [s]).map (·.name) := by
  rcases walk_cases indexed d.bindings d.sections with
    ⟨sound, -⟩ | ⟨passed, s, rest, first, next, split, stopped, walked, noted, fails⟩
  · have clashes :
        (r.walk d.bindings d.sections).1.clash?.map Fault.duplicateName = some fault := by
      simpa [survey, sound] using stops
    obtain ⟨rid, -, clash⟩ := Option.map_eq_some_iff.mp clashes
    exact absurd clash.symm (noClash rid)
  · obtain rfl : first = fault := by simpa [survey, fails] using stops
    refine ⟨passed, s, rest, split, stopped, ?_⟩
    have order : (r.survey d).registry.order = (next.note s.name).order :=
      congrArg (·.order) noted
    rw [order, note, walked.order, List.map_append, List.append_assoc]
    rfl

theorem walk_of_survey (sound : (r.survey d).fault = none) :
    (r.walk d.bindings d.sections).2.2 = none ∧ (r.survey d).registry.clash? = none := by
  simpa [survey] using sound

theorem walked_of_survey (indexed : r.Indexed) (sound : (r.survey d).fault = none) :
    Walked d.bindings r d.sections (r.survey d).registry := by
  rcases walk_cases indexed d.bindings d.sections with
    ⟨-, walked⟩ | ⟨_, _, _, _, _, -, -, -, -, fails⟩
  · exact walked
  · rw [(walk_of_survey sound).1] at fails
    cases fails

theorem rid_not_mem_order_of_clash? (sound : r.clash? = none) :
    ∀ e ∈ r.entries, ∀ rid ∈ e.rids, rid ∈ r.order → rid = e.name := by
  intro e member rid own noted
  have free := List.find?_eq_none.mp (List.findSome?_eq_none_iff.mp sound e member) rid own
  simpa [noted] using free

theorem survey_entries_prefix (indexed : r.Indexed) (d : Document) :
    r.entries <+: (r.survey d).registry.entries := by
  rcases walk_cases indexed d.bindings d.sections with
    ⟨-, walked⟩ | ⟨_, s, _, _, next, -, -, walked, noted, -⟩
  · exact ⟨_, walked.entries.symm⟩
  · have entries : (r.survey d).registry.entries = next.entries := congrArg (·.entries) noted
    exact ⟨_, (entries.trans walked.entries).symm⟩

theorem survey_indexed (indexed : r.Indexed) (d : Document) : (r.survey d).registry.Indexed := by
  rcases walk_cases indexed d.bindings d.sections with
    ⟨-, walked⟩ | ⟨_, s, _, _, next, -, -, walked, noted, -⟩
  · exact walked.indexed
  · have whole : (r.survey d).registry = next.note s.name := noted
    rw [whole]
    exact note_indexed walked.indexed s.name

theorem enroll_entries_prefix (indexed : r.Indexed) (e : Entry) :
    r.entries <+: (r.perform (enroll e)).2.entries := by
  rw [perform_enroll indexed]
  cases r.conflict? e with
  | some fault => exact List.prefix_rfl
  | none => exact List.prefix_append _ _

theorem enroll_failed (indexed : r.Indexed) (failed : (r.perform (enroll e)).1 = .error fault) :
    (r.perform (enroll e)).2 = r := by
  rw [perform_enroll indexed] at failed ⊢
  cases conflict : r.conflict? e with
  | some first => rfl
  | none =>
      rw [conflict] at failed
      cases failed

theorem enroll_succeeded (indexed : r.Indexed) (succeeded : (r.perform (enroll e)).1 = .ok ()) :
    (r.perform (enroll e)).2.entries = r.entries ++ [e] := by
  rw [perform_enroll indexed] at succeeded ⊢
  cases conflict : r.conflict? e with
  | some fault =>
      rw [conflict] at succeeded
      cases succeeded
  | none => rfl

/-! ## Any calls -/

theorem fill_indexed (indexed : r.Indexed) (call : Filling) : (r.fill call).Indexed := by
  cases call with
  | survey d => exact survey_indexed indexed d
  | enroll e => exact perform_enroll_indexed indexed e

theorem fill_entries_prefix (indexed : r.Indexed) (call : Filling) :
    r.entries <+: (r.fill call).entries := by
  cases call with
  | survey d => exact survey_entries_prefix indexed d
  | enroll e => exact enroll_entries_prefix indexed e

theorem foldl_fill_indexed (indexed : r.Indexed) (calls : List Filling) :
    (calls.foldl fill r).Indexed := by
  induction calls generalizing r with
  | nil => exact indexed
  | cons call rest ih => exact ih (fill_indexed indexed call)

theorem filled_indexed (calls : List Filling) : (filled calls).Indexed :=
  foldl_fill_indexed empty_indexed calls

theorem IndexedBy.lt_length {keys : Entry → List String} {index : List (String × Nat)}
    {entries : List Entry} (indexed : IndexedBy keys index entries) {key : String} {i : Nat}
    (found : index.lookup key = some i) : i < entries.length := by
  obtain ⟨e, here, -⟩ := (indexed key i).mp found
  exact (List.getElem?_eq_some_iff.mp here).1

/-- A registry however it was filled, and what one more call makes of it. No name and no rid is
registered twice, both lookups find what is registered and nothing else, and no index holds a
position beyond the entries. A further call keeps all entries; an entry that is refused changes
nothing; a survey notes every section it visits, and one that succeeds leaves no rid that is the
name of another section. -/
theorem filled_coherent (calls : List Filling) :
    (filled calls).names.Nodup ∧ (filled calls).rids.Nodup ∧
    (∀ name e, (filled calls).byName? name = some e ↔
      e ∈ (filled calls).entries ∧ e.name = name) ∧
    (∀ rid e, (filled calls).byRid? rid = some e ↔
      e ∈ (filled calls).entries ∧ rid ∈ e.rids) ∧
    (∀ key i, (filled calls).nameIndex.lookup key = some i ∨
      (filled calls).ridIndex.lookup key = some i → i < (filled calls).entries.length) ∧
    (∀ call, (filled calls).entries <+: ((filled calls).fill call).entries) ∧
    (∀ e, ((filled calls).perform (enroll e)).1 = .ok () →
      ((filled calls).perform (enroll e)).2.entries = (filled calls).entries ++ [e]) ∧
    (∀ e fault, ((filled calls).perform (enroll e)).1 = .error fault →
      ((filled calls).perform (enroll e)).2 = filled calls) ∧
    (∀ d, (((filled calls).survey d).fault = none ∨
        ∃ rid, ((filled calls).survey d).fault = some (.duplicateName rid)) →
      ((filled calls).survey d).registry.order = (filled calls).order ++ d.names) ∧
    (∀ d fault, ((filled calls).survey d).fault = some fault →
      (∀ rid, fault ≠ .duplicateName rid) →
      ∃ passed s rest, d.sections = passed ++ s :: rest ∧
        RefusedAt d.bindings (filled calls) passed s fault ∧
        ((filled calls).survey d).registry.order =
          (filled calls).order ++ (passed ++ [s]).map (·.name)) ∧
    (∀ d, ((filled calls).survey d).fault = none →
      ∀ e ∈ ((filled calls).survey d).registry.entries, ∀ rid ∈ e.rids,
        rid ∈ ((filled calls).survey d).registry.order → rid = e.name) := by
  have indexed := filled_indexed calls
  refine ⟨indexed.names_nodup, indexed.rids_nodup, fun _ _ => byName?_eq_some_iff indexed,
    fun _ _ => byRid?_eq_some_iff indexed, ?_, fill_entries_prefix indexed,
    fun _ => enroll_succeeded indexed, fun _ _ => enroll_failed indexed,
    fun _ => survey_order_of_passed indexed, fun _ _ => survey_order_of_refused indexed, ?_⟩
  · intro key i found
    rcases found with name | rid
    · exact indexed.byName.lt_length name
    · exact indexed.byRid.lt_length rid
  · intro d sound
    exact rid_not_mem_order_of_clash? (walk_of_survey sound).2

end Fanout.Registry
