import Fanout.Proofs.Reordering

/-! # Arranging by counting

Sections may be asked for in an order that repeats names, and they may share names themselves. Then
names are told by how often they come: picking stops at the first name that is asked for more often
than it is given (`Names.FirstExcess`), and what it takes keeps the order within each name. So an
arrangement is the one document that lists the names in the order asked for and is alike to what
there was (`arrange_eq_ok_iff`).
-/

namespace Fanout

namespace Names

variable {given asked : List String} {name first : String}

/-- After the names before it, a name is asked for more often than it is given. -/
def Exceeds (given before : List String) (name : String) : Prop :=
  given.count name < (before ++ [name]).count name

def FirstExcess (given asked : List String) (name : String) : Prop :=
  ∃ before after, asked = before ++ name :: after ∧ Exceeds given before name ∧
    ∀ earlier x later, before = earlier ++ x :: later → ¬ Exceeds given earlier x

theorem exceeds_nil_iff : Exceeds given [] name ↔ name ∉ given := by
  simp [Exceeds, ← List.count_eq_zero]

theorem exceeds_cons_iff {before : List String} (served : first ∈ given) :
    Exceeds given (first :: before) name ↔ Exceeds (given.erase first) before name := by
  have some : 0 < given.count first := List.count_pos_iff.mpr served
  rw [Exceeds, Exceeds, List.cons_append, List.count_cons, List.count_erase]
  by_cases same : first = name
  · subst same
    simp only [beq_self_eq_true, if_true]
    omega
  · simp [same]

theorem FirstExcess.count_lt (excess : FirstExcess given asked name) :
    given.count name < asked.count name := by
  obtain ⟨before, after, rfl, exceeds, -⟩ := excess
  rw [List.append_cons, List.count_append]
  exact Nat.lt_add_right _ exceeds

theorem not_firstExcess_of_perm (perm : given.Perm asked) : ¬ FirstExcess given asked name :=
  fun excess => Nat.ne_of_lt excess.count_lt (perm.count_eq name)

theorem not_firstExcess_nil : ¬ FirstExcess given [] name := by
  rintro ⟨before, after, split, -⟩
  simp at split

theorem firstExcess_cons_of_not_mem {rest : List String} (unserved : first ∉ given) :
    FirstExcess given (first :: rest) name ↔ first = name := by
  constructor
  · rintro ⟨before, after, split, -, sound⟩
    cases before with
    | nil => exact (List.cons.inj split).1
    | cons x before =>
        obtain ⟨rfl, -⟩ := List.cons.inj split
        exact absurd (exceeds_nil_iff.mpr unserved) (sound [] first before rfl)
  · rintro rfl
    exact ⟨[], rest, rfl, exceeds_nil_iff.mpr unserved, by simp⟩

theorem firstExcess_cons_of_mem {rest : List String} (served : first ∈ given) :
    FirstExcess given (first :: rest) name ↔ FirstExcess (given.erase first) rest name := by
  constructor
  · rintro ⟨before, after, split, exceeds, sound⟩
    cases before with
    | nil =>
        obtain ⟨rfl, -⟩ := List.cons.inj split
        exact absurd served (exceeds_nil_iff.mp exceeds)
    | cons x before =>
        obtain ⟨rfl, rfl⟩ := List.cons.inj split
        refine ⟨before, after, rfl, (exceeds_cons_iff served).mp exceeds, ?_⟩
        rintro earlier y later rfl
        intro early
        exact sound (first :: earlier) y later rfl ((exceeds_cons_iff served).mpr early)
  · rintro ⟨before, after, rfl, exceeds, sound⟩
    refine ⟨first :: before, after, rfl, (exceeds_cons_iff served).mpr exceeds, ?_⟩
    intro earlier y later split
    cases earlier with
    | nil =>
        obtain ⟨rfl, -⟩ := List.cons.inj split
        exact fun early => exceeds_nil_iff.mp early served
    | cons x earlier =>
        obtain ⟨rfl, rfl⟩ := List.cons.inj split
        exact fun early => sound earlier y later rfl ((exceeds_cons_iff served).mp early)

end Names

namespace Section

variable {sections taken left : List Section} {order : List String}

theorem pick_eq_error_iff {fault : Fault} :
    pick sections order = .error fault ↔
      ∃ name, Names.FirstExcess (sections.map (·.name)) order name ∧
        fault = .sectionNotFound name := by
  induction order generalizing sections with
  | nil => simp [pick, Names.not_firstExcess_nil]
  | cons first rest ih =>
      cases found : sections.find? (·.name = first) with
      | none =>
          have missing := find?_eq_none_iff.mp found
          have stops : pick sections (first :: rest) = .error (.sectionNotFound first) := by
            simp only [pick, found]
          simp only [stops, Names.firstExcess_cons_of_not_mem missing, exists_eq_left',
            Except.error.injEq, eq_comm]
      | some s =>
          have present : first ∈ sections.map (·.name) := by
            by_contra missing
            rw [find?_eq_none_iff.mpr missing] at found
            cases found
          simp only [pick, found, Names.firstExcess_cons_of_mem present, ← eraseP_names, ← ih]
          cases pick (sections.eraseP (·.name = first)) rest <;> simp [bind, Except.bind]

theorem alike_of_find? {s : Section} {name : String}
    (found : sections.find? (·.name = name) = some s) :
    Alike (s :: sections.eraseP (·.name = name)) sections := by
  have named : s.name = name := by simpa using List.find?_some found
  intro other
  rw [List.filter_cons, filter_eraseP]
  by_cases same : other = name
  · rw [← List.head?_filter] at found
    simp only [named, same, decide_true, if_true]
    exact List.cons_head?_tail found
  · simp [named, same, Ne.symm same]

theorem pick_alike (picked : pick sections order = .ok (taken, left)) :
    Alike (taken ++ left) sections := by
  induction order generalizing sections taken left with
  | nil =>
      cases picked
      exact fun _ => rfl
  | cons first rest ih =>
      simp only [pick] at picked
      split at picked
      · cases picked
      · rename_i s found
        obtain ⟨⟨others, remaining⟩, inner, outer⟩ := bind_eq_ok.mp picked
        cases outer
        intro name
        rw [← alike_of_find? found name, List.cons_append, List.filter_cons, List.filter_cons,
          ih inner name]

theorem pick_self (sections : List Section) :
    pick sections (sections.map (·.name)) = .ok (sections, []) := by
  induction sections with
  | nil => rfl
  | cons s rest ih => simp [pick, ih, bind, Except.bind]

end Section

namespace Document

variable {d arranged : Document} {order : List String}

theorem arrange_self (d : Document) : d.arrange d.names = .ok d := by
  have picked := Section.pick_self d.sections
  simp only [arrange, names, picked]
  rfl

theorem arrange_eq_ok_iff :
    d.arrange order = .ok arranged ↔ arranged.names = order ∧ arranged.Alike d := by
  constructor
  · intro done
    obtain ⟨⟨taken, left⟩, picked, rest⟩ := bind_eq_ok.mp done
    obtain ⟨named, -⟩ := Section.pick_eq_ok picked
    have alike := Section.pick_alike picked
    simp only at rest
    split at rest
    · rename_i none
      cases rest
      cases List.isEmpty_iff.mp none
      exact ⟨named, ⟨by simpa using alike, rfl, rfl⟩⟩
    · cases rest
  · rintro ⟨rfl, alike⟩
    have same := alike.arrange arranged.names
    rw [arrange_self] at same
    generalize outcome : d.arrange arranged.names = x at same
    cases same with
    | ok related => rw [related]

theorem arrange_eq_sectionNotFound_iff {name : String} :
    d.arrange order = .error (.sectionNotFound name) ↔ Names.FirstExcess d.names order name := by
  have fails := @Section.pick_eq_error_iff d.sections order (.sectionNotFound name)
  simp only [Fault.sectionNotFound.injEq, exists_eq_right'] at fails
  rw [names, ← fails, arrange]
  cases Section.pick d.sections order with
  | error fault => simp [bind, Except.bind]
  | ok outcome =>
      simp only [bind, Except.bind, reduceCtorEq, iff_false]
      split <;> simp

theorem arrange_of_served (served : ∀ name, ¬ Names.FirstExcess d.names order name) :
    if d.names.Perm order then ∃ arranged, d.arrange order = .ok arranged
    else d.arrange order = .error (.orderMismatch order d.names) := by
  cases picked : Section.pick d.sections order with
  | error fault =>
      obtain ⟨name, excess, -⟩ := Section.pick_eq_error_iff.mp picked
      exact absurd excess (served name)
  | ok outcome =>
      have used : d.names.Perm order ↔ outcome.2.isEmpty := Section.perm_iff_left_isEmpty picked
      simp only [arrange, picked, bind, Except.bind, used]
      split
      · exact ⟨_, rfl⟩
      · rfl

/-- All that arranging does, whether or not names repeat. It succeeds exactly for the names that are
there, each as often as it is there. Then it makes the one document that has the names in the order
asked for and is otherwise as before, and which it does not change any more. Otherwise it reports
the first name in excess, or all names if only sections are left over. -/
theorem arrange_iff (d : Document) (order : List String) :
    ((∃ arranged, d.arrange order = .ok arranged) ↔ d.names.Perm order) ∧
    (∀ arranged, d.arrange order = .ok arranged ↔
      arranged.names = order ∧ arranged.sections.Perm d.sections ∧
        (∀ name, arranged.sections.filter (·.name = name) = d.sections.filter (·.name = name)) ∧
        arranged.groups = d.groups ∧ arranged.bindings = d.bindings) ∧
    (∀ arranged, d.arrange order = .ok arranged → arranged.arrange order = .ok arranged) ∧
    (∀ name, d.arrange order = .error (.sectionNotFound name) ↔
      Names.FirstExcess d.names order name) ∧
    (d.arrange order = .error (.orderMismatch order d.names) ↔
      ¬ d.names.Perm order ∧ ∀ name, ¬ Names.FirstExcess d.names order name) := by
  refine ⟨⟨?_, ?_⟩, ?_, ?_, fun _ => arrange_eq_sectionNotFound_iff, ⟨?_, ?_⟩⟩
  · rintro ⟨arranged, done⟩
    obtain ⟨rfl, alike⟩ := arrange_eq_ok_iff.mp done
    exact (alike.sections.perm.map _).symm
  · intro perm
    simpa only [perm, if_true] using
      arrange_of_served fun _ => Names.not_firstExcess_of_perm perm
  · intro arranged
    rw [arrange_eq_ok_iff]
    constructor
    · rintro ⟨named, alike⟩
      exact ⟨named, alike.sections.perm, alike.sections, alike.groups, alike.bindings⟩
    · rintro ⟨named, -, sections, groups, bindings⟩
      exact ⟨named, sections, groups, bindings⟩
  · intro arranged done
    obtain ⟨rfl, -⟩ := arrange_eq_ok_iff.mp done
    exact arrange_self arranged
  · intro mismatch
    constructor
    · intro perm
      have done := arrange_of_served fun _ => Names.not_firstExcess_of_perm perm
      simp [perm, mismatch] at done
    · intro name excess
      rw [arrange_eq_sectionNotFound_iff.mpr excess] at mismatch
      cases mismatch
  · rintro ⟨other, served⟩
    simpa only [other, if_false] using arrange_of_served served

end Document

end Fanout
